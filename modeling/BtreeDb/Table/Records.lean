import BtreeDb.Table.Descent

/-!
# The records of a table

A table is a list of keys with their payloads in key order.  `TableStore` says
that a disk has such a table as a tree: the entries of the tree give the
payloads, and the overflow pages of the entries are apart from each other,
from the tree's pages and from the free ones.
-/

namespace BtreeDb

open PagedTree

structure TableRecord where
  key : Nat
  payload : List UInt8
  deriving DecidableEq, Repr

/-- Entries, the records they stand for, and their overflow pages. -/
inductive RecordsOf (disk : Disk) :
    List Entry → List TableRecord → List Nat → Prop
  | nil : RecordsOf disk [] [] []
  | cons {entry : Entry} {payload : List UInt8} {chain chains : List Nat}
      {entries : List Entry} {records : List TableRecord}
      (resolves : Resolves disk entry payload chain)
      (rest : RecordsOf disk entries records chains) :
      RecordsOf disk (entry :: entries) (⟨entry.key, payload⟩ :: records)
        (chain ++ chains)

section RecordsOf

variable {disk after : Disk} {entries others : List Entry}
variable {records : List TableRecord} {chains : List Nat}

theorem RecordsOf.append {more : List TableRecord} {further : List Nat}
    (first : RecordsOf disk entries records chains)
    (second : RecordsOf disk others more further) :
    RecordsOf disk (entries ++ others) (records ++ more)
      (chains ++ further) := by
  induction first with
  | nil => exact second
  | cons resolves _ inductionHypothesis =>
      rw [List.append_assoc]
      exact .cons resolves inductionHypothesis

/-- The records of a concatenation. -/
theorem RecordsOf.split : ∀ {entries : List Entry}
    {records : List TableRecord} {chains : List Nat},
    RecordsOf disk (entries ++ others) records chains →
    ∃ front back frontChains backChains, records = front ++ back ∧
      chains = frontChains ++ backChains ∧
      RecordsOf disk entries front frontChains ∧
      RecordsOf disk others back backChains
  | [], records, chains, whole =>
      ⟨[], records, [], chains, rfl, rfl, .nil, whole⟩
  | entry :: entries, _, _, .cons resolves rest => by
      obtain ⟨front, back, frontChains, backChains, recordsEq, chainsEq,
        frontHolds, backHolds⟩ := RecordsOf.split rest
      refine ⟨_ :: front, back, _ ++ frontChains, backChains, ?_, ?_,
        .cons resolves frontHolds, backHolds⟩
      · rw [recordsEq]
        rfl
      · rw [chainsEq, List.append_assoc]

theorem RecordsOf.congr (holds : RecordsOf disk entries records chains)
    (samePageSize : after.pageSize = disk.pageSize)
    (same : ∀ own ∈ chains, after.buffer? own = disk.buffer? own) :
    RecordsOf after entries records chains := by
  induction holds with
  | nil => exact .nil
  | cons resolves _ inductionHypothesis =>
      refine .cons (resolves.congr samePageSize fun own member =>
        same own (List.mem_append_left _ member)) ?_
      exact inductionHypothesis fun own member =>
        same own (List.mem_append_right _ member)

theorem RecordsOf.keys_eq (holds : RecordsOf disk entries records chains) :
    records.map TableRecord.key = entries.map Entry.key := by
  induction holds with
  | nil => rfl
  | cons _ _ inductionHypothesis =>
      rw [List.map_cons, List.map_cons, inductionHypothesis]

theorem RecordsOf.length_eq (holds : RecordsOf disk entries records chains) :
    records.length = entries.length := by
  have lengths := congrArg List.length holds.keys_eq
  rwa [List.length_map, List.length_map] at lengths

theorem RecordsOf.present (holds : RecordsOf disk entries records chains) :
    ∀ own ∈ chains, (disk.buffer? own).isSome := by
  induction holds with
  | nil => simp
  | cons resolves _ inductionHypothesis =>
      intro own member
      rcases List.mem_append.mp member with inChain | inRest
      · exact resolves.present own inChain
      · exact inductionHypothesis own inRest

/-- The records around one entry. -/
theorem RecordsOf.around {index : Nat} {entry : Entry}
    (holds : RecordsOf disk entries records chains)
    (here : entries[index]? = some entry) :
    ∃ payload chain frontChains backChains,
      records[index]? = some ⟨entry.key, payload⟩ ∧
      Resolves disk entry payload chain ∧
      chains = frontChains ++ (chain ++ backChains) ∧
      RecordsOf disk (entries.take index) (records.take index) frontChains ∧
      RecordsOf disk (entries.drop (index + 1)) (records.drop (index + 1))
        backChains := by
  have bound := (List.getElem?_eq_some_iff.mp here).1
  have cut := List.take_append_drop index entries
  have dropEq := List.drop_eq_getElem_cons bound
  rw [(List.getElem?_eq_some_iff.mp here).2] at dropEq
  have whole := holds
  rw [← cut, dropEq] at whole
  obtain ⟨front, back, frontChains, backChains, recordsEq, chainsEq,
    frontHolds, backHolds⟩ := whole.split
  have frontLength := frontHolds.length_eq
  rw [List.length_take, Nat.min_eq_left (Nat.le_of_lt bound)] at frontLength
  subst recordsEq chainsEq
  generalize restEq : entries.drop (index + 1) = rest at backHolds ⊢
  cases backHolds with
  | @cons _ payload chain chains _ records resolves restHolds =>
      refine ⟨payload, chain, frontChains, chains, ?_, resolves, rfl, ?_, ?_⟩
      · rw [List.getElem?_append_right (by omega), frontLength, Nat.sub_self]
        rfl
      · rw [← frontLength, List.take_left, frontLength]
        exact frontHolds
      · rw [← frontLength, ← List.drop_drop, List.drop_left]
        exact restHolds

/-- Another entry in the place of one. -/
theorem RecordsOf.put {index : Nat} {entry : Entry} {payload : List UInt8}
    {chain frontChains backChains : List Nat}
    (lengths : records.length = entries.length) (bound : index < entries.length)
    (front : RecordsOf disk (entries.take index) (records.take index)
      frontChains)
    (resolves : Resolves disk entry payload chain)
    (back : RecordsOf disk (entries.drop (index + 1))
      (records.drop (index + 1)) backChains) :
    RecordsOf disk (entries.set index entry)
      (records.set index ⟨entry.key, payload⟩)
      (frontChains ++ (chain ++ backChains)) := by
  rw [List.set_eq_take_append_cons_drop, if_pos bound,
    List.set_eq_take_append_cons_drop, if_pos (by rw [lengths]; exact bound)]
  exact front.append (.cons resolves back)

end RecordsOf

/-- A table on a disk: its tree, the overflow pages of its entries, and its
records. -/
structure TableStore (disk : Disk) (free : List Nat) (root height : Nat)
    (pages : List Nat) (flat : List Mark) (chains : List Nat)
    (records : List TableRecord) : Prop where
  valid : TableTree disk free root height pages flat
  holds : RecordsOf disk (entriesOf flat) records chains
  apart : (pages ++ (chains ++ free)).Nodup
  notFirst : 1 ∉ chains

/-! ## One leaf -/

/-- A leaf of a tree and what is around it. -/
structure LeafAt (disk : Disk) (root height : Nat) (pages : List Nat)
    (flat : List Mark) (leaf : BTreeNode) (outside : List Nat)
    (before behind : List Mark) : Prop where
  holds : Holds disk leaf
  isLeaf : leaf.isLeaf = true
  small : ∀ entry ∈ leaf.entries,
    entry.heapSize ≤ btreeNodeMaxCellSize leaf
  path : ∃ steps, Path (TableHolds disk) height root 0 leaf.pageNumber steps
    outside before behind
  flatEq : flat = before ++ (leaf.entries.map Mark.record ++ behind)
  pagesEq : (outside ++ [leaf.pageNumber]).Perm pages

theorem Landing.leafAt {disk : Disk} {root height key : Nat}
    {pages : List Nat} {flat : List Mark} {leaf : BTreeNode}
    {steps : List Step} {outside : List Nat} {before behind : List Mark}
    (landing : Landing disk root height key pages flat leaf steps outside
      before behind) :
    LeafAt disk root height pages flat leaf outside before behind :=
  ⟨landing.holds, landing.isLeaf, landing.small, ⟨steps, landing.path⟩,
    landing.flatEq, landing.pagesEq⟩

section LeafAt

variable {disk after : Disk} {free left : List Nat} {root height : Nat}
variable {pages outside : List Nat} {flat before behind : List Mark}
variable {leaf stored : BTreeNode}

theorem LeafAt.entriesOf_eq
    (leafAt : LeafAt disk root height pages flat leaf outside before behind) :
    entriesOf flat = entriesOf before ++ (leaf.entries ++ entriesOf behind) := by
  rw [leafAt.flatEq, entriesOf_append, entriesOf_append, entriesOf_records]

/-- A tree with another node in the place of a leaf. -/
theorem LeafAt.replace
    (leafAt : LeafAt disk root height pages flat leaf outside before behind)
    (valid : TableTree disk free root height pages flat)
    (store : Store after left) (samePageSize : after.pageSize = disk.pageSize)
    (kept : ∀ page ∈ outside, after.buffer? page = disk.buffer? page)
    (holds : Holds after stored) (number : stored.pageNumber = leaf.pageNumber)
    (isLeaf : stored.isLeaf = true)
    (small : ∀ entry ∈ stored.entries,
      entry.heapSize ≤ btreeNodeMaxCellSize stored)
    (ordered : (before ++ (stored.entries.map Mark.record ++ behind)).Pairwise
      Before)
    (apart : (pages ++ left).Nodup) :
    TableTree after left root height pages
      (before ++ (stored.entries.map Mark.record ++ behind)) := by
  obtain ⟨steps, path⟩ := leafAt.path
  have pathAfter := path.mono fun own member _ here =>
    here.congr (kept own member)
  have tree := pathAfter.plug
    (show TreeAt (TableHolds after) 0 leaf.pageNumber [leaf.pageNumber] _ from
      ⟨.leaf holds number isLeaf small, rfl⟩)
  exact ⟨valid.roomy.congr samePageSize, store,
    tree.perm leafAt.pagesEq.symm, ordered, apart, valid.rooted⟩

end LeafAt

/-- A disk has a table with the given records. -/
def HasTable (disk : Disk) (root : Nat) (records : List TableRecord) : Prop :=
  ∃ free height pages flat chains,
    TableStore disk free root height pages flat chains records

end BtreeDb
