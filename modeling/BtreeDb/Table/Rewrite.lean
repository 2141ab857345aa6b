import BtreeDb.Table.Ops
import BtreeDb.Table.Places
import Mathlib.Data.List.InsertIdx

/-!
# Rewriting a record in its place

Both kinds of operation rewrite a record by deleting it, reading the key at
its index, and writing a record with that key.  After the deletion the index
has the key of the next record, or what the bytes behind the key array say.
-/

namespace BtreeDb

open Bytes PagedTree

/-! ## Finding the record -/

section Find

variable {tree : BTree} {disk : Disk} {free pages : List Nat}
variable {height index : Nat} {flat : List Mark} {leaf : BTreeNode}
variable {entry : Entry}

theorem KeysIncrease.index_unique {entries : List Entry} {left right : Nat}
    {first second : Entry} (increase : KeysIncrease entries)
    (leftHere : entries[left]? = some first)
    (rightHere : entries[right]? = some second)
    (same : first.key = second.key) : left = right := by
  obtain ⟨leftBound, leftEq⟩ := List.getElem?_eq_some_iff.mp leftHere
  obtain ⟨rightBound, rightEq⟩ := List.getElem?_eq_some_iff.mp rightHere
  have ordered := List.pairwise_iff_getElem.mp increase
  rcases Nat.lt_trichotomy left right with below | exactly | above
  · have less := ordered left right leftBound rightBound below
    rw [leftEq, rightEq] at less
    omega
  · exact exactly
  · have less := ordered right left rightBound leftBound above
    rw [leftEq, rightEq] at less
    omega

theorem TableTree.marks_nodup {root : Nat}
    (valid : TableTree disk free root height pages flat) : flat.Nodup := by
  refine valid.ordered.imp ?_
  intro left right before same
  rw [same] at before
  exact Nat.lt_irrefl _ before

/-- The search for the key of a record goes to its place. -/
theorem RecordPlace.lookup (isTable : tree.type = .table)
    (valid : TableTree disk free tree.rootPageId height pages flat)
    (shallow : height + 1 < maxBreadcrumbs)
    (place : RecordPlace disk pages leaf index entry) :
    ∃ cursor, cursorTraverseTo tree (cursorCreate tree) entry.key disk =
        (.ok (true, cursor), disk) ∧
      cursor.currentPageId = leaf.pageNumber ∧
      cursor.currentKeyIndex = ⟨.limIndex, index⟩ := by
  obtain ⟨outside, before, behind, leafAt⟩ :=
    valid.leafAt place.holds place.isLeaf place.page_mem
  obtain ⟨steps, path⟩ := leafAt.path
  have inLeaf := List.mem_of_getElem? place.here
  have member : entry ∈ entriesOf flat := by
    rw [leafAt.entriesOf_eq]
    exact List.mem_append_right _ (List.mem_append_left _ inLeaf)
  obtain ⟨hit, other, crumbs, _, _, _, traverseEq, landing, hitIff⟩ :=
    cursorTraverseTo_landing isTable valid shallow entry.key
  have otherHere := landing.record_here valid member rfl
  have distinct := valid.marks_nodup
  rw [leafAt.flatEq] at distinct
  have samePage : other.pageNumber = leaf.pageNumber :=
    path.leaf_unique (TableHolds.functional disk) distinct
      (List.mem_map_of_mem inLeaf)
      (leafAt.pagesEq.mem_iff.mpr (landing.pagesEq.mem_iff.mp
        (List.mem_append_right _ (List.mem_singleton_self _))))
      (.leaf landing.holds rfl landing.isLeaf landing.small)
      (List.mem_map_of_mem (List.mem_of_getElem? otherHere))
  have sameEntries := place.holds.entries_unique landing.holds samePage
  have ordered := valid.ordered
  rw [leafAt.flatEq] at ordered
  have increase := keysIncrease_of_before (List.pairwise_append.mp
    (List.pairwise_append.mp ordered).2.1).1
  rw [sameEntries] at otherHere
  have indexEq := increase.index_unique otherHere place.here rfl
  have inside := (List.getElem?_eq_some_iff.mp place.here).1
  have atIndex : landingIndex other entry.key = ⟨.limIndex, index⟩ := by
    have bound : index < other.numKeys := by
      rw [← sameEntries, entries_length] at inside
      exact inside
    unfold landingIndex
    rw [sameEntries, indexEq]
    have number := initKeylistindexFromIndex_index (Nat.le_of_lt bound)
    have mode := initKeylistindexFromIndex_mode_iff.mpr bound
    generalize initKeylistindexFromIndex other index = found at number mode
    obtain ⟨foundMode, foundIndex⟩ := found
    simp only at number mode
    rw [number, mode]
  have isHit : hit = true := hitIff.mpr ⟨_, mem_entriesOf.mp member, rfl⟩
  rw [isHit] at traverseEq
  exact ⟨_, traverseEq, samePage, atIndex⟩

end Find

/-! ## Rewriting -/

/-- A payload can be stored in a leaf once an entry of it is removed. -/
structure FitsAfterRemoval (disk : Disk) (leaf : BTreeNode) (entry : Entry)
    (payload : List UInt8) : Prop where
  takes : Takes (btreeNodeMaxCellSize leaf) (leaf.freeHeap + entry.heapSize)
    payload.length
  sized : payload.length < 2 ^ 32
  room : disk.maxPage + recordPages (btreeNodeMaxCellSize leaf)
    (leaf.freeHeap + entry.heapSize) disk.pageSize payload.length < pageIdLimit

/-- What rewriting a record does. -/
structure Rewritten (disk : Disk) (used : List Nat) (leaf : BTreeNode)
    (index : Nat) (payload : List UInt8) (after : Disk) (left : List Nat)
    (stored : BTreeNode) (entry : Entry) (new : List Nat) : Prop where
  holds : Holds after stored
  reentered : Reentered leaf (leaf.entries.set index entry) stored
  key_eq : entry.key = rereadKey leaf index
  small : entry.heapSize ≤ btreeNodeMaxCellSize leaf
  maxCellSize_eq : btreeNodeMaxCellSize stored = btreeNodeMaxCellSize leaf
  resolves : Resolves after entry payload new
  notFirst : 1 ∉ new
  store : Store after left
  pageSize : after.pageSize = disk.pageSize
  kept : ∀ page ∈ used, page ≠ leaf.pageNumber →
    after.buffer? page = disk.buffer? page
  apart : (used ++ new ++ left).Nodup

section Rewrite

variable {tree : BTree} {disk : Disk} {free : List Nat} {leaf : BTreeNode}
variable {index : Nat} {entry : Entry} {old payload : List UInt8}
variable {chain used : List Nat}

theorem rereadKey_lt (holds : Holds disk leaf) (index : Nat) :
    rereadKey leaf index < 2 ^ 32 := by
  unfold rereadKey
  split
  · rename_i more
    unfold BTreeNode.keyAt
    rw [List.getElem?_eq_getElem more]
    exact holds.encodable.key_lt _ (List.getElem_mem more)
  · exact u32At_lt _ _

/-- Rewriting a record takes it out and puts one with the key that is read at
its index there. -/
theorem rewriteRecord_run (roomy : Roomy disk)
    (store : Store disk free) (holds : Holds disk leaf)
    (metaFresh : MetaFresh free leaf)
    (here : leaf.entries[index]? = some entry)
    (resolves : Resolves disk entry old chain)
    (apart : (used ++ (chain ++ free)).Nodup) (inUse : leaf.pageNumber ∈ used)
    (present : ∀ page ∈ used, page ≤ disk.maxPage) (notFirst : 1 ∉ chain)
    (safe : GcSafe leaf index)
    (fits : FitsAfterRemoval disk leaf entry payload) :
    ∃ stored after left newEntry new,
      rewriteRecord tree leaf ⟨.limIndex, index⟩ payload disk =
        (.ok stored, after) ∧
      Rewritten disk used leaf index payload after left stored newEntry
        new := by
  have bound := (List.getElem?_eq_some_iff.mp here).1
  have leafApart : (leaf.pageNumber :: (chain ++ free)).Nodup := by
    have parts := List.nodup_append.mp apart
    refine List.nodup_cons.mpr ⟨fun member => ?_, parts.2.1⟩
    exact parts.2.2 _ inUse _ member rfl
  obtain ⟨node, middle, deleteEq, deleted⟩ := btreeNodeDelete_run roomy
    store holds metaFresh here resolves leafApart notFirst safe
  have number := deleted.reentered.pageNumber_eq
  have sameMax := maxCellSize_eq number deleted.pageSize_eq
  have usedApart : (used ++ (chain.reverse ++ free)).Nodup := by
    refine ((List.Perm.append_right free chain.reverse_perm).append_left
      used).nodup_iff.mpr apart
  have notFree : node.pageNumber ∉ chain.reverse ++ free := by
    rw [number]
    intro member
    exact (List.nodup_append.mp usedApart).2.2 _ inUse _ member rfl
  have count : node.numKeys = leaf.entries.length - 1 := by
    change node.keys.length = _
    rw [← entries_length, deleted.reentered.entries_eq,
      List.length_eraseIdx_of_lt bound]
  obtain ⟨stored, after, left, newEntry, new, writeEq, whole⟩ :=
    @btreeNodeWriteAt_stored middle (chain.reverse ++ free) node
      ⟨.limIndex, index⟩ (rereadKey leaf index) payload
      (roomy.congr deleted.pageSize) deleted.store deleted.holds
      deleted.metaFresh notFree
      (show index ≤ node.numKeys by omega) (rereadKey_lt holds index)
      (by rw [sameMax, deleted.freeHeap_eq]; exact fits.takes) fits.sized
      (by
        rw [sameMax, deleted.freeHeap_eq, deleted.pageSize, deleted.maxPage]
        exact fits.room)
  have entriesEq := whole.reentered.entries_eq
  have indexEq : ChildListIndex.number ⟨.limIndex, index⟩ node = index := rfl
  rw [indexEq, deleted.reentered.entries_eq,
    List.insertIdx_eraseIdx_self (Nat.ne_of_lt bound)] at entriesEq
  refine ⟨stored, after, left, newEntry, new, ?_, whole.holds,
    ⟨whole.reentered.pageNumber_eq.trans number,
      whole.reentered.isLeaf_eq.trans deleted.reentered.isLeaf_eq,
      whole.reentered.rightChild_eq.trans deleted.reentered.rightChild_eq,
      entriesEq⟩, whole.key_eq, ?_, ?_, whole.resolves, whole.notFirst,
    whole.updates.store, whole.updates.pageSize.trans deleted.pageSize, ?_, ?_⟩
  · unfold rewriteRecord
    rw [BtM.bind_ok deleteEq, deleted.reread]
    exact writeEq
  · rw [← sameMax]
    exact whole.small
  · refine maxCellSize_eq (whole.reentered.pageNumber_eq.trans number) ?_
    rw [whole.holds.pageSize_eq whole.updates.store, whole.updates.pageSize,
      deleted.pageSize, holds.pageSize_eq store]
  · intro page member other
    have usedPage : page ∉ chain.reverse ++ free := fun isFree =>
      (List.nodup_append.mp usedApart).2.2 _ member _ isFree rfl
    rw [whole.updates.kept_used ?_ usedPage ?_]
    · exact deleted.kept page other
    · rw [number, List.mem_singleton]
      exact other
    · rw [deleted.maxPage]
      exact present page member
  · refine whole.updates.used_apart usedApart ?_
    intro page member
    rw [deleted.maxPage]
    exact present page member

end Rewrite

/-! ## The records afterwards -/

/-- The records with another payload for a key. -/
def putPayload (key : Nat) (payload : List UInt8)
    (records : List TableRecord) : List TableRecord :=
  records.map fun record =>
    if record.key = key then ⟨key, payload⟩ else record

theorem putPayload_keys (key : Nat) (payload : List UInt8)
    (records : List TableRecord) :
    (putPayload key payload records).map TableRecord.key =
      records.map TableRecord.key := by
  unfold putPayload
  rw [List.map_map]
  refine List.map_congr_left ?_
  intro record _
  simp only [Function.comp_apply]
  split
  · rename_i same
    exact same.symm
  · rfl

theorem putPayload_eq_set {records : List TableRecord} {index key : Nat}
    {old payload : List UInt8}
    (increase : (records.map TableRecord.key).Pairwise (· < ·))
    (here : records[index]? = some ⟨key, old⟩) :
    putPayload key payload records = records.set index ⟨key, payload⟩ := by
  obtain ⟨bound, recordEq⟩ := List.getElem?_eq_some_iff.mp here
  rw [List.pairwise_map] at increase
  have ordered := List.pairwise_iff_getElem.mp increase
  unfold putPayload
  refine List.ext_getElem (by simp) ?_
  intro other otherBound _
  rw [List.length_map] at otherBound
  rw [List.getElem_map, List.getElem_set]
  split
  · rename_i isKey
    split
    · rfl
    · rename_i apart
      exfalso
      rcases Nat.lt_or_gt_of_ne apart with above | below
      · have less := ordered index other bound otherBound above
        rw [recordEq] at less
        simp only at less
        omega
      · have less := ordered other index otherBound bound below
        rw [recordEq] at less
        simp only at less
        omega
  · rename_i notKey
    split
    · rename_i here
      subst here
      rw [recordEq] at notKey
      exact absurd rfl notKey
    · rfl

section Table

variable {disk after : Disk} {free left pages outside chains : List Nat}
variable {new frontChains backChains : List Nat}
variable {root height index : Nat} {flat before behind : List Mark}
variable {leaf stored : BTreeNode} {entry newEntry : Entry}
variable {old payload : List UInt8} {records : List TableRecord}

/-- The entries of a tree with another entry in one of its leaves. -/
theorem entriesOf_set {marks : List Entry} (bound : index < marks.length) :
    entriesOf (before ++ ((marks.set index newEntry).map Mark.record ++
        behind)) =
      (entriesOf before ++ (marks ++ entriesOf behind)).set
        ((entriesOf before).length + index) newEntry := by
  rw [entriesOf_append, entriesOf_append, entriesOf_records,
    List.set_append_right _ _ (Nat.le_add_right _ _),
    Nat.add_sub_cancel_left, List.set_append_left _ _ bound]

theorem LeafAt.entry_here
    (leafAt : LeafAt disk root height pages flat leaf outside before behind)
    (here : leaf.entries[index]? = some entry) :
    (entriesOf flat)[(entriesOf before).length + index]? = some entry := by
  have bound := (List.getElem?_eq_some_iff.mp here).1
  rw [leafAt.entriesOf_eq,
    List.getElem?_append_right (Nat.le_add_right _ _), Nat.add_sub_cancel_left,
    List.getElem?_append_left bound]
  exact here

/-- A record that is rewritten with its own key. -/
theorem Rewritten.hasTable
    (table : TableStore disk free root height pages flat chains records)
    (leafAt : LeafAt disk root height pages flat leaf outside before behind)
    (here : leaf.entries[index]? = some entry)
    (recordHere : records[(entriesOf before).length + index]? =
      some ⟨entry.key, old⟩)
    (front : RecordsOf disk
      ((entriesOf flat).take ((entriesOf before).length + index))
      (records.take ((entriesOf before).length + index)) frontChains)
    (back : RecordsOf disk
      ((entriesOf flat).drop ((entriesOf before).length + index + 1))
      (records.drop ((entriesOf before).length + index + 1)) backChains)
    (within : ∀ page ∈ frontChains ++ backChains, page ∈ chains)
    (rewritten : Rewritten disk (pages ++ (frontChains ++ backChains)) leaf
      index payload after left stored newEntry new)
    (sameKey : rereadKey leaf index = entry.key) :
    HasTable after root (putPayload entry.key payload records) := by
  have bound := (List.getElem?_eq_some_iff.mp here).1
  have newKey : newEntry.key = entry.key := rewritten.key_eq.trans sameKey
  have entriesEq := rewritten.reentered.entries_eq
  have apart := List.nodup_append.mp table.apart
  have leafPage : leaf.pageNumber ∈ pages :=
    leafAt.pagesEq.mem_iff.mp (List.mem_append_right _ (by simp))
  have onlyOnce : ∀ page ∈ outside, page ≠ leaf.pageNumber := by
    intro page member same
    have distinct := leafAt.pagesEq.nodup_iff.mpr apart.1
    exact (List.nodup_append.mp distinct).2.2 page member leaf.pageNumber
      (List.mem_singleton_self _) same
  have keptChains : ∀ page ∈ frontChains ++ backChains,
      after.buffer? page = disk.buffer? page := by
    intro page member
    refine rewritten.kept page (List.mem_append_right _ member) ?_
    intro same
    exact apart.2.2 _ leafPage _ (List.mem_append_left _ (within page member))
      same.symm
  have ordered : (before ++ (stored.entries.map Mark.record ++
      behind)).Pairwise Before := by
    have old := table.valid.ordered
    have ranks : (before ++ (stored.entries.map Mark.record ++
        behind)).map Mark.rank = flat.map Mark.rank := by
      have sameKeys : (leaf.entries.set index newEntry).map
          (Mark.rank ∘ Mark.record) =
            leaf.entries.map (Mark.rank ∘ Mark.record) := by
        refine ListEdit.map_set_of_eq here ?_
        unfold Mark.rank Function.comp
        simp only [newKey]
      rw [leafAt.flatEq, entriesEq]
      simp only [List.map_append, List.map_map, sameKeys]
    unfold Before at old ⊢
    rw [← List.pairwise_map (R := (· < ·)), ranks]
    exact List.pairwise_map.mpr old
  have small : ∀ member ∈ stored.entries,
      member.heapSize ≤ btreeNodeMaxCellSize stored := by
    intro member inStored
    rw [entriesEq] at inStored
    rw [rewritten.maxCellSize_eq]
    rcases List.mem_or_eq_of_mem_set inStored with inLeaf | rfl
    · exact leafAt.small member inLeaf
    · exact rewritten.small
  have pagesApart : (pages ++ left).Nodup := by
    refine rewritten.apart.sublist ?_
    rw [List.append_assoc, List.append_assoc]
    exact ((List.sublist_append_right _ _).trans
      (List.sublist_append_right _ _)).append_left pages
  have keptOutside : ∀ page ∈ outside,
      after.buffer? page = disk.buffer? page := by
    intro page member
    exact rewritten.kept page (List.mem_append_left _
      (leafAt.pagesEq.mem_iff.mp (List.mem_append_left _ member)))
      (onlyOnce page member)
  have newTree := leafAt.replace table.valid rewritten.store rewritten.pageSize
    keptOutside rewritten.holds rewritten.reentered.pageNumber_eq
    (rewritten.reentered.isLeaf_eq.trans leafAt.isLeaf) small ordered pagesApart
  refine ⟨left, height, pages, _, frontChains ++ (new ++ backChains), newTree,
    ?_, ?_, ?_⟩
  · have increase : (records.map TableRecord.key).Pairwise (· < ·) := by
      rw [table.holds.keys_eq, List.pairwise_map]
      exact keysIncrease_entriesOf table.valid.ordered
    rw [entriesEq, entriesOf_set bound, ← leafAt.entriesOf_eq,
      putPayload_eq_set increase recordHere, ← newKey]
    have inside := (List.getElem?_eq_some_iff.mp
      (leafAt.entry_here here)).1
    exact RecordsOf.put table.holds.length_eq inside
      (front.congr rewritten.pageSize fun page member =>
        keptChains page (List.mem_append_left _ member))
      rewritten.resolves
      (back.congr rewritten.pageSize fun page member =>
        keptChains page (List.mem_append_right _ member))
  · refine (List.Perm.nodup_iff ?_).mp rewritten.apart
    refine List.perm_iff_count.mpr ?_
    intro page
    simp only [List.count_append]
    omega
  · intro isFirst
    rcases List.mem_append.mp isFirst with inFront | later
    · exact table.notFirst (within 1 (List.mem_append_left _ inFront))
    · rcases List.mem_append.mp later with inNew | inBack
      · exact rewritten.notFirst inNew
      · exact table.notFirst (within 1 (List.mem_append_right _ inBack))

/-- A table with the old keys has the old key at the place of the record. -/
theorem Rewritten.sameKey
    (table : TableStore disk free root height pages flat chains records)
    (leafAt : LeafAt disk root height pages flat leaf outside before behind)
    (here : leaf.entries[index]? = some entry)
    (rewritten : Rewritten disk (pages ++ (frontChains ++ backChains)) leaf
      index payload after left stored newEntry new)
    (kept : HasTable after root (putPayload entry.key payload records)) :
    rereadKey leaf index = entry.key := by
  obtain ⟨_, high, others, flat', _, again⟩ := kept
  obtain ⟨steps, path⟩ := leafAt.path
  have bound := (List.getElem?_eq_some_iff.mp here).1
  have apart := (List.nodup_append.mp table.apart).1
  have keptOutside : ∀ page ∈ outside,
      after.buffer? page = disk.buffer? page := by
    intro page member
    refine rewritten.kept page (List.mem_append_left _
      (leafAt.pagesEq.mem_iff.mp (List.mem_append_left _ member))) ?_
    intro same
    exact (List.nodup_append.mp (leafAt.pagesEq.nodup_iff.mpr apart)).2.2 page
      member leaf.pageNumber (List.mem_singleton_self _) same
  obtain ⟨low, own, part, _, partTree, flatEq⟩ :=
    path.agree (TableHolds.agreesOn keptOutside) again.valid.tree
  have onPage : TableHolds after leaf.pageNumber
      (.leaf (stored.entries.map Mark.record)) :=
    .leaf rewritten.holds rewritten.reentered.pageNumber_eq
      (rewritten.reentered.isLeaf_eq.trans leafAt.isLeaf) (by
        intro member inStored
        rw [rewritten.reentered.entries_eq] at inStored
        rw [rewritten.maxCellSize_eq]
        rcases List.mem_or_eq_of_mem_set inStored with inLeaf | rfl
        · exact leafAt.small member inLeaf
        · exact rewritten.small)
  have partEq : part = stored.entries.map Mark.record := by
    cases low with
    | zero =>
        exact PNode.leaf.inj
          (TableHolds.functional after _ _ _ partTree.1 onPage)
    | succ low =>
        obtain ⟨_, _, inner, _⟩ := partTree
        cases TableHolds.functional after _ _ _ inner onPage
  have keys := again.holds.keys_eq
  rw [putPayload_keys, table.holds.keys_eq, flatEq, partEq,
    rewritten.reentered.entries_eq, entriesOf_set bound,
    ← leafAt.entriesOf_eq] at keys
  have inside := leafAt.entry_here here
  have place := congrArg
    (fun keys : List Nat => keys[(entriesOf before).length + index]?) keys
  simp only [List.getElem?_map, inside, List.getElem?_set_self
    (List.getElem?_eq_some_iff.mp inside).1, Option.map_some] at place
  rw [← rewritten.key_eq]
  exact (Option.some.inj place).symm

end Table

end BtreeDb
