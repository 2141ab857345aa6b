import BtreeDb.Lib.PagedTree
import BtreeDb.Node.Storing
import BtreeDb.Node.Search

/-!
# Table trees

A table tree keeps its records in the leaves; the inner nodes keep child pages
and separator keys.  Read in order, a separator comes after the records with
its key or a smaller one (`Mark.rank`), so that one order on the marks says
both that the records are sorted and that every child lies between its
separators.
-/

namespace BtreeDb

open PagedTree

/-! ## Marks -/

/-- What is met on the way through a tree. -/
inductive Mark where
  | record (entry : Entry)
  | separator (key : Nat)
  deriving DecidableEq, Repr

def Mark.key : Mark → Nat
  | .record entry => entry.key
  | .separator key => key

def Mark.rank : Mark → Nat
  | .record entry => 2 * entry.key
  | .separator key => 2 * key + 1

def Mark.entry? : Mark → Option Entry
  | .record entry => some entry
  | .separator _ => none

def Before (left right : Mark) : Prop := left.rank < right.rank

/-- The records among the marks. -/
def entriesOf (flat : List Mark) : List Entry := flat.filterMap Mark.entry?

@[simp]
theorem entriesOf_append (left right : List Mark) :
    entriesOf (left ++ right) = entriesOf left ++ entriesOf right :=
  List.filterMap_append

@[simp]
theorem entriesOf_records (entries : List Entry) :
    entriesOf (entries.map Mark.record) = entries := by
  unfold entriesOf
  rw [List.filterMap_map]
  exact List.filterMap_some

@[simp]
theorem entriesOf_separator (key : Nat) (flat : List Mark) :
    entriesOf (.separator key :: flat) = entriesOf flat := rfl

theorem mem_entriesOf {flat : List Mark} {entry : Entry} :
    entry ∈ entriesOf flat ↔ Mark.record entry ∈ flat := by
  unfold entriesOf
  rw [List.mem_filterMap]
  constructor
  · rintro ⟨mark, member, isEntry⟩
    cases mark with
    | record other =>
        rw [← Option.some.inj isEntry]
        exact member
    | separator key => cases isEntry
  · intro member
    exact ⟨_, member, rfl⟩

theorem keysIncrease_of_before {entries : List Entry}
    (ordered : (entries.map Mark.record).Pairwise Before) :
    KeysIncrease entries := by
  rw [List.pairwise_map] at ordered
  refine ordered.imp ?_
  intro left right before
  unfold Before Mark.rank at before
  simp only at before
  omega

theorem entriesOf_sublist : ∀ flat : List Mark,
    ((entriesOf flat).map Mark.record).Sublist flat
  | [] => List.Sublist.refl _
  | .record _ :: flat => (entriesOf_sublist flat).cons_cons _
  | .separator _ :: flat => (entriesOf_sublist flat).cons _

theorem keysIncrease_entriesOf {flat : List Mark}
    (ordered : flat.Pairwise Before) : KeysIncrease (entriesOf flat) :=
  keysIncrease_of_before (ordered.sublist (entriesOf_sublist flat))

/-! ## Nodes -/

/-- A child page of an inner node with the separator behind it. -/
structure Slot where
  child : Nat
  key : Nat
  deriving DecidableEq, Repr

def Slot.entry (slot : Slot) : Entry where
  key := slot.key
  flags := cellTypeCode .cellTypeInline
  cell := Bytes.le32 slot.child

theorem Slot.entry_heapSize (slot : Slot) : slot.entry.heapSize = 20 := rfl

/-- The page of a table tree with the given contents. -/
inductive TableHolds (disk : Disk) (page : Nat) : PNode Mark → Prop
  | leaf {node : BTreeNode} (holds : Holds disk node)
      (here : node.pageNumber = page) (isLeaf : node.isLeaf = true)
      (small : ∀ entry ∈ node.entries,
        entry.heapSize ≤ btreeNodeMaxCellSize node) :
      TableHolds disk page (.leaf (node.entries.map Mark.record))
  | inner {node : BTreeNode} {slots : List Slot} (holds : Holds disk node)
      (here : node.pageNumber = page) (isInner : node.isLeaf = false)
      (entriesEq : node.entries = slots.map Slot.entry)
      (children : ∀ slot ∈ slots, slot.child < 2 ^ 32) :
      TableHolds disk page
        (.inner (slots.map Slot.child ++ [node.rightChild])
          (slots.map fun slot => Mark.separator slot.key))

theorem TableHolds.congr {disk after : Disk} {page : Nat} {node : PNode Mark}
    (holds : TableHolds disk page node)
    (same : after.buffer? page = disk.buffer? page) :
    TableHolds after page node := by
  cases holds with
  | leaf holds here isLeaf small =>
      refine .leaf (holds.congr ?_) here isLeaf small
      rw [here]
      exact same
  | inner holds here isInner entriesEq children =>
      refine .inner (holds.congr ?_) here isInner entriesEq children
      rw [here]
      exact same

theorem TableHolds.present {disk : Disk} {page : Nat} {node : PNode Mark}
    (holds : TableHolds disk page node) :
    page ≠ 0 ∧ page ≤ disk.maxPage := by
  cases holds with
  | leaf holds here _ _ =>
      rw [← here]
      exact holds.present
  | inner holds here _ _ _ =>
      rw [← here]
      exact holds.present

theorem treeAt_present {disk : Disk} :
    ∀ {height page : Nat} {pages : List Nat} {flat : List Mark},
      TreeAt (TableHolds disk) height page pages flat →
        ∀ own ∈ pages, own ≠ 0 ∧ own ≤ disk.maxPage
  | 0, page, pages, flat, ⟨here, pagesEq⟩, own, member => by
      rw [pagesEq, List.mem_singleton] at member
      rw [member]
      exact here.present
  | height + 1, _, pages, flat,
      ⟨first, rest, here, firstTree, restTrees, pagesEq, _⟩, own, member => by
      have inside := pagesEq.mem_iff.mp member
      rcases List.mem_cons.mp inside with rfl | below
      · exact here.present
      · rcases List.mem_append.mp below with inFirst | inRest
        · exact treeAt_present firstTree own inFirst
        · obtain ⟨entry, entryMember, ownMember⟩ := List.mem_flatMap.mp inRest
          exact treeAt_present (restTrees entry entryMember) own ownMember

/-! ## Trees -/

/-- A valid table tree on a disk: the pages it takes and its marks. -/
structure TableTree (disk : Disk) (free : List Nat) (root height : Nat)
    (pages : List Nat) (flat : List Mark) : Prop where
  roomy : Roomy disk
  store : Store disk free
  tree : TreeAt (TableHolds disk) height root pages flat
  ordered : flat.Pairwise Before
  apart : (pages ++ free).Nodup
  rooted : 1 ∈ pages → root = 1

/-! ## Going down -/

/-- The slot that a child index names in a node. -/
theorem readCellPage_table {tree : BTree} {disk : Disk} {node : BTreeNode}
    {slots : List Slot} {index hole : Nat}
    (isTable : tree.type = .table) (holds : Holds disk node)
    (entriesEq : node.entries = slots.map Slot.entry)
    (children : ∀ slot ∈ slots, slot.child < 2 ^ 32)
    (holeHere : (slots.map Slot.child ++ [node.rightChild])[index]? =
      some hole) :
    readCellPage tree node index = .ok hole := by
  have count : node.numKeys = slots.length := by
    have lengths := congrArg List.length entriesEq
    rwa [entries_length, List.length_map] at lengths
  unfold readCellPage
  by_cases atEnd : index ≥ node.numKeys
  · rw [if_pos atEnd]
    rw [List.getElem?_append_right (by simpa [← count] using atEnd)] at holeHere
    obtain ⟨_, rightEq⟩ := List.getElem?_eq_some_iff.mp holeHere
    rw [List.getElem_singleton] at rightEq
    rw [rightEq]
  · rw [if_neg atEnd, isTable]
    have inside : index < slots.length := by omega
    rw [List.getElem?_append_left (by simpa using inside), List.getElem?_map,
      List.getElem?_eq_getElem inside] at holeHere
    have holeEq : slots[index].child = hole := Option.some.inj holeHere
    have entryHere : node.entries[index]? = some slots[index].entry := by
      rw [entriesEq, List.getElem?_map, List.getElem?_eq_getElem inside]
      rfl
    have reads := holds.ok.reads entryHere
    have sizeEq := reads.size_eq
    have cellEq := reads.cell_eq
    unfold Slot.entry at sizeEq cellEq
    simp only [Bytes.le32_length] at sizeEq cellEq
    simp only
    rw [if_neg (by simpa using sizeEq)]
    have childEq : Bytes.u32At (btuGetCellBuffer node index) 4 = hole := by
      rw [Bytes.u32At, Bytes.slice, cellEq, Bytes.fromLe_le32, ← holeEq]
      exact Nat.mod_eq_of_lt (children _ (List.getElem_mem inside))
    rw [childEq]

end BtreeDb
