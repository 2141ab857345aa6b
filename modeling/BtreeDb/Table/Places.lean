import BtreeDb.Lib.PagedLeaf
import BtreeDb.Table.Lookup
import BtreeDb.Table.Records

/-!
# Records in their places

The place of a record is its leaf and its index there.  A key search for the
record goes there, and whatever changes the leaf only, changes the tree there
only.
-/

namespace BtreeDb

open PagedTree

/-! ## What a page holds -/

/-- Two nodes that a disk holds at one page differ in their metadata only. -/
theorem Holds.unique {disk : Disk} {left right : BTreeNode}
    (holds : Holds disk left) (other : Holds disk right)
    (same : right.pageNumber = left.pageNumber) :
    right = { left with metaBytes := right.metaBytes } := by
  have bufferEq : right.page.pageBuffer = left.page.pageBuffer := by
    have found := other.buffer
    rw [same, holds.buffer] at found
    exact (Option.some.inj found).symm
  have pageEq : right.page =
      ({ left with metaBytes := right.metaBytes } : BTreeNode).page := by
    change (⟨right.pageNumber, right.metaBytes, right.page.pageBuffer⟩ : Page) =
      ⟨left.pageNumber, right.metaBytes, left.page.pageBuffer⟩
    rw [same, bufferEq]
  have read := congrArg nodeOfPage pageEq
  rwa [nodeOfPage_page other.ok other.encodable,
    nodeOfPage_page (holds.ok.withMeta _) (holds.encodable.withMeta _)] at read

theorem Holds.entries_unique {disk : Disk} {left right : BTreeNode}
    (holds : Holds disk left) (other : Holds disk right)
    (same : right.pageNumber = left.pageNumber) :
    right.entries = left.entries := by
  rw [holds.unique other same]
  rfl

theorem slots_unique : ∀ {slots others : List Slot},
    (∀ slot ∈ slots, slot.child < 2 ^ 32) →
    (∀ slot ∈ others, slot.child < 2 ^ 32) →
    slots.map Slot.entry = others.map Slot.entry → slots = others
  | [], [], _, _, _ => rfl
  | [], _ :: _, _, _, same => by cases same
  | _ :: _, [], _, _, same => by cases same
  | slot :: slots, other :: others, fits, othersFit, same => by
      obtain ⟨first, later⟩ := List.cons.inj same
      unfold Slot.entry at first
      obtain ⟨keyEq, _, cellEq⟩ := Entry.mk.inj first
      have childEq := congrArg Bytes.fromLe cellEq
      rw [Bytes.fromLe_le32, Bytes.fromLe_le32,
        Nat.mod_eq_of_lt (fits slot List.mem_cons_self),
        Nat.mod_eq_of_lt (othersFit other List.mem_cons_self)] at childEq
      have slotEq : slot = other := by
        cases slot
        cases other
        exact congr (congrArg Slot.mk childEq) keyEq
      rw [slotEq, slots_unique
        (fun slot member => fits slot (List.mem_cons_of_mem _ member))
        (fun slot member => othersFit slot (List.mem_cons_of_mem _ member))
        later]

/-- A page of a table tree has one content. -/
theorem TableHolds.functional (disk : Disk) : Functional (TableHolds disk) := by
  intro page left right leftHolds rightHolds
  cases leftHolds with
  | @leaf node holds here isLeaf small =>
      cases rightHolds with
      | @leaf other otherHolds otherHere =>
          rw [holds.entries_unique otherHolds (otherHere.trans here.symm)]
      | @inner other slots otherHolds otherHere isInner =>
          have same := holds.unique otherHolds (otherHere.trans here.symm)
          rw [same] at isInner
          exact absurd (isLeaf.symm.trans isInner) (by decide)
  | @inner node slots holds here isInner entriesEq children =>
      cases rightHolds with
      | @leaf other otherHolds otherHere isLeaf =>
          have same := holds.unique otherHolds (otherHere.trans here.symm)
          rw [same] at isLeaf
          exact absurd (isInner.symm.trans isLeaf) (by decide)
      | @inner other others otherHolds otherHere _ otherEq otherChildren =>
          have same := holds.unique otherHolds (otherHere.trans here.symm)
          have slotsEq : others = slots := by
            refine slots_unique otherChildren children ?_
            rw [← otherEq, ← entriesEq,
              holds.entries_unique otherHolds (otherHere.trans here.symm)]
          rw [slotsEq, same]

theorem TableHolds.agreesOn {disk after : Disk} {pages : List Nat}
    (kept : ∀ page ∈ pages, after.buffer? page = disk.buffer? page) :
    AgreesOn (TableHolds disk) (TableHolds after) pages := by
  intro page member left right leftHolds rightHolds
  exact TableHolds.functional after page left right
    (leftHolds.congr (kept page member)) rightHolds

/-! ## The place of a record -/

/-- A leaf of a tree, and an entry of it. -/
structure RecordPlace (disk : Disk) (pages : List Nat) (leaf : BTreeNode)
    (index : Nat) (entry : Entry) : Prop where
  holds : Holds disk leaf
  isLeaf : leaf.isLeaf = true
  page_mem : leaf.pageNumber ∈ pages
  here : leaf.entries[index]? = some entry

section Place

variable {tree : BTree} {disk after : Disk} {free pages : List Nat}
variable {root height index : Nat} {flat : List Mark} {leaf : BTreeNode}
variable {entry : Entry}

/-- A page of a tree that holds a leaf holds its records. -/
theorem TableTree.leafHolds
    (valid : TableTree disk free root height pages flat)
    (holds : Holds disk leaf) (isLeaf : leaf.isLeaf = true)
    (member : leaf.pageNumber ∈ pages) :
    TableHolds disk leaf.pageNumber (.leaf (leaf.entries.map Mark.record)) ∧
      ∀ entry ∈ leaf.entries, entry.heapSize ≤ btreeNodeMaxCellSize leaf := by
  obtain ⟨content, contentHere⟩ := valid.tree.holds_of_mem member
  cases contentHere with
  | @leaf node nodeHolds here nodeLeaf small =>
      have same := holds.unique nodeHolds here
      rw [same] at small
      exact ⟨.leaf holds rfl isLeaf small, small⟩
  | @inner node slots nodeHolds here isInner =>
      have same := holds.unique nodeHolds here
      rw [same] at isInner
      exact absurd (isLeaf.symm.trans isInner) (by decide)

/-- What is around a leaf of a tree. -/
theorem TableTree.leafAt (valid : TableTree disk free root height pages flat)
    (holds : Holds disk leaf) (isLeaf : leaf.isLeaf = true)
    (member : leaf.pageNumber ∈ pages) :
    ∃ outside before behind,
      LeafAt disk root height pages flat leaf outside before behind := by
  obtain ⟨leafHolds, small⟩ := valid.leafHolds holds isLeaf member
  obtain ⟨steps, outside, before, behind, path, flatEq, pagesEq⟩ :=
    Path.toLeaf (TableHolds.functional disk) .here valid.tree member leafHolds
  simp only [List.nil_append, List.append_nil] at flatEq pagesEq
  exact ⟨outside, before, behind, holds, isLeaf, small, ⟨steps, path⟩, flatEq,
    pagesEq⟩

end Place

end BtreeDb
