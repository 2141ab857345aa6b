import Mathlib
import BtreeDb.Index.Tree
import BtreeDb.Node.Check

/-!
# Checking trees

Whether a disk holds a valid tree can be computed: `tableContent?` and
`indexContent?` check one page, `checkTable` and `checkIndex` a whole tree.
-/

namespace BtreeDb

open PagedTree Disk

/-! ## Pages -/

def slotOf (entry : Entry) : Slot where
  child := Bytes.u32At entry.cell 0
  key := entry.key

def tableContent? (disk : Disk) (page : Nat) : Option (PNode Mark) :=
  let node := loadedNode disk page
  if NodeOn disk page then
    if node.isLeaf then
      if SmallCells node then some (.leaf (node.entries.map Mark.record))
      else none
    else
      let slots := node.entries.map slotOf
      if node.entries = slots.map Slot.entry ∧
          ∀ slot ∈ slots, slot.child < 2 ^ 32 then
        some (.inner (slots.map Slot.child ++ [node.rightChild])
          (slots.map fun slot => Mark.separator slot.key))
      else none
  else none

def indexContent? (disk : Disk) (page : Nat) : Option (PNode IndexRecord) :=
  let node := loadedNode disk page
  if NodeOn disk page ∧ SmallCells node then
    if node.isLeaf then some (.leaf (node.entries.map Entry.record))
    else some (.inner (indexKids node) (node.entries.map Entry.record))
  else none

theorem tableContent?_sound {disk : Disk} {page : Nat} {content : PNode Mark}
    (checked : tableContent? disk page = some content) :
    TableHolds disk page content := by
  unfold tableContent? at checked
  simp only at checked
  split at checked
  · rename_i on
    split at checked
    · rename_i isLeaf
      split at checked
      · rename_i small
        rw [← Option.some.inj checked]
        exact .leaf on.1 on.2 isLeaf small
      · cases checked
    · rename_i isInner
      split at checked
      · rename_i fits
        rw [← Option.some.inj checked]
        exact .inner on.1 on.2 (Bool.eq_false_iff.mpr isInner) fits.1 fits.2
      · cases checked
  · cases checked

theorem indexContent?_sound {disk : Disk} {page : Nat}
    {content : PNode IndexRecord}
    (checked : indexContent? disk page = some content) :
    IndexHolds disk page content := by
  unfold indexContent? at checked
  simp only at checked
  split at checked
  · rename_i on
    split at checked
    · rename_i isLeaf
      rw [← Option.some.inj checked]
      exact .leaf on.1.1 on.1.2 isLeaf on.2
    · rename_i isInner
      rw [← Option.some.inj checked]
      exact .inner on.1.1 on.1.2 (Bool.eq_false_iff.mpr isInner) on.2
  · cases checked

/-! ## Disks -/

/-- The conditions on a disk around the tree itself. -/
def CheckedDisk (disk : Disk) (free : List Nat) (root : Nat)
    (pages : List Nat) : Prop :=
  btreeMinPageSize ≤ disk.pageSize ∧ disk.pageSize < 2 ^ 32 ∧
    CheckedStore disk free ∧ (pages ++ free).Nodup ∧ (1 ∈ pages → root = 1)

instance (disk : Disk) (free : List Nat) (root : Nat) (pages : List Nat) :
    Decidable (CheckedDisk disk free root pages) :=
  inferInstanceAs (Decidable (_ ∧ _))

instance : DecidableRel Before :=
  fun _ _ => inferInstanceAs (Decidable (_ < _))

/-- The pages and marks of a table tree that can be read and is valid. -/
def checkTable (disk : Disk) (free : List Nat) (root height : Nat) :
    Option (List Nat × List Mark) := do
  let (pages, flat) ← readTree (tableContent? disk) height root
  if CheckedDisk disk free root pages ∧ flat.Pairwise Before then
    some (pages, flat)
  else none

theorem checkTable_sound {disk : Disk} {free : List Nat} {root height : Nat}
    {pages : List Nat} {flat : List Mark}
    (checked : checkTable disk free root height = some (pages, flat)) :
    TableTree disk free root height pages flat := by
  unfold checkTable at checked
  obtain ⟨⟨readPages, readFlat⟩, readEq, checked⟩ :=
    Option.bind_eq_some_iff.mp checked
  simp only at checked
  split at checked
  · rename_i valid
    obtain ⟨pagesEq, flatEq⟩ := Prod.mk.inj (Option.some.inj checked)
    subst pagesEq flatEq
    obtain ⟨⟨least, fits, store, apart, rooted⟩, ordered⟩ := valid
    exact ⟨⟨least, fits⟩, store.store,
      readTree_sound tableContent?_sound readEq, ordered, apart, rooted⟩
  · cases checked

/-- The pages and records of an index tree that can be read and is valid but
for the order of its records. -/
def checkIndex (disk : Disk) (free : List Nat) (root height : Nat) :
    Option (List Nat × List IndexRecord) := do
  let (pages, flat) ← readTree (indexContent? disk) height root
  if CheckedDisk disk free root pages then some (pages, flat) else none

theorem checkIndex_sound {before : IndexRecord → IndexRecord → Prop}
    {disk : Disk} {free : List Nat} {root height : Nat} {pages : List Nat}
    {flat : List IndexRecord}
    (checked : checkIndex disk free root height = some (pages, flat))
    (ordered : flat.Pairwise before) :
    IndexTree before disk free root height pages flat := by
  unfold checkIndex at checked
  obtain ⟨⟨readPages, readFlat⟩, readEq, checked⟩ :=
    Option.bind_eq_some_iff.mp checked
  simp only at checked
  split at checked
  · rename_i valid
    obtain ⟨pagesEq, flatEq⟩ := Prod.mk.inj (Option.some.inj checked)
    subst pagesEq flatEq
    obtain ⟨least, fits, store, apart, rooted⟩ := valid
    exact ⟨⟨least, fits⟩, store.store,
      readTree_sound indexContent?_sound readEq, ordered, apart, rooted⟩
  · cases checked

end BtreeDb
