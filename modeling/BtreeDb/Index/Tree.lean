import BtreeDb.Tree.Shape

/-!
# Index trees

An index tree keeps records in its inner nodes too: the cell of a key is the
record, and the key itself is the page of the child left of it.
-/

namespace BtreeDb

open PagedTree

/-- A record of an index tree: what its cell says, not the child beside it. -/
structure IndexRecord where
  flags : Nat
  cell : List UInt8
  deriving DecidableEq, Repr

def Entry.record (entry : Entry) : IndexRecord where
  flags := entry.flags
  cell := entry.cell

/-- The child pages of an inner node. -/
def indexKids (node : BTreeNode) : List Nat :=
  node.entries.map Entry.key ++ [node.rightChild]

/-- The page of an index tree with the given contents. -/
inductive IndexHolds (disk : Disk) (page : Nat) : PNode IndexRecord → Prop
  | leaf {node : BTreeNode} (holds : Holds disk node)
      (here : node.pageNumber = page) (isLeaf : node.isLeaf = true)
      (small : ∀ entry ∈ node.entries,
        entry.heapSize ≤ btreeNodeMaxCellSize node) :
      IndexHolds disk page (.leaf (node.entries.map Entry.record))
  | inner {node : BTreeNode} (holds : Holds disk node)
      (here : node.pageNumber = page) (isInner : node.isLeaf = false)
      (small : ∀ entry ∈ node.entries,
        entry.heapSize ≤ btreeNodeMaxCellSize node) :
      IndexHolds disk page
        (.inner (indexKids node) (node.entries.map Entry.record))

/-- A valid index tree on a disk whose records are ordered by `before`. -/
structure IndexTree (before : IndexRecord → IndexRecord → Prop) (disk : Disk)
    (free : List Nat) (root height : Nat) (pages : List Nat)
    (flat : List IndexRecord) : Prop where
  roomy : Roomy disk
  store : Store disk free
  tree : TreeAt (IndexHolds disk) height root pages flat
  ordered : flat.Pairwise before
  apart : (pages ++ free).Nodup
  rooted : 1 ∈ pages → root = 1

theorem readCellPage_index {tree : BTree} {node : BTreeNode} {index kid : Nat}
    (isIndex : tree.type = .index)
    (kidHere : (indexKids node)[index]? = some kid) :
    readCellPage tree node index = .ok kid := by
  unfold indexKids at kidHere
  unfold readCellPage
  by_cases atEnd : index ≥ node.numKeys
  · rw [if_pos atEnd]
    rw [List.getElem?_append_right (by simpa using atEnd)] at kidHere
    obtain ⟨_, rightEq⟩ := List.getElem?_eq_some_iff.mp kidHere
    rw [List.getElem_singleton] at rightEq
    rw [rightEq]
  · rw [if_neg atEnd, isIndex]
    have inside : index < node.keys.length := Nat.lt_of_not_le atEnd
    rw [List.getElem?_append_left (by simpa using inside), List.getElem?_map,
      BTreeNode.entries, List.getElem?_map,
      List.getElem?_eq_getElem inside] at kidHere
    have kidEq : node.keys[index].key = kid := Option.some.inj kidHere
    unfold BTreeNode.keyAt
    simp only [List.getElem?_eq_getElem inside, kidEq]

theorem IndexHolds.readsAs {tree : BTree} {disk : Disk} {free : List Nat}
    (isIndex : tree.type = .index) (store : Store disk free) (page : Nat)
    (content : PNode IndexRecord) (holds : IndexHolds disk page content) :
    ReadsAs tree disk page content := by
  cases holds with
  | @leaf node holds here isLeaf small =>
      obtain ⟨metaBytes, loadedEq⟩ := holds.loadedNode_eq store
      subst here
      refine ⟨holds.present, ?_, ?_⟩
      · intro items _
        rw [loadedEq]
        exact isLeaf
      · intro kids seps contents
        cases contents
  | @inner node holds here isInner small =>
      obtain ⟨metaBytes, loadedEq⟩ := holds.loadedNode_eq store
      subst here
      refine ⟨holds.present, ?_, ?_⟩
      · intro items contents
        cases contents
      · intro kids seps contents
        obtain ⟨kidsEq, sepsEq⟩ := PNode.inner.inj contents
        refine ⟨?_, ?_, ?_⟩
        · rw [loadedEq]
          exact isInner
        · unfold keysOn
          rw [loadedEq, ← sepsEq, List.length_map, entries_length]
        · intro index kid kidHere
          rw [loadedEq]
          rw [← kidsEq] at kidHere
          exact readCellPage_index isIndex kidHere

theorem IndexTree.wellShaped {before : IndexRecord → IndexRecord → Prop}
    {tree : BTree} {disk : Disk} {free : List Nat} {height : Nat}
    {pages : List Nat} {flat : List IndexRecord}
    (valid : IndexTree before disk free tree.rootPageId height pages flat)
    (isIndex : tree.type = .index) :
    WellShaped tree disk height tree.rootPageId :=
  wellShaped_of_treeAt (IndexHolds.readsAs isIndex valid.store) valid.tree
    (List.nodup_append.mp valid.apart).1

end BtreeDb
