import BtreeDb.Index.Pointers
import BtreeDb.Table.Places
import BtreeDb.Tree.Neighbours

/-!
# Changed nodes of an index tree

What a page of an index tree holds, in terms of the node that is loaded from
it, and what becomes of it when one record passes between two neighbours.
-/

namespace BtreeDb

open Disk PagedTree

/-- The contents of a node of an index tree. -/
def indexContent (node : BTreeNode) : PNode IndexRecord :=
  if node.isLeaf then .leaf (node.entries.map Entry.record)
  else .inner (indexKids node) (node.entries.map Entry.record)

theorem indexContent_leaf {node : BTreeNode} (isLeaf : node.isLeaf = true) :
    indexContent node = .leaf (node.entries.map Entry.record) :=
  if_pos isLeaf

theorem indexContent_inner {node : BTreeNode} (isInner : node.isLeaf = false) :
    indexContent node =
      .inner (indexKids node) (node.entries.map Entry.record) := by
  unfold indexContent
  rw [isInner]
  rfl

section Contents

variable {disk after : Disk} {free : List Nat} {page : Nat} {node : BTreeNode}

theorem index_holds (holds : Holds disk node) (here : node.pageNumber = page)
    (small : SmallCells node) : IndexHolds disk page (indexContent node) := by
  by_cases isLeaf : node.isLeaf = true
  · rw [indexContent_leaf isLeaf]
    exact .leaf holds here isLeaf small
  · have isInner : node.isLeaf = false := Bool.eq_false_iff.mpr isLeaf
    rw [indexContent_inner isInner]
    exact .inner holds here isInner small

/-- A page of an index tree has a node on it whose contents it holds. -/
theorem IndexHolds.ofNode {content : PNode IndexRecord}
    (holds : IndexHolds disk page content) :
    ∃ node, Holds disk node ∧ node.pageNumber = page ∧ SmallCells node ∧
      content = indexContent node := by
  cases holds with
  | @leaf node holds here isLeaf small =>
      exact ⟨node, holds, here, small, (indexContent_leaf isLeaf).symm⟩
  | @inner node holds here isInner small =>
      exact ⟨node, holds, here, small, (indexContent_inner isInner).symm⟩

theorem IndexHolds.congr {content : PNode IndexRecord}
    (holds : IndexHolds disk page content)
    (same : after.buffer? page = disk.buffer? page) :
    IndexHolds after page content := by
  obtain ⟨node, here, rfl, small, rfl⟩ := holds.ofNode
  exact index_holds (here.congr same) rfl small

theorem IndexHolds.functional (disk : Disk) :
    Functional (IndexHolds disk) := by
  intro page left right leftHolds rightHolds
  obtain ⟨node, here, number, _, rfl⟩ := leftHolds.ofNode
  obtain ⟨other, otherHere, otherNumber, _, rfl⟩ := rightHolds.ofNode
  rw [here.unique otherHere (otherNumber.trans number.symm)]
  rfl

/-- The contents of a page, in terms of the node that is loaded from it. -/
theorem IndexHolds.loaded {content : PNode IndexRecord}
    (holds : IndexHolds disk page content) (store : Store disk free) :
    NodeOn disk page ∧ SmallCells (loadedNode disk page) ∧
      content = indexContent (loadedNode disk page) := by
  obtain ⟨node, here, rfl, small, rfl⟩ := holds.ofNode
  obtain ⟨metaBytes, loadedEq⟩ := here.loadedNode_eq store
  rw [NodeOn, loadedEq]
  exact ⟨⟨here.withMeta metaBytes, rfl⟩, small, rfl⟩

/-- The root of a subtree is a leaf or an inner node, as its height says. -/
theorem treeAt_index {height : Nat} {pages : List Nat}
    {flat : List IndexRecord} (store : Store disk free)
    (tree : TreeAt (IndexHolds disk) height page pages flat) :
    NodeOn disk page ∧ SmallCells (loadedNode disk page) ∧
      IndexHolds disk page (indexContent (loadedNode disk page)) ∧
      ((loadedNode disk page).isLeaf = true ↔ height = 0) := by
  cases height with
  | zero =>
      have here := tree.1
      obtain ⟨on, small, contents⟩ := here.loaded store
      rw [contents] at here
      refine ⟨on, small, here, fun _ => rfl, fun _ => ?_⟩
      by_contra notLeaf
      rw [indexContent_inner (Bool.eq_false_iff.mpr notLeaf)] at contents
      cases contents
  | succ height =>
      obtain ⟨kids, seps, own, here, _, _⟩ := tree.row
      obtain ⟨on, small, contents⟩ := here.loaded store
      rw [contents] at here
      refine ⟨on, small, here, fun isLeaf => ?_, fun isZero =>
        absurd isZero (Nat.succ_ne_zero height)⟩
      rw [indexContent_leaf isLeaf] at contents
      cases contents

end Contents

/-- A record passes from the end of a left node to the front of a right one:
the cell that leaves gives its child to the left node, and the cell that
arrives takes the child that the left node had last. -/
theorem passesRight_nodes {left right left' right' : BTreeNode}
    {last first : Entry} (sameKind : right.isLeaf = left.isLeaf)
    (leftKind : left'.isLeaf = left.isLeaf)
    (rightKind : right'.isLeaf = right.isLeaf)
    (leftEntries : left.entries = left'.entries ++ [last])
    (lastChild : left'.rightChild = last.key)
    (rightEntries : right'.entries = first :: right.entries)
    (firstChild : first.key = left.rightChild)
    (rightChild : right'.rightChild = right.rightChild) :
    PassesRight (indexContent left) first.record (indexContent right)
      (indexContent left') last.record (indexContent right') := by
  cases isLeaf : left.isLeaf with
  | true =>
      rw [indexContent_leaf isLeaf, indexContent_leaf (sameKind.trans isLeaf),
        indexContent_leaf (leftKind.trans isLeaf),
        indexContent_leaf (rightKind.trans (sameKind.trans isLeaf)),
        leftEntries, rightEntries, List.map_append]
      exact .leaf _ _ _ _
  | false =>
      have leftKids : indexKids left = indexKids left' ++ [left.rightChild] := by
        unfold indexKids
        rw [leftEntries, List.map_append, lastChild]
        rfl
      have rightKids : indexKids right' =
          left.rightChild :: indexKids right := by
        unfold indexKids
        rw [rightEntries, List.map_cons, firstChild, rightChild]
        rfl
      rw [indexContent_inner isLeaf,
        indexContent_inner (sameKind.trans isLeaf),
        indexContent_inner (leftKind.trans isLeaf),
        indexContent_inner (rightKind.trans (sameKind.trans isLeaf)),
        leftKids, rightKids, leftEntries, rightEntries, List.map_append]
      exact .inner _ _ _ _ _ _ _

end BtreeDb
