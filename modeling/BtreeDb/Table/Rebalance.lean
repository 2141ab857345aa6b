import BtreeDb.Table.Merge
import BtreeDb.Tree.Turns

/-!
# Rebalancing a table tree

`bta_rebalance` goes up from an underflown node and rotates or merges at every
level, until a parent has keys enough or the root is reached.
-/

namespace BtreeDb

open Bytes BtM

/-! ## The code -/

/-- `calc_heap_used`. -/
def calcHeapUsed (node : BTreeNode) : Nat :=
  heapCapacity node.pageNumber node.pageSize - node.freeHeap

/-- The part of `bta_rebalance_root` for a child that does not fit the root:
the root gets a second, empty child. -/
def btaSplitOnlyChild (root right : BTreeNode) : BtM Unit := do
  let empty ← nodercAcquire
  let empty ← nodercPersist (nodeIsLeafSet empty true)
  BtM.assert (empty.pageNumber != 0)
  let root := nodeRightChildSet root empty.pageNumber
  let highKey := (right.keyAt (right.numKeys - 1)).key
  let _ ← btreeNodeWriteAt root insertEnd highKey (le32 right.pageNumber)

/-- The part of `bta_rebalance_root` for a child that fits the root.  The reset
takes `is_leaf` away again, and the root is not written. -/
def btaShrink (root right : BTreeNode) : BtM Unit := do
  let root := btreeNodeReset (nodeIsLeafSet root true)
  let _ ← moveEveryCell right (List.range right.numKeys) root
  freelistPushPage right.page

/-- `bta_rebalance_root`. -/
def btaRebalanceRoot (tree : BTree) : BtM Unit := do
  let root ← nodercReinitRead tree.rootPageId
  BtM.assert (!root.isLeaf)
  if root.numKeys > 0 then
    pure ()
  else
    let right ← nodercReinitRead root.rightChild
    BtM.assert right.isLeaf
    if calcHeapUsed right > heapCapacity root.pageNumber root.pageSize then
      btaSplitOnlyChild root right
    else
      btaShrink root right

/-- `bta_rebalance`. -/
def btaRebalance (tree : BTree) : CursorM Unit :=
  rebalanceLoop tree (btaRotate tree) (btaMerge tree) (btaRebalanceRoot tree)
    (maxBreadcrumbs + 1) none

/-! ## Every part ends -/

section Ends

variable {tree : BTree}

theorem nodercAcquireLoad_ends (pageId : Nat) :
    Ends (nodercAcquireLoad pageId) := by
  unfold nodercAcquireLoad
  split
  · exact nodercAcquire_ends
  · exact nodercReinitRead_ends pageId

theorem btreeNodeReadInlineAsPage_settled {node : BTreeNode}
    {index : ChildListIndex} :
    Settled (btreeNodeReadInlineAsPage node index) := by
  unfold btreeNodeReadInlineAsPage
  split
  · exact settled_assertFailed
  · split
    · exact settled_ok _
    · exact settled_ok _

theorem btaRotateLeaf_ends (mode : RebalanceMode) (nodes : RotateNodes) :
    Ends (btaRotateLeaf mode nodes) := by
  apply Ends.bind btreeNodeMoveCellFromData_ends
  intro dest
  apply Ends.bind (Ends.ofExcept btreeNodeRemove_settled)
  intro source
  exact Ends.pure _

theorem btaRotateInner_ends (mode : RebalanceMode) (nodes : RotateNodes) :
    Ends (btaRotateInner mode nodes) := by
  apply Ends.bind (Ends.ofExcept btreeNodeReadInlineAsPage_settled)
  intro child
  apply Ends.bind (btreeNodeWriteAt_ends _)
  intro dest
  apply Ends.bind (Ends.ofExcept btreeNodeRemove_settled)
  intro source
  exact Ends.pure _

theorem cursorParentIndex_atMost {cursor : Cursor} {bound : Nat}
    (within : cursor.depth ≤ bound) (inside : bound ≤ maxBreadcrumbs) :
    Leaves cursorParentIndex cursor (AtMost bound) :=
  peekBelow_atMost (fun crumb => crumb.keyIndex) within inside

theorem cursorParentCrumb_atMost {cursor : Cursor} {bound : Nat}
    (within : cursor.depth ≤ bound) (inside : bound ≤ maxBreadcrumbs) :
    Leaves cursorParentCrumb cursor (AtMost bound) :=
  peekBelow_atMost (fun crumb => crumb) within inside

theorem btaRotateNodes_atMost (mode : RebalanceMode) {cursor : Cursor}
    {bound : Nat} (within : cursor.depth ≤ bound)
    (inside : bound ≤ maxBreadcrumbs) :
    Leaves (btaRotateNodes tree mode) cursor (AtMost bound) := by
  apply bind_atMost (cursorReadParent_atMost within inside)
  intro parent atParent within
  apply bind_atMost (cursorReadCurrent_atMost within)
  intro dest atDest within
  split
  · apply bind_atMost (cursorParentIndex_atMost within inside)
    intro index atIndex within
    apply bind_atMost (cursorSibling_atMost .right within inside)
    intro _ atSibling within
    apply bind_atMost (cursorReadCurrent_atMost within)
    intro source last within
    exact Leaves.pure within
  · apply bind_atMost (cursorSibling_atMost .left within inside)
    intro _ atSibling within
    apply bind_atMost (cursorParentIndex_atMost within inside)
    intro index atIndex within
    apply bind_atMost (cursorReadCurrent_atMost within)
    intro source last within
    exact Leaves.pure within

theorem btaRotate_noDeeper (mode : RebalanceMode) :
    NoDeeper (btaRotate tree mode) := by
  intro cursor bound within inside
  apply bind_lift_atMost (Ends.assert _) within
  intro _
  apply bind_atMost (btaRotateNodes_atMost mode within inside)
  intro nodes later within
  apply bind_lift_atMost _ within
  · intro rotated
    apply bind_lift_atMost (nodercPersistN_ends _) within
    intro _
    exact Leaves.pure within
  · split
    · exact btaRotateLeaf_ends mode nodes
    · exact btaRotateInner_ends mode nodes

theorem btaMergePages_atMost (mode : RebalanceMode) {cursor : Cursor}
    {bound : Nat} (within : cursor.depth ≤ bound)
    (inside : bound ≤ maxBreadcrumbs) :
    Leaves (btaMergePages tree mode) cursor (AtMost bound) := by
  apply Leaves.bind_getCursor
  split
  · apply bind_atMost (cursorParentCrumb_atMost within inside)
    intro crumb atCrumb within
    apply bind_atMost (cursorSibling_atMost .right within inside)
    intro _ atSibling within
    apply Leaves.bind_getCursor
    exact Leaves.pure within
  · apply bind_atMost (cursorSibling_atMost .left within inside)
    intro _ atSibling within
    apply bind_atMost (cursorParentCrumb_atMost within inside)
    intro crumb atCrumb within
    apply Leaves.bind_getCursor
    exact Leaves.pure within

theorem btaMergeLoad_ends (ids : MergePageIds) : Ends (btaMergeLoad ids) := by
  apply Ends.bind (nodercAcquireLoad_ends _)
  intro left
  apply Ends.bind (nodercAcquireLoad_ends _)
  intro right
  apply Ends.bind (nodercAcquireLoad_ends _)
  intro parent
  exact Ends.pure _

theorem btaMergeContents_ends (nodes : MergeNodes) :
    Ends (btaMergeContents nodes) := by
  unfold btaMergeContents
  simp only
  split
  · exact moveEveryCell_ends _ _ _
  · apply Ends.bind (btreeNodeWriteAt_ends _)
    intro grown
    apply Ends.bind (moveEveryCell_ends _ _ _)
    intro left
    exact Ends.pure _

theorem btaMergeNodes_ends (nodes : MergeNodes) :
    Ends (btaMergeNodes tree nodes) := by
  apply Ends.bind (btaMergeContents_ends nodes)
  intro left
  apply Ends.bind (Ends.ofExcept btreeNodeRemove_settled)
  intro parent
  apply Ends.bind (Ends.ofExcept (btreeNodeCopy_settled _ _))
  intro right
  apply Ends.bind (nodercPersistN_ends _)
  intro stored
  apply Ends.bind (freelistPushPage_ends _)
  intro _
  exact Ends.pure _

theorem btaMerge_noDeeper (mode : RebalanceMode) :
    NoDeeper (btaMerge tree mode) := by
  intro cursor bound within inside
  apply bind_lift_atMost (Ends.assert _) within
  intro _
  apply bind_atMost (btaMergePages_atMost mode within inside)
  intro ids later within
  apply bind_lift_atMost (btaMergeLoad_ends ids) within
  intro nodes
  apply bind_lift_atMost (btaMergeNodes_ends nodes) within
  intro parentDeficient
  split
  · exact Leaves.fail within
  · exact Leaves.pure within

theorem btaRebalanceRoot_ends : Ends (btaRebalanceRoot tree) := by
  apply Ends.bind (nodercReinitRead_ends _)
  intro root
  apply Ends.bind (Ends.assert _)
  intro _
  split
  · exact Ends.pure _
  · apply Ends.bind (nodercReinitRead_ends _)
    intro right
    apply Ends.bind (Ends.assert _)
    intro _
    split
    · apply Ends.bind nodercAcquire_ends
      intro empty
      apply Ends.bind (nodercPersist_ends _)
      intro stored
      apply Ends.bind (Ends.assert _)
      intro _
      apply Ends.bind (btreeNodeWriteAt_ends _)
      intro _
      exact Ends.pure _
    · apply Ends.bind (moveEveryCell_ends _ _ _)
      intro _
      exact freelistPushPage_ends _

end Ends

end BtreeDb
