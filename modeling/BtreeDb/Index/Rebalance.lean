import BtreeDb.Index.Rotate
import BtreeDb.Table.Rebalance

/-!
# Rebalancing an index tree

`ibta_rebalance` is `bta_rebalance` with the index tree's rotation, merge and
treatment of the root.
-/

namespace BtreeDb

open Bytes BtM

/-! ## The code -/

/-- `pager_freelist_push_page` of a node's page, whose metadata it rewrites. -/
def freelistPushNode (node : BTreeNode) : BtM BTreeNode := do
  let (result, page) ← BtM.ofPager (pagerFreelistPushPage node.page)
  BtM.ofExcept (btpageErr result)
  pure { node with metaBytes := page.metaBytes }

/-- The part of `ibta_rebalance_root` for a child that does not fit the root:
its last cell goes up, and the root gets a second, empty child. -/
def ibtaSplitOnlyChild (root right : BTreeNode) :
    BtM (BTreeNode × BTreeNode) := do
  let empty ← nodercAcquire
  let empty ← nodercPersist (nodeIsLeafSet empty true)
  BtM.assert (empty.pageNumber != 0)
  let root := nodeRightChildSet root empty.pageNumber
  let last := right.numKeys - 1
  let root ← btreeNodeMoveCellEx right root last right.pageNumber
  let right ← BtM.ofExcept (btreeNodeRemove right ⟨.limIndex, last⟩)
  pure (root, right)

/-- The part of `ibta_rebalance_root` for a child that fits the root. -/
def ibtaShrink (root right : BTreeNode) : BtM (BTreeNode × BTreeNode) := do
  let root := nodeIsLeafSet (btreeNodeReset root) true
  let root ← moveEveryCell right (List.range right.numKeys) root
  let right ← freelistPushNode right
  pure (root, right)

/-- A root without keys takes its only child in, or shares its cells. -/
def ibtaRefillRoot (root right : BTreeNode) : BtM (BTreeNode × BTreeNode) :=
  if calcHeapUsed right > heapCapacity root.pageNumber root.pageSize then
    ibtaSplitOnlyChild root right
  else
    ibtaShrink root right

/-- `ibta_rebalance_root`. -/
def ibtaRebalanceRoot (tree : BTree) : BtM Unit := do
  let root ← nodercReinitRead tree.rootPageId
  BtM.assert (!root.isLeaf)
  if root.numKeys > 0 then
    pure ()
  else
    let right ← nodercReinitRead root.rightChild
    BtM.assert right.isLeaf
    let (root, right) ← ibtaRefillRoot root right
    let _ ← nodercPersistN [root, right]

/-- `ibta_rebalance`. -/
def ibtaRebalance (tree : BTree) : CursorM Unit :=
  rebalanceLoop tree (ibtaRotate tree) (ibtaMerge tree)
    (ibtaRebalanceRoot tree) (maxBreadcrumbs + 1) none

/-! ## Every part ends -/

section Ends

variable {tree : BTree}

theorem ibtaLower_ends (mode : RebalanceMode) (parent node : BTreeNode)
    (separator : ChildListIndex) :
    Ends (ibtaLower mode parent node separator) := by
  apply Ends.bind btreeNodeMoveCellFromData_ends
  intro grown
  apply Ends.bind (nodercPersist_ends grown)
  intro stored
  apply Ends.bind (Ends.ofExcept btreeNodeRemove_settled)
  intro smaller
  exact Ends.pure _

theorem ibtaElevate_ends (mode : RebalanceMode) (parent donor : BTreeNode)
    (separator : ChildListIndex) (leftPage : Nat) :
    Ends (ibtaElevate mode parent donor separator leftPage) := by
  apply Ends.bind btreeNodeMoveCellFromData_ends
  intro grown
  apply Ends.bind (nodercPersist_ends grown)
  intro _
  apply Ends.bind (Ends.ofExcept btreeNodeRemove_settled)
  intro smaller
  apply Ends.bind (nodercPersist_ends smaller)
  intro _
  exact Ends.pure _

theorem ibtaRelink_ends (mode : RebalanceMode) (node : BTreeNode)
    (lowered orphan : Nat) : Ends (ibtaRelink mode node lowered orphan) := by
  apply Ends.bind (nodercPersist_ends _)
  intro _
  exact Ends.pure _

theorem ibtaRotate_noDeeper (mode : RebalanceMode) :
    NoDeeper (ibtaRotate tree mode) := by
  intro cursor bound within inside
  apply bind_lift_atMost (Ends.assert _) within
  intro _
  apply Leaves.bind_getCursor
  apply bind_lift_atMost (nodercAcquireLoad_ends _) within
  intro node
  apply bind_atMost (cursorReadParent_atMost within inside)
  intro parent atParent within
  apply bind_atMost (cursorParentIndex_atMost within inside)
  intro index atIndex within
  apply bind_lift_atMost (ibtaLower_ends _ _ _ _) within
  intro lowered
  apply bind_atMost (cursorSibling_atMost _ within inside)
  intro _ atSibling within
  apply bind_atMost (cursorReadCurrent_atMost within)
  intro donor atDonor within
  apply Leaves.bind_getCursor
  apply bind_lift_atMost (ibtaElevate_ends _ _ _ _ _) within
  intro orphan
  apply bind_atMost (cursorSibling_atMost _ within inside)
  intro _ back within
  apply bind_atMost (cursorReadCurrent_atMost within)
  intro again last within
  apply Leaves.weaken (Leaves.lift (ibtaRelink_ends _ _ _ _))
  rintro result after rfl
  exact within

theorem ibtaMergeNodes_atMost (mode : RebalanceMode) {cursor : Cursor}
    {bound : Nat} (within : cursor.depth ≤ bound)
    (inside : bound ≤ maxBreadcrumbs) :
    Leaves (ibtaMergeNodes tree mode) cursor (AtMost bound) := by
  apply bind_atMost (cursorReadParent_atMost within inside)
  intro parent atParent within
  split
  · apply bind_atMost (cursorReadCurrent_atMost within)
    intro left atLeft within
    apply bind_atMost (cursorParentIndex_atMost within inside)
    intro index atIndex within
    apply bind_atMost (cursorSibling_atMost .right within inside)
    intro _ atSibling within
    apply bind_atMost (cursorReadCurrent_atMost within)
    intro right last within
    exact Leaves.pure within
  · apply bind_atMost (cursorReadCurrent_atMost within)
    intro right atRight within
    apply bind_atMost (cursorSibling_atMost .left within inside)
    intro _ atSibling within
    apply bind_atMost (cursorReadCurrent_atMost within)
    intro left atLeft within
    apply bind_atMost (cursorParentIndex_atMost within inside)
    intro index last within
    exact Leaves.pure within

theorem ibtaMergeCells_ends (nodes : MergeNodes) :
    Ends (ibtaMergeCells tree nodes) := by
  apply Ends.bind btreeNodeMoveCellFromData_ends
  intro left
  apply Ends.bind (Ends.ofExcept btreeNodeRemove_settled)
  intro parent
  apply Ends.bind (nodercPersist_ends left)
  intro left
  apply Ends.bind (nodercPersist_ends parent)
  intro parent
  apply Ends.bind (moveEveryCell_ends _ _ _)
  intro left
  apply Ends.bind (Ends.ofExcept (btreeNodeCopy_settled _ _))
  intro right
  apply Ends.bind (nodercPersist_ends right)
  intro right
  apply Ends.bind (freelistPushPage_ends _)
  intro _
  exact Ends.pure _

theorem ibtaMerge_noDeeper (mode : RebalanceMode) :
    NoDeeper (ibtaMerge tree mode) := by
  intro cursor bound within inside
  apply bind_lift_atMost (Ends.assert _) within
  intro _
  apply bind_atMost (ibtaMergeNodes_atMost mode within inside)
  intro nodes later within
  apply bind_lift_atMost (ibtaMergeCells_ends nodes) within
  intro parentDeficient
  split
  · exact Leaves.fail within
  · exact Leaves.pure within

theorem freelistPushNode_ends (node : BTreeNode) :
    Ends (freelistPushNode node) := by
  apply Ends.bind (Ends.ofPager _)
  intro pushed
  apply Ends.bind (Ends.ofExcept (btpageErr_settled _))
  intro _
  exact Ends.pure _

theorem ibtaRefillRoot_ends (root right : BTreeNode) :
    Ends (ibtaRefillRoot root right) := by
  unfold ibtaRefillRoot
  split
  · apply Ends.bind nodercAcquire_ends
    intro empty
    apply Ends.bind (nodercPersist_ends _)
    intro stored
    apply Ends.bind (Ends.assert _)
    intro _
    apply Ends.bind btreeNodeMoveCellFromData_ends
    intro grown
    apply Ends.bind (Ends.ofExcept btreeNodeRemove_settled)
    intro smaller
    exact Ends.pure _
  · apply Ends.bind (moveEveryCell_ends _ _ _)
    intro _
    apply Ends.bind (freelistPushNode_ends right)
    intro _
    exact Ends.pure _

theorem ibtaRebalanceRoot_ends : Ends (ibtaRebalanceRoot tree) := by
  apply Ends.bind (nodercReinitRead_ends _)
  intro root
  apply Ends.bind (Ends.assert _)
  intro _
  split
  · exact Ends.pure _
  · apply Ends.bind (nodercReinitRead_ends _)
    intro right
    apply Ends.bind (Ends.assert _)
    intro _
    apply Ends.bind (ibtaRefillRoot_ends root right)
    intro nodes
    apply Ends.bind (nodercPersistN_ends _)
    intro _
    exact Ends.pure _

end Ends

end BtreeDb
