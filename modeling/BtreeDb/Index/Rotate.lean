import BtreeDb.Index.Merge
import BtreeDb.Pager.Cache
import BtreeDb.Table.Rotate

/-!
# Rotating an entry between two siblings of an index tree

`ibta_rotate` moves the separator of two siblings down to the cursor's node, and
the nearest entry of the sibling up in its place.  It writes the pages one after
the other and reads the node again to relink the children.
-/

namespace BtreeDb

open Disk

/-! ## The code -/

/-- The separator's place in the parent, from that of the cursor's child; the
index is a `u32`. -/
def separatorIndex (mode : RebalanceMode) (parent : BTreeNode)
    (index : ChildListIndex) : ChildListIndex :=
  ⟨.limIndex,
    if mode = .rotateRight then
      if index.mode = .rightChild then u32Pred parent.numKeys
      else u32Pred index.index
    else index.index⟩

/-- `insert_lowered_index`. -/
def loweredIndex (mode : RebalanceMode) (node : BTreeNode) : ChildListIndex :=
  if mode = .rotateRight then ⟨.limIndex, 0⟩ else ⟨.limEnd, node.numKeys⟩

/-- The separator goes down to the node, which is written; the parent stays in
memory. -/
def ibtaLower (mode : RebalanceMode) (parent node : BTreeNode)
    (separator : ChildListIndex) : BtM (BTreeNode × BTreeNode) := do
  -- the lowered cell gets its child at the end
  let node ← btreeNodeMoveCellExTo parent node separator.index
    (loweredIndex mode node) 0
  let node ← nodercPersist node
  let parent ← BtM.ofExcept (btreeNodeRemove parent separator)
  pure (parent, node)

/-- The donor's entry goes up to the parent; the child that is left over. -/
def ibtaElevate (mode : RebalanceMode) (parent donor : BTreeNode)
    (separator : ChildListIndex) (leftPage : Nat) : BtM Nat := do
  let sourceIndex := rotateSourceIndex mode donor
  let parent ← btreeNodeMoveCellExTo donor parent sourceIndex.index separator
    leftPage
  let _ ← nodercPersist parent
  let elevatedChild := (donor.keyAt sourceIndex.index).key
  let orphan :=
    if mode = .rotateRight then donor.rightChild else elevatedChild
  let donor := if mode = .rotateRight then
    nodeRightChildSet donor elevatedChild else donor
  let donor ← BtM.ofExcept (btreeNodeRemove donor sourceIndex)
  let _ ← nodercPersist donor
  pure orphan

/-- The lowered cell gets its child in the node that was deficient. -/
def ibtaRelink (mode : RebalanceMode) (node : BTreeNode)
    (lowered orphan : Nat) : BtM Unit := do
  let node := if mode = .rotateRight then nodeKeyAtSet node lowered orphan
    else nodeKeyAtSet (nodeRightChildSet node orphan) lowered node.rightChild
  let _ ← nodercPersist node

/-- The siblings on the way to the donor and back. -/
def donorSide (mode : RebalanceMode) : CursorSibling :=
  if mode = .rotateRight then .left else .right

def ownSide (mode : RebalanceMode) : CursorSibling :=
  if mode = .rotateRight then .right else .left

/-- `ibta_rotate`. -/
def ibtaRotate (tree : BTree) (mode : RebalanceMode) : CursorM Unit := do
  CursorM.lift (BtM.assert (mode == .rotateLeft || mode == .rotateRight))
  let cursor ← CursorM.getCursor
  let node ← CursorM.lift (nodercAcquireLoad cursor.currentPageId)
  let parent ← cursorReadParent
  let separator := separatorIndex mode parent (← cursorParentIndex)
  let lowered := loweredIndex mode node
  let (parent, node) ← CursorM.lift (ibtaLower mode parent node separator)
  cursorSibling tree (donorSide mode)
  let donor ← cursorReadCurrent
  let atDonor ← CursorM.getCursor
  -- the elevated cell points to the left child
  let orphan ← CursorM.lift (ibtaElevate mode parent donor separator
    (if mode = .rotateRight then atDonor.currentPageId else node.pageNumber))
  -- back to the page that was deficient
  cursorSibling tree (ownSide mode)
  let node ← cursorReadCurrent
  CursorM.lift (ibtaRelink mode node lowered.index orphan)

end BtreeDb
