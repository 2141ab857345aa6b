import BtreeDb.Tree.Merging
import BtreeDb.Tree.WalkRecords

/-!
# Merging two siblings of an index tree

`ibta_merge` puts the separator and the right node's cells behind those of the
left node, writes the result to the right node's page, takes the separator out
of the parent and frees a page.  The slot it takes out is the left node's, so
the parent goes on naming the right page; and it is the right page that is
freed.
-/

namespace BtreeDb

open Disk

/-! ## The code -/

/-- The first part of `ibta_merge`: the cursor goes from the one sibling to
the other. -/
def ibtaMergeNodes (tree : BTree) (mode : RebalanceMode) :
    CursorM MergeNodes := do
  let parent ← cursorReadParent
  if mode = .mergeRight then
    -- the cursor points to the left child
    let left ← cursorReadCurrent
    let parentIndex ← cursorParentIndex
    cursorSibling tree .right
    let right ← cursorReadCurrent
    pure ⟨parent, left, right, parentIndex⟩
  else
    let right ← cursorReadCurrent
    cursorSibling tree .left
    let left ← cursorReadCurrent
    let parentIndex ← cursorParentIndex
    pure ⟨parent, left, right, parentIndex⟩

/-- The rest of `ibta_merge`: whether the parent has become deficient. -/
def ibtaMergeCells (tree : BTree) (nodes : MergeNodes) : BtM Bool := do
  -- the separator comes down, with the left node's right child left of it
  let left ← btreeNodeMoveCellEx nodes.parent nodes.left
    nodes.parentIndex.index nodes.left.rightChild
  let parent ← BtM.ofExcept (btreeNodeRemove nodes.parent nodes.parentIndex)
  let left ← nodercPersist left
  let parent ← nodercPersist parent
  let parentDeficient := decide (parent.numKeys < tree.underflow)
  let left ← moveEveryCell nodes.right (List.range nodes.right.numKeys) left
  let left := nodeRightChildSet left nodes.right.rightChild
  let right ← BtM.ofExcept (btreeNodeCopy nodes.right left)
  let right ← nodercPersist right
  freelistPushPage right.page
  pure parentDeficient

/-- `ibta_merge`. -/
def ibtaMerge (tree : BTree) (mode : RebalanceMode) : CursorM Unit := do
  CursorM.lift (BtM.assert (mode == .mergeLeft || mode == .mergeRight))
  let nodes ← ibtaMergeNodes tree mode
  let parentDeficient ← CursorM.lift (ibtaMergeCells tree nodes)
  if parentDeficient then
    CursorM.fail .errParentDeficient
  else
    pure ()

/-! ## What a merge is for -/

/-- The pages below an inner node, in order. -/
def childPages (tree : BTree) (disk : Disk) (page : Nat) : List Nat :=
  (List.range (keysOn disk page + 1)).map (childPage tree disk page)

/-- The records below a page of an index tree, in order. -/
def recordsBelow (tree : BTree) (disk : Disk) (height page : Nat) :
    List IndexRecord :=
  (inOrder tree disk height page).map (recordOn disk)

/-- A merge below a parent keeps the records there, takes one separator out of
the parent, and puts one page on the free list: the child that the parent does
not name any more. -/
structure MergeKeepsPages (tree : BTree) (disk : Disk) (free : List Nat)
    (after : Disk) (height parent : Nat) : Prop where
  records : recordsBelow tree after height parent =
    recordsBelow tree disk height parent
  separator : keysOn after parent + 1 = keysOn disk parent
  pushed : FreeChain after (after.nextFree 1) (after.nextFree 1 :: free)
  wasChild : after.nextFree 1 ∈ childPages tree disk parent
  noChild : after.nextFree 1 ∉ childPages tree after parent

end BtreeDb
