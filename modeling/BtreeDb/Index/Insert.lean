import BtreeDb.Index.Compare
import BtreeDb.Table.Insert
import BtreeDb.Tree.Placed

/-!
# Index trees: insertion

`ibtree_insert_ex` of `ibtree.c` with the two splits and the insertion loop of
`ibtree_alg.c`.  A split takes one cell out of the node; the loop writes it to
the parent, with the left half as its left child.
-/

namespace BtreeDb

open Bytes

/-! ## Splitting -/

/-- `split_node` of `ibtree_alg.c`: the two halves, the node that gets the cell
between them, if there is one, and `left_child_index`. -/
def ibtaSplitCells (source left right : BTreeNode)
    (holding : Option BTreeNode) :
    BtM (BTreeNode × BTreeNode × Option BTreeNode × Nat) :=
  if source.numKeys = 0 then
    pure (left, right, holding, 0)
  else do
    let firstHalf := (source.numKeys + 1) / 2
    let left ← moveCells source (List.range (firstHalf - 1)) left
    let holding ← match holding with
      | some holding => do
          pure (some (← moveCellUnchecked source holding (firstHalf - 1)))
      | none => pure none
    let left := nodeRightChildSet left (source.keyAt (firstHalf - 1)).key
    let right ← moveCells source
      (List.range' firstHalf (source.numKeys - firstHalf)) right
    let right :=
      if source.isLeaf then right
      else nodeRightChildSet right source.rightChild
    pure (left, right, holding, firstHalf - 1)

/-- `ibta_split_node_as_parent` up to its common exit. -/
def ibtaSplitNodeAsParentBody (node : BTreeNode) : BtM SplitPageAsParent := do
  let left ← nodercAcquire
  let right ← nodercAcquire
  let parent ← nodercReinitAs node.pageNumber
  let (left, right, _, leftChildIndex) ← ibtaSplitCells node left right none
  let left ← nodercPersist (nodeIsLeafSet left node.isLeaf)
  let right ← nodercPersist (nodeIsLeafSet right node.isLeaf)
  let parent ← btreeNodeMoveCellEx node parent leftChildIndex left.pageNumber
  let parent := nodeRightChildSet (nodeIsLeafSet parent false) right.pageNumber
  let node ← BtM.ofExcept (btreeNodeCopy node parent)
  let _ ← nodercPersist node
  pure
    { leftChildPageId := left.pageNumber
      leftChildHighKey := leftChildIndex
      rightChildPageId := right.pageNumber }

/-- `ibta_split_node_as_parent`: it returns `BTREE_OK` whatever happens, and
leaves what the caller had in its result alone when something fails. -/
def ibtaSplitNodeAsParent (uninitialized : SplitPageAsParent)
    (node : BTreeNode) : BtM SplitPageAsParent := do
  match ← BtM.attempt (ibtaSplitNodeAsParentBody node) with
  | .ok split => pure split
  | .error _ => pure uninitialized

/-- `ibta_split_node`: the node, which keeps the right half, the holding node
with the cell between the halves, and what the caller learns about the left
half. -/
def ibtaSplitNode (node holdingNode : BTreeNode) :
    BtM (BTreeNode × BTreeNode × SplitPage) := do
  let left ← nodercAcquire
  let right ← nodercReinitAs node.pageNumber
  let (left, right, holding, leftChildIndex) ←
    ibtaSplitCells node left right (some holdingNode)
  let right ← nodercPersist (nodeIsLeafSet right node.isLeaf)
  let left ← nodercPersist (nodeIsLeafSet left node.isLeaf)
  let node ← BtM.ofExcept (btreeNodeCopy node right)
  pure (node, holding.getD holdingNode,
    { leftPageId := left.pageNumber, leftPageHighKey := leftChildIndex })

/-! ## Insertion -/

/-- `enum writer_ex_mode_e`. -/
inductive WriterExMode where
  | raw
  | cellMove
  deriving DecidableEq, Repr

/-- `struct ibta_insert_at`; `data` is as long as `data_size` says. -/
structure IbtaInsertAt where
  data : List UInt8
  flags : Nat
  key : Nat
  mode : WriterExMode
  deriving DecidableEq, Repr

/-- `ibta_insert_at_init`. -/
def ibtaInsertAtInit (data : List UInt8) : IbtaInsertAt where
  data := data
  flags := 0
  key := 0
  mode := .raw

/-- `btree_node_write_ex`. -/
def btreeNodeWriteEx (node : BTreeNode) (insertionIndex : ChildListIndex)
    (insertAt : IbtaInsertAt) : BtM BTreeNode :=
  match insertAt.mode with
  | .raw => btreeNodeWriteAt node insertionIndex insertAt.key insertAt.data
  | .cellMove => btreeNodeWriteCell node insertionIndex insertAt.key
      insertAt.flags insertAt.data

/-- `from_cli`. -/
def fromCli (cli : ChildListIndex) : ChildListIndex where
  mode := if cli.mode = .rightChild then .limEnd else cli.mode
  index := cli.index

/-- `left_or_right_insertion`: `1` for right, `-1` for left. -/
def leftOrRightInsertion (index : ChildListIndex) (node : BTreeNode) : Int :=
  if index.mode ≠ .limIndex then 1
  else if index.index < (node.numKeys + 1) / 2 then -1
  else 1

/-- The index in the half; `index` is a `u32`. -/
def indexInHalf (index : ChildListIndex) (node : BTreeNode) : ChildListIndex :=
  if leftOrRightInsertion index node = 1 then
    { index with
      index := (index.index + (2 ^ 32 - (node.numKeys + 1) / 2)) % 2 ^ 32 }
  else index

/-- The turn of `ibta_insert_at` in a full node other than the root, up to the
write of the payload to one of the halves: the holding node and the split. -/
def ibtaSplitAndWrite (node holdingNode : BTreeNode) (index : ChildListIndex)
    (insertAt : IbtaInsertAt) : BtM (BTreeNode × SplitPage) := do
  let (right, holdingNode, splitResult) ←
    ibtaSplitNode node (btreeNodeReset holdingNode)
  let half ←
    if leftOrRightInsertion index node = -1 then
      nodercReinitRead splitResult.leftPageId
    else pure right
  let _ ← btreeNodeWriteEx half (indexInHalf index node) insertAt
  pure (holdingNode, splitResult)

/-- The turn of `ibta_insert_at` in a full root. -/
def ibtaSplitRootAndWrite (uninitialized : SplitPageAsParent)
    (node : BTreeNode) (index : ChildListIndex) (insertAt : IbtaInsertAt) :
    BtM Unit := do
  let splitResult ← ibtaSplitNodeAsParent uninitialized node
  let half ← nodercReinitRead
    (if leftOrRightInsertion index node = -1 then splitResult.leftChildPageId
    else splitResult.rightChildPageId)
  let _ ← btreeNodeWriteEx half (indexInHalf index node) insertAt
  pure ()

/-- What the holding node makes of the next turn: its cell goes to the parent,
with the left half as its child. -/
def promotedInsertAt (holdingNode : BTreeNode) (splitResult : SplitPage) :
    IbtaInsertAt where
  data := (btuGetCellBuffer holdingNode 0).take
    (btuGetCellBufferSize holdingNode 0)
  flags := (holdingNode.keyAt 0).flags
  key := splitResult.leftPageId
  mode := .cellMove

/-- The loop of `ibta_insert_at`; every turn takes a crumb off the stack.  The
two holding nodes take turns, for the payload may be in the one while the other
is filled. -/
def ibtaInsertAtLoop (tree : BTree) (uninitialized : SplitPageAsParent) :
    Nat → Cursor → IbtaInsertAt → BTreeNode → BTreeNode → BtM Unit
  | 0, _, _, _, _ => BtM.stop .diverges
  | fuel + 1, cursor, insertAt, nextHolding, otherHolding => do
      let (crumb, cursor) ← BtM.ofExcept (cursorPop cursor)
      let node ← nodercReinitRead crumb.pageId
      let index := fromCli crumb.keyIndex
      match ← BtM.attempt (btreeNodeWriteEx node index insertAt) with
      | .ok _ => pure ()
      | .error .errNodeNotEnoughSpace =>
          if node.pageNumber = tree.rootPageId then
            ibtaSplitRootAndWrite uninitialized node index insertAt
          else
            let (holding, splitResult) ←
              ibtaSplitAndWrite node nextHolding index insertAt
            -- next, the cell that is held goes into the parent
            let (crumb, cursor) ← BtM.ofExcept (cursorPop cursor)
            let cursor ← BtM.ofExcept (cursorPushCrumb cursor
              { crumb with keyIndex := ⟨.limIndex, crumb.keyIndex.index⟩ })
            ibtaInsertAtLoop tree uninitialized fuel cursor
              (promotedInsertAt holding splitResult) otherHolding holding
      | .error code => BtM.fail code

/-- `ibta_insert_at`. -/
def ibtaInsertAt (tree : BTree) (uninitialized : SplitPageAsParent)
    (cursor : Cursor) (insertAt : IbtaInsertAt) : BtM Unit := do
  let holdingOne ← nodercAcquire
  let holdingTwo ← nodercAcquire
  ibtaInsertAtLoop tree uninitialized (maxBreadcrumbs + 1) cursor insertAt
    holdingOne holdingTwo

/-- The search of an index node: `btree_node_search_keys` over
`btree_node_compare_cell`. -/
def ibtreeSearchKeys (ctx : BTreeCompareContext) (key : List UInt8) :
    BTreeNode → BtM (Bool × Nat) :=
  nodeSearchKeys fun disk node index =>
    (btreeNodeCompareCell ctx node index key disk).1

/-- `ibtree_insert_ex`. -/
def ibtreeInsertEx (tree : BTree) (ctx : BTreeCompareContext)
    (uninitialized : SplitPageAsParent) (payload : List UInt8) : BtM Unit := do
  let (_, cursor) ← cursorTraverseToEx tree (ibtreeSearchKeys ctx payload)
    (cursorCreate tree)
  ibtaInsertAt tree uninitialized cursor (ibtaInsertAtInit payload)

end BtreeDb
