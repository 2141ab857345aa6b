import BtreeDb.Node.Reader
import BtreeDb.Node.Writer
import BtreeDb.Pager.Cache
import BtreeDb.Tree.Cursor

/-!
# Table trees: insertion and lookup

`btree_init`, `btree_insert` and `btree_select_ex` of `btree.c` with the two
splits of `btree_alg.c`.
-/

namespace BtreeDb

open Bytes

/-! ## Splitting -/

/-- `btree_node_move_cell` where the result is not looked at. -/
def moveCellUnchecked (source dest : BTreeNode) (sourceIndex : Nat) :
    BtM BTreeNode := do
  match ← BtM.attempt (btreeNodeMoveCell source dest sourceIndex) with
  | .ok moved => pure moved
  | .error _ => pure dest

/-- Move a run of cells to the end of another node. -/
def moveCells (source : BTreeNode) : List Nat → BTreeNode → BtM BTreeNode
  | [], dest => pure dest
  | index :: indexes, dest => do
      let dest ← moveCellUnchecked source dest index
      moveCells source indexes dest

/-- `read_key_cell`: the child page in a cell of an inner node. -/
def readKeyCell (source : BTreeNode) (index : Nat) : Nat :=
  u32At (btuGetCellBuffer source index) 4

/-- The left half of `split_node`.  In an inner node the last child of the
left half becomes its right child. -/
def splitLeft (source left : BTreeNode) (firstHalf : Nat) : BtM BTreeNode := do
  let left ← moveCells source (List.range (firstHalf - 1)) left
  if source.isLeaf then moveCellUnchecked source left (firstHalf - 1)
  else pure (nodeRightChildSet left (readKeyCell source (firstHalf - 1)))

/-- The right half of `split_node`. -/
def splitRight (source right : BTreeNode) (firstHalf : Nat) :
    BtM BTreeNode := do
  let right ← moveCells source
    (List.range' firstHalf (source.numKeys - firstHalf)) right
  if source.isLeaf then pure right
  else pure (nodeRightChildSet right source.rightChild)

/-- `split_node` of `btree_alg.c`: the two halves and `left_child_high_key`. -/
def splitNode (source left right : BTreeNode) :
    BtM (BTreeNode × BTreeNode × Nat) :=
  if source.numKeys = 0 then
    pure (left, right, 0)
  else do
    let firstHalf := (source.numKeys + 1) / 2
    let left ← splitLeft source left firstHalf
    let right ← splitRight source right firstHalf
    pure (left, right, (source.keyAt (firstHalf - 1)).key)

structure SplitPageAsParent where
  leftChildPageId : Nat
  leftChildHighKey : Nat
  rightChildPageId : Nat
  deriving DecidableEq, Repr

/-- `bta_split_node_as_parent` up to its common exit. -/
def btaSplitNodeAsParentBody (node : BTreeNode) : BtM SplitPageAsParent := do
  let left ← nodercAcquire
  let right ← nodercAcquire
  let parent ← nodercReinitAs node.pageNumber
  let (left, right, leftChildHighKey) ← splitNode node left right
  let left ← nodercPersist (nodeIsLeafSet left node.isLeaf)
  let right ← nodercPersist (nodeIsLeafSet right node.isLeaf)
  let parent := nodeRightChildSet (nodeIsLeafSet parent false) right.pageNumber
  let parent ← BtM.ofExcept (nodeInsertInline parent insertEnd leftChildHighKey
    { inlineSize := 4, payload := le32 left.pageNumber })
  let node ← BtM.ofExcept (btreeNodeCopy node parent)
  let _ ← nodercPersist node
  pure
    { leftChildPageId := left.pageNumber
      leftChildHighKey := leftChildHighKey
      rightChildPageId := right.pageNumber }

/-- `bta_split_node_as_parent`: it returns `BTREE_OK` whatever happens, and
leaves the caller's zeroed result alone when something fails. -/
def btaSplitNodeAsParent (node : BTreeNode) : BtM SplitPageAsParent := do
  match ← BtM.attempt (btaSplitNodeAsParentBody node) with
  | .ok split => pure split
  | .error _ => pure ⟨0, 0, 0⟩

structure SplitPage where
  leftPageId : Nat
  leftPageHighKey : Nat
  deriving DecidableEq, Repr

/-- `bta_split_node`: the node, which keeps the right half, and what the
caller learns about the left half. -/
def btaSplitNode (node : BTreeNode) : BtM (BTreeNode × SplitPage) := do
  let left ← nodercAcquire
  let right ← nodercReinitAs node.pageNumber
  let (left, right, leftPageHighKey) ← splitNode node left right
  let right ← nodercPersist (nodeIsLeafSet right node.isLeaf)
  let left ← nodercPersist (nodeIsLeafSet left node.isLeaf)
  let node ← BtM.ofExcept (btreeNodeCopy node right)
  pure (node, { leftPageId := left.pageNumber, leftPageHighKey })

/-! ## Insertion -/

/-- The `data` argument of the insertion loop: the caller's bytes, or a
pointer to `split_result.left_page_id`. -/
inductive InsertData where
  | bytes (data : List UInt8)
  | leftPageId
  deriving DecidableEq, Repr

/-- What `data` points to at the moment. -/
def InsertData.read (splitResult : SplitPage) : InsertData → List UInt8
  | .bytes data => data
  | .leftPageId => le32 splitResult.leftPageId

/-- The loop of `btree_insert`; every turn takes a crumb off the stack. -/
def btreeInsertLoop (tree : BTree) :
    Nat → Cursor → Nat → InsertData → SplitPage → BtM Unit
  | 0, _, _, _, _ => BtM.stop .diverges
  | fuel + 1, cursor, key, data, splitResult => do
      let (crumb, cursor) ← BtM.ofExcept (cursorPop cursor)
      let node ← nodercReinitRead crumb.pageId
      match ← BtM.attempt
          (btreeNodeWrite node key (data.read splitResult)) with
      | .ok _ => pure ()
      | .error .errNodeNotEnoughSpace =>
          if node.pageNumber = tree.rootPageId then
            -- the root becomes the parent of its two halves
            let split ← btaSplitNodeAsParent node
            let node ← nodercReinitRead
              (if asInt key ≤ asInt split.leftChildHighKey then
                split.leftChildPageId
              else split.rightChildPageId)
            let _ ← btreeNodeWrite node key (data.read splitResult)
            pure ()
          else
            let (node, splitResult) ← btaSplitNode node
            let node ←
              insertionHalf node key splitResult
            let _ ← btreeNodeWrite node key (data.read splitResult)
            let (crumb, cursor) ← BtM.ofExcept (cursorPop cursor)
            let cursor ← BtM.ofExcept (cursorPushCrumb cursor
              { crumb with keyIndex := ⟨.limIndex, crumb.keyIndex.index⟩ })
            -- next, the left half goes into the parent
            btreeInsertLoop tree fuel cursor splitResult.leftPageHighKey
              .leftPageId splitResult
      | .error code => BtM.fail code
where
  /-- The half of a split node that takes the key. -/
  insertionHalf (node : BTreeNode) (key : Nat) (splitResult : SplitPage) :
      BtM BTreeNode :=
    if asInt key ≤ asInt splitResult.leftPageHighKey then
      nodercReinitRead splitResult.leftPageId
    else pure node

/-- `btree_insert` up to its common exit. -/
def btreeInsertBody (tree : BTree) (key : Nat) (data : List UInt8) :
    BtM Unit := do
  let (_, cursor) ← cursorTraverseTo tree (cursorCreate tree) key
  btreeInsertLoop tree (maxBreadcrumbs + 1) cursor key (.bytes data) ⟨0, 0⟩

/-- `btree_insert`: its common exit returns `BTREE_OK` after every error. -/
def btreeInsert (tree : BTree) (key : Nat) (data : List UInt8) :
    BtM Unit := do
  let _ ← BtM.attempt (btreeInsertBody tree key data)
  pure ()

/-! ## Lookup -/

/-- `btree_select_ex`. -/
def btreeSelectEx (tree : BTree) (key bufferSize : Nat) :
    BtM (List UInt8) := do
  let (found, cursor) ← cursorTraverseTo tree (cursorCreate tree) key
  if !found then
    BtM.fail .errKeyNotFound
  else
    let node ← nodercReinitRead cursor.currentPageId
    BtM.assert (cursor.currentKeyIndex.index != node.numKeys)
    btreeNodeReadAt node cursor.currentKeyIndex.index bufferSize

/-! ## Opening a tree -/

/-- `btree_init_root_page`: a root page that is not in the file is created,
wherever the pager puts it. -/
def btreeInitRootPage (pageId : Nat) : BtM Unit := do
  let disk ← BtM.getDisk
  let (result, page) ← BtM.ofPager
    (pagerReadPage pageId (blankPage disk pageCreateNewPage))
  if result = .errNif then
    let node := nodeIsLeafSet
      (nodeInitFromPage { page with pageId := pageId }) true
    let _ ← writePage { node.page with pageId := pageCreateNewPage }
    pure ()
  else if result = .ok then
    pure ()
  else
    BtM.fail .errPaging

/-- `btree_init` of a table tree. -/
def btreeInit (rootPageId : Nat) : BtM Unit := do
  if (← BtM.getDisk).pageSize < btreeMinPageSize then
    BtM.fail .errInvalidPageSizeTooSmall
  else
    btreeInitRootPage rootPageId

end BtreeDb
