import BtreeDb.Lib.ListEdit
import BtreeDb.Lib.BinarySearch
import BtreeDb.Pager.Disk

/-!
# Nodes

`btree_node.c`, `btree_cell.c` and `btree_utils.c`.  A node is a page of which
the header and the key array have been parsed; what follows the key array,
down to the end of the page, is `heap`.  Cells are addressed by their distance
from the end of the page, so growing or shrinking the key array takes bytes
from the front of `heap` or gives them back and moves no cell.
-/

namespace BtreeDb

open Bytes

/-- `BTREE_HEADER_SIZE`: the bytes before the node header on page 1. -/
def btreeHeaderSize : Nat := 100

/-- `sizeof(struct BTreePageHeader)`. -/
def pageHeaderSize : Nat := 20

/-- `sizeof(struct BTreePageKey)`. -/
def pageKeySize : Nat := 12

structure PageKey where
  /-- The key, or in an index tree the left child. -/
  key : Nat
  cellOffset : Nat
  flags : Nat
  deriving DecidableEq, Repr

structure BTreeNode where
  /-- `page->page_id`, which `page_number` repeats. -/
  pageNumber : Nat
  metaBytes : List UInt8
  /-- The bytes before the header. -/
  leadBytes : List UInt8
  isLeaf : Bool
  freeHeap : Nat
  rightChild : Nat
  cellHighWaterOffset : Nat
  keys : List PageKey
  heap : List UInt8
  deriving DecidableEq, Repr

/-- `node_num_keys`. -/
abbrev BTreeNode.numKeys (node : BTreeNode) : Nat := node.keys.length

/-! ## Pages and nodes -/

def headerOffset (pageNumber : Nat) : Nat :=
  if pageNumber = 1 then btreeHeaderSize else 0

def pageKeyAt (buffer : List UInt8) (offset : Nat) : PageKey where
  key := u32At buffer offset
  cellOffset := u32At buffer (offset + 4)
  flags := u32At buffer (offset + 8)

def PageKey.bytes (key : PageKey) : List UInt8 :=
  le32 key.key ++ le32 key.cellOffset ++ le32 key.flags

/-- The node size minus its header, `btree_node_calc_heap_capacity`. -/
def heapCapacity (pageNumber pageSize : Nat) : Nat :=
  pageSize - pageHeaderSize - headerOffset pageNumber

/-- The header and the key array as they lie in the page buffer. -/
def nodeOfPage (page : Page) : BTreeNode :=
  let offset := headerOffset page.pageId
  let numKeys := u32At page.pageBuffer (offset + 8)
  let keysOffset := offset + pageHeaderSize
  { pageNumber := page.pageId
    metaBytes := page.metaBytes
    leadBytes := page.pageBuffer.take offset
    isLeaf := page.pageBuffer.getD offset 0 != 0
    freeHeap := u32At page.pageBuffer (offset + 4)
    rightChild := u32At page.pageBuffer (offset + 12)
    cellHighWaterOffset := u32At page.pageBuffer (offset + 16)
    keys := (List.range numKeys).map fun index =>
      pageKeyAt page.pageBuffer (keysOffset + pageKeySize * index)
    heap := page.pageBuffer.drop (keysOffset + pageKeySize * numKeys) }

/-- `btree_node_init_from_page`. -/
def nodeInitFromPage (page : Page) : BTreeNode :=
  let node := nodeOfPage page
  { node with
    freeHeap :=
      if node.numKeys = 0 then
        heapCapacity page.pageId page.pageBuffer.length
      else node.freeHeap }

/-- The bytes of the node header; `is_root` is never set. -/
def BTreeNode.headerBytes (node : BTreeNode) : List UInt8 :=
  [if node.isLeaf then 1 else 0, 0, 0, 0] ++ le32 node.freeHeap ++
    le32 node.numKeys ++ le32 node.rightChild ++
    le32 node.cellHighWaterOffset

/-- The page that backs a node. -/
def BTreeNode.page (node : BTreeNode) : Page where
  pageId := node.pageNumber
  metaBytes := node.metaBytes
  pageBuffer :=
    node.leadBytes ++ node.headerBytes ++ node.keys.flatMap PageKey.bytes ++
      node.heap

/-! ## Sizes and addresses -/

/-- `node->page->page_size`. -/
def BTreeNode.pageSize (node : BTreeNode) : Nat :=
  node.leadBytes.length + pageHeaderSize + pageKeySize * node.numKeys +
    node.heap.length

def btuGetNodeSize (node : BTreeNode) : Nat :=
  node.pageSize - headerOffset node.pageNumber

def btuGetNodeHeapSize (node : BTreeNode) : Nat :=
  btuGetNodeSize node - pageHeaderSize

/-- At least four cells fit a node. -/
def btreeNodeMaxCellSize (node : BTreeNode) : Nat :=
  btuGetNodeHeapSize node / 4

/-- `btu_calc_highwater_offset`: the bytes from a distance to the end of the
page up to the end. -/
def fromHighwater (heap : List UInt8) (highwater : Nat) : List UInt8 :=
  heap.drop (heap.length - highwater)

/-- A key array access; past the array there is the heap. -/
def BTreeNode.keyAt (node : BTreeNode) (index : Nat) : PageKey :=
  match node.keys[index]? with
  | some key => key
  | none => pageKeyAt node.heap (pageKeySize * (index - node.numKeys))

def btuGetCellBuffer (node : BTreeNode) (index : Nat) : List UInt8 :=
  fromHighwater node.heap (node.keyAt index).cellOffset

/-- The size word of the cell, which does not count itself. -/
def cellInlineSize (buffer : List UInt8) : Nat :=
  u32At buffer 0

def btuGetCellBufferSize (node : BTreeNode) (index : Nat) : Nat :=
  cellInlineSize (btuGetCellBuffer node index) + 4

def btuGetCellFlags (node : BTreeNode) (index : Nat) : Nat :=
  (node.keyAt index).flags

/-- `btu_binary_search_keys`; the number of keys arrives as an
`unsigned char`. -/
def btuBinarySearchKeys (keys : List PageKey) (key : Nat) : Bool × Nat :=
  BinarySearch.search
    (BinarySearch.compareAt
      (fun pageKey : PageKey => compare pageKey.key key) keys)
    (keys.length % 2 ^ 8)

/-! ## Cells -/

inductive PageKeyFlags where
  | cellTypeInline
  | cellTypeOverflow
  | unknown
  deriving DecidableEq, Repr

def cellTypeCode : PageKeyFlags → Nat
  | .cellTypeInline => 1
  | .cellTypeOverflow => 2
  | .unknown => 0

/-- `btree_pkey_set_cell_type` on flags without a cell type. -/
def pkeySetCellType (flags : Nat) (flag : PageKeyFlags) : Nat :=
  flags ||| cellTypeCode flag

def pkeyIsCellType (flags : Nat) (flag : PageKeyFlags) : Bool :=
  let test := cellTypeCode flag
  if test = 0 then false else flags % 16 == test

structure BTreeCellInline where
  inlineSize : Nat
  payload : List UInt8
  deriving DecidableEq, Repr

structure BTreeCellOverflow where
  inlineSize : Nat
  totalSize : Nat
  overflowPageId : Nat
  inlinePayload : List UInt8
  deriving DecidableEq, Repr

def cellInlineDiskSize (dataSize : Nat) : Nat := 4 + dataSize

def cellInlineSizeFromDiskSize (heapSize : Nat) : Nat := heapSize - 4

def cellOverflowMinDiskSize : Nat := 4 + 4 + 4

def cellOverflowDiskSize (payloadSize : Nat) : Nat :=
  cellOverflowMinDiskSize + payloadSize

def cellOverflowCalcInlinePayloadSize (inlineSize : Nat) : Nat :=
  inlineSize + 4 - cellOverflowMinDiskSize

/-- `btree_cell_write_inline`. -/
def BTreeCellInline.bytes (cell : BTreeCellInline) : List UInt8 :=
  le32 cell.inlineSize ++ cell.payload.take cell.inlineSize

/-- `btree_cell_read_inline` without a buffer: the payload stays where it
is. -/
def cellReadInline (buffer : List UInt8) : BTreeCellInline where
  inlineSize := cellInlineSize buffer
  payload := buffer.drop 4

/-- `btree_cell_write_overflow_ex`. -/
def BTreeCellOverflow.bytes (cell : BTreeCellOverflow) : List UInt8 :=
  le32 cell.inlineSize ++ le32 cell.totalSize ++ le32 cell.overflowPageId ++
    cell.inlinePayload.take
      (cellOverflowCalcInlinePayloadSize cell.inlineSize)

/-- `btree_cell_read_overflow_ex` without a buffer. -/
def cellReadOverflow (buffer : List UInt8) : BTreeCellOverflow where
  inlineSize := u32At buffer 0
  totalSize := u32At buffer 4
  overflowPageId := u32At buffer 8
  inlinePayload := buffer.drop 12

def heapRequiredForInsertion (cellDiskSize : Nat) : Nat :=
  cellDiskSize + pageKeySize

/-- `btree_min_page_size`: four overflow cells on page 1. -/
def btreeMinPageSize : Nat :=
  btreeHeaderSize + 4 * heapRequiredForInsertion cellOverflowMinDiskSize +
    pageHeaderSize

/-! ## Indexes -/

inductive KeyListIndexMode where
  | limEnd
  | rightChild
  | limIndex
  deriving DecidableEq, Repr

/-- `struct ChildListIndex` and `struct InsertionIndex`. -/
structure ChildListIndex where
  mode : KeyListIndexMode
  index : Nat
  deriving DecidableEq, Repr

def insertEnd : ChildListIndex where
  mode := .limEnd
  index := 0

/-- `btu_init_keylistindex_from_index`. -/
def initKeylistindexFromIndex (node : BTreeNode) (index : Nat) :
    ChildListIndex :=
  if index < node.numKeys then ⟨.limIndex, index⟩
  else if !node.isLeaf then ⟨.rightChild, node.numKeys⟩
  else ⟨.limEnd, node.numKeys⟩

/-- `btu_init_insertion_index_from_index`. -/
def initInsertionIndexFromIndex (node : BTreeNode) (index : Nat) :
    ChildListIndex :=
  if index < node.numKeys then ⟨.limIndex, index⟩
  else ⟨.limEnd, node.numKeys⟩

/-! ## Insertion -/

/-- Write the bytes of a cell below the high water mark. -/
def BTreeNode.writeCell (node : BTreeNode) (cell : List UInt8)
    (cellSize : Nat) : BTreeNode :=
  { node with
    heap := splice node.heap
      (node.heap.length - (node.cellHighWaterOffset + cellSize)) cell }

/-- The position that an insertion index means. -/
def ChildListIndex.number (index : ChildListIndex) (node : BTreeNode) : Nat :=
  if index.mode = .limEnd then node.numKeys else index.index

/-- `write_page_key`: the key array grows over the first bytes of the
heap. -/
def writePageKey (node : BTreeNode) (index : ChildListIndex)
    (key cellSize flags : Nat) : Except Stop BTreeNode :=
  let indexNumber := index.number node
  if indexNumber ≤ node.numKeys then
    .ok { node with
      keys := node.keys.insertIdx indexNumber
        { key := key
          cellOffset := node.cellHighWaterOffset + cellSize
          flags := flags }
      heap := node.heap.drop pageKeySize
      cellHighWaterOffset := node.cellHighWaterOffset + cellSize
      freeHeap := node.freeHeap - heapRequiredForInsertion cellSize }
  else
    .error .assertFailed

/-- `btree_node_insert_inline_ex`. -/
def nodeInsertInlineEx (node : BTreeNode) (index : ChildListIndex)
    (key : Nat) (cell : BTreeCellInline) (flags : Nat) :
    Except Stop BTreeNode :=
  let cellSize := cellInlineDiskSize cell.inlineSize
  if node.freeHeap < heapRequiredForInsertion cellSize then
    .error (.err .errNodeNotEnoughSpace)
  else
    writePageKey (node.writeCell cell.bytes cellSize) index key cellSize flags

/-- `btree_node_insert_inline`. -/
def nodeInsertInline (node : BTreeNode) (index : ChildListIndex)
    (key : Nat) (cell : BTreeCellInline) : Except Stop BTreeNode :=
  nodeInsertInlineEx node index key cell
    (pkeySetCellType 0 .cellTypeInline)

/-- `btree_node_insert_overflow`. -/
def nodeInsertOverflow (node : BTreeNode) (index : ChildListIndex)
    (key : Nat) (cell : BTreeCellOverflow) : Except Stop BTreeNode :=
  let cellSize := cellInlineDiskSize cell.inlineSize
  if node.freeHeap < heapRequiredForInsertion cellSize then
    .error (.err .errNodeNotEnoughSpace)
  else
    writePageKey (node.writeCell cell.bytes cellSize) index key cellSize
      (pkeySetCellType 0 .cellTypeOverflow)

/-! ## Removal -/

/-- One step of the loop of `gc_node`: a cell at or above the deleted one
moves up by its size. -/
def gcStep (deletedOffset shiftSize : Nat) (node : BTreeNode) (index : Nat) :
    BTreeNode :=
  match node.keys[index]? with
  | some key =>
      if key.cellOffset < deletedOffset then node
      else
        let source := fromHighwater node.heap key.cellOffset
        { node with
          heap := splice node.heap
            (node.heap.length - (key.cellOffset - shiftSize))
            (source.take (cellInlineSize source + 4))
          keys := node.keys.set index
            { key with cellOffset := key.cellOffset - shiftSize } }
  | none => node

/-- `gc_node`. -/
def gcNode (node : BTreeNode) (deletedOffset deletedSize : Nat) : BTreeNode :=
  let shiftSize := deletedSize + 4
  let moved := (List.range node.numKeys).foldl
    (gcStep deletedOffset shiftSize) node
  { moved with
    cellHighWaterOffset := moved.cellHighWaterOffset - shiftSize
    freeHeap := moved.freeHeap + heapRequiredForInsertion shiftSize }

/-- Slide the keys over a removed one: one slot more than the array has is
moved, so the freed slot repeats the bytes after it. -/
def BTreeNode.slideKeys (node : BTreeNode) (index : Nat) : BTreeNode :=
  { node with
    keys := node.keys.eraseIdx index
    heap := node.heap.take pageKeySize ++ node.heap }

/-- Removing a key and its cell: the part that `btree_node_remove` and
`ibtree_node_remove` share. -/
def nodeRemoveAt (node : BTreeNode) (index : Nat) : BTreeNode :=
  let deletedOffset := (node.keyAt index).cellOffset
  let deletedInlineSize := cellInlineSize (btuGetCellBuffer node index)
  gcNode (node.slideKeys index) deletedOffset deletedInlineSize

/-- `btree_node_remove`. -/
def btreeNodeRemove (node : BTreeNode) (index : ChildListIndex) :
    Except Stop BTreeNode :=
  match index.mode with
  | .limEnd => .error .assertFailed
  | .rightChild =>
      if node.isLeaf then .error (.err .errKeyNotFound)
      else if node.numKeys = 0 then .error (.err .errUnk)
      else
        -- the rightmost key's child becomes the right child
        let cell := btuGetCellBuffer node (node.numKeys - 1)
        let childValue := fromLe (slice cell 4 (min 4 (cellInlineSize cell)))
        .ok { nodeRemoveAt node (node.numKeys - 1) with
          rightChild := childValue }
  | .limIndex =>
      if index.index < node.numKeys then .ok (nodeRemoveAt node index.index)
      else .error .assertFailed

/-- `ibtree_node_remove` without a holding node.  An index past the keys would
slide a negative number of them. -/
def ibtreeNodeRemove (node : BTreeNode) (index : ChildListIndex) :
    Except Stop BTreeNode :=
  match index.mode with
  | .limEnd => .error .assertFailed
  | .rightChild =>
      if node.isLeaf then .error (.err .errKeyNotFound)
      else if node.numKeys = 0 then .error (.err .errUnk)
      else
        -- the rightmost key's left child becomes the right child
        .ok { nodeRemoveAt node (node.numKeys - 1) with
          rightChild := (node.keyAt (node.numKeys - 1)).key }
  | .limIndex =>
      if index.index < node.numKeys then .ok (nodeRemoveAt node index.index)
      else .error .assertFailed

/-- `btree_node_copy`: everything of the node but its page's identity. -/
def btreeNodeCopy (dest src : BTreeNode) : Except Stop BTreeNode :=
  if btuGetNodeSize src = btuGetNodeSize dest then
    .ok { src with
      pageNumber := dest.pageNumber
      metaBytes := dest.metaBytes
      leadBytes := dest.leadBytes
      freeHeap :=
        if src.numKeys = 0 then heapCapacity dest.pageNumber dest.pageSize
        else src.freeHeap }
  else
    .error .assertFailed

/-- `btree_node_reset`. -/
def btreeNodeReset (node : BTreeNode) : BTreeNode :=
  { node with
    isLeaf := false
    freeHeap := heapCapacity node.pageNumber node.pageSize
    rightChild := 0
    cellHighWaterOffset := 0
    keys := []
    heap := List.replicate
      (heapCapacity node.pageNumber node.pageSize) 0 }

def nodeIsLeafSet (node : BTreeNode) (isLeaf : Bool) : BTreeNode :=
  { node with isLeaf := isLeaf }

def nodeRightChildSet (node : BTreeNode) (rightChild : Nat) : BTreeNode :=
  { node with rightChild := rightChild }

/-- `node_key_at_set`. -/
def nodeKeyAtSet (node : BTreeNode) (index key : Nat) : BTreeNode :=
  { node with
    keys := node.keys.modify index fun pageKey => { pageKey with key := key } }

end BtreeDb
