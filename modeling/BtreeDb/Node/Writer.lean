import BtreeDb.Node.Rc

/-!
# Writing records into nodes

`btree_node_writer.c` and the cell moves of `btree_node.c`: records that do
not fit a cell are continued on overflow pages.
-/

namespace BtreeDb

open Bytes

/-! ## Moving cells -/

/-- `btree_node_move_cell_from_data`: a cell that is too large for the
destination gives its tail to an overflow page. -/
def btreeNodeMoveCellFromData (dest : BTreeNode) (insertIndex : ChildListIndex)
    (key flags : Nat) (cellBuffer : List UInt8) (cellBufferSize : Nat) :
    BtM BTreeNode := do
  let cell := cellReadInline cellBuffer
  let destMaxSize := btreeNodeMaxCellSize dest
  if cellBufferSize ≤ destMaxSize then
    BtM.ofExcept (nodeInsertInlineEx dest insertIndex key cell flags)
  else
    let bytesOverflown := heapRequiredForInsertion cellBufferSize - destMaxSize
    let inlineSize := cell.inlineSize - bytesOverflown
    let newInlinePayloadSize := cellOverflowCalcInlinePayloadSize inlineSize
    let isOverflow := pkeyIsCellType flags .cellTypeOverflow
    let readCell := cellReadOverflow cellBuffer
    let payload := if isOverflow then readCell.inlinePayload else cell.payload
    let payloadSize :=
      if isOverflow then cellOverflowCalcInlinePayloadSize cell.inlineSize
      else cell.inlineSize
    let followPageId := if isOverflow then readCell.overflowPageId else 0
    let pageId ← btreeOverflowWrite
      (slice payload newInlinePayloadSize (payloadSize - newInlinePayloadSize))
      followPageId
    BtM.ofExcept (nodeInsertOverflow dest insertIndex key
      { inlineSize := inlineSize
        totalSize := cell.inlineSize
        overflowPageId := pageId
        inlinePayload := payload })

def btreeNodeMoveCellExTo (source dest : BTreeNode) (sourceIndex : Nat)
    (destIndex : ChildListIndex) (newKey : Nat) : BtM BTreeNode :=
  btreeNodeMoveCellFromData dest destIndex newKey
    (source.keyAt sourceIndex).flags (btuGetCellBuffer source sourceIndex)
    (btuGetCellBufferSize source sourceIndex)

def btreeNodeMoveCellEx (source dest : BTreeNode) (sourceIndex newKey : Nat) :
    BtM BTreeNode :=
  btreeNodeMoveCellExTo source dest sourceIndex insertEnd newKey

def btreeNodeMoveCell (source dest : BTreeNode) (sourceIndex : Nat) :
    BtM BTreeNode :=
  btreeNodeMoveCellEx source dest sourceIndex (source.keyAt sourceIndex).key

/-- The key that a removal takes out. -/
def removedIndex (node : BTreeNode) (index : ChildListIndex) : Nat :=
  if index.mode = .rightChild then node.numKeys - 1 else index.index

/-- `ibtree_node_remove` with a holding node, which gets the removed cell. -/
def ibtreeNodeRemoveTo (node : BTreeNode) (index : ChildListIndex)
    (holdingNode : BTreeNode) : BtM (BTreeNode × BTreeNode) := do
  let removed ← BtM.ofExcept (ibtreeNodeRemove node index)
  let holdingNode ←
    btreeNodeMoveCell node holdingNode (removedIndex node index)
  pure (removed, holdingNode)

/-! ## Writing records -/

/-- How many overflow pages the bytes after the inline part take, and the
length of the last one.  The fuel is the number of bytes. -/
def overflowSlices (writable : Nat) : Nat → Nat → Nat × Nat
  | 0, size => (1, size)
  | fuel + 1, size =>
      if size > writable then
        let (pages, last) := overflowSlices writable fuel (size - writable)
        (pages + 1, last)
      else
        (1, size)

/-- The loop that writes the overflow pages, the last one first.  It gives the
page of the first slice and the offset of the inline payload. -/
def writeOverflowPages (data : List UInt8) (inlinePayloadSize writable : Nat) :
    Nat → Nat → Nat → Nat → Nat → BtM (Nat × Nat)
  | 0, offset, size, lastPageId, _ => do
      let _ ← btreeOverflowWrite (slice data offset size) lastPageId
      BtM.stop .assertFailed
  | pages + 1, offset, size, lastPageId, written => do
      let pageId ← btreeOverflowWrite (slice data offset size) lastPageId
      let offset :=
        if pages = 0 then offset - inlinePayloadSize else offset - writable
      let written := written + size
      if written < data.length - inlinePayloadSize then
        writeOverflowPages data inlinePayloadSize writable pages offset
          writable pageId written
      else
        pure (pageId, offset)

/-- The part of `btree_node_write_ex` for a record that needs overflow
pages. -/
def btreeNodeWriteOverflow (node : BTreeNode) (insertionIndex : ChildListIndex)
    (key : Nat) (data : List UInt8) : BtM BTreeNode := do
  let maxHeapUsage := min (btreeNodeMaxCellSize node) node.freeHeap
  let minHeapRequired := heapRequiredForInsertion cellOverflowMinDiskSize
  if minHeapRequired > maxHeapUsage then
    BtM.fail .errNodeNotEnoughSpace
  else
    let inlinePayloadSize := maxHeapUsage - minHeapRequired
    let writable := btreeOverflowMaxWriteSize (← BtM.getDisk)
    let overflowSize := data.length - inlinePayloadSize
    let (pages, lastSize) := overflowSlices writable overflowSize overflowSize
    let (pageId, offset) ← writeOverflowPages data inlinePayloadSize writable
      pages (inlinePayloadSize + writable * (pages - 1)) lastSize 0 0
    -- the page is read again: allocation may have changed it
    let node := nodeOfPage (← readPage node.pageNumber)
    let node ← BtM.ofExcept (nodeInsertOverflow node insertionIndex key
      { inlineSize := cellInlineSizeFromDiskSize
          (cellOverflowDiskSize inlinePayloadSize)
        totalSize := data.length
        overflowPageId := pageId
        inlinePayload := data.drop offset })
    nodercPersist node

/-- `btree_node_write_ex` with `WRITER_EX_MODE_RAW`. -/
def btreeNodeWriteAt (node : BTreeNode) (insertionIndex : ChildListIndex)
    (key : Nat) (data : List UInt8) : BtM BTreeNode := do
  let heapSize := heapRequiredForInsertion (cellInlineDiskSize data.length)
  if heapSize ≤ btreeNodeMaxCellSize node then
    let node ← BtM.ofExcept (nodeInsertInline node insertionIndex key
      { inlineSize := data.length, payload := data })
    nodercPersist node
  else
    btreeNodeWriteOverflow node insertionIndex key data

/-- `btree_node_write_ex` with `WRITER_EX_MODE_CELL_MOVE`. -/
def btreeNodeWriteCell (node : BTreeNode) (insertionIndex : ChildListIndex)
    (key flags : Nat) (cell : List UInt8) : BtM BTreeNode := do
  let node ← btreeNodeMoveCellFromData node insertionIndex key flags cell
    cell.length
  nodercPersist node

/-- `btree_node_write`: at the place that the key search gives. -/
def btreeNodeWrite (node : BTreeNode) (key : Nat) (data : List UInt8) :
    BtM BTreeNode :=
  btreeNodeWriteAt node
    (initInsertionIndexFromIndex node (btuBinarySearchKeys node.keys key).2)
    key data

end BtreeDb
