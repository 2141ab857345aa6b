import BtreeDb.Node.Rc

/-!
# Reading records from nodes

`btree_node_reader.c`: the payload of a cell, with its overflow pages.
-/

namespace BtreeDb

open Bytes

/-- The loop of `btree_node_read_at` over the overflow pages. -/
def readOverflowPages (bufferSize : Nat) :
    Nat → Nat → List UInt8 → BtM (List UInt8)
  | 0, _, _ => BtM.stop .diverges
  | fuel + 1, nextPageId, written =>
      if nextPageId ≠ 0 ∧ bufferSize > written.length then do
        let (nextPageId, payload) ← btreeOverflowRead nextPageId
          (bufferSize - written.length)
        readOverflowPages bufferSize fuel nextPageId (written ++ payload)
      else
        pure written

/-- `btree_node_read_at`: what is written to a buffer of the given size. -/
def btreeNodeReadAt (node : BTreeNode) (keyIndex bufferSize : Nat) :
    BtM (List UInt8) := do
  let cellBuffer := btuGetCellBuffer node keyIndex
  if pkeyIsCellType (btuGetCellFlags node keyIndex) .cellTypeOverflow then
    let cell := cellReadOverflow cellBuffer
    if cell.totalSize > bufferSize then
      BtM.fail .errBufferTooSmall
    else
      readOverflowPages bufferSize (bufferSize + 1) cell.overflowPageId
        (cell.inlinePayload.take
          (cellOverflowCalcInlinePayloadSize cell.inlineSize))
  else
    let cell := cellReadInline cellBuffer
    if cell.inlineSize > bufferSize then
      BtM.fail .errBufferTooSmall
    else
      pure (cell.payload.take cell.inlineSize)

/-- `btree_node_payload_size_at`. -/
def btreeNodePayloadSizeAt (node : BTreeNode) (index : Nat) : Nat :=
  let cellBuffer := btuGetCellBuffer node index
  if pkeyIsCellType (btuGetCellFlags node index) .cellTypeOverflow then
    (cellReadOverflow cellBuffer).totalSize
  else
    (cellReadInline cellBuffer).inlineSize

end BtreeDb
