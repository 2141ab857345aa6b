import BtreeDb.Node.Loaded
import BtreeDb.Node.Removal
import BtreeDb.Node.Writer

/-!
# Filling nodes

What the insertions of `btree_node.c` do to the entries of a node, and what
the moves of cells between nodes do.  A node is known by its frame, its size
and its entries (`Refilled`): the free heap follows from them.
-/

namespace BtreeDb

open Bytes BinarySearch

/-! ## The free heap -/

theorem heapSize_sum (entries : List Entry) :
    (entries.map Entry.heapSize).sum =
      (entries.map Entry.cellSize).sum + pageKeySize * entries.length := by
  induction entries with
  | nil => rfl
  | cons entry entries inductionHypothesis =>
      simp only [List.map_cons, List.sum_cons, List.length_cons,
        inductionHypothesis]
      unfold Entry.heapSize Entry.cellSize pageKeySize
      omega

/-- The free heap is what the entries leave. -/
theorem NodeOk.freeHeap_add {node : BTreeNode} (ok : NodeOk node) :
    node.freeHeap + (node.entries.map Entry.heapSize).sum =
      heapCapacity node.pageNumber node.pageSize := by
  have free := ok.free
  have used := ok.used
  have lead := ok.lead
  rw [heapSize_sum, ← used, entries_length]
  unfold heapCapacity BTreeNode.pageSize BTreeNode.numKeys
  omega

theorem freeHeap_le_pageSize {node : BTreeNode} (ok : NodeOk node) :
    node.freeHeap ≤ node.pageSize := by
  have free := ok.free
  unfold BTreeNode.pageSize
  omega

/-- `after` has the frame and the size of `node` and the given entries. -/
structure Refilled (node : BTreeNode) (entries : List Entry)
    (after : BTreeNode) : Prop where
  frame : SameFrame after node
  ok : NodeOk after
  entries_eq : after.entries = entries
  pageSize_eq : after.pageSize = node.pageSize

theorem Refilled.refl {node : BTreeNode} (ok : NodeOk node) :
    Refilled node node.entries node :=
  ⟨⟨rfl, rfl, rfl, rfl, rfl⟩, ok, rfl, rfl⟩

theorem Refilled.trans {node middle after : BTreeNode}
    {entries others : List Entry} (first : Refilled node entries middle)
    (second : Refilled middle others after) :
    Refilled node others after := by
  obtain ⟨number, metaEq, lead, leaf, right⟩ := second.frame
  obtain ⟨number', metaEq', lead', leaf', right'⟩ := first.frame
  exact ⟨⟨number.trans number', metaEq.trans metaEq', lead.trans lead',
    leaf.trans leaf', right.trans right'⟩, second.ok, second.entries_eq,
    second.pageSize_eq.trans first.pageSize_eq⟩

theorem Refilled.freeHeap_add {node after : BTreeNode} {entries : List Entry}
    (refilled : Refilled node entries after) :
    after.freeHeap + (entries.map Entry.heapSize).sum =
      heapCapacity node.pageNumber node.pageSize := by
  rw [← refilled.entries_eq, refilled.ok.freeHeap_add, refilled.frame.1,
    refilled.pageSize_eq]

theorem btuGetNodeHeapSize_eq (node : BTreeNode) :
    btuGetNodeHeapSize node = heapCapacity node.pageNumber node.pageSize := by
  unfold btuGetNodeHeapSize btuGetNodeSize heapCapacity
  omega

theorem Refilled.maxCellSize_eq {node after : BTreeNode}
    {entries : List Entry} (refilled : Refilled node entries after) :
    btreeNodeMaxCellSize after = btreeNodeMaxCellSize node := by
  unfold btreeNodeMaxCellSize
  rw [btuGetNodeHeapSize_eq, btuGetNodeHeapSize_eq, refilled.frame.1,
    refilled.pageSize_eq]

theorem heapCapacity_le (pageNumber pageSize : Nat) {pageId : Nat}
    (notFirst : pageId ≠ 1) :
    heapCapacity pageNumber pageSize ≤ heapCapacity pageId pageSize := by
  have noOffset : headerOffset pageId = 0 := if_neg notFirst
  unfold heapCapacity
  rw [noOffset]
  omega

theorem maxCellSize_eq {node other : BTreeNode}
    (number : other.pageNumber = node.pageNumber)
    (size : other.pageSize = node.pageSize) :
    btreeNodeMaxCellSize other = btreeNodeMaxCellSize node := by
  unfold btreeNodeMaxCellSize
  rw [btuGetNodeHeapSize_eq, btuGetNodeHeapSize_eq, number, size]

/-- Nodes of one page size: page 1 has the smallest cells. -/
theorem maxCellSize_le {node other : BTreeNode}
    (same : node.pageSize = other.pageSize) (notFirst : other.pageNumber ≠ 1) :
    btreeNodeMaxCellSize node ≤ btreeNodeMaxCellSize other := by
  have capacity := heapCapacity_le node.pageNumber other.pageSize notFirst
  unfold btreeNodeMaxCellSize
  rw [btuGetNodeHeapSize_eq, btuGetNodeHeapSize_eq, same]
  exact Nat.div_le_div_right capacity

theorem encodable_of_entries {node : BTreeNode}
    (right : node.rightChild < 2 ^ 32) (size : node.pageSize < 2 ^ 32)
    (fits : ∀ entry ∈ node.entries, entry.key < 2 ^ 32 ∧
      entry.flags < 2 ^ 32) : Encodable node where
  rightChild_lt := right
  key_lt := fun _ member =>
    (fits _ (List.mem_map_of_mem member)).1
  flags_lt := fun _ member =>
    (fits _ (List.mem_map_of_mem member)).2
  pageSize_lt := size

theorem Encodable.entries {node : BTreeNode} (encodable : Encodable node) :
    ∀ entry ∈ node.entries, entry.key < 2 ^ 32 ∧ entry.flags < 2 ^ 32 := by
  intro entry member
  obtain ⟨key, keyMember, rfl⟩ := List.mem_map.mp member
  exact ⟨encodable.key_lt key keyMember, encodable.flags_lt key keyMember⟩

/-! ## Insertion -/

theorem insertEntry_refilled {node : BTreeNode} {position : Nat}
    {entry : Entry} (ok : NodeOk node)
    (room : entry.heapSize ≤ node.freeHeap) (inside : position ≤ node.numKeys)
    (small : entry.cell.length < 2 ^ 32) :
    Refilled node (node.entries.insertIdx position entry)
      (node.insertEntry position entry) :=
  ⟨⟨rfl, rfl, rfl, rfl, rfl⟩, insertEntry_ok position ok room inside small,
    insertEntry_entries position ok room inside small,
    insertEntry_pageSize position ok room inside⟩

theorem nodeInsertInlineEx_full {node : BTreeNode} {index : ChildListIndex}
    {key flags : Nat} {cell : BTreeCellInline}
    (full : node.freeHeap < 16 + cell.inlineSize) :
    nodeInsertInlineEx node index key cell flags =
      .error (.err .errNodeNotEnoughSpace) := by
  unfold nodeInsertInlineEx heapRequiredForInsertion cellInlineDiskSize
    pageKeySize
  exact if_pos (by omega)

theorem nodeInsertInlineEx_room {node : BTreeNode} {index : ChildListIndex}
    {key flags : Nat} {cell : BTreeCellInline}
    (inside : index.number node ≤ node.numKeys)
    (whole : cell.inlineSize ≤ cell.payload.length)
    (room : 16 + cell.inlineSize ≤ node.freeHeap) :
    nodeInsertInlineEx node index key cell flags =
      .ok (node.insertEntry (index.number node)
        ⟨key, flags, cell.payload.take cell.inlineSize⟩) := by
  have length : (cell.payload.take cell.inlineSize).length =
      cell.inlineSize := by
    rw [List.length_take]
    omega
  unfold nodeInsertInlineEx heapRequiredForInsertion cellInlineDiskSize
  simp only
  rw [if_neg (by unfold pageKeySize; omega)]
  unfold writePageKey BTreeNode.insertEntry Entry.heapSize Entry.cellSize
    heapRequiredForInsertion BTreeCellInline.bytes pageKeySize
  have sameNumber : index.number (node.writeCell
      (le32 cell.inlineSize ++ cell.payload.take cell.inlineSize)
      (4 + cell.inlineSize)) = index.number node := rfl
  have sameKeys : (node.writeCell
      (le32 cell.inlineSize ++ cell.payload.take cell.inlineSize)
      (4 + cell.inlineSize)).numKeys = node.numKeys := rfl
  simp only [sameNumber, sameKeys, length]
  rw [if_pos inside]
  simp only [BTreeNode.writeCell, Except.ok.injEq, BTreeNode.mk.injEq,
    and_true, true_and]
  omega

/-- The bytes of an overflow cell after its size word. -/
def overflowCell (totalSize pageId : Nat) (inlinePayload : List UInt8) :
    List UInt8 :=
  le32 totalSize ++ le32 pageId ++ inlinePayload

theorem overflowCell_length (totalSize pageId : Nat)
    (inlinePayload : List UInt8) :
    (overflowCell totalSize pageId inlinePayload).length =
      8 + inlinePayload.length := by
  simp only [overflowCell, List.length_append, le32_length]

theorem nodeInsertOverflow_room {node : BTreeNode} {index : ChildListIndex}
    {key : Nat} {cell : BTreeCellOverflow}
    (inside : index.number node ≤ node.numKeys)
    (whole : cell.inlineSize ≤ 8 + cell.inlinePayload.length)
    (least : 8 ≤ cell.inlineSize)
    (room : 16 + cell.inlineSize ≤ node.freeHeap) :
    nodeInsertOverflow node index key cell =
      .ok (node.insertEntry (index.number node)
        ⟨key, cellTypeCode .cellTypeOverflow,
          overflowCell cell.totalSize cell.overflowPageId
            (cell.inlinePayload.take (cell.inlineSize - 8))⟩) := by
  have length : (overflowCell cell.totalSize cell.overflowPageId
      (cell.inlinePayload.take (cell.inlineSize - 8))).length =
        cell.inlineSize := by
    rw [overflowCell_length, List.length_take]
    omega
  have sameBytes : cell.bytes = le32 cell.inlineSize ++
      overflowCell cell.totalSize cell.overflowPageId
        (cell.inlinePayload.take (cell.inlineSize - 8)) := by
    unfold BTreeCellOverflow.bytes overflowCell
      cellOverflowCalcInlinePayloadSize cellOverflowMinDiskSize
    rw [show cell.inlineSize + 4 - (4 + 4 + 4) = cell.inlineSize - 8 by omega]
    simp only [List.append_assoc]
  have enough : ¬ node.freeHeap < heapRequiredForInsertion
      (cellInlineDiskSize cell.inlineSize) := by
    unfold heapRequiredForInsertion cellInlineDiskSize pageKeySize
    omega
  unfold nodeInsertOverflow
  simp only
  rw [if_neg enough, sameBytes]
  unfold cellInlineDiskSize
  unfold writePageKey BTreeNode.insertEntry Entry.heapSize Entry.cellSize
    heapRequiredForInsertion pageKeySize
  have sameNumber : ∀ bytes, index.number
      (node.writeCell bytes (4 + cell.inlineSize)) = index.number node :=
    fun _ => rfl
  have sameKeys : ∀ bytes,
      (node.writeCell bytes (4 + cell.inlineSize)).numKeys = node.numKeys :=
    fun _ => rfl
  simp only [sameNumber, sameKeys, length]
  rw [if_pos inside]
  simp only [BTreeNode.writeCell, Except.ok.injEq, BTreeNode.mk.injEq,
    and_true, true_and]
  exact ⟨by omega, rfl⟩

theorem insertEnd_number (node : BTreeNode) :
    insertEnd.number node = node.numKeys := rfl

theorem initInsertionIndexFromIndex_le (node : BTreeNode) (index : Nat) :
    (initInsertionIndexFromIndex node index).number node ≤ node.numKeys := by
  unfold initInsertionIndexFromIndex
  split
  · rename_i inside
    exact Nat.le_of_lt inside
  · exact Nat.le_refl _

theorem initInsertionIndexFromIndex_number {node : BTreeNode} {index : Nat}
    (inside : index ≤ node.numKeys) :
    (initInsertionIndexFromIndex node index).number node = index := by
  unfold initInsertionIndexFromIndex ChildListIndex.number
  split
  · rfl
  · simp only [if_true]
    omega

/-! ## Reading an entry -/

/-- What the code reads of a cell. -/
structure ReadsEntry (node : BTreeNode) (index : Nat) (entry : Entry) :
    Prop where
  key_eq : (node.keyAt index).key = entry.key
  flags_eq : (node.keyAt index).flags = entry.flags
  size_eq : cellInlineSize (btuGetCellBuffer node index) = entry.cell.length
  cell_eq : ((btuGetCellBuffer node index).drop 4).take entry.cell.length =
    entry.cell

theorem NodeOk.reads {node : BTreeNode} {index : Nat} {entry : Entry}
    (ok : NodeOk node) (here : node.entries[index]? = some entry) :
    ReadsEntry node index entry := by
  obtain ⟨key, keyHere, rfl⟩ := entries_getElem? here
  have placed := ok.placed key (List.mem_of_getElem? keyHere)
  have inside := placed.offset_le
  have highWater_le := ok.highWater_le
  have length := cellAt_length (by omega) placed.total_le
  have sizeEq : cellInlineSize (fromHighwater node.heap key.cellOffset) =
      (cellAt node.heap key.cellOffset).length := by
    unfold cellTotal at length
    omega
  refine ⟨?_, ?_, ?_, ?_⟩
  · rw [keyAt_of_getElem? keyHere]
    rfl
  · rw [keyAt_of_getElem? keyHere]
    rfl
  · unfold btuGetCellBuffer
    rw [keyAt_of_getElem? keyHere]
    exact sizeEq
  · unfold btuGetCellBuffer
    rw [keyAt_of_getElem? keyHere]
    unfold entryAt
    simp only
    rw [← sizeEq, cellAt_eq_slice]
    rfl

/-! ## Moving cells -/

/-- Inserting an entry whose bytes come from another node. -/
theorem btreeNodeMoveCellFromData_room {dest : BTreeNode}
    {index : ChildListIndex} {key flags : Nat} {entry : Entry}
    {buffer : List UInt8} (disk : Disk)
    (inside : index.number dest ≤ dest.numKeys)
    (size : cellInlineSize buffer = entry.cell.length)
    (body : (buffer.drop 4).take entry.cell.length = entry.cell)
    (small : entry.cellSize ≤ btreeNodeMaxCellSize dest)
    (room : entry.heapSize ≤ dest.freeHeap) :
    btreeNodeMoveCellFromData dest index key flags buffer entry.cellSize
        disk =
      (.ok (dest.insertEntry (index.number dest) ⟨key, flags, entry.cell⟩),
        disk) := by
  have whole : entry.cell.length ≤ (buffer.drop 4).length := by
    have length := congrArg List.length body
    rw [List.length_take] at length
    omega
  unfold btreeNodeMoveCellFromData
  simp only
  rw [if_pos small]
  unfold cellReadInline
  rw [nodeInsertInlineEx_room inside (by rw [size]; exact whole)
    (by rw [size]; exact room)]
  rw [size, body]
  rfl

theorem btreeNodeMoveCell_room {source dest : BTreeNode} {index : Nat}
    {entry : Entry} (disk : Disk) (sourceOk : NodeOk source)
    (here : source.entries[index]? = some entry)
    (small : entry.cellSize ≤ btreeNodeMaxCellSize dest)
    (room : entry.heapSize ≤ dest.freeHeap) :
    btreeNodeMoveCell source dest index disk =
      (.ok (dest.insertEntry dest.numKeys entry), disk) := by
  have reads := sourceOk.reads here
  have bufferSize : btuGetCellBufferSize source index = entry.cellSize := by
    unfold btuGetCellBufferSize
    rw [reads.size_eq, Entry.cellSize]
    omega
  unfold btreeNodeMoveCell btreeNodeMoveCellEx btreeNodeMoveCellExTo
  rw [bufferSize, reads.key_eq, reads.flags_eq]
  exact btreeNodeMoveCellFromData_room disk (Nat.le_refl _) reads.size_eq
    reads.cell_eq small room

end BtreeDb
