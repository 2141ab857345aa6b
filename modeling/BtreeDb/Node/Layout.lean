import BtreeDb.Node.Defs

/-!
# The layout of a node's cells

`entries` reads a node as the list of its keys, flags and cell contents.
`NodeOk` is the layout invariant that the operations keep: the cells lie
between the high water mark and the end of the page, no two of them overlap,
and the free space is counted right.
-/

namespace BtreeDb

open Bytes

/-- A key of a node with its flags and the bytes of its cell after the size
word. -/
structure Entry where
  key : Nat
  flags : Nat
  cell : List UInt8
  deriving DecidableEq, Repr

/-- The size of the entry's cell on the page. -/
def Entry.cellSize (entry : Entry) : Nat := 4 + entry.cell.length

/-- The heap an entry takes, its key included. -/
def Entry.heapSize (entry : Entry) : Nat := 16 + entry.cell.length

/-- The size of the cell at a distance from the end. -/
def cellTotal (heap : List UInt8) (offset : Nat) : Nat :=
  4 + cellInlineSize (fromHighwater heap offset)

/-- The cell at a distance from the end, with its size word. -/
def rawCell (heap : List UInt8) (offset : Nat) : List UInt8 :=
  slice heap (heap.length - offset) (cellTotal heap offset)

def cellAt (heap : List UInt8) (offset : Nat) : List UInt8 :=
  slice heap (heap.length - offset + 4)
    (cellInlineSize (fromHighwater heap offset))

def entryAt (heap : List UInt8) (key : PageKey) : Entry where
  key := key.key
  flags := key.flags
  cell := cellAt heap key.cellOffset

def BTreeNode.entries (node : BTreeNode) : List Entry :=
  node.keys.map (entryAt node.heap)

/-- The cells of two keys do not overlap. -/
def Apart (heap : List UInt8) (left right : PageKey) : Prop :=
  left.cellOffset + cellTotal heap right.cellOffset ≤ right.cellOffset ∨
    right.cellOffset + cellTotal heap left.cellOffset ≤ left.cellOffset

/-- The cells of a key list lie inside the heap. -/
structure Placed (heap : List UInt8) (highWater : Nat) (key : PageKey) :
    Prop where
  total_le : cellTotal heap key.cellOffset ≤ key.cellOffset
  offset_le : key.cellOffset ≤ highWater

structure NodeOk (node : BTreeNode) : Prop where
  lead : node.leadBytes.length = headerOffset node.pageNumber
  free : node.freeHeap + node.cellHighWaterOffset = node.heap.length
  used : node.cellHighWaterOffset = (node.entries.map Entry.cellSize).sum
  placed : ∀ key ∈ node.keys, Placed node.heap node.cellHighWaterOffset key
  apart : node.keys.Pairwise (Apart node.heap)

@[simp]
theorem entries_length (node : BTreeNode) :
    node.entries.length = node.keys.length := by
  simp [BTreeNode.entries]

theorem entries_getElem? {node : BTreeNode} {index : Nat} {entry : Entry}
    (here : node.entries[index]? = some entry) :
    ∃ key, node.keys[index]? = some key ∧ entry = entryAt node.heap key := by
  unfold BTreeNode.entries at here
  rw [List.getElem?_map] at here
  cases found : node.keys[index]? with
  | none =>
      rw [found] at here
      cases here
  | some key =>
      rw [found] at here
      exact ⟨key, rfl, (Option.some.inj here).symm⟩

theorem NodeOk.highWater_le {node : BTreeNode} (ok : NodeOk node) :
    node.cellHighWaterOffset ≤ node.heap.length := by
  have free := ok.free
  omega

/-! ## Reading cells -/

theorem fromHighwater_length {heap : List UInt8} {offset : Nat}
    (bound : offset ≤ heap.length) :
    (fromHighwater heap offset).length = offset := by
  rw [fromHighwater, List.length_drop]
  omega

theorem cellInlineSize_eq (heap : List UInt8) (offset : Nat) :
    cellInlineSize (fromHighwater heap offset) =
      u32At heap (heap.length - offset) := by
  unfold cellInlineSize fromHighwater u32At
  rw [slice_drop]
  rfl

/-- A cell is determined by its bytes. -/
theorem cellTotal_of_rawCell {heap other : List UInt8} {offset place : Nat}
    (same : slice other (other.length - place) (cellTotal heap offset) =
      rawCell heap offset) :
    cellTotal other place = cellTotal heap offset := by
  have word := congrArg (fun bytes => slice bytes 0 4) same
  unfold rawCell at word
  rw [slice_slice (by unfold cellTotal; omega),
    slice_slice (by unfold cellTotal; omega)] at word
  unfold cellTotal
  rw [cellInlineSize_eq, cellInlineSize_eq, u32At, u32At]
  exact congrArg (fun bytes => 4 + fromLe bytes) word

theorem cellAt_of_rawCell {heap other : List UInt8} {offset place : Nat}
    (same : slice other (other.length - place) (cellTotal heap offset) =
      rawCell heap offset) :
    cellAt other place = cellAt heap offset := by
  have total := cellTotal_of_rawCell same
  have body := congrArg
    (fun bytes => slice bytes 4 (cellInlineSize (fromHighwater heap offset)))
    same
  unfold rawCell at body
  rw [slice_slice (by unfold cellTotal; omega),
    slice_slice (by unfold cellTotal; omega)] at body
  unfold cellTotal at total
  unfold cellAt
  rw [show cellInlineSize (fromHighwater other place) =
    cellInlineSize (fromHighwater heap offset) by omega]
  exact body

/-- A cell depends on the heap behind its place only. -/
theorem cellTotal_congr {heap other : List UInt8} {offset : Nat}
    (same : fromHighwater other offset = fromHighwater heap offset) :
    cellTotal other offset = cellTotal heap offset := by
  unfold cellTotal
  rw [same]

theorem cellAt_eq_slice (heap : List UInt8) (offset : Nat) :
    cellAt heap offset =
      slice (fromHighwater heap offset) 4
        (cellInlineSize (fromHighwater heap offset)) := by
  unfold cellAt fromHighwater
  rw [slice_drop]

theorem cellAt_congr {heap other : List UInt8} {offset : Nat}
    (same : fromHighwater other offset = fromHighwater heap offset) :
    cellAt other offset = cellAt heap offset := by
  rw [cellAt_eq_slice, cellAt_eq_slice, same]

theorem entryAt_congr {heap other : List UInt8} {key : PageKey}
    (same : fromHighwater other key.cellOffset =
      fromHighwater heap key.cellOffset) :
    entryAt other key = entryAt heap key := by
  unfold entryAt
  rw [cellAt_congr same]

theorem cellAt_length {heap : List UInt8} {offset : Nat}
    (bound : offset ≤ heap.length) (total : cellTotal heap offset ≤ offset) :
    (cellAt heap offset).length + 4 = cellTotal heap offset := by
  unfold cellTotal at total ⊢
  unfold cellAt
  rw [slice_length (by omega)]
  omega

theorem Placed.cellSize_eq {heap : List UInt8} {highWater : Nat}
    {key : PageKey} (placed : Placed heap highWater key)
    (bound : highWater ≤ heap.length) :
    (entryAt heap key).cellSize = cellTotal heap key.cellOffset := by
  have inside := placed.offset_le
  have length := cellAt_length (by omega) placed.total_le
  unfold Entry.cellSize entryAt
  simp only
  omega

/-! ## Insertion -/

theorem fromHighwater_writeCell {node : BTreeNode} {cell : List UInt8}
    {cellSize offset : Nat} (size : cell.length = cellSize)
    (room : node.cellHighWaterOffset + cellSize ≤ node.heap.length)
    (inside : offset ≤ node.cellHighWaterOffset) :
    fromHighwater (node.writeCell cell cellSize).heap offset =
      fromHighwater node.heap offset := by
  unfold fromHighwater BTreeNode.writeCell
  simp only
  rw [splice_length (by omega), drop_splice (by omega) (by omega)]

theorem fromHighwater_writeCell_new {node : BTreeNode} {cell : List UInt8}
    {cellSize : Nat} (size : cell.length = cellSize)
    (room : node.cellHighWaterOffset + cellSize ≤ node.heap.length) :
    slice (fromHighwater (node.writeCell cell cellSize).heap
        (node.cellHighWaterOffset + cellSize)) 0 cellSize = cell := by
  unfold fromHighwater BTreeNode.writeCell
  simp only
  rw [splice_length (by omega), slice_drop, Nat.add_zero, ← size]
  exact slice_splice_same (by omega)

/-- The key array takes bytes in front of the cells. -/
theorem fromHighwater_drop {heap : List UInt8} {count offset : Nat}
    (bound : offset + count ≤ heap.length) :
    fromHighwater (heap.drop count) offset = fromHighwater heap offset := by
  unfold fromHighwater
  rw [List.length_drop, List.drop_drop]
  congr 1
  omega

theorem fromHighwater_append {front heap : List UInt8} {offset : Nat}
    (bound : offset ≤ heap.length) :
    fromHighwater (front ++ heap) offset = fromHighwater heap offset := by
  unfold fromHighwater
  rw [List.length_append, List.drop_append, List.drop_eq_nil_of_le (by omega),
    List.nil_append]
  congr 1
  omega

/-- The node with an entry added at a position. -/
def BTreeNode.insertEntry (node : BTreeNode) (position : Nat)
    (entry : Entry) : BTreeNode :=
  let written := node.writeCell (le32 entry.cell.length ++ entry.cell)
    entry.cellSize
  { written with
    keys := node.keys.insertIdx position
      { key := entry.key
        cellOffset := node.cellHighWaterOffset + entry.cellSize
        flags := entry.flags }
    heap := written.heap.drop pageKeySize
    cellHighWaterOffset := node.cellHighWaterOffset + entry.cellSize
    freeHeap := node.freeHeap - entry.heapSize }

section InsertEntry

variable {node : BTreeNode} {position : Nat} {entry : Entry}

@[simp]
theorem insertEntry_pageNumber :
    (node.insertEntry position entry).pageNumber = node.pageNumber := rfl

@[simp]
theorem insertEntry_metaBytes :
    (node.insertEntry position entry).metaBytes = node.metaBytes := rfl

@[simp]
theorem insertEntry_leadBytes :
    (node.insertEntry position entry).leadBytes = node.leadBytes := rfl

@[simp]
theorem insertEntry_isLeaf :
    (node.insertEntry position entry).isLeaf = node.isLeaf := rfl

@[simp]
theorem insertEntry_rightChild :
    (node.insertEntry position entry).rightChild = node.rightChild := rfl

@[simp]
theorem insertEntry_freeHeap :
    (node.insertEntry position entry).freeHeap =
      node.freeHeap - entry.heapSize := rfl

variable (position) (ok : NodeOk node) (room : entry.heapSize ≤ node.freeHeap)

include ok room

theorem insertEntry_heap_length :
    (node.insertEntry position entry).heap.length =
      node.heap.length - pageKeySize := by
  have free := ok.free
  unfold Entry.heapSize at room
  unfold BTreeNode.insertEntry BTreeNode.writeCell Entry.cellSize
  simp only [List.length_drop]
  rw [splice_length]
  simp only [List.length_append, le32_length]
  omega

theorem insertEntry_fromHighwater {offset : Nat}
    (below : offset ≤ node.cellHighWaterOffset) :
    fromHighwater (node.insertEntry position entry).heap offset =
      fromHighwater node.heap offset := by
  have free := ok.free
  unfold Entry.heapSize at room
  have size : (le32 entry.cell.length ++ entry.cell).length =
      entry.cellSize := by
    simp [Entry.cellSize]
  unfold BTreeNode.insertEntry
  simp only
  rw [fromHighwater_drop, fromHighwater_writeCell size _ below]
  · unfold Entry.cellSize
    omega
  · unfold BTreeNode.writeCell Entry.cellSize pageKeySize
    simp only
    rw [splice_length]
    · omega
    · simp only [List.length_append, le32_length]
      omega

/-- The new cell holds the entry. -/
theorem insertEntry_cellAt (small : entry.cell.length < 2 ^ 32) :
    cellTotal (node.insertEntry position entry).heap
        (node.cellHighWaterOffset + entry.cellSize) = entry.cellSize ∧
      cellAt (node.insertEntry position entry).heap
        (node.cellHighWaterOffset + entry.cellSize) = entry.cell := by
  have free := ok.free
  unfold Entry.heapSize at room
  have size : (le32 entry.cell.length ++ entry.cell).length =
      entry.cellSize := by
    simp [Entry.cellSize]
  have capacity : node.cellHighWaterOffset + entry.cellSize ≤
      node.heap.length := by
    unfold Entry.cellSize
    omega
  have written := fromHighwater_writeCell_new size capacity
  have same : fromHighwater (node.insertEntry position entry).heap
      (node.cellHighWaterOffset + entry.cellSize) =
        fromHighwater (node.writeCell
          (le32 entry.cell.length ++ entry.cell) entry.cellSize).heap
          (node.cellHighWaterOffset + entry.cellSize) := by
    unfold BTreeNode.insertEntry
    simp only
    rw [fromHighwater_drop]
    unfold BTreeNode.writeCell Entry.cellSize pageKeySize
    simp only
    rw [splice_length]
    · omega
    · simp only [List.length_append, le32_length]
      omega
  rw [← same] at written
  have whole : slice (fromHighwater (node.insertEntry position entry).heap
      (node.cellHighWaterOffset + entry.cellSize)) 0
        ((le32 entry.cell.length).length + entry.cell.length) =
          le32 entry.cell.length ++ entry.cell := written
  obtain ⟨word, body⟩ := slice_parts whole
  rw [le32_length] at word body
  have inlineSize : cellInlineSize
      (fromHighwater (node.insertEntry position entry).heap
        (node.cellHighWaterOffset + entry.cellSize)) = entry.cell.length := by
    unfold cellInlineSize u32At
    rw [word, fromLe_le32, Nat.mod_eq_of_lt small]
  constructor
  · unfold cellTotal
    rw [inlineSize, Entry.cellSize]
  · rw [cellAt_eq_slice, inlineSize]
    exact body

theorem insertEntry_pageSize (inside : position ≤ node.numKeys) :
    (node.insertEntry position entry).pageSize = node.pageSize := by
  have free := ok.free
  have length := insertEntry_heap_length position ok room
  unfold BTreeNode.pageSize
  rw [length, insertEntry_leadBytes]
  unfold Entry.heapSize at room
  unfold BTreeNode.numKeys at inside ⊢
  unfold BTreeNode.insertEntry
  simp only [List.length_insertIdx, if_pos inside, pageKeySize]
  omega

theorem insertEntry_entries (inside : position ≤ node.numKeys)
    (small : entry.cell.length < 2 ^ 32) :
    (node.insertEntry position entry).entries =
      node.entries.insertIdx position entry := by
  have fresh := insertEntry_cellAt position ok room small
  have old : ∀ key ∈ node.keys,
      entryAt (node.insertEntry position entry).heap key =
        entryAt node.heap key := by
    intro key member
    exact entryAt_congr
      (insertEntry_fromHighwater position ok room (ok.placed key member).offset_le)
  have new : entryAt (node.insertEntry position entry).heap
      { key := entry.key
        cellOffset := node.cellHighWaterOffset + entry.cellSize
        flags := entry.flags } = entry := by
    unfold entryAt
    simp only
    rw [fresh.2]
  unfold BTreeNode.numKeys at inside
  have keysEq : (node.insertEntry position entry).keys =
      node.keys.insertIdx position
        { key := entry.key
          cellOffset := node.cellHighWaterOffset + entry.cellSize
          flags := entry.flags } := rfl
  unfold BTreeNode.entries
  rw [keysEq, ListEdit.insertIdx_eq_append inside,
    ListEdit.insertIdx_eq_append (by simpa using inside), List.map_append,
    List.map_cons, new, ← List.map_take, ← List.map_drop]
  congr 1
  · exact List.map_congr_left fun key member =>
      old key (List.mem_of_mem_take member)
  · congr 1
    exact List.map_congr_left fun key member =>
      old key (List.mem_of_mem_drop member)

theorem insertEntry_ok (inside : position ≤ node.numKeys)
    (small : entry.cell.length < 2 ^ 32) :
    NodeOk (node.insertEntry position entry) := by
  have free := ok.free
  have used := ok.used
  have length := insertEntry_heap_length position ok room
  have fresh := insertEntry_cellAt position ok room small
  have entriesEq := insertEntry_entries position ok room inside small
  have highWater : (node.insertEntry position entry).cellHighWaterOffset =
      node.cellHighWaterOffset + entry.cellSize := rfl
  have oldTotal : ∀ key ∈ node.keys,
      cellTotal (node.insertEntry position entry).heap key.cellOffset =
        cellTotal node.heap key.cellOffset := fun key member =>
    cellTotal_congr
      (insertEntry_fromHighwater position ok room (ok.placed key member).offset_le)
  unfold Entry.heapSize at room
  refine ⟨ok.lead, ?_, ?_, ?_, ?_⟩
  · rw [highWater, length, insertEntry_freeHeap]
    unfold Entry.heapSize Entry.cellSize pageKeySize
    omega
  · rw [highWater, entriesEq]
    rw [ListEdit.sum_map_insertIdx _ (by simpa using inside), used]
  · intro key member
    rcases (ListEdit.mem_insertIdx_iff inside).mp member with rfl | old
    · refine ⟨?_, Nat.le_refl _⟩
      simp only [fresh.1]
      omega
    · have placed := ok.placed key old
      refine ⟨?_, ?_⟩
      · rw [oldTotal key old]
        exact placed.total_le
      · rw [highWater]
        exact Nat.le_trans placed.offset_le (Nat.le_add_right _ _)
  · refine ListEdit.pairwise_insertIdx inside ?_ ?_ ?_
    · refine ok.apart.imp_of_mem ?_
      intro left right leftMember rightMember apart
      unfold Apart at apart ⊢
      rw [oldTotal left leftMember, oldTotal right rightMember]
      exact apart
    · intro other member
      have placed := ok.placed other (List.mem_of_mem_take member)
      refine Or.inl ?_
      simp only [fresh.1]
      exact Nat.add_le_add_right placed.offset_le _
    · intro other member
      have placed := ok.placed other (List.mem_of_mem_drop member)
      refine Or.inr ?_
      simp only [fresh.1]
      exact Nat.add_le_add_right placed.offset_le _

end InsertEntry

end BtreeDb
