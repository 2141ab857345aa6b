import BtreeDb.Node.Insertion

/-!
# Insertion in the bytes of a page

`btree_node.c` writes straight into the page buffer: the cell below the high
water mark, the key array moved up by one key, the new key, and three words of
the header.  The functions here do these writes on the buffer.  Read as a
node, the page after them is the node with the entry added, and a page that
has no room for the entry is not written at all.
-/

namespace BtreeDb

open Bytes

/-! ## The writes -/

/-- `insert_page_key`. -/
def insertPageKey (buffer : List UInt8) (keysOffset arraySize : Nat)
    (key : PageKey) (indexNumber : Nat) : List UInt8 :=
  let moved := splice buffer (keysOffset + pageKeySize * (indexNumber + 1))
    (slice buffer (keysOffset + pageKeySize * indexNumber)
      (pageKeySize * (arraySize - indexNumber)))
  splice moved (keysOffset + pageKeySize * indexNumber) key.bytes

/-- `write_page_key`, with the header at `offset`. -/
def pageWriteKey (buffer : List UInt8) (offset indexNumber key cellSize flags : Nat) :
    List UInt8 :=
  let freeHeap := u32At buffer (offset + 4)
  let numKeys := u32At buffer (offset + 8)
  let highWater := u32At buffer (offset + 16)
  let pageKey : PageKey :=
    { key := key
      cellOffset := highWater + cellSize
      flags := flags }
  let keyed := insertPageKey buffer (offset + pageHeaderSize) numKeys pageKey
    indexNumber
  let counted := u32Set keyed (offset + 8) (numKeys + 1)
  let raised := u32Set counted (offset + 16) (highWater + cellSize)
  u32Set raised (offset + 4) (freeHeap - heapRequiredForInsertion cellSize)

/-- The body that the two insertions share; the result comes with the page as
the call leaves it. -/
def pageInsertCell (page : Page) (index : ChildListIndex)
    (key : Nat) (cell : List UInt8) (cellSize flags : Nat) :
    Except Stop Unit × Page :=
  let offset := headerOffset page.pageId
  let freeHeap := u32At page.pageBuffer (offset + 4)
  let numKeys := u32At page.pageBuffer (offset + 8)
  let highWater := u32At page.pageBuffer (offset + 16)
  if freeHeap < heapRequiredForInsertion cellSize then
    (.error (.err .errNodeNotEnoughSpace), page)
  else
    let written := splice page.pageBuffer
      (page.pageBuffer.length - (highWater + cellSize)) cell
    let indexNumber := if index.mode = .limEnd then numKeys else index.index
    if indexNumber ≤ numKeys then
      (.ok (), { page with
        pageBuffer := pageWriteKey written offset indexNumber key cellSize flags })
    else
      (.error .assertFailed, { page with pageBuffer := written })

/-- `btree_node_insert_inline_ex`. -/
def pageInsertInlineEx (page : Page) (index : ChildListIndex) (key : Nat)
    (cell : BTreeCellInline) (flags : Nat) : Except Stop Unit × Page :=
  pageInsertCell page index key cell.bytes (cellInlineDiskSize cell.inlineSize)
    flags

/-- `btree_node_insert_overflow`. -/
def pageInsertOverflow (page : Page) (index : ChildListIndex) (key : Nat)
    (cell : BTreeCellOverflow) : Except Stop Unit × Page :=
  pageInsertCell page index key cell.bytes (cellInlineDiskSize cell.inlineSize)
    (pkeySetCellType 0 .cellTypeOverflow)

/-! ## The key array -/

theorem pageKeyAt_congr {buffer other : List UInt8} {offset place : Nat}
    (same : slice other place pageKeySize = slice buffer offset pageKeySize) :
    pageKeyAt other place = pageKeyAt buffer offset := by
  have word : ∀ start, start + 4 ≤ pageKeySize →
      u32At other (place + start) = u32At buffer (offset + start) := by
    intro start inside
    have part : slice (slice other place pageKeySize) start 4 =
        slice (slice buffer offset pageKeySize) start 4 := by
      rw [same]
    rw [slice_slice inside, slice_slice inside] at part
    exact congrArg fromLe part
  unfold pageKeyAt
  have first := word 0 (by decide)
  rw [Nat.add_zero, Nat.add_zero] at first
  rw [first, word 4 (by decide), word 8 (by decide)]

theorem pageKeyAt_of_slice {buffer : List UInt8} {offset : Nat} {key : PageKey}
    (same : slice buffer offset pageKeySize = key.bytes)
    (keyFits : key.key < 2 ^ 32) (offsetFits : key.cellOffset < 2 ^ 32)
    (flagsFit : key.flags < 2 ^ 32) : pageKeyAt buffer offset = key := by
  have alone := pageKeyAt_bytes keyFits offsetFits flagsFit []
  rw [← alone]
  apply pageKeyAt_congr
  rw [same, List.append_nil]
  exact (slice_all (Nat.le_of_eq (PageKey.bytes_length key))).symm

section InsertPageKey

variable {buffer : List UInt8} {keysOffset arraySize indexNumber : Nat}
  (key : PageKey) (inside : indexNumber ≤ arraySize)
  (room : keysOffset + pageKeySize * (arraySize + 1) ≤ buffer.length)

include inside room

theorem movedKeys_length :
    (slice buffer (keysOffset + pageKeySize * indexNumber)
      (pageKeySize * (arraySize - indexNumber))).length =
      pageKeySize * (arraySize - indexNumber) := by
  apply slice_length
  rw [Nat.mul_sub]
  unfold pageKeySize at room ⊢
  omega

theorem movedKeys_room :
    keysOffset + pageKeySize * (indexNumber + 1) +
      (slice buffer (keysOffset + pageKeySize * indexNumber)
        (pageKeySize * (arraySize - indexNumber))).length ≤ buffer.length := by
  rw [movedKeys_length inside room, Nat.mul_sub]
  unfold pageKeySize at room ⊢
  omega

theorem insertPageKey_length :
    (insertPageKey buffer keysOffset arraySize key indexNumber).length =
      buffer.length := by
  have moved := movedKeys_room inside room
  unfold insertPageKey
  simp only
  rw [splice_length, splice_length moved]
  rw [splice_length moved, PageKey.bytes_length]
  unfold pageKeySize at room ⊢
  omega

/-- The key array is all that changes. -/
theorem slice_insertPageKey_outside {start count : Nat}
    (outside : start + count ≤ keysOffset ∨
      keysOffset + pageKeySize * (arraySize + 1) ≤ start) :
    slice (insertPageKey buffer keysOffset arraySize key indexNumber) start
        count = slice buffer start count := by
  have moved := movedKeys_room inside room
  have movedLength := movedKeys_length inside room
  unfold insertPageKey
  simp only
  rw [slice_splice_of_disjoint, slice_splice_of_disjoint moved]
  · rw [movedLength, Nat.mul_sub]
    unfold pageKeySize at outside ⊢
    omega
  · rw [splice_length moved, PageKey.bytes_length]
    unfold pageKeySize at room ⊢
    omega
  · rw [PageKey.bytes_length]
    unfold pageKeySize at outside ⊢
    omega

theorem slice_insertPageKey_same :
    slice (insertPageKey buffer keysOffset arraySize key indexNumber)
      (keysOffset + pageKeySize * indexNumber) pageKeySize = key.bytes := by
  have moved := movedKeys_room inside room
  have fits : keysOffset + pageKeySize * indexNumber + key.bytes.length ≤
      (splice buffer (keysOffset + pageKeySize * (indexNumber + 1))
        (slice buffer (keysOffset + pageKeySize * indexNumber)
          (pageKeySize * (arraySize - indexNumber)))).length := by
    rw [splice_length moved, PageKey.bytes_length]
    unfold pageKeySize at room ⊢
    omega
  exact slice_splice_same fits

theorem slice_insertPageKey_below {position : Nat}
    (below : position < indexNumber) :
    slice (insertPageKey buffer keysOffset arraySize key indexNumber)
        (keysOffset + pageKeySize * position) pageKeySize =
      slice buffer (keysOffset + pageKeySize * position) pageKeySize := by
  have moved := movedKeys_room inside room
  unfold insertPageKey
  simp only
  rw [slice_splice_before, slice_splice_before moved]
  · unfold pageKeySize
    omega
  · rw [splice_length moved, PageKey.bytes_length]
    unfold pageKeySize at room ⊢
    omega
  · unfold pageKeySize
    omega

/-- A key from the insertion index on lies one place higher. -/
theorem slice_insertPageKey_above {position : Nat}
    (above : indexNumber ≤ position) (present : position < arraySize) :
    slice (insertPageKey buffer keysOffset arraySize key indexNumber)
        (keysOffset + pageKeySize * (position + 1)) pageKeySize =
      slice buffer (keysOffset + pageKeySize * position) pageKeySize := by
  have moved := movedKeys_room inside room
  have movedLength := movedKeys_length inside room
  unfold insertPageKey
  simp only
  rw [slice_splice_after, slice_splice_inside moved, slice_slice]
  · congr 1
    unfold pageKeySize
    omega
  · unfold pageKeySize
    omega
  · unfold pageKeySize
    omega
  · rw [movedLength]
    unfold pageKeySize
    omega
  · rw [splice_length moved, PageKey.bytes_length]
    unfold pageKeySize at room ⊢
    omega
  · rw [PageKey.bytes_length]
    unfold pageKeySize
    omega

end InsertPageKey

/-! ## The page after the writes -/

/-- The place of the key array and of the heap in the buffer. -/
theorem nodeOfPage_heap_length (page : Page) :
    (nodeOfPage page).heap.length =
      page.pageBuffer.length - (headerOffset page.pageId + pageHeaderSize +
        pageKeySize * (nodeOfPage page).numKeys) := by
  unfold nodeOfPage
  simp only [List.length_drop, BTreeNode.numKeys, List.length_map,
    List.length_range]

theorem nodeOfPage_numKeys (page : Page) :
    (nodeOfPage page).numKeys =
      u32At page.pageBuffer (headerOffset page.pageId + 8) := by
  unfold nodeOfPage BTreeNode.numKeys
  simp only [List.length_map, List.length_range]

theorem nodeOfPage_keys_getElem? {page : Page} {index : Nat}
    (present : index < (nodeOfPage page).numKeys) :
    (nodeOfPage page).keys[index]? =
      some (pageKeyAt page.pageBuffer
        (headerOffset page.pageId + pageHeaderSize + pageKeySize * index)) := by
  rw [nodeOfPage_numKeys] at present
  unfold nodeOfPage
  simp only
  rw [List.getElem?_map, List.getElem?_range present]
  rfl

section WriteKey

variable {buffer : List UInt8} {offset indexNumber : Nat}
  (key cellSize flags : Nat)
  (inside : indexNumber ≤ u32At buffer (offset + 8))
  (room : offset + pageHeaderSize +
    pageKeySize * (u32At buffer (offset + 8) + 1) ≤ buffer.length)

include inside room

theorem pageWriteKey_length :
    (pageWriteKey buffer offset indexNumber key cellSize flags).length =
      buffer.length := by
  have length := insertPageKey_length
    { key := key
      cellOffset := u32At buffer (offset + 16) + cellSize
      flags := flags } inside room
  unfold pageHeaderSize at room length
  unfold pageWriteKey
  simp only
  unfold pageHeaderSize
  rw [u32Set_length, u32Set_length, u32Set_length, length]
  · rw [length]
    omega
  · rw [u32Set_length, length]
    · omega
    · rw [length]
      omega
  · rw [u32Set_length, u32Set_length, length]
    · omega
    · rw [length]
      omega
    · rw [u32Set_length, length]
      · omega
      · rw [length]
        omega

/-- The words of the header that the writes change. -/
theorem pageWriteKey_words :
    u32At (pageWriteKey buffer offset indexNumber key cellSize flags)
        (offset + 4) =
      (u32At buffer (offset + 4) - heapRequiredForInsertion cellSize) %
        2 ^ 32 ∧
    u32At (pageWriteKey buffer offset indexNumber key cellSize flags)
        (offset + 8) = (u32At buffer (offset + 8) + 1) % 2 ^ 32 ∧
    u32At (pageWriteKey buffer offset indexNumber key cellSize flags)
        (offset + 16) = (u32At buffer (offset + 16) + cellSize) % 2 ^ 32 := by
  have length := insertPageKey_length
    { key := key
      cellOffset := u32At buffer (offset + 16) + cellSize
      flags := flags } inside room
  unfold pageHeaderSize at room length
  unfold pageWriteKey
  simp only
  unfold pageHeaderSize
  have counted : ∀ value, (u32Set (insertPageKey buffer (offset + 20)
      (u32At buffer (offset + 8))
      { key := key
        cellOffset := u32At buffer (offset + 16) + cellSize
        flags := flags } indexNumber) (offset + 8) value).length =
      buffer.length := by
    intro value
    rw [u32Set_length, length]
    rw [length]
    omega
  have raised : ∀ value other, (u32Set (u32Set (insertPageKey buffer
      (offset + 20) (u32At buffer (offset + 8))
      { key := key
        cellOffset := u32At buffer (offset + 16) + cellSize
        flags := flags } indexNumber) (offset + 8) value) (offset + 16)
        other).length = buffer.length := by
    intro value other
    rw [u32Set_length, counted]
    rw [counted]
    omega
  refine ⟨?_, ?_, ?_⟩
  · rw [u32At_u32Set_same]
    rw [raised]
    omega
  · rw [u32At_u32Set_of_disjoint, u32At_u32Set_of_disjoint, u32At_u32Set_same]
    · rw [length]
      omega
    · rw [counted]
      omega
    · omega
    · rw [raised]
      omega
    · omega
  · rw [u32At_u32Set_of_disjoint, u32At_u32Set_same]
    · rw [counted]
      omega
    · rw [raised]
      omega
    · omega

/-- Outside these words the writes are those to the key array. -/
theorem slice_pageWriteKey {start count : Nat}
    (outside : start + count ≤ offset + 4 ∨
      offset + 12 ≤ start ∧ start + count ≤ offset + 16 ∨
      offset + pageHeaderSize ≤ start) :
    slice (pageWriteKey buffer offset indexNumber key cellSize flags) start
        count =
      slice (insertPageKey buffer (offset + pageHeaderSize)
        (u32At buffer (offset + 8))
        { key := key
          cellOffset := u32At buffer (offset + 16) + cellSize
          flags := flags } indexNumber) start count := by
  have length := insertPageKey_length
    { key := key
      cellOffset := u32At buffer (offset + 16) + cellSize
      flags := flags } inside room
  unfold pageHeaderSize at room length outside
  unfold pageWriteKey
  simp only
  unfold pageHeaderSize
  rw [slice_u32Set_of_disjoint, slice_u32Set_of_disjoint,
    slice_u32Set_of_disjoint]
  · rw [length]
    omega
  · omega
  · rw [u32Set_length, length]
    · omega
    · rw [length]
      omega
  · omega
  · rw [u32Set_length, u32Set_length, length]
    · omega
    · rw [length]
      omega
    · rw [u32Set_length, length]
      · omega
      · rw [length]
        omega
  · omega

end WriteKey

section Insertion

variable {page : Page} {position : Nat} {entry : Entry}

/-- The buffer with the bytes of the cell written. -/
def writtenBuffer (page : Page) (entry : Entry) : List UInt8 :=
  splice page.pageBuffer
    (page.pageBuffer.length -
      (u32At page.pageBuffer (headerOffset page.pageId + 16) + entry.cellSize))
    (le32 entry.cell.length ++ entry.cell)

variable (ok : NodeOk (nodeOfPage page))
  (room : entry.heapSize ≤ (nodeOfPage page).freeHeap)

include ok room

/-- The key array with one key more does not reach the new cell. -/
theorem keyArray_below_cell :
    headerOffset page.pageId + pageHeaderSize +
        pageKeySize *
          (u32At page.pageBuffer (headerOffset page.pageId + 8) + 1) +
        (u32At page.pageBuffer (headerOffset page.pageId + 16) +
          entry.cellSize) ≤ page.pageBuffer.length := by
  have free := ok.free
  rw [nodeOfPage_heap_length, nodeOfPage_numKeys] at free
  have highWater : (nodeOfPage page).cellHighWaterOffset =
      u32At page.pageBuffer (headerOffset page.pageId + 16) := rfl
  rw [highWater] at free
  unfold Entry.heapSize at room
  unfold Entry.cellSize pageKeySize at *
  omega

theorem writtenBuffer_length :
    (writtenBuffer page entry).length = page.pageBuffer.length := by
  have below := keyArray_below_cell ok room
  unfold writtenBuffer
  apply splice_length
  simp only [List.length_append, le32_length]
  unfold Entry.cellSize at *
  omega

/-- The cell lies behind the key array. -/
theorem slice_writtenBuffer {start count : Nat}
    (before : start + count ≤ headerOffset page.pageId + pageHeaderSize +
      pageKeySize *
        (u32At page.pageBuffer (headerOffset page.pageId + 8) + 1)) :
    slice (writtenBuffer page entry) start count =
      slice page.pageBuffer start count := by
  have below := keyArray_below_cell ok room
  unfold writtenBuffer
  apply slice_splice_before
  · simp only [List.length_append, le32_length]
    unfold Entry.cellSize at *
    omega
  · omega

theorem u32At_writtenBuffer {place : Nat}
    (header : place + 4 ≤ headerOffset page.pageId + pageHeaderSize) :
    u32At (writtenBuffer page entry) place = u32At page.pageBuffer place := by
  unfold u32At
  rw [slice_writtenBuffer ok room (by omega)]

/-- The heap behind the grown key array. -/
theorem drop_writtenBuffer :
    (writtenBuffer page entry).drop (headerOffset page.pageId +
        pageHeaderSize + pageKeySize *
          (u32At page.pageBuffer (headerOffset page.pageId + 8) + 1)) =
      (((nodeOfPage page).writeCell (le32 entry.cell.length ++ entry.cell)
        entry.cellSize).heap).drop pageKeySize := by
  have below := keyArray_below_cell ok room
  have heapLength := nodeOfPage_heap_length page
  rw [nodeOfPage_numKeys] at heapLength
  have cellLength : (le32 entry.cell.length ++ entry.cell).length =
      entry.cellSize := by
    simp [Entry.cellSize]
  have heapEq : (nodeOfPage page).heap = page.pageBuffer.drop
      (headerOffset page.pageId + pageHeaderSize +
        pageKeySize * u32At page.pageBuffer (headerOffset page.pageId + 8)) :=
    rfl
  have highWater : (nodeOfPage page).cellHighWaterOffset =
      u32At page.pageBuffer (headerOffset page.pageId + 16) := rfl
  unfold BTreeNode.writeCell writtenBuffer
  simp only
  rw [highWater, heapLength, heapEq]
  unfold pageKeySize at *
  apply List.ext_getElem?
  intro index
  rw [List.getElem?_drop, List.getElem?_drop, splice_getElem? (by omega),
    splice_getElem? (by rw [List.length_drop]; omega), List.getElem?_drop,
    cellLength]
  by_cases before : 12 + index < page.pageBuffer.length -
      (headerOffset page.pageId + pageHeaderSize +
        12 * u32At page.pageBuffer (headerOffset page.pageId + 8)) -
      (u32At page.pageBuffer (headerOffset page.pageId + 16) + entry.cellSize)
  · rw [if_pos before, if_pos (by omega)]
    congr 1
    omega
  · rw [if_neg before, if_neg (by omega)]
    by_cases within : 12 + index < page.pageBuffer.length -
        (headerOffset page.pageId + pageHeaderSize +
          12 * u32At page.pageBuffer (headerOffset page.pageId + 8)) -
        (u32At page.pageBuffer (headerOffset page.pageId + 16) +
          entry.cellSize) + entry.cellSize
    · rw [if_pos within, if_pos (by omega)]
      congr 1
      omega
    · rw [if_neg within, if_neg (by omega)]
      congr 1
      omega

/-- The cells of the page that were there are read from the same bytes. -/
theorem rawCell_insertEntry (position : Nat) {key : PageKey}
    (member : key ∈ (nodeOfPage page).keys) :
    rawCell ((nodeOfPage page).insertEntry position entry).heap
        key.cellOffset = rawCell (nodeOfPage page).heap key.cellOffset := by
  have same := insertEntry_fromHighwater position ok room
    (ok.placed key member).offset_le
  have whole : ∀ heap : List UInt8, rawCell heap key.cellOffset =
      slice (fromHighwater heap key.cellOffset) 0
        (cellTotal heap key.cellOffset) := by
    intro heap
    unfold rawCell fromHighwater
    rw [slice_drop, Nat.add_zero]
  rw [whole, whole, same, cellTotal_congr same]

/-- The page with the entry written. -/
def insertedPage (page : Page) (position : Nat) (entry : Entry) : Page :=
  { page with
    pageBuffer := pageWriteKey (writtenBuffer page entry)
      (headerOffset page.pageId) position entry.key entry.cellSize
      entry.flags }

variable (inside : position ≤ (nodeOfPage page).numKeys)

include inside

theorem insertedPage_writes :
    position ≤
        u32At (writtenBuffer page entry) (headerOffset page.pageId + 8) ∧
      headerOffset page.pageId + pageHeaderSize + pageKeySize *
        (u32At (writtenBuffer page entry) (headerOffset page.pageId + 8) + 1) ≤
          (writtenBuffer page entry).length := by
  have below := keyArray_below_cell ok room
  have numKeys := nodeOfPage_numKeys page
  rw [u32At_writtenBuffer ok room (by unfold pageHeaderSize; omega),
    writtenBuffer_length ok room]
  omega

theorem insertedPage_length :
    (insertedPage page position entry).pageBuffer.length =
      page.pageBuffer.length := by
  have writes := insertedPage_writes ok room inside
  unfold insertedPage
  simp only
  rw [pageWriteKey_length _ _ _ writes.1 writes.2,
    writtenBuffer_length ok room]

/-- The three words of the header. -/
theorem insertedPage_words (sizeFits : page.pageBuffer.length < 2 ^ 32) :
    u32At (insertedPage page position entry).pageBuffer
        (headerOffset page.pageId + 4) =
      (nodeOfPage page).freeHeap - entry.heapSize ∧
    u32At (insertedPage page position entry).pageBuffer
        (headerOffset page.pageId + 8) = (nodeOfPage page).numKeys + 1 ∧
    u32At (insertedPage page position entry).pageBuffer
        (headerOffset page.pageId + 16) =
      (nodeOfPage page).cellHighWaterOffset + entry.cellSize := by
  have below := keyArray_below_cell ok room
  have writes := insertedPage_writes ok room inside
  have words := pageWriteKey_words entry.key entry.cellSize entry.flags
    writes.1 writes.2
  rw [u32At_writtenBuffer ok room (by unfold pageHeaderSize; omega),
    u32At_writtenBuffer ok room (by unfold pageHeaderSize; omega),
    u32At_writtenBuffer ok room (by unfold pageHeaderSize; omega)] at words
  have freeFits := u32At_lt page.pageBuffer (headerOffset page.pageId + 4)
  have required : heapRequiredForInsertion entry.cellSize = entry.heapSize := by
    unfold heapRequiredForInsertion Entry.cellSize Entry.heapSize pageKeySize
    omega
  rw [required, Nat.mod_eq_of_lt (by omega), Nat.mod_eq_of_lt (by
    unfold pageKeySize at below
    omega), Nat.mod_eq_of_lt (by omega)] at words
  rw [nodeOfPage_numKeys]
  exact words

/-- What lies in front of the key array and is none of these words. -/
theorem slice_insertedPage_frame {start count : Nat}
    (outside : start + count ≤ headerOffset page.pageId + 4 ∨
      headerOffset page.pageId + 12 ≤ start ∧
        start + count ≤ headerOffset page.pageId + 16) :
    slice (insertedPage page position entry).pageBuffer start count =
      slice page.pageBuffer start count := by
  have below := keyArray_below_cell ok room
  have writes := insertedPage_writes ok room inside
  unfold insertedPage
  simp only
  rw [slice_pageWriteKey _ _ _ writes.1 writes.2 (by omega),
    slice_insertPageKey_outside _ writes.1 writes.2
      (by unfold pageHeaderSize; omega),
    slice_writtenBuffer ok room (by unfold pageHeaderSize; omega)]

/-- The heap of the written page. -/
theorem drop_insertedPage :
    (insertedPage page position entry).pageBuffer.drop
        (headerOffset page.pageId + pageHeaderSize +
          pageKeySize * ((nodeOfPage page).numKeys + 1)) =
      (((nodeOfPage page).writeCell (le32 entry.cell.length ++ entry.cell)
        entry.cellSize).heap).drop pageKeySize := by
  have writes := insertedPage_writes ok room inside
  have length := insertedPage_length ok room inside
  rw [← drop_writtenBuffer ok room, nodeOfPage_numKeys]
  have word : u32At (writtenBuffer page entry) (headerOffset page.pageId + 8) =
      u32At page.pageBuffer (headerOffset page.pageId + 8) :=
    u32At_writtenBuffer ok room (by unfold pageHeaderSize; omega)
  apply List.ext_getElem?
  intro index
  rw [List.getElem?_drop, List.getElem?_drop]
  have same : slice (insertedPage page position entry).pageBuffer
      (headerOffset page.pageId + pageHeaderSize + pageKeySize *
        (u32At page.pageBuffer (headerOffset page.pageId + 8) + 1) + index) 1 =
      slice (writtenBuffer page entry)
        (headerOffset page.pageId + pageHeaderSize + pageKeySize *
          (u32At page.pageBuffer (headerOffset page.pageId + 8) + 1) + index)
        1 := by
    unfold insertedPage
    simp only
    rw [slice_pageWriteKey _ _ _ writes.1 writes.2 (by omega),
      slice_insertPageKey_outside _ writes.1 writes.2 (by rw [word]; omega)]
  have first := congrArg (fun bytes => bytes[0]?) same
  simp only [slice_getElem?, Nat.zero_lt_one, if_true, Nat.add_zero] at first
  exact first

theorem insertedPage_keys (keyFits : entry.key < 2 ^ 32)
    (flagsFit : entry.flags < 2 ^ 32)
    (sizeFits : page.pageBuffer.length < 2 ^ 32) :
    ((List.range ((nodeOfPage page).numKeys + 1)).map fun index =>
        pageKeyAt (insertedPage page position entry).pageBuffer
          (headerOffset page.pageId + pageHeaderSize + pageKeySize * index)) =
      (nodeOfPage page).keys.insertIdx position
        { key := entry.key
          cellOffset := (nodeOfPage page).cellHighWaterOffset + entry.cellSize
          flags := entry.flags } := by
  have below := keyArray_below_cell ok room
  have writes := insertedPage_writes ok room inside
  have numKeys := nodeOfPage_numKeys page
  have numKeysWord : u32At (writtenBuffer page entry)
      (headerOffset page.pageId + 8) =
        u32At page.pageBuffer (headerOffset page.pageId + 8) :=
    u32At_writtenBuffer ok room (by unfold pageHeaderSize; omega)
  have highWaterWord : u32At (writtenBuffer page entry)
      (headerOffset page.pageId + 16) =
        (nodeOfPage page).cellHighWaterOffset :=
    u32At_writtenBuffer ok room (by unfold pageHeaderSize; omega)
  have highWaterFits : (nodeOfPage page).cellHighWaterOffset + entry.cellSize <
      2 ^ 32 := by
    have highWater : (nodeOfPage page).cellHighWaterOffset =
        u32At page.pageBuffer (headerOffset page.pageId + 16) := rfl
    omega
  have keyed : ∀ index,
      slice (insertedPage page position entry).pageBuffer
        (headerOffset page.pageId + pageHeaderSize + pageKeySize * index)
        pageKeySize =
      slice (insertPageKey (writtenBuffer page entry)
        (headerOffset page.pageId + pageHeaderSize)
        (u32At (writtenBuffer page entry) (headerOffset page.pageId + 8))
        { key := entry.key
          cellOffset := u32At (writtenBuffer page entry)
            (headerOffset page.pageId + 16) + entry.cellSize
          flags := entry.flags } position)
        (headerOffset page.pageId + pageHeaderSize + pageKeySize * index)
        pageKeySize := fun index =>
    slice_pageWriteKey _ _ _ writes.1 writes.2 (Or.inr (Or.inr (by omega)))
  apply List.ext_getElem?
  intro index
  rw [List.getElem?_map, List.getElem?_insertIdx]
  by_cases low : index < position
  · rw [if_pos low, List.getElem?_range (by omega),
      nodeOfPage_keys_getElem? (by omega)]
    refine congrArg some (pageKeyAt_congr ?_)
    rw [keyed, slice_insertPageKey_below _ writes.1 writes.2 low,
      slice_writtenBuffer ok room (by unfold pageKeySize; omega)]
  · rw [if_neg low]
    by_cases here : index = position
    · rw [if_pos here, List.getElem?_range (by omega), here]
      rw [if_pos (by unfold BTreeNode.numKeys at inside; exact inside)]
      refine congrArg some ?_
      have same := slice_insertPageKey_same
        { key := entry.key
          cellOffset := u32At (writtenBuffer page entry)
            (headerOffset page.pageId + 16) + entry.cellSize
          flags := entry.flags } writes.1 writes.2
      rw [← keyed, highWaterWord] at same
      exact pageKeyAt_of_slice same keyFits highWaterFits flagsFit
    · rw [if_neg here]
      by_cases present : index < (nodeOfPage page).numKeys + 1
      · rw [List.getElem?_range present, nodeOfPage_keys_getElem? (by omega)]
        refine congrArg some (pageKeyAt_congr ?_)
        have shifted := slice_insertPageKey_above
          { key := entry.key
            cellOffset := u32At (writtenBuffer page entry)
              (headerOffset page.pageId + 16) + entry.cellSize
            flags := entry.flags } writes.1 writes.2
          (show position ≤ index - 1 by omega) (by omega)
        rw [show index - 1 + 1 = index by omega, ← keyed] at shifted
        rw [shifted, slice_writtenBuffer ok room (by unfold pageKeySize; omega)]
      · rw [List.getElem?_eq_none (by simpa using present),
          List.getElem?_eq_none]
        · rfl
        · unfold BTreeNode.numKeys at present
          omega

/-- The page after the writes, read as a node, has the entry. -/
theorem nodeOfPage_insertedPage (keyFits : entry.key < 2 ^ 32)
    (flagsFit : entry.flags < 2 ^ 32)
    (sizeFits : page.pageBuffer.length < 2 ^ 32) :
    nodeOfPage (insertedPage page position entry) =
      (nodeOfPage page).insertEntry position entry := by
  have words := insertedPage_words ok room inside sizeFits
  have keys := insertedPage_keys ok room inside keyFits flagsFit sizeFits
  have heap := drop_insertedPage ok room inside
  have sameId : (insertedPage page position entry).pageId = page.pageId := rfl
  have lead : (insertedPage page position entry).pageBuffer.take
      (headerOffset page.pageId) =
        page.pageBuffer.take (headerOffset page.pageId) := by
    have slices : slice (insertedPage page position entry).pageBuffer 0
        (headerOffset page.pageId) =
          slice page.pageBuffer 0 (headerOffset page.pageId) :=
      slice_insertedPage_frame ok room inside (Or.inl (by omega))
    unfold slice at slices
    rw [List.drop_zero, List.drop_zero] at slices
    exact slices
  have leaf : (insertedPage page position entry).pageBuffer.getD
      (headerOffset page.pageId) 0 =
        page.pageBuffer.getD (headerOffset page.pageId) 0 := by
    have slices : slice (insertedPage page position entry).pageBuffer
        (headerOffset page.pageId) 1 =
          slice page.pageBuffer (headerOffset page.pageId) 1 :=
      slice_insertedPage_frame ok room inside (Or.inl (by omega))
    have first := congrArg (fun bytes => bytes[0]?) slices
    simp only [slice_getElem?, Nat.zero_lt_one, if_true, Nat.add_zero] at first
    rw [List.getD_eq_getElem?_getD, List.getD_eq_getElem?_getD, first]
  have right : u32At (insertedPage page position entry).pageBuffer
      (headerOffset page.pageId + 12) =
        u32At page.pageBuffer (headerOffset page.pageId + 12) := by
    unfold u32At
    rw [slice_insertedPage_frame ok room inside
      (Or.inr ⟨Nat.le_refl _, Nat.le_refl _⟩)]
  unfold nodeOfPage
  simp only
  rw [sameId, words.1, words.2.1, words.2.2, keys, heap, lead, leaf, right]
  rfl

end Insertion

/-! ## The two insertions -/

/-- What a call that inserts `entry` at `position` of the page does: without
room it fails and writes nothing, and with room the page has the entry and
nothing else of it has changed. -/
structure InsertsEntry (page : Page) (position : Nat) (entry : Entry)
    (outcome : Except Stop Unit × Page) : Prop where
  full_iff : outcome = (.error (.err .errNodeNotEnoughSpace), page) ↔
    (nodeOfPage page).freeHeap < entry.cellSize + pageKeySize
  fails_iff : outcome.1 = .error (.err .errNodeNotEnoughSpace) ↔
    (nodeOfPage page).freeHeap < entry.cellSize + pageKeySize
  inserted : entry.cellSize + pageKeySize ≤ (nodeOfPage page).freeHeap →
    ∃ after : Page, outcome = (.ok (), after) ∧
      NodeOk (nodeOfPage after) ∧
      (nodeOfPage after).entries =
        (nodeOfPage page).entries.insertIdx position entry ∧
      (nodeOfPage after).keys = (nodeOfPage page).keys.insertIdx position
        { key := entry.key
          cellOffset := (nodeOfPage page).cellHighWaterOffset + entry.cellSize
          flags := entry.flags } ∧
      (∀ key ∈ (nodeOfPage page).keys,
        rawCell (nodeOfPage after).heap key.cellOffset =
          rawCell (nodeOfPage page).heap key.cellOffset) ∧
      SameFrame (nodeOfPage after) (nodeOfPage page) ∧
      after.pageBuffer.length = page.pageBuffer.length

section InsertCell

variable {page : Page} {index : ChildListIndex} {entry : Entry}

theorem pageInsertCell_full
    (full : (nodeOfPage page).freeHeap < entry.cellSize + pageKeySize) :
    pageInsertCell page index entry.key
        (le32 entry.cell.length ++ entry.cell) entry.cellSize entry.flags =
      (.error (.err .errNodeNotEnoughSpace), page) := by
  unfold pageInsertCell
  exact if_pos full

theorem pageInsertCell_room
    (inside : index.number (nodeOfPage page) ≤ (nodeOfPage page).numKeys)
    (room : entry.cellSize + pageKeySize ≤ (nodeOfPage page).freeHeap) :
    pageInsertCell page index entry.key
        (le32 entry.cell.length ++ entry.cell) entry.cellSize entry.flags =
      (.ok (), insertedPage page (index.number (nodeOfPage page)) entry) := by
  have numKeys := nodeOfPage_numKeys page
  have freeWord : (nodeOfPage page).freeHeap =
      u32At page.pageBuffer (headerOffset page.pageId + 4) := rfl
  have required : heapRequiredForInsertion entry.cellSize =
      entry.cellSize + pageKeySize := rfl
  have position : (if index.mode = .limEnd then
      u32At page.pageBuffer (headerOffset page.pageId + 8) else index.index) =
        index.number (nodeOfPage page) := by
    unfold ChildListIndex.number
    rw [numKeys]
  unfold pageInsertCell
  simp only
  rw [required, ← freeWord, if_neg (by omega), position, if_pos (by omega)]
  rfl

theorem pageInsertCell_inserts (ok : NodeOk (nodeOfPage page))
    (sizeFits : page.pageBuffer.length < 2 ^ 32)
    (inside : index.number (nodeOfPage page) ≤ (nodeOfPage page).numKeys)
    (keyFits : entry.key < 2 ^ 32) (flagsFit : entry.flags < 2 ^ 32) :
    InsertsEntry page (index.number (nodeOfPage page)) entry
      (pageInsertCell page index entry.key
        (le32 entry.cell.length ++ entry.cell) entry.cellSize entry.flags) := by
  by_cases room : (nodeOfPage page).freeHeap < entry.cellSize + pageKeySize
  · rw [pageInsertCell_full room]
    refine ⟨⟨fun _ => room, fun _ => rfl⟩, ⟨fun _ => room, fun _ => rfl⟩, ?_⟩
    intro enough
    omega
  · have heapRoom : entry.heapSize ≤ (nodeOfPage page).freeHeap := by
      unfold Entry.heapSize
      unfold Entry.cellSize pageKeySize at room
      omega
    have small : entry.cell.length < 2 ^ 32 := by
      have bound : (nodeOfPage page).freeHeap < 2 ^ 32 :=
        u32At_lt page.pageBuffer (headerOffset page.pageId + 4)
      unfold Entry.heapSize at heapRoom
      omega
    have node := nodeOfPage_insertedPage ok heapRoom inside keyFits flagsFit
      sizeFits
    rw [pageInsertCell_room inside (by omega)]
    refine ⟨⟨fun same => ?_, fun full => absurd full room⟩,
      ⟨fun same => ?_, fun full => absurd full room⟩, fun _ => ?_⟩
    · cases same
    · cases same
    · refine ⟨_, rfl, ?_, ?_, ?_, ?_, ?_, ?_⟩
      · rw [node]
        exact insertEntry_ok _ ok heapRoom inside small
      · rw [node]
        exact insertEntry_entries _ ok heapRoom inside small
      · rw [node]
        rfl
      · intro key member
        rw [node]
        exact rawCell_insertEntry ok heapRoom _ member
      · rw [node]
        exact ⟨rfl, rfl, rfl, rfl, rfl⟩
      · exact insertedPage_length ok heapRoom inside

end InsertCell

/-- An inline cell is written as an entry. -/
theorem pageInsertInlineEx_eq {page : Page} {index : ChildListIndex}
    {key flags : Nat} {cell : BTreeCellInline}
    (whole : cell.inlineSize ≤ cell.payload.length) :
    pageInsertInlineEx page index key cell flags =
      pageInsertCell page index key
        (le32 (cell.payload.take cell.inlineSize).length ++
          cell.payload.take cell.inlineSize)
        (Entry.cellSize ⟨key, flags, cell.payload.take cell.inlineSize⟩)
        flags := by
  have length : (cell.payload.take cell.inlineSize).length =
      cell.inlineSize := by
    rw [List.length_take]
    omega
  unfold pageInsertInlineEx BTreeCellInline.bytes Entry.cellSize
    cellInlineDiskSize
  rw [length]

/-- The bytes of an overflow cell after its size word, as they are written. -/
def BTreeCellOverflow.body (cell : BTreeCellOverflow) : List UInt8 :=
  overflowCell cell.totalSize cell.overflowPageId
    (cell.inlinePayload.take (cell.inlineSize - 8))

theorem pageInsertOverflow_eq {page : Page} {index : ChildListIndex}
    {key : Nat} {cell : BTreeCellOverflow} (least : 8 ≤ cell.inlineSize)
    (whole : cell.inlineSize ≤ 8 + cell.inlinePayload.length) :
    pageInsertOverflow page index key cell =
      pageInsertCell page index key (le32 cell.body.length ++ cell.body)
        (Entry.cellSize ⟨key, cellTypeCode .cellTypeOverflow, cell.body⟩)
        (cellTypeCode .cellTypeOverflow) := by
  have length : cell.body.length = cell.inlineSize := by
    unfold BTreeCellOverflow.body
    rw [overflowCell_length, List.length_take]
    omega
  have bytes : cell.bytes = le32 cell.inlineSize ++ cell.body := by
    unfold BTreeCellOverflow.bytes BTreeCellOverflow.body overflowCell
      cellOverflowCalcInlinePayloadSize cellOverflowMinDiskSize
    rw [show cell.inlineSize + 4 - (4 + 4 + 4) = cell.inlineSize - 8 by omega]
    simp only [List.append_assoc]
  have flags : pkeySetCellType 0 .cellTypeOverflow =
      cellTypeCode .cellTypeOverflow := rfl
  unfold pageInsertOverflow Entry.cellSize cellInlineDiskSize
  rw [bytes, length, flags]

/-- `btree_node_insert_inline_ex` on a node is what the writes do to its page. -/
theorem nodeInsertInlineEx_eq_page {page : Page} {index : ChildListIndex}
    {key flags : Nat} {cell : BTreeCellInline} (ok : NodeOk (nodeOfPage page))
    (sizeFits : page.pageBuffer.length < 2 ^ 32)
    (inside : index.number (nodeOfPage page) ≤ (nodeOfPage page).numKeys)
    (keyFits : key < 2 ^ 32) (flagsFit : flags < 2 ^ 32)
    (whole : cell.inlineSize ≤ cell.payload.length) :
    nodeInsertInlineEx (nodeOfPage page) index key cell flags =
      (pageInsertInlineEx page index key cell flags).1.map fun _ =>
        nodeOfPage (pageInsertInlineEx page index key cell flags).2 := by
  have length : (cell.payload.take cell.inlineSize).length =
      cell.inlineSize := by
    rw [List.length_take]
    omega
  let entry : Entry := ⟨key, flags, cell.payload.take cell.inlineSize⟩
  have sizes : entry.cellSize = 4 + cell.inlineSize ∧
      entry.heapSize = 16 + cell.inlineSize := by
    unfold Entry.cellSize Entry.heapSize
    rw [length]
    exact ⟨rfl, rfl⟩
  rw [pageInsertInlineEx_eq whole]
  by_cases full : (nodeOfPage page).freeHeap < 16 + cell.inlineSize
  · have pageFull := @pageInsertCell_full page index entry
      (by unfold pageKeySize; omega)
    rw [nodeInsertInlineEx_full full, pageFull]
    rfl
  · have pageRoom := @pageInsertCell_room page index entry inside
      (by unfold pageKeySize; omega)
    rw [nodeInsertInlineEx_room inside whole (by omega), pageRoom]
    exact congrArg Except.ok (nodeOfPage_insertedPage ok
      (show entry.heapSize ≤ _ by omega) inside keyFits flagsFit sizeFits).symm

/-- Both insertions, on every page whose cells are laid out as they should
be. -/
theorem pageInsert_inserts {page : Page} (ok : NodeOk (nodeOfPage page))
    (sizeFits : page.pageBuffer.length < 2 ^ 32) {index : ChildListIndex}
    (inside : index.number (nodeOfPage page) ≤ (nodeOfPage page).numKeys) :
    (∀ key flags cell, key < 2 ^ 32 → flags < 2 ^ 32 →
      cell.inlineSize ≤ cell.payload.length →
      InsertsEntry page (index.number (nodeOfPage page))
        ⟨key, flags, cell.payload.take cell.inlineSize⟩
        (pageInsertInlineEx page index key cell flags)) ∧
    ∀ key cell, key < 2 ^ 32 → 8 ≤ cell.inlineSize →
      cell.inlineSize ≤ 8 + cell.inlinePayload.length →
      InsertsEntry page (index.number (nodeOfPage page))
        ⟨key, cellTypeCode .cellTypeOverflow, cell.body⟩
        (pageInsertOverflow page index key cell) := by
  constructor
  · intro key flags cell keyFits flagsFit whole
    rw [pageInsertInlineEx_eq whole]
    have inserts : InsertsEntry page _
        ⟨key, flags, cell.payload.take cell.inlineSize⟩ _ :=
      pageInsertCell_inserts ok sizeFits inside keyFits flagsFit
    exact inserts
  · intro key cell keyFits least whole
    rw [pageInsertOverflow_eq least whole]
    have inserts : InsertsEntry page _
        ⟨key, cellTypeCode .cellTypeOverflow, cell.body⟩ _ :=
      pageInsertCell_inserts ok sizeFits inside keyFits
        (show cellTypeCode .cellTypeOverflow < 2 ^ 32 by decide)
    exact inserts

/-- A leaf on page 1 with one record of two bytes. -/
def oneRecordLeaf : BTreeNode where
  pageNumber := 1
  metaBytes := []
  leadBytes := List.replicate 100 0
  isLeaf := true
  freeHeap := 78
  rightChild := 0
  cellHighWaterOffset := 6
  keys := [⟨5, 6, 1⟩]
  heap := List.replicate 78 0 ++ [2, 0, 0, 0, 7, 7]

theorem oneRecordLeaf_ok : NodeOk oneRecordLeaf ∧ Encodable oneRecordLeaf := by
  refine ⟨⟨rfl, rfl, by decide +kernel, ?_, List.pairwise_singleton _ _⟩,
    by decide +kernel, ?_, ?_, by decide +kernel⟩
  · intro key member
    cases List.mem_singleton.mp member
    exact ⟨by decide +kernel, by decide +kernel⟩
  · intro key member
    cases List.mem_singleton.mp member
    decide
  · intro key member
    cases List.mem_singleton.mp member
    decide

/-- A record in front of it. -/
theorem oneRecordLeaf_inserts :
    InsertsEntry oneRecordLeaf.page 0 ⟨4, 1, [9]⟩
      (pageInsertInlineEx oneRecordLeaf.page ⟨.limIndex, 0⟩ 4 ⟨1, [9]⟩ 1) := by
  have node := nodeOfPage_page oneRecordLeaf_ok.1 oneRecordLeaf_ok.2
  have ok : NodeOk (nodeOfPage oneRecordLeaf.page) := by
    rw [node]
    exact oneRecordLeaf_ok.1
  have inside : (⟨.limIndex, 0⟩ : ChildListIndex).number
      (nodeOfPage oneRecordLeaf.page) ≤
        (nodeOfPage oneRecordLeaf.page).numKeys := Nat.zero_le _
  exact (pageInsert_inserts ok (by decide +kernel) inside).1 4 1 ⟨1, [9]⟩
    (by decide) (by decide) (by decide)

end BtreeDb
