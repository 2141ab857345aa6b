import BtreeDb.Node.Insertion
import BtreeDb.Node.Reader

/-!
# Payloads

The payload of an entry is the content of its cell, or the inline part of the
cell followed by what a chain of overflow pages holds.  Writing a record makes
an entry with the record's bytes as its payload, and reading an entry gives
its payload.
-/

namespace BtreeDb

open Bytes

/-! ## Chains of overflow pages -/

/-- The pages of a chain from a page on, and the bytes on them. -/
def OverflowChain (disk : Disk) : Nat → List Nat → List UInt8 → Prop
  | page, [], bytes => page = 0 ∧ bytes = []
  | page, first :: rest, bytes =>
      page = first ∧ first ≠ 0 ∧
        ∃ buffer part tail, disk.buffer? first = some buffer ∧
          u32At buffer 4 = part.length ∧
          slice buffer 8 part.length = part ∧ part ≠ [] ∧
          part.length < disk.pageSize ∧ bytes = part ++ tail ∧
          OverflowChain disk (u32At buffer 0) rest tail

theorem OverflowChain.congr {disk after : Disk}
    (samePageSize : after.pageSize = disk.pageSize) :
    ∀ {chain : List Nat} {page : Nat} {bytes : List UInt8},
      OverflowChain disk page chain bytes →
      (∀ own ∈ chain, after.buffer? own = disk.buffer? own) →
      OverflowChain after page chain bytes
  | [], _, _, whole, _ => whole
  | first :: rest, _, _, ⟨here, numbered, buffer, part, tail, found, size,
      content, nonempty, small, whole, later⟩, same => by
      refine ⟨here, numbered, buffer, part, tail, ?_, size, content, nonempty,
        ?_, whole, ?_⟩
      · rw [same first List.mem_cons_self]
        exact found
      · rw [samePageSize]
        exact small
      · exact OverflowChain.congr samePageSize later fun own member =>
          same own (List.mem_cons_of_mem _ member)

theorem OverflowChain.length_le {disk : Disk} :
    ∀ {chain : List Nat} {page : Nat} {bytes : List UInt8},
      OverflowChain disk page chain bytes → chain.length ≤ bytes.length
  | [], _, _, _ => Nat.zero_le _
  | first :: rest, _, _, ⟨_, _, buffer, part, tail, _, _, _, nonempty, _, whole,
      later⟩ => by
      have shorter := OverflowChain.length_le later
      have positive := List.length_pos_iff.mpr nonempty
      rw [whole, List.length_append, List.length_cons]
      omega

theorem OverflowChain.present {disk : Disk} :
    ∀ {chain : List Nat} {page : Nat} {bytes : List UInt8},
      OverflowChain disk page chain bytes →
        ∀ own ∈ chain, (disk.buffer? own).isSome
  | first :: rest, _, _, ⟨_, _, buffer, part, tail, found, _, _, _, _, _,
      later⟩, own, member => by
      rcases List.mem_cons.mp member with rfl | inRest
      · rw [found]
        rfl
      · exact OverflowChain.present later own inRest

/-- An entry with its payload and the pages that continue it. -/
inductive Resolves (disk : Disk) : Entry → List UInt8 → List Nat → Prop
  | inline {key : Nat} {payload : List UInt8} :
      Resolves disk ⟨key, cellTypeCode .cellTypeInline, payload⟩ payload []
  | overflow {key page : Nat} {chain : List Nat} {front back : List UInt8}
      (pages : OverflowChain disk page chain back)
      (pageFits : page < 2 ^ 32)
      (sizeFits : (front ++ back).length < 2 ^ 32) :
      Resolves disk ⟨key, cellTypeCode .cellTypeOverflow,
        overflowCell (front ++ back).length page front⟩ (front ++ back) chain

theorem Resolves.congr {disk after : Disk} {entry : Entry}
    {payload : List UInt8} {chain : List Nat}
    (resolves : Resolves disk entry payload chain)
    (samePageSize : after.pageSize = disk.pageSize)
    (same : ∀ own ∈ chain, after.buffer? own = disk.buffer? own) :
    Resolves after entry payload chain := by
  cases resolves with
  | inline => exact .inline
  | overflow pages pageFits sizeFits =>
      exact .overflow (pages.congr samePageSize same) pageFits sizeFits

theorem Resolves.present {disk : Disk} {entry : Entry}
    {payload : List UInt8} {chain : List Nat}
    (resolves : Resolves disk entry payload chain) :
    ∀ own ∈ chain, (disk.buffer? own).isSome := by
  cases resolves with
  | inline => simp
  | overflow pages _ _ => exact pages.present

/-- The bytes of an entry and what a page keeps besides fit the page. -/
theorem entry_length_le {source : BTreeNode} {index : Nat} {entry : Entry}
    (ok : NodeOk source) (here : source.entries[index]? = some entry) :
    entry.cell.length + 32 ≤ source.pageSize := by
  obtain ⟨key, keyHere, rfl⟩ := entries_getElem? here
  have placed := ok.placed key (List.mem_of_getElem? keyHere)
  have highWater := ok.highWater_le
  have inside := placed.offset_le
  have total := placed.total_le
  have length := cellAt_length (by omega) total
  have positive : 0 < source.numKeys :=
    List.length_pos_of_mem (List.mem_of_getElem? keyHere)
  unfold BTreeNode.pageSize pageHeaderSize pageKeySize
  unfold entryAt
  simp only
  omega

/-! ## Reading -/

theorem readPage_buffer {disk : Disk} {pageId : Nat} {buffer : List UInt8}
    (found : disk.buffer? pageId = some buffer) :
    ∃ metaBytes, readPage pageId disk =
      (.ok ⟨pageId, metaBytes, buffer⟩, disk) := by
  unfold Disk.buffer? at found
  cases present : disk.page? pageId with
  | none =>
      rw [present] at found
      cases found
  | some image =>
      rw [present] at found
      refine ⟨image.metaBytes, ?_⟩
      rw [readPage_present present, ← Option.some.inj found]

theorem btreeOverflowPeek_page {disk : Disk} {pageId : Nat}
    {buffer part : List UInt8} (found : disk.buffer? pageId = some buffer)
    (size : u32At buffer 4 = part.length)
    (small : part.length < disk.pageSize) :
    btreeOverflowPeek pageId disk =
      (.ok ⟨u32At buffer 0, part.length, buffer.drop 8⟩, disk) := by
  obtain ⟨metaBytes, readEq⟩ := readPage_buffer found
  unfold btreeOverflowPeek
  rw [BtM.bind_ok readEq]
  simp only [size]
  rw [BtM.bind_ok (BtM.getDisk_apply disk),
    BtM.bind_ok (BtM.assert_of (by simpa using small) disk)]
  rfl

/-- Reading one page of a chain. -/
theorem btreeOverflowRead_page {disk : Disk} {pageId bufferSize : Nat}
    {buffer part : List UInt8} (found : disk.buffer? pageId = some buffer)
    (size : u32At buffer 4 = part.length)
    (content : slice buffer 8 part.length = part)
    (small : part.length < disk.pageSize) (room : part.length ≤ bufferSize) :
    btreeOverflowRead pageId bufferSize disk =
      (.ok (u32At buffer 0, part), disk) := by
  have peekEq := btreeOverflowPeek_page found size small
  have content' : (buffer.drop 8).take part.length = part := content
  unfold btreeOverflowRead
  rw [BtM.bind_ok peekEq]
  simp only
  rw [if_neg (by omega), content']
  rfl

/-- Reading the rest of a payload off its chain. -/
theorem readOverflowPages_chain {disk : Disk} {bufferSize : Nat} :
    ∀ {chain : List Nat} {page : Nat} {bytes written : List UInt8}
      {fuel : Nat}, OverflowChain disk page chain bytes →
      written.length + bytes.length ≤ bufferSize → chain.length < fuel →
      readOverflowPages bufferSize fuel page written disk =
        (.ok (written ++ bytes), disk)
  | _, _, _, _, 0, _, _, enough => absurd enough (Nat.not_lt_zero _)
  | [], page, bytes, written, fuel + 1, ⟨last, noBytes⟩, _, _ => by
      unfold readOverflowPages
      rw [if_neg (fun both => both.1 last), noBytes, List.append_nil]
      rfl
  | first :: rest, page, bytes, written, fuel + 1, ⟨here, numbered, buffer,
      part, tail, found, size, content, nonempty, small, whole, later⟩, room,
      enough => by
      have positive := List.length_pos_iff.mpr nonempty
      rw [whole, List.length_append] at room
      have readEq := btreeOverflowRead_page found size content small
        (show part.length ≤ bufferSize - written.length by omega)
      have laterEq := readOverflowPages_chain later
        (show (written ++ part).length + tail.length ≤ bufferSize by
          rw [List.length_append]
          omega)
        (show rest.length < fuel by simpa using enough)
      unfold readOverflowPages
      rw [if_pos ⟨by rw [here]; exact numbered, by omega⟩, here,
        BtM.bind_ok readEq]
      simp only
      rw [laterEq, List.append_assoc, ← whole]

/-- What the code reads of an overflow cell. -/
theorem ReadsEntry.overflow {node : BTreeNode} {index key flags : Nat}
    {total page : Nat} {front : List UInt8}
    (reads : ReadsEntry node index ⟨key, flags, overflowCell total page front⟩)
    (totalFits : total < 2 ^ 32) (pageFits : page < 2 ^ 32) :
    u32At (btuGetCellBuffer node index) 4 = total ∧
      u32At (btuGetCellBuffer node index) 8 = page ∧
      ((btuGetCellBuffer node index).drop 12).take front.length = front := by
  have cellEq := reads.cell_eq
  simp only at cellEq
  rw [overflowCell_length] at cellEq
  have whole : slice (btuGetCellBuffer node index) 4
      ((le32 total).length + (le32 page ++ front).length) =
      le32 total ++ (le32 page ++ front) := by
    rw [List.length_append, le32_length, le32_length]
    unfold slice
    rw [show 4 + (4 + front.length) = 8 + front.length by omega, cellEq]
    simp only [overflowCell, List.append_assoc]
  obtain ⟨totalSlice, restSlice⟩ := slice_parts whole
  rw [List.length_append, le32_length total] at restSlice
  obtain ⟨pageSlice, frontSlice⟩ := slice_parts restSlice
  rw [le32_length] at totalSlice pageSlice frontSlice
  refine ⟨?_, ?_, frontSlice⟩
  · rw [u32At, totalSlice, fromLe_le32, Nat.mod_eq_of_lt totalFits]
  · rw [u32At, pageSlice, fromLe_le32, Nat.mod_eq_of_lt pageFits]

/-- Reading an entry gives its payload. -/
theorem btreeNodeReadAt_resolves {disk : Disk} {node : BTreeNode}
    {index bufferSize : Nat} {entry : Entry} {payload : List UInt8}
    {chain : List Nat} (ok : NodeOk node)
    (here : node.entries[index]? = some entry)
    (resolves : Resolves disk entry payload chain)
    (room : payload.length ≤ bufferSize) :
    btreeNodeReadAt node index bufferSize disk = (.ok payload, disk) := by
  have reads := ok.reads here
  have flagsEq := reads.flags_eq
  have sizeEq := reads.size_eq
  have cellEq := reads.cell_eq
  cases resolves with
  | inline =>
      have notOverflow : pkeyIsCellType (btuGetCellFlags node index)
          .cellTypeOverflow = false := by
        rw [btuGetCellFlags, flagsEq]
        rfl
      have notLarger : ¬ payload.length > bufferSize := by omega
      unfold btreeNodeReadAt
      simp only [notOverflow, cellReadInline, sizeEq, cellEq, notLarger,
        if_false, Bool.false_eq_true]
      rfl
  | @overflow key page _ front back pages pageFits sizeFits =>
      have parts : (front ++ back).length = front.length + back.length :=
        List.length_append
      obtain ⟨totalEq, pageEq, inlineEq⟩ := reads.overflow sizeFits pageFits
      generalize (front ++ back).length = total at *
      simp only at sizeEq
      rw [overflowCell_length] at sizeEq
      have frontEq : ((btuGetCellBuffer node index).drop 12).take
          (cellOverflowCalcInlinePayloadSize (8 + front.length)) = front := by
        unfold cellOverflowCalcInlinePayloadSize cellOverflowMinDiskSize
        rw [show 8 + front.length + 4 - (4 + 4 + 4) = front.length by omega]
        exact inlineEq
      have chainFits := pages.length_le
      have readRest := readOverflowPages_chain pages
        (show front.length + back.length ≤ bufferSize by omega)
        (show chain.length < bufferSize + 1 by omega)
      have isOverflow : pkeyIsCellType (btuGetCellFlags node index)
          .cellTypeOverflow = true := by
        rw [btuGetCellFlags, flagsEq]
        rfl
      have notLarger : ¬ total > bufferSize := by omega
      unfold cellInlineSize at sizeEq
      unfold btreeNodeReadAt
      simp only [isOverflow, cellReadOverflow, totalEq, pageEq, sizeEq, frontEq,
        notLarger, if_false, if_true]
      exact readRest

end BtreeDb
