import BtreeDb.Node.Payload

/-!
# Storing records

`btree_node_write_ex` on a node that the disk holds: the record is stored in
an entry whose payload is the record, or there is no room and nothing
changes.
-/

namespace BtreeDb

open Bytes Disk

/-! ## Overflow pages -/

theorem btreeOverflowWrite_page {disk : Disk} {free : List Nat}
    {data : List UInt8} (followPageId : Nat) (store : Store disk free)
    (wide : 8 ≤ disk.pageSize) (small : data.length + 8 ≤ disk.pageSize)
    (sizeFits : disk.pageSize < 2 ^ 32) (followFits : followPageId < 2 ^ 32)
    (room : disk.maxPage + 1 < pageIdLimit) :
    ∃ pageId after buffer,
      btreeOverflowWrite data followPageId disk = (.ok pageId, after) ∧
      pageId ≠ 0 ∧ pageId ≠ 1 ∧ pageId < pageIdLimit ∧
      after.buffer? pageId = some buffer ∧
      u32At buffer 0 = followPageId ∧ u32At buffer 4 = data.length ∧
      slice buffer 8 data.length = data ∧
      Updates disk free after free.tail [] [pageId] := by
  let bytes := le32 followPageId ++ le32 data.length ++ data
  have bytesLength : bytes.length = 8 + data.length := by
    simp only [bytes, List.length_append, le32_length]
  have blankSize : (blankPage disk pageCreateNewPage).pageBuffer.length =
      disk.pageSize := by
    rw [blankPage_eq]
    exact List.length_replicate
  have inside : 0 + bytes.length ≤
      (blankPage disk pageCreateNewPage).pageBuffer.length := by
    omega
  have metaSize : (blankPage disk pageCreateNewPage).metaBytes.length =
      pagemetaSize := by
    rw [blankPage_eq]
    exact List.length_replicate
  obtain ⟨pageId, metaBytes, after, writeEq, _, numbered, notFirst, idSmall,
    found, updates⟩ := writePage_new store
      (show ({ blankPage disk pageCreateNewPage with
        pageBuffer := splice (blankPage disk pageCreateNewPage).pageBuffer 0
          bytes } : Page).pageId = 0 by rw [blankPage_eq]; rfl)
      metaSize (by simp only [splice_length inside, blankSize]) room
  have whole : slice (splice (blankPage disk pageCreateNewPage).pageBuffer 0
      bytes) 0 ((le32 followPageId).length +
        (le32 data.length ++ data).length) =
      le32 followPageId ++ (le32 data.length ++ data) := by
    have same := slice_splice_same inside
    simpa only [bytes, List.append_assoc, List.length_append] using same
  obtain ⟨followSlice, restSlice⟩ := slice_parts whole
  rw [List.length_append, le32_length followPageId] at restSlice
  obtain ⟨sizeSlice, dataSlice⟩ := slice_parts restSlice
  refine ⟨pageId, after, _, ?_, numbered, notFirst, idSmall, found, ?_, ?_,
    dataSlice, updates⟩
  · unfold btreeOverflowWrite
    rw [BtM.bind_ok (BtM.getDisk_apply disk), if_neg (by
      unfold btreeOverflowMaxWriteSize
      omega)]
    rw [BtM.bind_ok writeEq]
    rfl
  · rw [u32At]
    rw [le32_length] at followSlice
    simp only
    rw [followSlice, fromLe_le32, Nat.mod_eq_of_lt followFits]
  · rw [u32At]
    rw [le32_length] at sizeSlice
    simp only
    rw [sizeSlice, fromLe_le32, Nat.mod_eq_of_lt (by omega)]

/-- How the bytes behind the inline part are cut. -/
structure Slices (writable size pages last : Nat) : Prop where
  some : 0 < pages
  last_pos : 0 < last
  last_le : last ≤ writable
  whole : size = writable * (pages - 1) + last

theorem overflowSlices_slices {writable : Nat} (positive : 0 < writable) :
    ∀ {fuel size : Nat}, 0 < size → size ≤ fuel →
      Slices writable size (overflowSlices writable fuel size).1
        (overflowSlices writable fuel size).2
  | 0, size, sizePos, enough => by omega
  | fuel + 1, size, sizePos, enough => by
      unfold overflowSlices
      by_cases more : size > writable
      · rw [if_pos more]
        have rest := overflowSlices_slices positive
          (show 0 < size - writable by omega)
          (show size - writable ≤ fuel by omega)
        obtain ⟨some, lastPos, lastLe, whole⟩ := rest
        refine ⟨Nat.succ_pos _, lastPos, lastLe, ?_⟩
        obtain ⟨count, countEq⟩ := Nat.exists_eq_succ_of_ne_zero
          (Nat.pos_iff_ne_zero.mp some)
        simp only [countEq, Nat.add_sub_cancel, Nat.succ_eq_add_one,
          Nat.mul_succ] at whole ⊢
        omega
      · rw [if_neg more]
        refine ⟨Nat.one_pos, sizePos, by omega, ?_⟩
        simp only [Nat.sub_self, Nat.mul_zero, Nat.zero_add]

theorem slice_append_rest {data : List UInt8} {offset size : Nat} :
    slice data offset size ++ data.drop (offset + size) = data.drop offset := by
  unfold slice
  rw [← List.drop_drop, List.take_append_drop]

/-- Writing one slice in front of a chain. -/
theorem btreeOverflowWrite_slice {disk : Disk} {free chain : List Nat}
    {data : List UInt8} {offset size lastPageId : Nat}
    (store : Store disk free) (sizeFits : disk.pageSize < 2 ^ 32)
    (lastFits : lastPageId < 2 ^ 32)
    (pagesHere : OverflowChain disk lastPageId chain
      (data.drop (offset + size)))
    (apart : (chain ++ free).Nodup)
    (present : ∀ page ∈ chain, page ≤ disk.maxPage)
    (inside : offset + size ≤ data.length) (sizePos : 0 < size)
    (small : size + 8 ≤ disk.pageSize)
    (room : disk.maxPage + 1 < pageIdLimit) :
    ∃ pageId after,
      btreeOverflowWrite (slice data offset size) lastPageId disk =
        (.ok pageId, after) ∧
      pageId < 2 ^ 32 ∧ pageId ≠ 1 ∧
      OverflowChain after pageId (pageId :: chain) (data.drop offset) ∧
      (pageId :: chain ++ free.tail).Nodup ∧
      (∀ page ∈ pageId :: chain, page ≤ after.maxPage) ∧
      Updates disk free after free.tail [] [pageId] := by
  have cut : (slice data offset size).length = size := slice_length inside
  obtain ⟨pageId, after, buffer, writeEq, numbered, notFirst, idSmall, found,
    nextEq, sizeEq, content, updates⟩ :=
    btreeOverflowWrite_page lastPageId store (by omega)
      (show (slice data offset size).length + 8 ≤ disk.pageSize by omega)
      sizeFits lastFits room
  have kept : ∀ own ∈ chain, after.buffer? own = disk.buffer? own := by
    intro own member
    refine updates.kept_used (by simp) ?_ (present own member)
    intro isFree
    exact (List.nodup_append.mp apart).2.2 own member own isFree rfl
  unfold pageIdLimit at idSmall
  refine ⟨pageId, after, writeEq, by omega, notFirst, ?_, ?_, ?_, updates⟩
  · refine ⟨rfl, numbered, buffer, slice data offset size,
      data.drop (offset + size), found, sizeEq, content, ?_, ?_,
      slice_append_rest.symm, ?_⟩
    · exact List.length_pos_iff.mp (by omega)
    · rw [updates.pageSize]
      omega
    · rw [nextEq]
      exact pagesHere.congr updates.pageSize kept
  · refine (List.Perm.nodup_iff ?_).mp (updates.used_apart apart present)
    refine List.perm_iff_count.mpr ?_
    intro some
    simp only [List.count_append, List.count_cons, List.count_nil]
    omega
  · intro page member
    rcases List.mem_cons.mp member with rfl | old
    · exact updates.present page (List.mem_singleton_self page)
    · exact Nat.le_trans (present page old) updates.grows

/-- The loop over the overflow pages: from the chain of the bytes behind the
current slice it makes the chain of all bytes behind the inline part. -/
theorem writeOverflowPages_run {data : List UInt8}
    {inlinePayloadSize writable : Nat} (positive : 0 < writable) :
    ∀ {pages offset size lastPageId written : Nat} {disk : Disk}
      {free chain : List Nat},
      Store disk free → writable + 8 = disk.pageSize →
      disk.pageSize < 2 ^ 32 → lastPageId < 2 ^ 32 →
      OverflowChain disk lastPageId chain (data.drop (offset + size)) →
      (chain ++ free).Nodup → (∀ page ∈ chain, page ≤ disk.maxPage) →
      offset = inlinePayloadSize + writable * pages →
      offset + size ≤ data.length → 0 < size → size ≤ writable →
      written + (offset + size) = data.length →
      disk.maxPage + (pages + 1) < pageIdLimit →
      ∃ pageId after left new,
        writeOverflowPages data inlinePayloadSize writable (pages + 1) offset
            size lastPageId written disk = (.ok (pageId, 0), after) ∧
        pageId < 2 ^ 32 ∧ 1 ∉ new ∧ new.length = pages + 1 ∧
        OverflowChain after pageId (new ++ chain)
          (data.drop inlinePayloadSize) ∧
        Updates disk free after left [] new := by
  intro pages
  induction pages with
  | zero =>
      intro offset size lastPageId written disk free chain store wide sizeFits
        lastFits pagesHere apart present offsetEq inside sizePos sizeLe
        writtenEq room
      obtain ⟨pageId, after, writeEq, idFits, notFirst, chainEq, _, _,
        updates⟩ := btreeOverflowWrite_slice store sizeFits lastFits pagesHere
          apart present inside sizePos (by omega) room
      rw [Nat.mul_zero, Nat.add_zero] at offsetEq
      refine ⟨pageId, after, free.tail, [pageId], ?_, idFits, ?_, rfl, ?_,
        updates⟩
      · unfold writeOverflowPages
        rw [BtM.bind_ok writeEq]
        simp only [if_true]
        rw [if_neg (by omega), offsetEq, Nat.sub_self]
        rfl
      · intro isFirst
        exact notFirst (List.mem_singleton.mp isFirst).symm
      · rw [← offsetEq]
        exact chainEq
  | succ pages inductionHypothesis =>
      intro offset size lastPageId written disk free chain store wide sizeFits
        lastFits pagesHere apart present offsetEq inside sizePos sizeLe
        writtenEq room
      rw [Nat.mul_succ] at offsetEq
      obtain ⟨pageId, after, writeEq, idFits, notFirst, chainEq, apartAfter,
        presentAfter, updates⟩ := btreeOverflowWrite_slice store sizeFits
          lastFits pagesHere apart present inside sizePos (by omega) (by omega)
      have bounded := updates.bounded
      rw [List.length_singleton] at bounded
      have nextOffset : offset - writable + writable = offset := by omega
      obtain ⟨firstId, last, left, new, restEq, firstFits, notIn, newLength,
        whole, restUpdates⟩ := inductionHypothesis updates.store
          (by rw [updates.pageSize]; exact wide)
          (by rw [updates.pageSize]; exact sizeFits) idFits
          (show OverflowChain after pageId (pageId :: chain)
            (data.drop (offset - writable + writable)) by
              rw [nextOffset]; exact chainEq)
          apartAfter presentAfter (by omega) (by omega) positive
          (Nat.le_refl writable)
          (show written + size + (offset - writable + writable) =
            data.length by omega)
          (by omega)
      refine ⟨firstId, last, left, new ++ [pageId], ?_, firstFits, ?_, ?_, ?_,
        ?_⟩
      · unfold writeOverflowPages
        rw [BtM.bind_ok writeEq]
        rw [if_neg (Nat.succ_ne_zero pages), if_pos (by omega)]
        exact restEq
      · simp only [List.mem_append, List.mem_singleton, not_or]
        exact ⟨notIn, Ne.symm notFirst⟩
      · rw [List.length_append, newLength, List.length_singleton]
      · rw [List.append_assoc]
        exact whole
      · refine ((updates.trans restUpdates).weaken (by simp)).perm ?_
        exact List.perm_append_comm

/-! ## Records -/

/-- A record of a size can be stored in a node with so much free heap. -/
def Takes (maxCellSize freeHeap size : Nat) : Prop :=
  if heapRequiredForInsertion (cellInlineDiskSize size) ≤ maxCellSize then
    heapRequiredForInsertion (cellInlineDiskSize size) ≤ freeHeap
  else heapRequiredForInsertion cellOverflowMinDiskSize ≤ freeHeap

instance (maxCellSize freeHeap size : Nat) :
    Decidable (Takes maxCellSize freeHeap size) := by
  unfold Takes
  infer_instance

/-- How many overflow pages a record takes. -/
def recordPages (maxCellSize freeHeap pageSize size : Nat) : Nat :=
  if heapRequiredForInsertion (cellInlineDiskSize size) ≤ maxCellSize then 0
  else
    let overflowSize := size - (min maxCellSize freeHeap -
      heapRequiredForInsertion cellOverflowMinDiskSize)
    (overflowSlices (pageSize - 4 * 2) overflowSize overflowSize).1

/-- The disk can hold trees: its pages are large enough, and their size fits
a word. -/
structure Roomy (disk : Disk) : Prop where
  least : btreeMinPageSize ≤ disk.pageSize
  fits : disk.pageSize < 2 ^ 32

theorem Roomy.congr {disk after : Disk} (roomy : Roomy disk)
    (same : after.pageSize = disk.pageSize) : Roomy after :=
  ⟨by rw [same]; exact roomy.least, by rw [same]; exact roomy.fits⟩

theorem Roomy.maxCellSize {disk : Disk} {node : BTreeNode} (roomy : Roomy disk)
    (size : node.pageSize = disk.pageSize) :
    24 ≤ btreeNodeMaxCellSize node := by
  have least := roomy.least
  have offset_le : headerOffset node.pageNumber ≤ 100 := by
    unfold headerOffset btreeHeaderSize
    split <;> omega
  unfold btreeNodeMaxCellSize
  rw [btuGetNodeHeapSize_eq, size]
  unfold heapCapacity pageHeaderSize
  unfold btreeMinPageSize btreeHeaderSize heapRequiredForInsertion
    cellOverflowMinDiskSize pageKeySize pageHeaderSize at least
  omega

/-- `after` is `node` with other entries, and possibly other metadata. -/
structure Reentered (node : BTreeNode) (entries : List Entry)
    (after : BTreeNode) : Prop where
  pageNumber_eq : after.pageNumber = node.pageNumber
  isLeaf_eq : after.isLeaf = node.isLeaf
  rightChild_eq : after.rightChild = node.rightChild
  entries_eq : after.entries = entries

theorem Refilled.reentered {node after : BTreeNode} {entries : List Entry}
    (refilled : Refilled node entries after) (metaBytes : List UInt8) :
    Reentered node entries { after with metaBytes := metaBytes } :=
  ⟨refilled.frame.1, refilled.frame.2.2.2.1, refilled.frame.2.2.2.2,
    refilled.entries_eq⟩

/-- Storing an entry in a node on disk and writing the node back. -/
theorem persist_entry {disk : Disk} {free : List Nat} {node : BTreeNode}
    (position : Nat) (entry : Entry) (store : Store disk free)
    (holds : Holds disk node) (metaFresh : MetaFresh free node)
    (used : node.pageNumber ∉ free) (inside : position ≤ node.numKeys)
    (room : entry.heapSize ≤ node.freeHeap) (keyFits : entry.key < 2 ^ 32)
    (flagsFit : entry.flags < 2 ^ 32) :
    ∃ stored after,
      nodercPersist (node.insertEntry position entry) disk =
        (.ok stored, after) ∧
      Holds after stored ∧
      Reentered node (node.entries.insertIdx position entry) stored ∧
      Updates disk free after free [node.pageNumber] [] := by
  have encodable := holds.encodable
  have sizeLt := encodable.pageSize_lt
  have small : entry.cell.length < 2 ^ 32 := by
    have free := freeHeap_le_pageSize holds.ok
    unfold Entry.heapSize at room
    omega
  have refilled := insertEntry_refilled holds.ok room inside small
  have filledEncodable : Encodable (node.insertEntry position entry) := by
    refine encodable_of_entries encodable.rightChild_lt ?_ ?_
    · rw [refilled.pageSize_eq]
      exact sizeLt
    · rw [refilled.entries_eq]
      intro other member
      rcases (ListEdit.mem_insertIdx_iff (by
        rw [entries_length]; exact inside)).mp member with rfl | old
      · exact ⟨keyFits, flagsFit⟩
      · exact encodable.entries other old
  obtain ⟨metaBytes, after, persistEq, afterHolds, _, updates⟩ :=
    nodercPersist_existing store refilled.ok filledEncodable
      (refilled.pageSize_eq.trans (holds.pageSize_eq store)) holds.present used
      ⟨metaFresh.size, metaFresh.first⟩
  exact ⟨_, after, persistEq, afterHolds, refilled.reentered metaBytes,
    updates⟩

/-- The entry of a record that is continued on overflow pages. -/
theorem nodeInsertOverflow_record {node : BTreeNode} {index : ChildListIndex}
    {inlinePart : Nat} {data : List UInt8} (key pageId : Nat)
    (inside : index.number node ≤ node.numKeys)
    (part : inlinePart ≤ data.length)
    (room : 24 + inlinePart ≤ node.freeHeap) :
    nodeInsertOverflow node index key
        { inlineSize := cellInlineSizeFromDiskSize
            (cellOverflowDiskSize inlinePart)
          totalSize := data.length
          overflowPageId := pageId
          inlinePayload := data.drop 0 } =
      .ok (node.insertEntry (index.number node)
        ⟨key, cellTypeCode .cellTypeOverflow,
          overflowCell data.length pageId (data.take inlinePart)⟩) := by
  have inlineSizeEq : cellInlineSizeFromDiskSize
      (cellOverflowDiskSize inlinePart) = 8 + inlinePart := by
    unfold cellInlineSizeFromDiskSize cellOverflowDiskSize
      cellOverflowMinDiskSize
    omega
  have inserted : nodeInsertOverflow node index key
      ⟨8 + inlinePart, data.length, pageId, data⟩ = _ :=
    nodeInsertOverflow_room inside (by simp only; omega) (by simp only; omega)
      (by simp only; omega)
  rw [inlineSizeEq, List.drop_zero, inserted]
  simp only [Nat.add_sub_cancel_left]

section WriteAt

variable {disk : Disk} {free : List Nat} {node : BTreeNode}
  {index : ChildListIndex} {key : Nat} {data : List UInt8}

theorem btreeNodeWriteAt_full (roomy : Roomy disk)
    (size : node.pageSize = disk.pageSize)
    (full : ¬ Takes (btreeNodeMaxCellSize node) node.freeHeap data.length) :
    btreeNodeWriteAt node index key data disk =
      (.error (.err .errNodeNotEnoughSpace), disk) := by
  have wide := roomy.maxCellSize size
  unfold Takes at full
  unfold btreeNodeWriteAt
  by_cases isInline : heapRequiredForInsertion (cellInlineDiskSize data.length)
      ≤ btreeNodeMaxCellSize node
  · rw [if_pos isInline] at full ⊢
    unfold nodeInsertInline
    rw [nodeInsertInlineEx_full (by
      unfold heapRequiredForInsertion cellInlineDiskSize pageKeySize at full
      simp only
      omega)]
    rfl
  · rw [if_neg isInline] at full ⊢
    unfold btreeNodeWriteOverflow
    simp only
    rw [if_pos (by omega)]
    rfl

/-- What storing a record does. -/
structure Stored (disk : Disk) (free : List Nat) (node : BTreeNode)
    (position key : Nat) (data : List UInt8) (after : Disk) (left : List Nat)
    (stored : BTreeNode) (entry : Entry) (chain : List Nat) : Prop where
  holds : Holds after stored
  reentered : Reentered node (node.entries.insertIdx position entry) stored
  key_eq : entry.key = key
  small : entry.heapSize ≤ btreeNodeMaxCellSize node
  resolves : Resolves after entry data chain
  chain_length : chain.length =
    recordPages (btreeNodeMaxCellSize node) node.freeHeap disk.pageSize
      data.length
  notFirst : 1 ∉ chain
  updates : Updates disk free after left [node.pageNumber] chain

variable (roomy : Roomy disk) (store : Store disk free)
  (holds : Holds disk node) (metaFresh : MetaFresh free node)
  (used : node.pageNumber ∉ free) (inside : index.number node ≤ node.numKeys)
  (keyFits : key < 2 ^ 32)
  (takes : Takes (btreeNodeMaxCellSize node) node.freeHeap data.length)

include store holds metaFresh used inside keyFits takes in
theorem btreeNodeWriteAt_inline
    (isInline : heapRequiredForInsertion (cellInlineDiskSize data.length) ≤
      btreeNodeMaxCellSize node) :
    ∃ stored after,
      btreeNodeWriteAt node index key data disk = (.ok stored, after) ∧
      Stored disk free node (index.number node) key data after free stored
        ⟨key, cellTypeCode .cellTypeInline, data⟩ [] := by
  unfold Takes at takes
  rw [if_pos isInline] at takes
  have room : 16 + data.length ≤ node.freeHeap := by
    unfold heapRequiredForInsertion cellInlineDiskSize pageKeySize at takes
    omega
  have insertEq : nodeInsertInline node index key
      { inlineSize := data.length, payload := data } =
      .ok (node.insertEntry (index.number node)
        ⟨key, cellTypeCode .cellTypeInline, data⟩) := by
    unfold nodeInsertInline
    rw [nodeInsertInlineEx_room inside (Nat.le_refl _) room]
    simp only [List.take_length]
    rfl
  obtain ⟨stored, after, persistEq, afterHolds, reentered, updates⟩ :=
    persist_entry (index.number node)
      ⟨key, cellTypeCode .cellTypeInline, data⟩ store holds metaFresh used
      inside room keyFits
      (show cellTypeCode .cellTypeInline < 2 ^ 32 by decide)
  refine ⟨stored, after, ?_, afterHolds, reentered, rfl, ?_, .inline, ?_,
    by simp, updates⟩
  · unfold btreeNodeWriteAt
    rw [if_pos isInline, insertEq, BtM.bind_ok (BtM.ofExcept_ok _ disk)]
    exact persistEq
  · unfold heapRequiredForInsertion cellInlineDiskSize pageKeySize at isInline
    unfold Entry.heapSize
    simp only
    omega
  · unfold recordPages
    rw [if_pos isInline]
    rfl

include roomy store holds used inside keyFits takes in
/-- A record that is continued keeps in the node what the smaller of the limit
and the free heap leaves. -/
theorem btreeNodeWriteAt_overflow_entry
    (notInline : ¬ heapRequiredForInsertion (cellInlineDiskSize data.length) ≤
      btreeNodeMaxCellSize node) (sizeFits : data.length < 2 ^ 32)
    (room : disk.maxPage + recordPages (btreeNodeMaxCellSize node)
      node.freeHeap disk.pageSize data.length < pageIdLimit) :
    ∃ stored after left pageId chain,
      btreeNodeWriteAt node index key data disk = (.ok stored, after) ∧
      Stored disk free node (index.number node) key data after left stored
        ⟨key, cellTypeCode .cellTypeOverflow, overflowCell data.length pageId
          (data.take (min (btreeNodeMaxCellSize node) node.freeHeap - 24))⟩
        chain := by
  have size := holds.pageSize_eq store
  have wide := roomy.maxCellSize size
  have least := roomy.least
  unfold Takes at takes
  rw [if_neg notInline] at takes
  have takes' : 24 ≤ node.freeHeap := takes
  have large : btreeNodeMaxCellSize node < 16 + data.length := by
    unfold heapRequiredForInsertion cellInlineDiskSize pageKeySize at notInline
    omega
  have minEq : heapRequiredForInsertion cellOverflowMinDiskSize = 24 := rfl
  have minPage : 216 ≤ disk.pageSize := least
  obtain ⟨inlinePart, inlineEq⟩ : ∃ inlinePart, inlinePart =
      min (btreeNodeMaxCellSize node) node.freeHeap - 24 := ⟨_, rfl⟩
  obtain ⟨rest, restEq⟩ : ∃ rest, rest = data.length - inlinePart := ⟨_, rfl⟩
  have slices := overflowSlices_slices
    (show 0 < disk.pageSize - 4 * 2 by omega)
    (show 0 < rest by omega) (Nat.le_refl rest)
  have pagesEq : recordPages (btreeNodeMaxCellSize node) node.freeHeap
      disk.pageSize data.length =
        (overflowSlices (disk.pageSize - 4 * 2) rest rest).1 := by
    unfold recordPages
    rw [if_neg notInline, minEq, ← inlineEq, ← restEq]
  rw [pagesEq] at room
  generalize slicesEq : overflowSlices (disk.pageSize - 4 * 2) rest rest = cut
    at slices pagesEq room
  obtain ⟨pages, last⟩ := cut
  obtain ⟨somePages, lastPos, lastLe, whole⟩ := slices
  simp only at somePages lastPos lastLe whole pagesEq room
  obtain ⟨count, rfl⟩ := Nat.exists_eq_succ_of_ne_zero
    (Nat.pos_iff_ne_zero.mp somePages)
  simp only [Nat.succ_eq_add_one, Nat.add_sub_cancel] at whole pagesEq room
  have emptyChain : OverflowChain disk 0 []
      (data.drop (inlinePart + (disk.pageSize - 4 * 2) * count + last)) := by
    refine ⟨rfl, List.drop_eq_nil_of_le ?_⟩
    omega
  obtain ⟨pageId, middle, left, new, writeEq, idFits, notFirst, newLength,
    chainEq, updates⟩ := writeOverflowPages_run
      (show 0 < disk.pageSize - 4 * 2 by omega) store (by omega) roomy.fits
      (by decide) emptyChain (by simpa using store.distinct) (by simp) rfl
      (by omega) lastPos lastLe
      (show 0 + (inlinePart + (disk.pageSize - 4 * 2) * count + last) =
        data.length by omega) room
  rw [List.append_nil] at chainEq
  have nodeKept : middle.buffer? node.pageNumber =
      disk.buffer? node.pageNumber :=
    updates.kept_used (by simp) used holds.present.2
  have middleHolds := holds.congr nodeKept
  obtain ⟨metaBytes, readEq, metaFresh⟩ :=
    readPage_holds middleHolds updates.store
  have reread : nodeOfPage { node with metaBytes := metaBytes : BTreeNode }.page =
      { node with metaBytes := metaBytes } :=
    nodeOfPage_page (holds.ok.withMeta _) (holds.encodable.withMeta _)
  have freshHolds := middleHolds.withMeta metaBytes
  have frontLength : (data.take inlinePart).length = inlinePart := by
    rw [List.length_take]
    omega
  have parts : data.take inlinePart ++ data.drop inlinePart = data :=
    List.take_append_drop inlinePart data
  have resolves : Resolves middle ⟨key, cellTypeCode .cellTypeOverflow,
      overflowCell data.length pageId (data.take inlinePart)⟩ data new := by
    have split : Resolves middle ⟨key, cellTypeCode .cellTypeOverflow,
        overflowCell (data.take inlinePart ++ data.drop inlinePart).length
          pageId (data.take inlinePart)⟩
        (data.take inlinePart ++ data.drop inlinePart) new :=
      .overflow chainEq idFits (by rw [parts]; exact sizeFits)
    rwa [parts] at split
  have heapSizeEq : Entry.heapSize ⟨key, cellTypeCode .cellTypeOverflow,
      overflowCell data.length pageId (data.take inlinePart)⟩ =
        24 + inlinePart := by
    unfold Entry.heapSize
    simp only
    rw [overflowCell_length, frontLength]
    omega
  have notLeft : node.pageNumber ∉ left := by
    intro member
    exact used (updates.shrinks _ member)
  obtain ⟨stored, after, persistEq, afterHolds, reentered, persistUpdates⟩ :=
    persist_entry (index.number node)
      ⟨key, cellTypeCode .cellTypeOverflow,
        overflowCell data.length pageId (data.take inlinePart)⟩
      updates.store freshHolds metaFresh notLeft inside
      (by rw [heapSizeEq]; show 24 + inlinePart ≤ node.freeHeap; omega) keyFits
      (show cellTypeCode .cellTypeOverflow < 2 ^ 32 by decide)
  have insertEq := nodeInsertOverflow_record key pageId
    (show index.number { node with metaBytes := metaBytes } ≤ _ from inside)
    (show inlinePart ≤ data.length by omega)
    (show 24 + inlinePart ≤ node.freeHeap by omega)
  rw [← inlineEq]
  refine ⟨stored, after, left, pageId, new, ?_,
    afterHolds, ?_, rfl, ?_, ?_, ?_, notFirst, ?_⟩
  · unfold btreeNodeWriteAt
    rw [if_neg notInline]
    unfold btreeNodeWriteOverflow
    rw [if_neg (by omega), BtM.bind_ok (BtM.getDisk_apply disk)]
    have maxWrite : btreeOverflowMaxWriteSize disk = disk.pageSize - 4 * 2 := rfl
    simp only [minEq, ← inlineEq, maxWrite, ← restEq, slicesEq]
    rw [Nat.succ_eq_add_one, Nat.add_sub_cancel, BtM.bind_ok writeEq]
    simp only
    rw [BtM.bind_ok readEq, reread, insertEq,
      BtM.bind_ok (BtM.ofExcept_ok _ middle)]
    exact persistEq
  · exact ⟨reentered.pageNumber_eq, reentered.isLeaf_eq,
      reentered.rightChild_eq, reentered.entries_eq⟩
  · rw [heapSizeEq]
    omega
  · refine resolves.congr persistUpdates.pageSize ?_
    intro own member
    refine persistUpdates.kept own ?_ (by simp)
    intro touched
    rw [List.mem_singleton] at touched
    rcases updates.fresh own member with wasFree | beyond
    · exact used (touched ▸ wasFree)
    · exact Nat.not_lt.mpr holds.present.2 (touched ▸ beyond)
  · rw [newLength, pagesEq]
  · have whole := updates.trans persistUpdates
    rw [List.append_nil, List.nil_append] at whole
    exact whole

include roomy store holds used inside keyFits takes in
theorem btreeNodeWriteAt_overflow
    (notInline : ¬ heapRequiredForInsertion (cellInlineDiskSize data.length) ≤
      btreeNodeMaxCellSize node) (sizeFits : data.length < 2 ^ 32)
    (room : disk.maxPage + recordPages (btreeNodeMaxCellSize node)
      node.freeHeap disk.pageSize data.length < pageIdLimit) :
    ∃ stored after left entry chain,
      btreeNodeWriteAt node index key data disk = (.ok stored, after) ∧
      Stored disk free node (index.number node) key data after left stored
        entry chain := by
  obtain ⟨stored, after, left, pageId, chain, writeEq, whole⟩ :=
    btreeNodeWriteAt_overflow_entry roomy store holds used inside keyFits
      takes notInline sizeFits room
  exact ⟨stored, after, left, _, chain, writeEq, whole⟩

include roomy store holds metaFresh used inside keyFits takes in
/-- Writing a record that a node takes, on overflow pages or not. -/
theorem btreeNodeWriteAt_stored (sizeFits : data.length < 2 ^ 32)
    (room : disk.maxPage + recordPages (btreeNodeMaxCellSize node)
      node.freeHeap disk.pageSize data.length < pageIdLimit) :
    ∃ stored after left entry chain,
      btreeNodeWriteAt node index key data disk = (.ok stored, after) ∧
      Stored disk free node (index.number node) key data after left stored
        entry chain := by
  by_cases isInline : heapRequiredForInsertion
      (cellInlineDiskSize data.length) ≤ btreeNodeMaxCellSize node
  · obtain ⟨stored, after, writeEq, whole⟩ := btreeNodeWriteAt_inline store
      holds metaFresh used inside keyFits takes isInline
    exact ⟨stored, after, _, _, _, writeEq, whole⟩
  · exact btreeNodeWriteAt_overflow roomy store holds used inside keyFits
      takes isInline sizeFits room

include roomy store holds metaFresh used inside keyFits in
omit takes in
/-- A write returns `BTREE_OK` exactly when the node takes the record. -/
theorem btreeNodeWriteAt_ok_iff (sizeFits : data.length < 2 ^ 32)
    (room : disk.maxPage + recordPages (btreeNodeMaxCellSize node)
      node.freeHeap disk.pageSize data.length < pageIdLimit) :
    (∃ stored after,
      btreeNodeWriteAt node index key data disk = (.ok stored, after)) ↔
      Takes (btreeNodeMaxCellSize node) node.freeHeap data.length := by
  constructor
  · rintro ⟨stored, after, writeEq⟩
    by_contra full
    rw [btreeNodeWriteAt_full roomy (holds.pageSize_eq store) full] at writeEq
    cases (Prod.mk.inj writeEq).1
  · intro takes
    obtain ⟨stored, after, _, _, _, writeEq, _⟩ := btreeNodeWriteAt_stored roomy
      store holds metaFresh used inside keyFits takes sizeFits room
    exact ⟨stored, after, writeEq⟩

end WriteAt

end BtreeDb
