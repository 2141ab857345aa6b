import BtreeDb.Node.RoundTrip

/-!
# Moving a cell to another node

`btree_node_move_cell_ex_to` copies a cell that fits the destination.  A larger
one is cut again: the tail of its inline part goes to a new overflow page, in
front of the pages it has already.  The new cell's total size is always taken
from the old cell's size word, which is the payload's size for an inline cell
only.
-/

namespace BtreeDb

open Bytes

/-- The cell at the destination has the new key and is read as the source cell
is. -/
structure MovesPayload (disk : Disk) (source : BTreeNode) (sourceIndex : Nat)
    (newKey : Nat) (after : Disk) (dest : BTreeNode) (destIndex : Nat) :
    Prop where
  key_eq : (dest.keyAt destIndex).key = newKey
  size_eq : btreeNodePayloadSizeAt dest destIndex =
    btreeNodePayloadSizeAt source sourceIndex
  bytes_eq : ∀ bufferSize,
    (btreeNodeReadAt dest destIndex bufferSize after).1 =
      (btreeNodeReadAt source sourceIndex bufferSize disk).1

/-- A cell of an overflowing record is not cut again, or its size word happens
to be the size of its payload. -/
def KeepsTotalSize (source : BTreeNode) (index : Nat) (dest : BTreeNode) :
    Prop :=
  pkeyIsCellType (source.keyAt index).flags .cellTypeOverflow = true →
    btuGetCellBufferSize source index ≤ btreeNodeMaxCellSize dest ∨
      (cellReadOverflow (btuGetCellBuffer source index)).totalSize =
        cellInlineSize (btuGetCellBuffer source index)

instance (source : BTreeNode) (index : Nat) (dest : BTreeNode) :
    Decidable (KeepsTotalSize source index dest) :=
  inferInstanceAs (Decidable (_ → _))

theorem ReadsBack.moves {disk after : Disk} {source dest : BTreeNode}
    {sourceIndex destIndex newKey : Nat} {payload : List UInt8}
    (key : (dest.keyAt destIndex).key = newKey)
    (here : ReadsBack disk source sourceIndex payload)
    (there : ReadsBack after dest destIndex payload) :
    MovesPayload disk source sourceIndex newKey after dest destIndex := by
  refine ⟨key, there.size_eq.trans here.size_eq.symm, ?_⟩
  intro bufferSize
  by_cases room : payload.length ≤ bufferSize
  · rw [there.whole bufferSize room, here.whole bufferSize room]
  · rw [there.tooSmall bufferSize (by omega),
      here.tooSmall bufferSize (by omega)]

section Insert

variable {dest : BTreeNode} {position : ChildListIndex} {key pageId : Nat}

/-- Inserting the cell that is cut again: there is room for it, or there is
not. -/
theorem nodeInsertOverflow_recut {buffer part : List UInt8} {total : Nat}
    (inside : position.number dest ≤ dest.numKeys)
    (least : 24 ≤ btreeNodeMaxCellSize dest)
    (enough : btreeNodeMaxCellSize dest ≤ 24 + buffer.length)
    (same : buffer.take (btreeNodeMaxCellSize dest - 24) =
      part.take (btreeNodeMaxCellSize dest - 24)) :
    nodeInsertOverflow dest position key
        ⟨btreeNodeMaxCellSize dest - 16, total, pageId, buffer⟩ =
      if btreeNodeMaxCellSize dest ≤ dest.freeHeap then
        .ok (dest.insertEntry (position.number dest)
          ⟨key, cellTypeCode .cellTypeOverflow, overflowCell total pageId
            (part.take (btreeNodeMaxCellSize dest - 24))⟩)
      else .error (.err .errNodeNotEnoughSpace) := by
  by_cases room : btreeNodeMaxCellSize dest ≤ dest.freeHeap
  · rw [if_pos room, nodeInsertOverflow_room inside (by simp only; omega)
      (by simp only; omega) (by simp only; omega)]
    simp only
    rw [show btreeNodeMaxCellSize dest - 16 - 8 =
      btreeNodeMaxCellSize dest - 24 by omega, same]
  · rw [if_neg room]
    unfold nodeInsertOverflow
    simp only
    rw [if_pos (by
      unfold heapRequiredForInsertion cellInlineDiskSize pageKeySize
      omega)]

end Insert

section Move

variable {disk after : Disk} {free chain : List Nat}
variable {source dest moved : BTreeNode} {sourceIndex newKey : Nat}
variable {position : ChildListIndex} {entry : Entry} {payload : List UInt8}

/-- An entry that is inserted into the destination and read there. -/
theorem MovesPayload.of_insert {newEntry : Entry} {newChain : List Nat}
    (sourceOk : NodeOk source)
    (here : source.entries[sourceIndex]? = some entry)
    (resolves : Resolves disk entry payload chain) (destOk : NodeOk dest)
    (inside : position.number dest ≤ dest.numKeys)
    (room : newEntry.heapSize ≤ dest.freeHeap)
    (small : newEntry.cell.length < 2 ^ 32) (key : newEntry.key = newKey)
    (newResolves : Resolves after newEntry payload newChain) :
    MovesPayload disk source sourceIndex newKey after
      (dest.insertEntry (position.number dest) newEntry)
      (position.number dest) := by
  have refilled := insertEntry_refilled destOk room inside small
  have newHere : (dest.insertEntry (position.number dest) newEntry).entries[
      position.number dest]? = some newEntry := by
    rw [refilled.entries_eq, List.getElem?_insertIdx_self, if_pos (by
      rw [entries_length]
      exact inside)]
  refine ReadsBack.moves ?_ (.of_resolves sourceOk here resolves)
    (.of_resolves refilled.ok newHere newResolves)
  rw [(refilled.ok.reads newHere).key_eq]
  exact key

/-- Moving a cell that fits the destination. -/
theorem moves_whole (sourceOk : NodeOk source)
    (here : source.entries[sourceIndex]? = some entry)
    (resolves : Resolves disk entry payload chain) (destOk : NodeOk dest)
    (inside : position.number dest ≤ dest.numKeys)
    (short : entry.cell.length < 2 ^ 32)
    (fits : entry.cellSize ≤ btreeNodeMaxCellSize dest)
    (movedEq : btreeNodeMoveCellExTo source dest sourceIndex position newKey
      disk = (.ok moved, after)) :
    MovesPayload disk source sourceIndex newKey after moved
      (position.number dest) := by
  have reads := sourceOk.reads here
  have bufferSize : btuGetCellBufferSize source sourceIndex =
      entry.cellSize := by
    unfold btuGetCellBufferSize
    rw [reads.size_eq, Entry.cellSize]
    omega
  unfold btreeNodeMoveCellExTo at movedEq
  rw [bufferSize, reads.flags_eq] at movedEq
  by_cases room : entry.heapSize ≤ dest.freeHeap
  · rw [btreeNodeMoveCellFromData_room disk inside reads.size_eq reads.cell_eq
      fits room] at movedEq
    obtain ⟨movedEq, diskEq⟩ := Prod.mk.inj movedEq
    rw [← Except.ok.inj movedEq, ← diskEq]
    refine MovesPayload.of_insert sourceOk here resolves destOk inside room
      short rfl (?_ : Resolves disk ⟨newKey, entry.flags, entry.cell⟩ payload
        chain)
    cases resolves with
    | inline => exact .inline
    | overflow pages pageFits sizeFits =>
        exact .overflow pages pageFits sizeFits
  · exfalso
    unfold btreeNodeMoveCellFromData at movedEq
    simp only at movedEq
    rw [if_pos fits, nodeInsertInlineEx_full (by
      unfold cellReadInline Entry.heapSize at *
      simp only
      rw [reads.size_eq]
      omega)] at movedEq
    cases (Prod.mk.inj movedEq).1

/-- Cutting a payload again: the bytes of its inline part from a place on go
to a new page in front of the old ones. -/
theorem recut_resolves {part back : List UInt8} {follow keep : Nat}
    (roomy : Roomy disk) (store : Store disk free)
    (pages : OverflowChain disk follow chain back) (followFits : follow < 2 ^ 32)
    (sizeFits : (part ++ back).length < 2 ^ 32)
    (apart : (chain ++ free).Nodup) (keepLt : keep < part.length)
    (small : part.length - keep + 8 ≤ disk.pageSize)
    (room : disk.maxPage + 1 < pageIdLimit) :
    ∃ pageId last,
      btreeOverflowWrite (part.drop keep) follow disk = (.ok pageId, last) ∧
      pageId < 2 ^ 32 ∧
      ∀ key, Resolves last ⟨key, cellTypeCode .cellTypeOverflow,
        overflowCell (part ++ back).length pageId (part.take keep)⟩
        (part ++ back) (pageId :: chain) := by
  have cutEq : slice (part ++ back) keep (part.length - keep) =
      part.drop keep := by
    unfold slice
    rw [List.drop_append_of_le_length (by omega), List.take_left']
    rw [List.length_drop]
  have present : ∀ page ∈ chain, page ≤ disk.maxPage := by
    intro page member
    have found := pages.present page member
    unfold Disk.buffer? at found
    rw [Option.isSome_map] at found
    exact (page?_isSome_iff.mp found).2
  obtain ⟨pageId, last, writeEq, pageFits, _, newPages, _, _, updates⟩ :=
    @btreeOverflowWrite_slice disk free chain (part ++ back) keep
      (part.length - keep) follow store roomy.fits followFits
      (by
        rw [show keep + (part.length - keep) = part.length by omega,
          List.drop_left]
        exact pages)
      apart present (by rw [List.length_append]; omega) (by omega) small room
  rw [cutEq] at writeEq
  refine ⟨pageId, last, writeEq, pageFits, ?_⟩
  intro key
  have parts : part.take keep ++ (part ++ back).drop keep = part ++ back := by
    rw [List.drop_append_of_le_length (by omega), ← List.append_assoc,
      List.take_append_drop]
  have cut : Resolves last ⟨key, cellTypeCode .cellTypeOverflow,
      overflowCell (part.take keep ++ (part ++ back).drop keep).length pageId
        (part.take keep)⟩ (part.take keep ++ (part ++ back).drop keep)
      (pageId :: chain) :=
    .overflow newPages pageFits (by rw [parts]; exact sizeFits)
  rwa [parts] at cut

theorem slice_of_take {buffer part : List UInt8} (keep : Nat)
    (same : buffer.take part.length = part) :
    slice buffer keep (part.length - keep) = part.drop keep := by
  unfold slice
  rw [← List.drop_take, same]

theorem take_of_take {buffer part : List UInt8} {keep : Nat}
    (same : buffer.take part.length = part) (keepLe : keep ≤ part.length) :
    buffer.take keep = part.take keep := by
  rw [← same, List.take_take, Nat.min_eq_left keepLe]

theorem length_of_take {buffer part : List UInt8}
    (same : buffer.take part.length = part) : part.length ≤ buffer.length := by
  have length := congrArg List.length same
  rw [List.length_take] at length
  omega

/-- A cell that is too large for the destination, in the terms of its inline
part and its pages: the call writes the tail to a page and inserts the rest,
with the size word as its total size. -/
theorem recut_run {buffer inlinePart part : List UInt8} {flags follow : Nat}
    (least : 24 ≤ btreeNodeMaxCellSize dest)
    (large : btreeNodeMaxCellSize dest < cellInlineSize buffer + 4)
    (enough : btreeNodeMaxCellSize dest ≤ 24 + part.length)
    (inside : position.number dest ≤ dest.numKeys)
    (same : inlinePart.take part.length = part)
    (partEq : inlinePart = if pkeyIsCellType flags .cellTypeOverflow then
      (cellReadOverflow buffer).inlinePayload else buffer.drop 4)
    (sizeEq : part.length = if pkeyIsCellType flags .cellTypeOverflow then
      cellOverflowCalcInlinePayloadSize (cellInlineSize buffer)
      else cellInlineSize buffer)
    (followEq : follow = if pkeyIsCellType flags .cellTypeOverflow then
      (cellReadOverflow buffer).overflowPageId else 0) :
    btreeNodeMoveCellFromData dest position newKey flags buffer
        (cellInlineSize buffer + 4) disk =
      ((btreeOverflowWrite
          (part.drop (btreeNodeMaxCellSize dest - 24)) follow) >>=
        fun pageId => BtM.ofExcept
          (if btreeNodeMaxCellSize dest ≤ dest.freeHeap then
            .ok (dest.insertEntry (position.number dest)
              ⟨newKey, cellTypeCode .cellTypeOverflow,
                overflowCell (cellInlineSize buffer) pageId
                  (part.take (btreeNodeMaxCellSize dest - 24))⟩)
          else .error (.err .errNodeNotEnoughSpace))) disk := by
  have keepEq : cellOverflowCalcInlinePayloadSize (cellInlineSize buffer -
      (heapRequiredForInsertion (cellInlineSize buffer + 4) -
        btreeNodeMaxCellSize dest)) = btreeNodeMaxCellSize dest - 24 := by
    unfold cellOverflowCalcInlinePayloadSize heapRequiredForInsertion
      cellOverflowMinDiskSize pageKeySize
    omega
  have inlineEq : cellInlineSize buffer -
      (heapRequiredForInsertion (cellInlineSize buffer + 4) -
        btreeNodeMaxCellSize dest) = btreeNodeMaxCellSize dest - 16 := by
    unfold heapRequiredForInsertion pageKeySize
    omega
  unfold btreeNodeMoveCellFromData
  simp only
  rw [if_neg (by omega)]
  have inlineSizeEq : (cellReadInline buffer).inlineSize =
      cellInlineSize buffer := rfl
  have payloadEq : (cellReadInline buffer).payload = buffer.drop 4 := rfl
  rw [inlineSizeEq, payloadEq, ← partEq, ← sizeEq, ← followEq, keepEq,
    slice_of_take _ same, inlineEq]
  refine congrFun (congrArg (fun next => btreeOverflowWrite _ _ >>= next)
    (funext fun pageId => ?_)) disk
  rw [nodeInsertOverflow_recut inside least
    (Nat.le_trans enough (Nat.add_le_add_left (length_of_take same) 24))
    (take_of_take same (by omega))]

/-- Cutting a cell again keeps the payload exactly when the size word is the
size of the payload. -/
theorem recut_moves_iff {inlinePart part back : List UInt8} {follow : Nat}
    (roomy : Roomy disk) (store : Store disk free) (sourceOk : NodeOk source)
    (size : source.pageSize = disk.pageSize)
    (here : source.entries[sourceIndex]? = some entry)
    (resolves : Resolves disk entry (part ++ back) chain)
    (apart : (chain ++ free).Nodup) (destOk : NodeOk dest)
    (destSize : dest.pageSize = disk.pageSize)
    (inside : position.number dest ≤ dest.numKeys)
    (room : disk.maxPage + 1 < pageIdLimit)
    (pages : OverflowChain disk follow chain back)
    (followFits : follow < 2 ^ 32) (sizeFits : (part ++ back).length < 2 ^ 32)
    (large : btreeNodeMaxCellSize dest < entry.cellSize)
    (partLe : part.length ≤ entry.cell.length)
    (enough : btreeNodeMaxCellSize dest < 24 + part.length)
    (same : inlinePart.take part.length = part)
    (partEq : inlinePart = if pkeyIsCellType entry.flags .cellTypeOverflow then
      (cellReadOverflow (btuGetCellBuffer source sourceIndex)).inlinePayload
      else (btuGetCellBuffer source sourceIndex).drop 4)
    (sizeEq : part.length = if pkeyIsCellType entry.flags .cellTypeOverflow
      then cellOverflowCalcInlinePayloadSize entry.cell.length
      else entry.cell.length)
    (followEq : follow = if pkeyIsCellType entry.flags .cellTypeOverflow then
      (cellReadOverflow (btuGetCellBuffer source sourceIndex)).overflowPageId
      else 0)
    (movedEq : btreeNodeMoveCellExTo source dest sourceIndex position newKey
      disk = (.ok moved, after)) :
    MovesPayload disk source sourceIndex newKey after moved
        (position.number dest) ↔
      (part ++ back).length = entry.cell.length := by
  have reads := sourceOk.reads here
  have least := roomy.maxCellSize destSize
  have pageFits := roomy.fits
  have entryFits := entry_length_le sourceOk here
  have wordEq : cellInlineSize (btuGetCellBuffer source sourceIndex) =
      entry.cell.length := reads.size_eq
  obtain ⟨pageId, last, writeEq, pageIdFits, newResolves⟩ :=
    @recut_resolves disk free chain part back follow
      (btreeNodeMaxCellSize dest - 24) roomy store pages followFits sizeFits
      apart (by omega) (by omega) room
  unfold btreeNodeMoveCellExTo at movedEq
  rw [reads.flags_eq, btuGetCellBufferSize,
    recut_run least (by rw [wordEq, Nat.add_comm]; exact large)
      (Nat.le_of_lt enough) inside same partEq (by rw [wordEq]; exact sizeEq)
      followEq, BtM.bind_ok writeEq, wordEq] at movedEq
  by_cases fits : btreeNodeMaxCellSize dest ≤ dest.freeHeap
  · rw [if_pos fits] at movedEq
    obtain ⟨movedEq, afterEq⟩ := Prod.mk.inj movedEq
    have movedEq := Except.ok.inj movedEq
    subst movedEq afterEq
    have keepLength : (part.take (btreeNodeMaxCellSize dest - 24)).length =
        btreeNodeMaxCellSize dest - 24 := by
      rw [List.length_take]
      omega
    have fitsHeap : Entry.heapSize ⟨newKey, cellTypeCode .cellTypeOverflow,
        overflowCell entry.cell.length pageId
          (part.take (btreeNodeMaxCellSize dest - 24))⟩ ≤ dest.freeHeap := by
      unfold Entry.heapSize
      simp only [overflowCell_length, keepLength]
      omega
    have small : (overflowCell entry.cell.length pageId
        (part.take (btreeNodeMaxCellSize dest - 24))).length < 2 ^ 32 := by
      rw [overflowCell_length, keepLength]
      omega
    constructor
    · intro moves
      have refilled := insertEntry_refilled destOk fitsHeap inside small
      have newHere : (dest.insertEntry (position.number dest) ⟨newKey,
          cellTypeCode .cellTypeOverflow, overflowCell entry.cell.length pageId
            (part.take (btreeNodeMaxCellSize dest - 24))⟩).entries[
          position.number dest]? = some ⟨newKey,
            cellTypeCode .cellTypeOverflow,
            overflowCell entry.cell.length pageId
              (part.take (btreeNodeMaxCellSize dest - 24))⟩ := by
        rw [refilled.entries_eq, List.getElem?_insertIdx_self, if_pos (by
          rw [entries_length]
          exact inside)]
      have newReads := refilled.ok.reads newHere
      have isOverflow : pkeyIsCellType (btuGetCellFlags (dest.insertEntry
          (position.number dest) ⟨newKey, cellTypeCode .cellTypeOverflow,
            overflowCell entry.cell.length pageId
              (part.take (btreeNodeMaxCellSize dest - 24))⟩)
          (position.number dest)) .cellTypeOverflow = true := by
        rw [btuGetCellFlags, newReads.flags_eq]
        rfl
      have sizes := moves.size_eq
      rw [btreeNodePayloadSizeAt_resolves sourceOk here resolves,
        btreeNodePayloadSizeAt, if_pos isOverflow] at sizes
      exact sizes.symm.trans (newReads.overflow (by omega) pageIdFits).1
    · intro whole
      have same := newResolves newKey
      rw [whole] at same
      exact MovesPayload.of_insert sourceOk here resolves destOk inside
        fitsHeap small rfl same
  · rw [if_neg fits] at movedEq
    cases (Prod.mk.inj movedEq).1

/-- A move that returns `BTREE_OK` keeps the payload exactly when the source
cell is inline, or is not cut again, or has the payload's size in its size
word. -/
theorem move_keeps_payload_iff (roomy : Roomy disk) (store : Store disk free)
    (sourceOk : NodeOk source) (size : source.pageSize = disk.pageSize)
    (here : source.entries[sourceIndex]? = some entry)
    (resolves : Resolves disk entry payload chain)
    (apart : (chain ++ free).Nodup) (destOk : NodeOk dest)
    (destSize : dest.pageSize = disk.pageSize)
    (inside : position.number dest ≤ dest.numKeys)
    (room : disk.maxPage + 1 < pageIdLimit)
    (movedEq : btreeNodeMoveCellExTo source dest sourceIndex position newKey
      disk = (.ok moved, after)) :
    MovesPayload disk source sourceIndex newKey after moved
        (position.number dest) ↔
      KeepsTotalSize source sourceIndex dest := by
  have reads := sourceOk.reads here
  have least := roomy.maxCellSize destSize
  have pageFits := roomy.fits
  have entryFits := entry_length_le sourceOk here
  have wordEq : cellInlineSize (btuGetCellBuffer source sourceIndex) =
      entry.cell.length := reads.size_eq
  have bufferSize : btuGetCellBufferSize source sourceIndex =
      entry.cellSize := by
    unfold btuGetCellBufferSize
    rw [wordEq, Entry.cellSize]
    omega
  unfold KeepsTotalSize
  rw [reads.flags_eq, bufferSize, wordEq]
  by_cases fits : entry.cellSize ≤ btreeNodeMaxCellSize dest
  · refine iff_of_true ?_ (fun _ => .inl fits)
    exact moves_whole sourceOk here resolves destOk inside (by omega) fits
      movedEq
  · have sizeOf : entry.cellSize = 4 + entry.cell.length := rfl
    cases resolves with
    | @inline key payload =>
        have cut := @recut_moves_iff disk after free [] source dest moved
          sourceIndex newKey position _ ((btuGetCellBuffer source
            sourceIndex).drop 4) payload [] 0 roomy store sourceOk size here
          (by rw [List.append_nil]; exact .inline) apart destOk destSize inside
          room ⟨rfl, rfl⟩ (by decide)
          (by simp only [List.append_nil] at entryFits ⊢; omega)
          (by omega) (Nat.le_refl _) (by simp only at sizeOf ⊢; omega)
          reads.cell_eq rfl rfl rfl movedEq
        refine iff_of_true (cut.mpr (by rw [List.append_nil])) ?_
        intro isOverflow
        cases isOverflow
    | @overflow key page chain front back pages pageIdFits sizeFits =>
        obtain ⟨totalEq, pageEq, frontEq⟩ := reads.overflow sizeFits pageIdFits
        have cellLength : (overflowCell (front ++ back).length page
            front).length = 8 + front.length := overflowCell_length _ _ _
        have cut := recut_moves_iff roomy store sourceOk size here
          (.overflow pages pageIdFits sizeFits) apart destOk destSize inside
          room pages pageIdFits sizeFits (by omega)
          (by simp only; rw [cellLength]; omega)
          (by simp only at sizeOf; rw [cellLength] at sizeOf; omega)
          frontEq rfl
          (by
            simp only [cellLength]
            exact (Nat.add_sub_cancel_left 8 front.length).symm)
          pageEq.symm movedEq
        rw [cut]
        simp only
        constructor
        · intro whole _
          right
          exact totalEq.trans whole
        · intro keeps
          rcases keeps rfl with small | whole
          · exact absurd small fits
          · exact totalEq.symm.trans whole

end Move

/-! ## A leaf on page 2, from which cells move to page 1 -/

def twoLeavesDisk : Disk :=
  diskOfNodes 216
    [(true, 0, [(1, [10])]), (true, 0, [(5, List.replicate 30 7)])]

/-- The inline record of page 2 is too large for page 1, is cut there, and is
read back whole. -/
theorem inline_record_moves :
    ∃ moved after,
      btreeNodeMoveCellExTo (loadedNode twoLeavesDisk 2)
        (loadedNode twoLeavesDisk 1) 0 insertEnd 9 twoLeavesDisk =
          (.ok moved, after) ∧
      MovesPayload twoLeavesDisk (loadedNode twoLeavesDisk 2) 0 9 after moved
        1 := by
  have isOk : (btreeNodeMoveCellExTo (loadedNode twoLeavesDisk 2)
      (loadedNode twoLeavesDisk 1) 0 insertEnd 9 twoLeavesDisk).1.isOk =
        true := by
    decide +kernel
  obtain ⟨moved, after, movedEq⟩ := BtM.exists_of_isOk isOk
  have checked : CheckedStore twoLeavesDisk [] := by decide +kernel
  have record : (loadedNode twoLeavesDisk 2).entries[0]? =
      some ⟨5, cellTypeCode .cellTypeInline, List.replicate 30 7⟩ := by
    decide +kernel
  have atEnd : insertEnd.number (loadedNode twoLeavesDisk 1) = 1 := by
    decide +kernel
  have iff := move_keeps_payload_iff ⟨by decide, by decide⟩ checked.store
    (by decide +kernel) (by decide +kernel) record .inline (by simp)
    (by decide +kernel) (by decide +kernel) (by decide +kernel)
    (by decide +kernel) movedEq
  rw [atEnd] at iff
  exact ⟨moved, after, movedEq, iff.mpr (by decide +kernel)⟩

/-- A record of 300 bytes that `btree_node_write_ex` stored on page 2 is cut
again on page 1, where it has the size of its first part. -/
theorem long_record_loses_its_size :
    ∃ stored before moved after,
      btreeNodeWriteAt (loadedNode twoLeavesDisk 2) ⟨.limIndex, 1⟩ 7 longRecord
        twoLeavesDisk = (.ok stored, before) ∧
      btreeNodeMoveCellExTo stored (loadedNode twoLeavesDisk 1) 1 insertEnd 9
        before = (.ok moved, after) ∧
      ¬ MovesPayload before stored 1 9 after moved 1 := by
  have isOk : (btreeNodeWriteAt (loadedNode twoLeavesDisk 2) ⟨.limIndex, 1⟩ 7
      longRecord twoLeavesDisk).1.isOk = true := by
    decide +kernel
  obtain ⟨stored, before, writeEq⟩ := BtM.exists_of_isOk isOk
  have sizes : ((btreeNodeWriteAt (loadedNode twoLeavesDisk 2) ⟨.limIndex, 1⟩ 7
      longRecord twoLeavesDisk).1.toOption.bind fun stored =>
        (btreeNodeMoveCellExTo stored (loadedNode twoLeavesDisk 1) 1 insertEnd 9
          (btreeNodeWriteAt (loadedNode twoLeavesDisk 2) ⟨.limIndex, 1⟩ 7
            longRecord twoLeavesDisk).2).1.toOption.map fun moved =>
          (btreeNodePayloadSizeAt moved 1, btreeNodePayloadSizeAt stored 1)) =
      some (33, 300) := by
    decide +kernel
  rw [writeEq] at sizes
  simp only [Except.toOption, Option.bind_some] at sizes
  cases movedEq : btreeNodeMoveCellExTo stored (loadedNode twoLeavesDisk 1) 1
      insertEnd 9 before with
  | mk result after =>
      rw [movedEq] at sizes
      cases result with
      | error stop => cases sizes
      | ok moved =>
          refine ⟨stored, before, moved, after, writeEq, movedEq, ?_⟩
          intro moves
          have same := moves.size_eq
          simp only [Option.map_some, Option.some.injEq, Prod.mk.injEq] at sizes
          rw [sizes.1, sizes.2] at same
          cases same

end BtreeDb
