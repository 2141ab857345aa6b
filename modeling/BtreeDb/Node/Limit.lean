import BtreeDb.Node.Moving

/-!
# The size limit of a cell

A record that `btree_node_write_ex` stores takes at most
`btree_node_max_cell_size` of a node's heap, its key included.  A cell that is
moved is compared with the limit without its key, so that it may take twelve
bytes more; then four cells need not fit an empty node.
-/

namespace BtreeDb

open Bytes Disk

/-! ## Pages that are taken -/

/-- A new page names no free page. -/
theorem pagerWritePage_new_nextFree {disk : Disk} {free : List Nat}
    {page : Page} (store : Store disk free) (isNew : page.pageId = 0)
    (metaSize : page.metaBytes.length = pagemetaSize)
    (room : disk.maxPage + 1 < pageIdLimit) :
    ∃ written after,
      writePage page disk = (.ok written, after) ∧
      written.pageId = nextNewPage disk free ∧
      after.nextFree (nextNewPage disk free) = 0 := by
  obtain ⟨numbered, _, place⟩ := nextNewPage_bounds store
  rw [← afterChoice_maxPage store] at place
  refine ⟨_, _, writePage_apply
    (pagerWritePage_new_apply store isNew fun _ => room), rfl, ?_⟩
  rw [store_nextFree numbered place, if_pos rfl]
  have renumbered : ({ page with pageId := nextNewPage disk free } :
      Page).metaBytes.length = pagemetaSize := metaSize
  have placed := pagemetaWrite_nextFree renumbered
    ⟨false, 0, nextNewPage disk free⟩ (by decide : 0 < 2 ^ 32)
  change u32At (placedPage page (nextNewPage disk free)).metaBytes 1 = 0
  unfold placedPage writeNewPageMeta
  rw [setInUse_nextFree (pagemetaWrite_metaBytes_length renumbered _)]
  exact placed

theorem btreeOverflowWrite_nextFree {disk after : Disk} {free : List Nat}
    {data : List UInt8} {follow pageId : Nat} (store : Store disk free)
    (room : disk.maxPage + 1 < pageIdLimit)
    (writeEq : btreeOverflowWrite data follow disk = (.ok pageId, after)) :
    after.nextFree pageId = 0 ∧ pageId = nextNewPage disk free := by
  unfold btreeOverflowWrite at writeEq
  rw [BtM.bind_ok (BtM.getDisk_apply disk)] at writeEq
  split at writeEq
  · cases writeEq
  · obtain ⟨page, middle, pageEq, rest⟩ := BtM.bind_eq_ok writeEq
    obtain ⟨written, last, applied, idEq, next⟩ :=
      @pagerWritePage_new_nextFree disk free
        { blankPage disk pageCreateNewPage with
          pageBuffer := splice (blankPage disk pageCreateNewPage).pageBuffer 0
            (le32 follow ++ le32 data.length ++ data) } store
        (by rw [blankPage_eq]; rfl)
        (by rw [blankPage_eq]; exact List.length_replicate) room
    rw [applied] at pageEq
    obtain ⟨pageIs, middleIs⟩ := Prod.mk.inj pageEq
    obtain ⟨idIs, afterIs⟩ := Prod.mk.inj rest
    rw [← Except.ok.inj idIs, ← Except.ok.inj pageIs, ← afterIs, ← middleIs,
      idEq]
    exact ⟨next, rfl⟩

theorem store_page?_self {disk : Disk} {pageId : Nat} {image : PageImage}
    (numbered : pageId ≠ 0) :
    (disk.store pageId image).page? pageId = some image := by
  unfold Disk.page? Disk.store pageCreateNewPage
  rw [if_neg numbered]
  simp only
  rw [List.getElem?_set, if_pos rfl, if_pos]
  rw [List.length_append, List.length_replicate]
  omega

/-- The node that a write gives has the metadata that it has put on disk. -/
theorem metaFresh_of_persist {node stored : BTreeNode} {disk after : Disk}
    {left : List Nat} (numbered : node.pageNumber ≠ 0)
    (small : node.pageNumber < pageIdLimit)
    (persistEq : nodercPersist node disk = (.ok stored, after))
    (store : Store after left) : MetaFresh left stored := by
  rw [nodercPersist_numbered numbered small] at persistEq
  obtain ⟨storedEq, afterEq⟩ := Prod.mk.inj persistEq
  have storedEq := Except.ok.inj storedEq
  have here : after.page? node.pageNumber =
      some (setInUse node.page).image := by
    rw [← afterEq]
    exact store_page?_self numbered
  subst storedEq
  constructor
  · exact (store.sized _ _ here).1
  · intro isFirst
    have atFirst : after.page? 1 = some (setInUse node.page).image := by
      rw [← show node.pageNumber = 1 from isFirst]
      exact here
    have next := store.chain.head
    unfold Disk.nextFree at next
    rw [atFirst] at next
    exact next

/-- The list of free pages that a node's metadata names, if the node is that of
the first page. -/
structure NamesFree (disk : Disk) (free others : List Nat) (node : BTreeNode) :
    Prop where
  size : node.metaBytes.length = pagemetaSize
  first : node.pageNumber = 1 →
    FreeChain disk (u32At node.metaBytes 1) others ∧ others.Nodup ∧ 1 ∉ others
  other : node.pageNumber ≠ 1 → others = free

/-- Writing a node back whose metadata may be out of date. -/
theorem nodercPersist_names {disk : Disk} {free others : List Nat}
    {node : BTreeNode} (store : Store disk free) (ok : NodeOk node)
    (encodable : Encodable node) (size : node.pageSize = disk.pageSize)
    (present : node.pageNumber ≠ 0 ∧ node.pageNumber ≤ disk.maxPage)
    (used : node.pageNumber ∉ free) (names : NamesFree disk free others node) :
    ∃ metaBytes after,
      nodercPersist node disk =
        (.ok { node with metaBytes := metaBytes }, after) ∧
      Holds after { node with metaBytes := metaBytes } ∧
      MetaFresh others { node with metaBytes := metaBytes } ∧
      Store after others ∧ after.pageSize = disk.pageSize ∧
      after.maxPage = disk.maxPage := by
  have bufferSize : node.page.pageBuffer.length = disk.pageSize := by
    rw [page_pageBuffer_length, size]
  obtain ⟨metaBytes, after, persistEq, afterEq, holds, sameSize, sameMax, _⟩ :=
    nodercPersist_over store ok encodable present
  have written : Store after others := by
    rw [afterEq]
    by_cases isFirst : node.pageNumber = 1
    · obtain ⟨chain, distinct, firstUsed⟩ := names.first isFirst
      exact store.write_first isFirst names.size bufferSize chain distinct
        firstUsed
    · rw [names.other isFirst]
      exact store.write present.1 present.2 used names.size bufferSize
        fun first => absurd first isFirst
  exact ⟨metaBytes, after, persistEq, holds, metaFresh_of_persist present.1
    (Nat.lt_of_le_of_lt present.2 store.few) persistEq written, written,
    sameSize, sameMax⟩

/-! ## Nodes that can be written -/

/-- A node that the disk holds, with up-to-date metadata. -/
structure Standing (disk : Disk) (free : List Nat) (node : BTreeNode) :
    Prop where
  store : Store disk free
  holds : Holds disk node
  metaFresh : MetaFresh free node
  used : node.pageNumber ∉ free

/-! ## Moving a cell into a node -/

/-- The sizes of a cell that is in a node. -/
structure NodeCell (pageSize : Nat) (entry : Entry) : Prop where
  flagsFit : entry.flags < 2 ^ 32
  fits : entry.cell.length + 32 ≤ pageSize

/-- The heap that a moved cell takes, its key included. -/
def movedHeap (maxCellSize : Nat) (entry : Entry) : Nat :=
  if entry.cellSize ≤ maxCellSize then entry.heapSize else maxCellSize

/-- The disk is as before, or an overflow page has been written. -/
def WritesPage (disk : Disk) (free : List Nat) (after : Disk)
    (left : List Nat) : Prop :=
  (after = disk ∧ left = free) ∨
    Updates disk free after left [] [nextNewPage disk free] ∧
      after.nextFree (nextNewPage disk free) = 0

section Move

variable {disk : Disk} {free : List Nat} {dest : BTreeNode}
variable {position : ChildListIndex} {key : Nat} {entry : Entry}
variable {buffer : List UInt8}

/-- The part of a cell's buffer that holds bytes of the payload. -/
theorem recut_part (least : 24 ≤ btreeNodeMaxCellSize dest)
    (size : cellInlineSize buffer = entry.cell.length)
    (body : (buffer.drop 4).take entry.cell.length = entry.cell)
    (large : btreeNodeMaxCellSize dest < entry.cellSize) :
    ∃ inlinePart part : List UInt8, inlinePart.take part.length = part ∧
      (inlinePart = if pkeyIsCellType entry.flags .cellTypeOverflow then
        (cellReadOverflow buffer).inlinePayload else buffer.drop 4) ∧
      (part.length = if pkeyIsCellType entry.flags .cellTypeOverflow then
        cellOverflowCalcInlinePayloadSize (cellInlineSize buffer)
        else cellInlineSize buffer) ∧
      part.length ≤ entry.cell.length ∧
      btreeNodeMaxCellSize dest ≤ 24 + part.length := by
  have bufferLength := length_of_take body
  rw [List.length_drop] at bufferLength
  have sizeOf : entry.cellSize = 4 + entry.cell.length := rfl
  rw [size]
  cases pkeyIsCellType entry.flags .cellTypeOverflow with
  | false =>
      refine ⟨_, entry.cell, body, rfl, rfl, Nat.le_refl _, ?_⟩
      omega
  | true =>
      have partLength : ((buffer.drop 12).take
          (entry.cell.length - 8)).length = entry.cell.length - 8 := by
        rw [List.length_take, List.length_drop]
        omega
      refine ⟨_, (buffer.drop 12).take (entry.cell.length - 8), ?_, rfl, ?_,
        ?_, ?_⟩
      · rw [partLength]
        rfl
      · rw [partLength]
        rfl
      · omega
      · omega

/-- A moved cell takes its heap, or the limit if it is cut. -/
theorem btreeNodeMoveCellFromData_run (roomy : Roomy disk)
    (store : Store disk free) (destSize : dest.pageSize = disk.pageSize)
    (inside : position.number dest ≤ dest.numKeys)
    (cell : NodeCell disk.pageSize entry)
    (size : cellInlineSize buffer = entry.cell.length)
    (body : (buffer.drop 4).take entry.cell.length = entry.cell)
    (room : disk.maxPage + 1 < pageIdLimit) :
    ∃ (new : Entry) (middle : Disk) (left : List Nat),
      btreeNodeMoveCellFromData dest position key entry.flags buffer
          entry.cellSize disk =
        (if new.heapSize ≤ dest.freeHeap then
          .ok (dest.insertEntry (position.number dest) new)
        else .error (.err .errNodeNotEnoughSpace), middle) ∧
      new.key = key ∧ new.flags < 2 ^ 32 ∧
      new.heapSize = movedHeap (btreeNodeMaxCellSize dest) entry ∧
      WritesPage disk free middle left := by
  have least := roomy.maxCellSize destSize
  by_cases fits : entry.cellSize ≤ btreeNodeMaxCellSize dest
  · refine ⟨⟨key, entry.flags, entry.cell⟩, disk, free, ?_, rfl, cell.flagsFit,
      (if_pos fits).symm, Or.inl ⟨rfl, rfl⟩⟩
    change _ = (if entry.heapSize ≤ dest.freeHeap then _ else _, disk)
    by_cases enough : entry.heapSize ≤ dest.freeHeap
    · rw [if_pos enough]
      exact btreeNodeMoveCellFromData_room disk inside size body fits enough
    · rw [if_neg enough]
      have full : dest.freeHeap < 16 + (cellReadInline buffer).inlineSize := by
        have sizeOf : entry.heapSize = 16 + entry.cell.length := rfl
        have word : (cellReadInline buffer).inlineSize =
            entry.cell.length := size
        omega
      unfold btreeNodeMoveCellFromData
      simp only
      rw [if_pos fits, nodeInsertInlineEx_full full]
      rfl
  · have large : btreeNodeMaxCellSize dest < entry.cellSize :=
      Nat.lt_of_not_le fits
    obtain ⟨inlinePart, part, same, partEq, sizeEq, partLe, enough⟩ :=
      recut_part least size body large
    have sizeOf : entry.cellSize = cellInlineSize buffer + 4 := by
      rw [size, Nat.add_comm]
      rfl
    have pageFits := roomy.fits
    have cellFits := cell.fits
    have tailFits : (part.drop (btreeNodeMaxCellSize dest - 24)).length + 8 ≤
        disk.pageSize := by
      rw [List.length_drop]
      omega
    have followFits : (if pkeyIsCellType entry.flags .cellTypeOverflow then
        (cellReadOverflow buffer).overflowPageId else 0) < 2 ^ 32 := by
      split
      · exact u32At_lt _ _
      · decide
    obtain ⟨pageId, after, _, writeEq, _, _, _, _, _, _, _, updates⟩ :=
      btreeOverflowWrite_page _ store (by omega) tailFits pageFits followFits
        room
    obtain ⟨next, isNext⟩ := btreeOverflowWrite_nextFree store room writeEq
    have keepLength : (part.take (btreeNodeMaxCellSize dest - 24)).length =
        btreeNodeMaxCellSize dest - 24 := by
      rw [List.length_take]
      omega
    have newHeap : Entry.heapSize ⟨key, cellTypeCode .cellTypeOverflow,
        overflowCell (cellInlineSize buffer) pageId
          (part.take (btreeNodeMaxCellSize dest - 24))⟩ =
        btreeNodeMaxCellSize dest := by
      unfold Entry.heapSize
      simp only [overflowCell_length, keepLength]
      omega
    rw [isNext] at next updates
    refine ⟨_, after, free.tail, ?_, rfl, (by decide :
      cellTypeCode .cellTypeOverflow < 2 ^ 32), newHeap.trans
        (if_neg fits).symm, Or.inr ⟨updates, next⟩⟩
    rw [newHeap, sizeOf, recut_run least (by rw [← sizeOf]; exact large) enough
      inside same partEq sizeEq rfl, BtM.bind_ok writeEq]
    split <;> rfl

end Move

section Standing

variable {disk middle : Disk} {free left : List Nat} {node : BTreeNode}

/-- The metadata of a standing node after an overflow page has been taken. -/
theorem Standing.names (standing : Standing disk free node)
    (writes : WritesPage disk free middle left) :
    ∃ others, NamesFree middle left others node ∧ node.pageNumber ∉ others := by
  obtain ⟨store, holds, metaFresh, used⟩ := standing
  rcases writes with ⟨rfl, rfl⟩ | ⟨updates, next⟩
  · refine ⟨left, ⟨metaFresh.size, ?_, fun _ => rfl⟩, used⟩
    intro isFirst
    rw [metaFresh.first isFirst, ← store.chain.head]
    exact ⟨store.chain, store.distinct, store.firstUsed⟩
  · by_cases isFirst : node.pageNumber = 1
    · cases free with
      | nil =>
          refine ⟨[], ⟨metaFresh.size, ?_, fun other => absurd isFirst other⟩,
            List.not_mem_nil⟩
          intro _
          exact ⟨metaFresh.first isFirst, List.nodup_nil, List.not_mem_nil⟩
      | cons head rest =>
          have headFree := store.free_le head List.mem_cons_self
          refine ⟨[head], ⟨metaFresh.size, ?_, fun other => absurd isFirst other⟩,
            fun member => used (List.mem_singleton.mp member ▸
              List.mem_cons_self)⟩
          intro _
          refine ⟨⟨metaFresh.first isFirst, ?_, next⟩,
            List.pairwise_singleton _ _, fun member => store.firstUsed
              (List.mem_singleton.mp member ▸ List.mem_cons_self)⟩
          exact page?_isSome_iff.mpr
            ⟨headFree.1, Nat.le_trans headFree.2 updates.grows⟩
    · exact ⟨left, ⟨metaFresh.size, fun first => absurd first isFirst,
        fun _ => rfl⟩, fun member => used (updates.shrinks _ member)⟩

/-- Inserting an entry in memory and writing the node back. -/
theorem Standing.insert (standing : Standing disk free node)
    (writes : WritesPage disk free middle left) {position : Nat} {entry : Entry}
    (inside : position ≤ node.numKeys)
    (room : entry.heapSize ≤ node.freeHeap) (keyFits : entry.key < 2 ^ 32)
    (flagsFit : entry.flags < 2 ^ 32) :
    ∃ stored after others,
      nodercPersist (node.insertEntry position entry) middle =
        (.ok stored, after) ∧
      Standing after others stored ∧
      Reentered node (node.entries.insertIdx position entry) stored ∧
      after.pageSize = disk.pageSize ∧ after.maxPage ≤ disk.maxPage + 1 := by
  obtain ⟨others, names, notFree⟩ := standing.names writes
  obtain ⟨store, holds, metaFresh, used⟩ := standing
  have frame : Store middle left ∧ middle.pageSize = disk.pageSize ∧
      disk.maxPage ≤ middle.maxPage ∧ middle.maxPage ≤ disk.maxPage + 1 ∧
      node.pageNumber ∉ left := by
    rcases writes with ⟨rfl, rfl⟩ | ⟨updates, _⟩
    · exact ⟨store, rfl, Nat.le_refl _, Nat.le_succ _, used⟩
    · exact ⟨updates.store, updates.pageSize, updates.grows, updates.bounded,
        fun member => used (updates.shrinks _ member)⟩
  obtain ⟨middleStore, middleSize, grows, bounded, usedLeft⟩ := frame
  have encodable := holds.encodable
  have sizeLt := encodable.pageSize_lt
  have small : entry.cell.length < 2 ^ 32 := by
    have free := freeHeap_le_pageSize holds.ok
    unfold Entry.heapSize at room
    omega
  have refilled := insertEntry_refilled holds.ok room inside small
  have filledEncodable : Encodable (node.insertEntry position entry) := by
    refine encodable_of_entries encodable.rightChild_lt ?_ ?_
    · rw [refilled.pageSize_eq]
      exact sizeLt
    · rw [refilled.entries_eq]
      intro other member
      rcases (ListEdit.mem_insertIdx_iff (by
        rw [entries_length]; exact inside)).mp member with rfl | old
      · exact ⟨keyFits, flagsFit⟩
      · exact encodable.entries other old
  obtain ⟨metaBytes, after, persistEq, afterHolds, afterFresh, afterStore,
    afterSize, afterMax⟩ := nodercPersist_names middleStore refilled.ok
      filledEncodable
      (refilled.pageSize_eq.trans ((holds.pageSize_eq store).trans
        middleSize.symm))
      ⟨holds.present.1, Nat.le_trans holds.present.2 grows⟩ usedLeft
      ⟨names.size, names.first, names.other⟩
  exact ⟨_, after, others, persistEq,
    ⟨afterStore, afterHolds, afterFresh, notFree⟩, refilled.reentered metaBytes,
    afterSize.trans middleSize, by omega⟩

end Standing

/-! ## Offers to a node -/

/-- What a node is given: a record, a cell in a buffer, or a cell of another
node. -/
inductive Offer where
  | raw (payload : List UInt8)
  | cellMove (entry : Entry)
  | moveCell (source : BTreeNode) (sourceIndex : Nat)

/-- The write of an offer: `btree_node_write_ex` in its two modes, and
`btree_node_move_cell_ex_to` with the write of the node that its callers make
behind it. -/
def Offer.give (node : BTreeNode) (position : ChildListIndex) (key : Nat) :
    Offer → BtM BTreeNode
  | .raw payload => btreeNodeWriteAt node position key payload
  | .cellMove entry => btreeNodeWriteCell node position key entry.flags
      (le32 entry.cell.length ++ entry.cell)
  | .moveCell source sourceIndex => do
      nodercPersist
        (← btreeNodeMoveCellExTo source node sourceIndex position key)

/-- The cell of an offer that is moved. -/
def Offer.entry? : Offer → Option Entry
  | .raw _ => none
  | .cellMove entry => some entry
  | .moveCell source sourceIndex => source.entries[sourceIndex]?

/-- A record of a size that fits a word, or a cell of a node. -/
def Offer.Formed (pageSize : Nat) : Offer → Prop
  | .raw payload => payload.length < 2 ^ 32
  | .cellMove entry => NodeCell pageSize entry
  | .moveCell source sourceIndex => NodeOk source ∧
      ∃ entry, source.entries[sourceIndex]? = some entry ∧
        NodeCell pageSize entry

/-- How many pages an offer takes at most. -/
def Offer.pages : Offer → Nat
  | .raw payload => payload.length + 1
  | _ => 1

/-- The moved cell of an offer is within the limit without its key only. -/
def Offer.OverLimit (maxCellSize : Nat) (offer : Offer) : Prop :=
  ∃ entry ∈ offer.entry?, entry.cellSize ≤ maxCellSize ∧
    maxCellSize < entry.heapSize

/-- The new entry takes at most the limit of the node's heap, its key
included. -/
def TakesWithin (node : BTreeNode) (position : Nat) (stored : BTreeNode) :
    Prop :=
  ∃ entry, stored.entries = node.entries.insertIdx position entry ∧
    entry.heapSize ≤ btreeNodeMaxCellSize node

/-- There is room for an offer. -/
def Offer.Fits (node : BTreeNode) : Offer → Prop
  | .raw payload =>
      Takes (btreeNodeMaxCellSize node) node.freeHeap payload.length
  | offer => ∀ entry ∈ offer.entry?,
      movedHeap (btreeNodeMaxCellSize node) entry ≤ node.freeHeap

/-- What becomes of an offer: it is stored if there is room for it, and a
record takes at most the limit. -/
structure Given (disk : Disk) (node : BTreeNode) (position : ChildListIndex)
    (key : Nat) (offer : Offer) : Prop where
  stored : offer.Fits node → ∃ stored after left entry,
    offer.give node position key disk = (.ok stored, after) ∧
    Standing after left stored ∧
    Reentered node (node.entries.insertIdx (position.number node) entry)
      stored ∧
    (∀ moved ∈ offer.entry?,
      entry.heapSize = movedHeap (btreeNodeMaxCellSize node) moved) ∧
    (offer.entry? = none → entry.heapSize ≤ btreeNodeMaxCellSize node) ∧
    after.pageSize = disk.pageSize ∧
    after.maxPage ≤ disk.maxPage + offer.pages
  refused : ¬ offer.Fits node → ∀ stored after,
    offer.give node position key disk ≠ (.ok stored, after)

section Give

variable {disk : Disk} {free : List Nat} {node : BTreeNode}
variable {position : ChildListIndex} {key : Nat} {offer : Offer} {entry : Entry}

/-- A moved cell. -/
theorem given_moved (roomy : Roomy disk) (standing : Standing disk free node)
    (inside : position.number node ≤ node.numKeys) (keyFits : key < 2 ^ 32)
    (cell : NodeCell disk.pageSize entry) {buffer : List UInt8}
    (size : cellInlineSize buffer = entry.cell.length)
    (body : (buffer.drop 4).take entry.cell.length = entry.cell)
    (room : disk.maxPage + 1 < pageIdLimit) (onePage : offer.pages = 1)
    (isMoved : offer.entry? = some entry)
    (fitsIff : offer.Fits node ↔
      movedHeap (btreeNodeMaxCellSize node) entry ≤ node.freeHeap)
    (giveEq : offer.give node position key disk =
      (do
        let node ← btreeNodeMoveCellFromData node position key entry.flags
          buffer entry.cellSize
        nodercPersist node) disk) :
    Given disk node position key offer := by
  obtain ⟨new, middle, left, moved, keyEq, flagsFit, heapEq, writes⟩ :=
    @btreeNodeMoveCellFromData_run disk free node position key entry buffer
      roomy standing.store (standing.holds.pageSize_eq standing.store) inside
      cell size body room
  rw [← heapEq] at fitsIff
  constructor
  · intro fits
    have fits := fitsIff.mp fits
    obtain ⟨stored, after, others, persistEq, afterStanding, reentered,
      sameSize, few⟩ := standing.insert writes inside fits
        (by rw [keyEq]; exact keyFits) flagsFit
    refine ⟨stored, after, others, new, ?_, afterStanding, reentered, ?_, ?_,
      sameSize, by rw [onePage]; exact few⟩
    · rw [if_pos fits] at moved
      rw [giveEq, BtM.bind_ok moved]
      exact persistEq
    · intro other here
      rw [isMoved, Option.mem_some_iff] at here
      rw [← here]
      exact heapEq
    · intro isRecord
      rw [isMoved] at isRecord
      cases isRecord
  · intro full stored after given
    have full := fun fits => full (fitsIff.mpr fits)
    rw [if_neg full] at moved
    rw [giveEq, BtM.bind_error moved] at given
    cases given

theorem nodeInsertInlineEx_pageNumber {cell : BTreeCellInline} {flags : Nat}
    {after : BTreeNode}
    (inserted : nodeInsertInlineEx node position key cell flags = .ok after) :
    after.pageNumber = node.pageNumber := by
  unfold nodeInsertInlineEx writePageKey at inserted
  simp only at inserted
  split at inserted
  · cases inserted
  · split at inserted
    · cases inserted
      rfl
    · cases inserted

theorem nodeInsertOverflow_pageNumber {cell : BTreeCellOverflow}
    {after : BTreeNode}
    (inserted : nodeInsertOverflow node position key cell = .ok after) :
    after.pageNumber = node.pageNumber := by
  unfold nodeInsertOverflow writePageKey at inserted
  simp only at inserted
  split at inserted
  · cases inserted
  · split at inserted
    · cases inserted
      rfl
    · cases inserted

theorem readPage_pageId {pageId : Nat} {page : Page} {after : Disk}
    (readEq : readPage pageId disk = (.ok page, after)) :
    page.pageId = pageId := by
  cases found : disk.page? pageId with
  | some image =>
      rw [readPage_present found] at readEq
      exact congrArg Page.pageId (Except.ok.inj (Prod.mk.inj readEq).1).symm
  | none =>
      rw [readPage_absent found] at readEq
      cases readEq

/-- The last thing that a write does is to write the node back. -/
theorem btreeNodeWriteAt_persists {data : List UInt8} {stored : BTreeNode}
    {after : Disk}
    (written : btreeNodeWriteAt node position key data disk =
      (.ok stored, after)) :
    ∃ grown middle, grown.pageNumber = node.pageNumber ∧
      nodercPersist grown middle = (.ok stored, after) := by
  unfold btreeNodeWriteAt at written
  split at written
  · obtain ⟨grown, middle, insertEq, persistEq⟩ := BtM.bind_eq_ok written
    exact ⟨grown, middle,
      nodeInsertInlineEx_pageNumber (BtM.ofExcept_eq_ok insertEq).1, persistEq⟩
  · unfold btreeNodeWriteOverflow at written
    split at written
    · cases written
    · obtain ⟨_, _, _, written⟩ := BtM.bind_eq_ok written
      obtain ⟨⟨pageId, offset⟩, _, _, written⟩ := BtM.bind_eq_ok written
      obtain ⟨page, _, readEq, written⟩ := BtM.bind_eq_ok written
      obtain ⟨grown, middle, insertEq, persistEq⟩ := BtM.bind_eq_ok written
      exact ⟨grown, middle,
        (nodeInsertOverflow_pageNumber (BtM.ofExcept_eq_ok insertEq).1).trans
          (readPage_pageId readEq), persistEq⟩

theorem recordPages_le (maxCellSize freeHeap pageSize size : Nat) :
    recordPages maxCellSize freeHeap pageSize size ≤ size + 1 := by
  have slices : ∀ writable fuel size,
      (overflowSlices writable fuel size).1 ≤ fuel + 1 := by
    intro writable fuel
    induction fuel with
    | zero =>
        intro size
        exact Nat.le_refl 1
    | succ fuel inductionHypothesis =>
        intro size
        rw [overflowSlices]
        split
        · exact Nat.succ_le_succ (inductionHypothesis _)
        · exact Nat.succ_le_succ (Nat.zero_le _)
  unfold recordPages
  split
  · exact Nat.zero_le _
  · apply Nat.le_trans (slices _ _ _)
    omega

/-- A record. -/
theorem given_raw (roomy : Roomy disk) (standing : Standing disk free node)
    (inside : position.number node ≤ node.numKeys) (keyFits : key < 2 ^ 32)
    {payload : List UInt8} (sizeFits : payload.length < 2 ^ 32)
    (room : disk.maxPage + (payload.length + 1) < pageIdLimit) :
    Given disk node position key (.raw payload) := by
  obtain ⟨store, holds, metaFresh, used⟩ := standing
  have few := recordPages_le (btreeNodeMaxCellSize node) node.freeHeap
    disk.pageSize payload.length
  constructor
  · intro takes
    obtain ⟨stored, after, left, entry, chain, writeEq, written⟩ :=
      @btreeNodeWriteAt_stored disk free node position key payload roomy store
        holds metaFresh used inside keyFits takes sizeFits (by omega)
    obtain ⟨grown, middle, samePage, persistEq⟩ :=
      btreeNodeWriteAt_persists writeEq
    have present := holds.present
    have small : grown.pageNumber < pageIdLimit := by
      rw [samePage]
      omega
    have bounded := written.updates.bounded
    rw [written.chain_length] at bounded
    refine ⟨stored, after, left, entry, writeEq, ⟨written.updates.store,
      written.holds, metaFresh_of_persist (by rw [samePage]; exact present.1)
        small persistEq written.updates.store, ?_⟩, written.reentered, ?_,
      fun _ => written.small, written.updates.pageSize, ?_⟩
    · intro member
      rw [written.reentered.pageNumber_eq] at member
      exact used (written.updates.shrinks _ member)
    · intro moved here
      cases here
    · exact Nat.le_trans bounded (Nat.add_le_add_left few _)
  · intro full stored after written
    apply full
    exact (@btreeNodeWriteAt_ok_iff disk free node position key payload roomy
      store holds metaFresh used inside keyFits sizeFits (by omega)).mp
        ⟨stored, after, written⟩

/-- A cell in a buffer. -/
theorem given_cellMove (roomy : Roomy disk)
    (standing : Standing disk free node)
    (inside : position.number node ≤ node.numKeys) (keyFits : key < 2 ^ 32)
    (cell : NodeCell disk.pageSize entry)
    (room : disk.maxPage + 1 < pageIdLimit) :
    Given disk node position key (.cellMove entry) := by
  have cellFits := cell.fits
  have pageFits := roomy.fits
  have short : entry.cell.length < 2 ^ 32 := by omega
  have whole : (le32 entry.cell.length ++ entry.cell).length =
      entry.cellSize := by
    rw [List.length_append]
    rfl
  have size : cellInlineSize (le32 entry.cell.length ++ entry.cell) =
      entry.cell.length := by
    unfold cellInlineSize
    rw [u32At_le32, Nat.mod_eq_of_lt short]
  apply @given_moved disk free node position key (.cellMove entry) entry roomy
    standing inside keyFits cell (le32 entry.cell.length ++ entry.cell) size
    List.take_length room rfl rfl
  · constructor
    · intro fits
      exact fits entry rfl
    · intro fits other here
      rw [← Option.some.inj here]
      exact fits
  · change btreeNodeWriteCell node position key entry.flags _ disk = _
    unfold btreeNodeWriteCell
    rw [whole]

/-- A cell of another node. -/
theorem given_moveCell (roomy : Roomy disk)
    (standing : Standing disk free node)
    (inside : position.number node ≤ node.numKeys) (keyFits : key < 2 ^ 32)
    {source : BTreeNode} {sourceIndex : Nat} (sourceOk : NodeOk source)
    (here : source.entries[sourceIndex]? = some entry)
    (cell : NodeCell disk.pageSize entry)
    (room : disk.maxPage + 1 < pageIdLimit) :
    Given disk node position key (.moveCell source sourceIndex) := by
  have reads := sourceOk.reads here
  refine given_moved roomy standing inside keyFits cell reads.size_eq
    reads.cell_eq room rfl here ?_ ?_
  · constructor
    · intro fits
      exact fits entry here
    · intro fits other isOther
      have same : other = entry :=
        Option.some.inj ((Option.mem_def.mp isOther).symm.trans here)
      rw [same]
      exact fits
  · change (btreeNodeMoveCellExTo source node sourceIndex position key >>=
      nodercPersist) disk = _
    have bufferSize : btuGetCellBufferSize source sourceIndex =
        entry.cellSize := by
      unfold btuGetCellBufferSize
      rw [reads.size_eq, Entry.cellSize]
      omega
    unfold btreeNodeMoveCellExTo
    rw [reads.flags_eq, bufferSize]

/-- What becomes of any offer. -/
theorem offer_given (roomy : Roomy disk) (standing : Standing disk free node)
    (inside : position.number node ≤ node.numKeys) (keyFits : key < 2 ^ 32)
    (formed : offer.Formed disk.pageSize)
    (room : disk.maxPage + offer.pages < pageIdLimit) :
    Given disk node position key offer := by
  cases offer with
  | raw payload =>
      exact given_raw roomy standing inside keyFits formed room
  | cellMove entry =>
      exact given_cellMove roomy standing inside keyFits formed room
  | moveCell source sourceIndex =>
      obtain ⟨sourceOk, entry, here, cell⟩ := formed
      exact given_moveCell roomy standing inside keyFits sourceOk here cell
        room

/-- A moved cell takes at most the limit unless it is above it. -/
theorem movedHeap_within_iff {maxCellSize : Nat} :
    movedHeap maxCellSize entry ≤ maxCellSize ↔
      ¬ (entry.cellSize ≤ maxCellSize ∧ maxCellSize < entry.heapSize) := by
  unfold movedHeap
  by_cases fits : entry.cellSize ≤ maxCellSize
  · rw [if_pos fits]
    constructor
    · intro within above
      exact Nat.not_lt.mpr within above.2
    · intro notOver
      exact Nat.not_lt.mp fun above => notOver ⟨fits, above⟩
  · rw [if_neg fits]
    constructor
    · intro _ above
      exact fits above.1
    · intro _
      exact Nat.le_refl _

/-- There is room for an offer within the limit if there is room for the
largest cell. -/
theorem fits_of_within (least : 24 ≤ btreeNodeMaxCellSize node)
    (within : ¬ offer.OverLimit (btreeNodeMaxCellSize node))
    (enough : btreeNodeMaxCellSize node ≤ node.freeHeap) :
    offer.Fits node := by
  have moved : ∀ entry ∈ offer.entry?,
      movedHeap (btreeNodeMaxCellSize node) entry ≤ node.freeHeap := by
    intro entry here
    apply Nat.le_trans _ enough
    rw [movedHeap_within_iff]
    intro above
    exact within ⟨entry, here, above⟩
  cases offer with
  | raw payload =>
      change Takes _ _ _
      unfold Takes
      split
      · next fits => exact Nat.le_trans fits enough
      · exact Nat.le_trans least enough
  | cellMove entry => exact moved
  | moveCell source sourceIndex => exact moved

/-- The entry that an insertion puts in is determined. -/
theorem takesWithin_iff {place : Nat} {stored : BTreeNode}
    (inside : place ≤ node.numKeys)
    (entriesEq : stored.entries = node.entries.insertIdx place entry) :
    TakesWithin node place stored ↔
      entry.heapSize ≤ btreeNodeMaxCellSize node := by
  constructor
  · rintro ⟨other, otherEq, within⟩
    have length : place ≤ node.entries.length := by
      rw [entries_length]
      exact inside
    have here : some other = some entry := by
      have first := congrArg (·[place]?) (otherEq.symm.trans entriesEq)
      simp only [List.getElem?_insertIdx_self, if_pos length] at first
      exact first
    rw [← Option.some.inj here]
    exact within
  · intro within
    exact ⟨entry, entriesEq, within⟩

/-- An offer that is accepted: the node has one more entry, which takes at most
the limit exactly if the offer is not over it. -/
theorem Given.accepted (given : Given disk node position key offer)
    {stored : BTreeNode} {after : Disk}
    (giveEq : offer.give node position key disk = (.ok stored, after)) :
    ∃ left entry, Standing after left stored ∧
      Reentered node (node.entries.insertIdx (position.number node) entry)
        stored ∧
      (entry.heapSize ≤ btreeNodeMaxCellSize node ↔
        ¬ offer.OverLimit (btreeNodeMaxCellSize node)) ∧
      after.pageSize = disk.pageSize ∧
      after.maxPage ≤ disk.maxPage + offer.pages := by
  have fits : offer.Fits node := by
    by_contra full
    exact given.refused full stored after giveEq
  obtain ⟨other, last, left, entry, otherEq, standing, reentered, moved,
    record, sameSize, few⟩ := given.stored fits
  rw [giveEq] at otherEq
  obtain ⟨storedEq, rfl⟩ := Prod.mk.inj otherEq
  obtain rfl := Except.ok.inj storedEq
  refine ⟨left, entry, standing, reentered, ?_, sameSize, few⟩
  unfold Offer.OverLimit
  cases isMoved : offer.entry? with
  | none =>
      constructor
      · rintro _ ⟨cell, here, _⟩
        cases here
      · intro _
        exact record isMoved
  | some cell =>
      rw [moved cell isMoved, movedHeap_within_iff]
      constructor
      · rintro notOver ⟨other, here, above⟩
        rw [← Option.some.inj here] at above
        exact notOver above
      · intro notOver above
        exact notOver ⟨cell, rfl, above⟩

end Give

/-! ## Four offers -/

/-- An offer with its position and its key. -/
structure Offered where
  position : ChildListIndex
  key : Nat
  offer : Offer

/-- The offers come to a node with so many entries, one after the other. -/
def Arriving (pageSize : Nat) : Nat → List Offered → Prop
  | _, [] => True
  | count, next :: rest =>
      (next.position.mode ≠ .limEnd → next.position.index ≤ count) ∧
      next.key < 2 ^ 32 ∧ next.offer.Formed pageSize ∧
      Arriving pageSize (count + 1) rest

/-- Every offer is accepted, and takes at most the limit. -/
def GivesAll : Disk → BTreeNode → List Offered → Prop
  | _, _, [] => True
  | disk, node, next :: rest => ∃ stored after,
      next.offer.give node next.position next.key disk =
        (.ok stored, after) ∧
      TakesWithin node (next.position.number node) stored ∧
      GivesAll after stored rest

section Sequence

variable {disk : Disk} {free : List Nat} {node : BTreeNode}

theorem arriving_inside {position : ChildListIndex}
    (valid : position.mode ≠ .limEnd → position.index ≤ node.numKeys) :
    position.number node ≤ node.numKeys := by
  unfold ChildListIndex.number
  split
  · exact Nat.le_refl _
  · next other => exact valid other

/-- A node with one entry more. -/
theorem Standing.grown {after : Disk} {left : List Nat} {stored : BTreeNode}
    {place : Nat} {entry : Entry} (standing : Standing disk free node)
    (stands : Standing after left stored)
    (reentered : Reentered node (node.entries.insertIdx place entry) stored)
    (inside : place ≤ node.numKeys)
    (sameSize : after.pageSize = disk.pageSize) :
    stored.numKeys = node.numKeys + 1 ∧
      btreeNodeMaxCellSize stored = btreeNodeMaxCellSize node ∧
      stored.freeHeap + entry.heapSize = node.freeHeap := by
  have size : stored.pageSize = node.pageSize :=
    (stands.holds.pageSize_eq stands.store).trans (sameSize.trans
      (standing.holds.pageSize_eq standing.store).symm)
  have length : place ≤ node.entries.length := by
    rw [entries_length]
    exact inside
  refine ⟨?_, maxCellSize_eq reentered.pageNumber_eq size, ?_⟩
  · have count := congrArg List.length reentered.entries_eq
    rw [List.length_insertIdx_of_le_length length, entries_length,
      entries_length] at count
    exact count
  · have before := standing.holds.ok.freeHeap_add
    have now := stands.holds.ok.freeHeap_add
    rw [reentered.entries_eq, ListEdit.sum_map_insertIdx Entry.heapSize length,
      reentered.pageNumber_eq, size] at now
    omega

/-- Offers that are within the limit are all accepted by a node that has room
for as many of the largest cells. -/
theorem givesAll_of_within : ∀ {offers : List Offered} {disk : Disk}
    {free : List Nat} {node : BTreeNode}, Roomy disk →
    Standing disk free node → Arriving disk.pageSize node.numKeys offers →
    offers.length * btreeNodeMaxCellSize node ≤ node.freeHeap →
    disk.maxPage + (offers.map (·.offer.pages)).sum < pageIdLimit →
    (∀ next ∈ offers,
      ¬ next.offer.OverLimit (btreeNodeMaxCellSize node)) →
    GivesAll disk node offers := by
  intro offers
  induction offers with
  | nil =>
      intro disk free node _ _ _ _ _ _
      trivial
  | cons next rest inductionHypothesis =>
      intro disk free node roomy standing arriving enough room within
      obtain ⟨valid, keyFits, formed, restArriving⟩ := arriving
      have inside := arriving_inside valid
      rw [List.map_cons, List.sum_cons] at room
      rw [List.length_cons, Nat.succ_mul] at enough
      have given := offer_given roomy standing inside keyFits formed
        (by omega)
      have notOver := within next List.mem_cons_self
      have fits := fits_of_within (roomy.maxCellSize
        (standing.holds.pageSize_eq standing.store)) notOver (by omega)
      obtain ⟨stored, after, _, _, giveEq, _⟩ := given.stored fits
      obtain ⟨left, entry, stands, reentered, limitIff, sameSize, few⟩ :=
        given.accepted giveEq
      obtain ⟨count, sameMax, freeEq⟩ :=
        standing.grown stands reentered inside sameSize
      have small := limitIff.mpr notOver
      refine ⟨stored, after, giveEq,
        (takesWithin_iff inside reentered.entries_eq).mpr small, ?_⟩
      apply inductionHypothesis (roomy.congr sameSize) stands
      · rw [sameSize, count]
        exact restArriving
      · rw [sameMax]
        omega
      · omega
      · intro later member
        rw [sameMax]
        exact within later (List.mem_cons_of_mem next member)

/-- Offers that are all accepted within the limit are not above it. -/
theorem within_of_givesAll : ∀ {offers : List Offered} {disk : Disk}
    {free : List Nat} {node : BTreeNode}, Roomy disk →
    Standing disk free node → Arriving disk.pageSize node.numKeys offers →
    disk.maxPage + (offers.map (·.offer.pages)).sum < pageIdLimit →
    GivesAll disk node offers →
    ∀ next ∈ offers,
      ¬ next.offer.OverLimit (btreeNodeMaxCellSize node) := by
  intro offers
  induction offers with
  | nil =>
      intro disk free node _ _ _ _ _ next member
      cases member
  | cons first rest inductionHypothesis =>
      intro disk free node roomy standing arriving room gives
      obtain ⟨valid, keyFits, formed, restArriving⟩ := arriving
      obtain ⟨stored, after, giveEq, within, restGives⟩ := gives
      have inside := arriving_inside valid
      rw [List.map_cons, List.sum_cons] at room
      have given := offer_given roomy standing inside keyFits formed
        (by omega)
      obtain ⟨left, entry, stands, reentered, limitIff, sameSize, few⟩ :=
        given.accepted giveEq
      obtain ⟨count, sameMax, freeEq⟩ :=
        standing.grown stands reentered inside sameSize
      have small := (takesWithin_iff inside reentered.entries_eq).mp within
      intro next member
      rcases List.mem_cons.mp member with rfl | later
      · exact limitIff.mp small
      · rw [← sameMax]
        apply inductionHypothesis (roomy.congr sameSize) stands _ (by omega)
          restGives next later
        rw [sameSize, count]
        exact restArriving

/-- An offer that is accepted takes at most the limit exactly if it is not above
the limit. -/
theorem offer_within_iff {position : ChildListIndex} {key : Nat}
    {offer : Offer} (roomy : Roomy disk) (standing : Standing disk free node)
    (inside : position.number node ≤ node.numKeys) (keyFits : key < 2 ^ 32)
    (formed : offer.Formed disk.pageSize)
    (room : disk.maxPage + offer.pages < pageIdLimit) :
    (∀ stored after,
      offer.give node position key disk = (.ok stored, after) →
      TakesWithin node (position.number node) stored) ↔
      ¬ (offer.OverLimit (btreeNodeMaxCellSize node) ∧ offer.Fits node) := by
  have given := offer_given roomy standing inside keyFits formed room
  constructor
  · rintro within ⟨above, fits⟩
    obtain ⟨stored, after, _, _, giveEq, _⟩ := given.stored fits
    obtain ⟨_, entry, _, reentered, limitIff, _⟩ := given.accepted giveEq
    have small := (takesWithin_iff inside reentered.entries_eq).mp
      (within stored after giveEq)
    exact limitIff.mp small above
  · intro notOver stored after giveEq
    obtain ⟨_, entry, _, reentered, limitIff, _⟩ := given.accepted giveEq
    rw [takesWithin_iff inside reentered.entries_eq, limitIff]
    intro above
    apply notOver
    refine ⟨above, ?_⟩
    by_contra full
    exact given.refused full stored after giveEq

/-- The same for a move to a node that need not be on disk. -/
theorem move_within_iff {source dest : BTreeNode} {sourceIndex newKey : Nat}
    {position : ChildListIndex} {entry : Entry} (roomy : Roomy disk)
    (store : Store disk free) (destOk : NodeOk dest)
    (destSize : dest.pageSize = disk.pageSize)
    (inside : position.number dest ≤ dest.numKeys) (sourceOk : NodeOk source)
    (here : source.entries[sourceIndex]? = some entry)
    (cell : NodeCell disk.pageSize entry)
    (room : disk.maxPage + 1 < pageIdLimit) :
    (∀ moved after,
      btreeNodeMoveCellExTo source dest sourceIndex position newKey disk =
        (.ok moved, after) →
      TakesWithin dest (position.number dest) moved) ↔
      ¬ (entry.cellSize ≤ btreeNodeMaxCellSize dest ∧
        btreeNodeMaxCellSize dest < entry.heapSize ∧
        entry.heapSize ≤ dest.freeHeap) := by
  have reads := sourceOk.reads here
  have bufferSize : btuGetCellBufferSize source sourceIndex =
      entry.cellSize := by
    unfold btuGetCellBufferSize
    rw [reads.size_eq, Entry.cellSize]
    omega
  obtain ⟨new, middle, left, moved, _, _, heapEq, _⟩ :=
    @btreeNodeMoveCellFromData_run disk free dest position newKey entry
      (btuGetCellBuffer source sourceIndex) roomy store destSize inside cell
      reads.size_eq reads.cell_eq room
  have run : btreeNodeMoveCellExTo source dest sourceIndex position newKey
      disk = (if new.heapSize ≤ dest.freeHeap then
        .ok (dest.insertEntry (position.number dest) new)
      else .error (.err .errNodeNotEnoughSpace), middle) := by
    unfold btreeNodeMoveCellExTo
    rw [reads.flags_eq, bufferSize]
    exact moved
  have pageFits := roomy.fits
  have freeLe := freeHeap_le_pageSize destOk
  have limit := @movedHeap_within_iff entry (btreeNodeMaxCellSize dest)
  by_cases fits : new.heapSize ≤ dest.freeHeap
  · have filled := insertEntry_refilled destOk fits inside (by
      unfold Entry.heapSize at fits
      omega)
    have within := takesWithin_iff inside filled.entries_eq
    rw [if_pos fits] at run
    rw [← heapEq, ← within] at limit
    constructor
    · rintro all ⟨small, above, _⟩
      exact limit.mp (all _ _ run) ⟨small, above⟩
    · intro notOver other after otherEq
      rw [run] at otherEq
      rw [← Except.ok.inj (Prod.mk.inj otherEq).1, limit]
      rintro ⟨small, above⟩
      apply notOver
      refine ⟨small, above, ?_⟩
      rw [heapEq, movedHeap, if_pos small] at fits
      exact fits
  · rw [if_neg fits] at run
    constructor
    · rintro _ ⟨small, _, enough⟩
      apply fits
      rw [heapEq, movedHeap, if_pos small]
      exact enough
    · intro _ other after otherEq
      rw [run] at otherEq
      cases otherEq

/-- Four offers to an empty node are all accepted within the limit exactly if
none of them is over it. -/
theorem fourOffers_iff (roomy : Roomy disk) (standing : Standing disk free node)
    (empty : node.entries = []) {offers : List Offered}
    (four : offers.length ≤ 4) (arriving : Arriving disk.pageSize 0 offers)
    (room : disk.maxPage + (offers.map (·.offer.pages)).sum < pageIdLimit) :
    GivesAll disk node offers ↔ ∀ next ∈ offers,
      ¬ next.offer.OverLimit (btreeNodeMaxCellSize node) := by
  have none : node.numKeys = 0 := by
    have count := @entries_length node
    rw [empty] at count
    exact count.symm
  rw [← none] at arriving
  constructor
  · exact within_of_givesAll roomy standing arriving room
  · apply givesAll_of_within roomy standing arriving _ room
    have capacity := standing.holds.ok.freeHeap_add
    rw [empty, ← btuGetNodeHeapSize_eq] at capacity
    have limit : btreeNodeMaxCellSize node = btuGetNodeHeapSize node / 4 := rfl
    have most := Nat.mul_le_mul_right (btreeNodeMaxCellSize node) four
    have sum : (List.map Entry.heapSize ([] : List Entry)).sum = 0 := rfl
    omega

end Sequence

/-- The limit holds for what is stored, and four offers to an empty node are
accepted, exactly if no moved cell is within the limit without its key only. -/
theorem one_limit_iff {disk : Disk} {free : List Nat} {node : BTreeNode}
    (roomy : Roomy disk) (standing : Standing disk free node) :
    (∀ (position : ChildListIndex) (key : Nat) (offer : Offer),
      position.number node ≤ node.numKeys → key < 2 ^ 32 →
      offer.Formed disk.pageSize →
      disk.maxPage + offer.pages < pageIdLimit →
      ((∀ stored after,
        offer.give node position key disk = (.ok stored, after) →
        TakesWithin node (position.number node) stored) ↔
        ¬ (offer.OverLimit (btreeNodeMaxCellSize node) ∧
          offer.Fits node))) ∧
    (∀ (source dest : BTreeNode) (sourceIndex newKey : Nat)
      (position : ChildListIndex) (entry : Entry), NodeOk dest →
      dest.pageSize = disk.pageSize →
      position.number dest ≤ dest.numKeys → NodeOk source →
      source.entries[sourceIndex]? = some entry →
      NodeCell disk.pageSize entry → disk.maxPage + 1 < pageIdLimit →
      ((∀ moved after,
        btreeNodeMoveCellExTo source dest sourceIndex position newKey disk =
          (.ok moved, after) →
        TakesWithin dest (position.number dest) moved) ↔
        ¬ (entry.cellSize ≤ btreeNodeMaxCellSize dest ∧
          btreeNodeMaxCellSize dest < entry.heapSize ∧
          entry.heapSize ≤ dest.freeHeap))) ∧
    (node.entries = [] → ∀ offers : List Offered, offers.length ≤ 4 →
      Arriving disk.pageSize 0 offers →
      disk.maxPage + (offers.map (·.offer.pages)).sum < pageIdLimit →
      (GivesAll disk node offers ↔ ∀ next ∈ offers,
        ¬ next.offer.OverLimit (btreeNodeMaxCellSize node))) := by
  refine ⟨?_, ?_, ?_⟩
  · intro position key offer inside keyFits formed room
    exact offer_within_iff roomy standing inside keyFits formed room
  · intro source dest sourceIndex newKey position entry destOk destSize inside
      sourceOk here cell room
    exact move_within_iff roomy standing.store destOk destSize inside sourceOk
      here cell room
  · intro empty offers four arriving room
    exact fourOffers_iff roomy standing empty four arriving room

/-! ## An empty leaf on page 2 -/

def emptyLeafDisk : Disk :=
  diskOfNodes 216 [(true, 0, [(1, [10])]), (true, 0, [])]

/-- A cell of the limit's size, key not included. -/
def largestCell : Entry :=
  ⟨5, cellTypeCode .cellTypeInline, List.replicate 45 7⟩

/-- A small cell, a record of the limit's size, one of 300 bytes, and a cell of
page 1. -/
def fourSmallOffers : List Offered :=
  [⟨insertEnd, 4, .cellMove ⟨0, cellTypeCode .cellTypeInline, [1, 2]⟩⟩,
    ⟨⟨.limIndex, 0⟩, 1, .raw (List.replicate 33 8)⟩,
    ⟨⟨.limIndex, 1⟩, 2, .raw longRecord⟩,
    ⟨insertEnd, 9, .moveCell (loadedNode emptyLeafDisk 1) 0⟩]

theorem emptyLeaf_standing :
    Standing emptyLeafDisk [] (loadedNode emptyLeafDisk 2) := by
  have checked : CheckedStore emptyLeafDisk [] ∧
      Holds emptyLeafDisk (loadedNode emptyLeafDisk 2) ∧
      (loadedNode emptyLeafDisk 2).metaBytes.length = pagemetaSize ∧
      (loadedNode emptyLeafDisk 2).pageNumber ≠ 1 := by
    decide +kernel
  obtain ⟨store, holds, size, notFirst⟩ := checked
  exact ⟨store.store, holds, ⟨size, fun first => absurd first notFirst⟩,
    List.not_mem_nil⟩

/-- The four are all accepted. -/
theorem four_small_offers_accepted :
    GivesAll emptyLeafDisk (loadedNode emptyLeafDisk 2) fourSmallOffers := by
  have roomy : Roomy emptyLeafDisk := ⟨by decide, by decide⟩
  have checked : (loadedNode emptyLeafDisk 2).entries = [] ∧
      emptyLeafDisk.maxPage + (fourSmallOffers.map (·.offer.pages)).sum <
        pageIdLimit ∧
      btreeNodeMaxCellSize (loadedNode emptyLeafDisk 2) = 49 ∧
      NodeOk (loadedNode emptyLeafDisk 1) ∧
      (loadedNode emptyLeafDisk 1).entries[0]? =
        some ⟨1, cellTypeCode .cellTypeInline, [10]⟩ ∧
      longRecord.length < 2 ^ 32 := by
    decide +kernel
  obtain ⟨empty, room, limit, sourceOk, source, short⟩ := checked
  have arriving : Arriving emptyLeafDisk.pageSize 0 fourSmallOffers := by
    refine ⟨by decide, by decide, ⟨by decide, by decide⟩,
      by decide, by decide, (by decide : 33 < 2 ^ 32),
      by decide, by decide, short,
      by decide, by decide, ⟨sourceOk, _, source, by decide, by decide⟩,
      trivial⟩
  have four := (one_limit_iff roomy emptyLeaf_standing).2.2 empty
    fourSmallOffers (by decide) arriving room
  rw [four, limit]
  intro next member
  rcases List.mem_cons.mp member with rfl | member
  · rintro ⟨entry, here, _, above⟩
    rw [← Option.some.inj here] at above
    exact absurd above (by decide)
  · rcases List.mem_cons.mp member with rfl | member
    · rintro ⟨entry, here, _⟩
      cases here
    · rcases List.mem_cons.mp member with rfl | member
      · rintro ⟨entry, here, _⟩
        cases here
      · rw [List.mem_singleton] at member
        subst member
        rintro ⟨entry, here, _, above⟩
        have same := Option.some.inj
          (source.symm.trans (Option.mem_def.mp here))
        rw [← same] at above
        exact absurd above (by decide)

/-- Give offers one after the other. -/
def giveEach (node : BTreeNode) (offers : List Offered) : BtM BTreeNode :=
  offers.foldlM (fun node next => next.offer.give node next.position next.key)
    node

/-- Cells of the limit's size, their keys not included. -/
def largestCells (count : Nat) : List Offered :=
  List.replicate count ⟨insertEnd, 5, .cellMove largestCell⟩

/-- Three such cells fill a node; the fourth is refused. -/
theorem fourth_largest_cell_refused :
    Arriving emptyLeafDisk.pageSize 0 (largestCells 4) ∧
    (giveEach (loadedNode emptyLeafDisk 2) (largestCells 3)
      emptyLeafDisk).1.isOk = true ∧
    (giveEach (loadedNode emptyLeafDisk 2) (largestCells 4)
      emptyLeafDisk).1 = .error (.err .errNodeNotEnoughSpace) ∧
    ¬ GivesAll emptyLeafDisk (loadedNode emptyLeafDisk 2)
      (largestCells 4) := by
  have checked : (giveEach (loadedNode emptyLeafDisk 2) (largestCells 3)
      emptyLeafDisk).1.isOk = true ∧
      (giveEach (loadedNode emptyLeafDisk 2) (largestCells 4)
        emptyLeafDisk).1 = .error (.err .errNodeNotEnoughSpace) ∧
      (loadedNode emptyLeafDisk 2).entries = [] ∧
      emptyLeafDisk.maxPage + ((largestCells 4).map (·.offer.pages)).sum <
        pageIdLimit ∧
      btreeNodeMaxCellSize (loadedNode emptyLeafDisk 2) = 49 := by
    decide +kernel
  obtain ⟨three, refused, empty, room, limit⟩ := checked
  have cell : NodeCell emptyLeafDisk.pageSize largestCell :=
    ⟨by decide, by decide⟩
  have arriving : Arriving emptyLeafDisk.pageSize 0 (largestCells 4) :=
    ⟨by decide, by decide, cell, by decide, by decide, cell,
      by decide, by decide, cell, by decide, by decide, cell, trivial⟩
  refine ⟨arriving, three, refused, ?_⟩
  rw [fourOffers_iff ⟨by decide, by decide⟩ emptyLeaf_standing empty
    (by decide) arriving room, limit]
  intro within
  exact within _ List.mem_cons_self
    ⟨largestCell, rfl, by decide, by decide⟩

end BtreeDb
