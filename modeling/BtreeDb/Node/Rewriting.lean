import BtreeDb.Node.Runs
import BtreeDb.Node.Storing

/-!
# Nodes changed in memory

The calls that rebalance a tree load nodes, change them in memory and write
them back.  `Writable` says that a node may be written to its page.  Every
change of a node keeps it so: another key, another right child, an entry more
or an entry less.
-/

namespace BtreeDb

open Bytes Disk

/-! ## Nodes with another shape -/

theorem NodeOk.shaped {node : BTreeNode} (ok : NodeOk node) (isLeaf : Bool)
    (rightChild : Nat) :
    NodeOk { node with isLeaf := isLeaf, rightChild := rightChild } :=
  ⟨ok.lead, ok.free, ok.used, ok.placed, ok.apart⟩

/-- The entries fit the words they are stored in. -/
def EntriesFit (entries : List Entry) : Prop :=
  ∀ entry ∈ entries, entry.key < 2 ^ 32 ∧ entry.flags < 2 ^ 32

theorem EntriesFit.take {entries : List Entry} (fit : EntriesFit entries)
    (count : Nat) : EntriesFit (entries.take count) :=
  fun entry member => fit entry (List.mem_of_mem_take member)

theorem EntriesFit.drop {entries : List Entry} (fit : EntriesFit entries)
    (count : Nat) : EntriesFit (entries.drop count) :=
  fun entry member => fit entry (List.mem_of_mem_drop member)

theorem EntriesFit.eraseIdx {entries : List Entry} (fit : EntriesFit entries)
    (index : Nat) : EntriesFit (entries.eraseIdx index) :=
  fun entry member => fit entry (List.mem_of_mem_eraseIdx member)

theorem EntriesFit.insertIdx {entries : List Entry} {position : Nat}
    {entry : Entry} (fit : EntriesFit entries)
    (inside : position ≤ entries.length) (keyFits : entry.key < 2 ^ 32)
    (flagsFit : entry.flags < 2 ^ 32) :
    EntriesFit (entries.insertIdx position entry) := by
  intro other member
  rcases (List.mem_insertIdx inside).mp member with rfl | old
  · exact ⟨keyFits, flagsFit⟩
  · exact fit other old

/-! ## Another key -/

def Entry.withKey (entry : Entry) (key : Nat) : Entry :=
  { entry with key := key }

theorem EntriesFit.modify {entries : List Entry} (fit : EntriesFit entries)
    (index : Nat) {key : Nat} (keyFits : key < 2 ^ 32) :
    EntriesFit (entries.modify index fun entry => entry.withKey key) := by
  intro other member
  obtain ⟨place, here⟩ := List.mem_iff_getElem?.mp member
  rw [List.getElem?_modify] at here
  obtain ⟨entry, entryHere, rfl⟩ := Option.map_eq_some_iff.mp here
  have old := fit entry (List.mem_of_getElem? entryHere)
  by_cases same : index = place
  · rw [if_pos same]
    exact ⟨keyFits, old.2⟩
  · rw [if_neg same]
    exact old

section Rekey

variable (node : BTreeNode) (index key : Nat)

theorem nodeKeyAtSet_entries :
    (nodeKeyAtSet node index key).entries =
      node.entries.modify index fun entry => entry.withKey key := by
  apply ListEdit.map_modify
  intro pageKey
  rfl

theorem nodeKeyAtSet_offsets :
    (nodeKeyAtSet node index key).keys.map PageKey.cellOffset =
      node.keys.map PageKey.cellOffset := by
  apply ListEdit.map_modify_same
  intro pageKey
  rfl

theorem map_cellSize_modify (entries : List Entry) :
    (entries.modify index fun entry => entry.withKey key).map
        Entry.cellSize = entries.map Entry.cellSize := by
  apply ListEdit.map_modify_same
  intro entry
  rfl

variable {node}

theorem nodeKeyAtSet_ok (ok : NodeOk node) :
    NodeOk (nodeKeyAtSet node index key) := by
  have offsets := nodeKeyAtSet_offsets node index key
  refine ⟨ok.lead, ok.free, ?_, ?_, ?_⟩
  · rw [nodeKeyAtSet_entries, map_cellSize_modify]
    exact ok.used
  · intro changed member
    have place : changed.cellOffset ∈
        (nodeKeyAtSet node index key).keys.map PageKey.cellOffset :=
      List.mem_map_of_mem member
    rw [offsets] at place
    obtain ⟨old, oldMember, same⟩ := List.mem_map.mp place
    have placed := ok.placed old oldMember
    constructor
    · rw [← same]
      exact placed.total_le
    · rw [← same]
      exact placed.offset_le
  · have apart := ok.apart
    have asOffsets : ∀ keys : List PageKey, keys.Pairwise (Apart node.heap) ↔
        (keys.map PageKey.cellOffset).Pairwise fun left right =>
          left + cellTotal node.heap right ≤ right ∨
            right + cellTotal node.heap left ≤ left := by
      intro keys
      rw [List.pairwise_map]
      rfl
    apply (asOffsets _).mpr
    rw [offsets]
    exact (asOffsets _).mp apart

theorem nodeKeyAtSet_refilled (ok : NodeOk node) :
    Refilled node (node.entries.modify index fun entry => entry.withKey key)
      (nodeKeyAtSet node index key) where
  frame := ⟨rfl, rfl, rfl, rfl, rfl⟩
  ok := nodeKeyAtSet_ok index key ok
  entries_eq := nodeKeyAtSet_entries node index key
  pageSize_eq := by
    unfold BTreeNode.pageSize BTreeNode.numKeys nodeKeyAtSet
    simp only [List.length_modify]

end Rekey

/-! ## An entry less -/

/-- Removing the entry at an index erases it and leaves the others as they
are. -/
def ErasesAt (node : BTreeNode) (index : Nat) : Prop :=
  Refilled node (node.entries.eraseIdx index) (nodeRemoveAt node index)

/-- A removal that moves no cell onto one that is still to be moved. -/
theorem GcSafe.erasesAt {node : BTreeNode} {index : Nat} (ok : NodeOk node)
    (large : btreeMinPageSize ≤ node.pageSize) (inside : index < node.numKeys)
    (safe : GcSafe node index) : ErasesAt node index := by
  have here : node.keys[index]? = some node.keys[index] :=
    List.getElem?_eq_getElem inside
  have wide := ok.wide large
  exact
    { frame := nodeRemoveAt_frame ok here safe
      ok := nodeRemoveAt_ok ok here safe wide
      entries_eq := nodeRemoveAt_entries ok here safe
      pageSize_eq := nodeRemoveAt_pageSize ok here safe wide }

/-- The node with another right child and other metadata. -/
def BTreeNode.reframed (node : BTreeNode) (rightChild : Nat)
    (metaBytes : List UInt8) : BTreeNode :=
  { node with
    rightChild := rightChild
    metaBytes := metaBytes }

section Reframed

variable (rightChild : Nat) (metaBytes : List UInt8)

theorem gcStep_reframed (deletedOffset shiftSize : Nat) (node : BTreeNode)
    (index : Nat) :
    gcStep deletedOffset shiftSize (node.reframed rightChild metaBytes) index =
      (gcStep deletedOffset shiftSize node index).reframed rightChild
        metaBytes := by
  unfold gcStep BTreeNode.reframed
  simp only
  split
  · split <;> rfl
  · rfl

theorem foldl_gcStep_reframed (deletedOffset shiftSize : Nat) :
    ∀ (indexes : List Nat) (node : BTreeNode),
      indexes.foldl (gcStep deletedOffset shiftSize)
          (node.reframed rightChild metaBytes) =
        (indexes.foldl (gcStep deletedOffset shiftSize) node).reframed
          rightChild metaBytes
  | [], node => rfl
  | index :: indexes, node => by
      rw [List.foldl_cons, gcStep_reframed,
        foldl_gcStep_reframed deletedOffset shiftSize indexes, List.foldl_cons]

/-- A removal looks at neither. -/
theorem nodeRemoveAt_reframed (node : BTreeNode) (index : Nat) :
    nodeRemoveAt (node.reframed rightChild metaBytes) index =
      (nodeRemoveAt node index).reframed rightChild metaBytes := by
  have folded := foldl_gcStep_reframed rightChild metaBytes
    (node.keyAt index).cellOffset
    (cellInlineSize (btuGetCellBuffer node index) + 4)
    (List.range (node.slideKeys index).numKeys) (node.slideKeys index)
  let shiftSize := cellInlineSize (btuGetCellBuffer node index) + 4
  exact congrArg (fun moved : BTreeNode =>
    { moved with
      cellHighWaterOffset := moved.cellHighWaterOffset - shiftSize
      freeHeap := moved.freeHeap + heapRequiredForInsertion shiftSize }) folded

theorem ErasesAt.reframed {node : BTreeNode} {index : Nat}
    (erases : ErasesAt node index) :
    ErasesAt (node.reframed rightChild metaBytes) index := by
  obtain ⟨number, _, lead, leaf, _⟩ := erases.frame
  have shaped := erases.ok.shaped (nodeRemoveAt node index).isLeaf rightChild
  unfold ErasesAt
  rw [nodeRemoveAt_reframed]
  exact
    { frame := ⟨number, rfl, lead, leaf, rfl⟩
      ok := shaped.withMeta metaBytes
      entries_eq := erases.entries_eq
      pageSize_eq := erases.pageSize_eq }

end Reframed

theorem ErasesAt.withRightChild {node : BTreeNode} {index : Nat}
    (erases : ErasesAt node index) (rightChild : Nat) :
    ErasesAt (nodeRightChildSet node rightChild) index :=
  erases.reframed rightChild node.metaBytes

theorem ErasesAt.withMeta {node : BTreeNode} {index : Nat}
    (erases : ErasesAt node index) (metaBytes : List UInt8) :
    ErasesAt { node with metaBytes := metaBytes } index :=
  erases.reframed node.rightChild metaBytes

/-! ## Writing nodes back -/

/-- A node in memory that may be written to its page on the disk. -/
structure Writable (disk : Disk) (free : List Nat) (node : BTreeNode) :
    Prop where
  ok : NodeOk node
  encodable : Encodable node
  size : node.pageSize = disk.pageSize
  present : node.pageNumber ≠ 0 ∧ node.pageNumber ≤ disk.maxPage
  used : node.pageNumber ∉ free
  metaFresh : MetaFresh free node

section Writing

variable {disk after : Disk} {free : List Nat} {node other : BTreeNode}
variable {entries : List Entry}

theorem Writable.refilled (writable : Writable disk free node)
    (filled : Refilled node entries other) (fit : EntriesFit entries) :
    Writable disk free other := by
  obtain ⟨number, metaBytes, _, _, right⟩ := filled.frame
  have size := filled.pageSize_eq.trans writable.size
  have rightFits : other.rightChild < 2 ^ 32 := by
    rw [right]
    exact writable.encodable.rightChild_lt
  have sizeFits : other.pageSize < 2 ^ 32 := by
    rw [filled.pageSize_eq]
    exact writable.encodable.pageSize_lt
  exact
    { ok := filled.ok
      encodable := encodable_of_entries rightFits sizeFits (by
        rw [filled.entries_eq]
        exact fit)
      size := size
      present := by
        rw [number]
        exact writable.present
      used := by
        rw [number]
        exact writable.used
      metaFresh := by
        constructor
        · rw [metaBytes]
          exact writable.metaFresh.size
        · rw [number, metaBytes]
          exact writable.metaFresh.first }

theorem Writable.withRightChild (writable : Writable disk free node)
    {rightChild : Nat} (fits : rightChild < 2 ^ 32) :
    Writable disk free (nodeRightChildSet node rightChild) where
  ok := writable.ok.shaped node.isLeaf rightChild
  encodable :=
    { rightChild_lt := fits
      key_lt := writable.encodable.key_lt
      flags_lt := writable.encodable.flags_lt
      pageSize_lt := writable.encodable.pageSize_lt }
  size := writable.size
  present := writable.present
  used := writable.used
  metaFresh := ⟨writable.metaFresh.size, writable.metaFresh.first⟩

/-- Calls that leave the free list alone leave a node writable. -/
theorem Writable.later {touched : List Nat} (writable : Writable disk free node)
    (updates : Updates disk free after free touched []) :
    Writable after free node where
  ok := writable.ok
  encodable := writable.encodable
  size := writable.size.trans updates.pageSize.symm
  present := ⟨writable.present.1,
    Nat.le_trans writable.present.2 updates.grows⟩
  used := writable.used
  metaFresh := writable.metaFresh

/-- Writing one node. -/
theorem Writable.persist (store : Store disk free)
    (writable : Writable disk free node) :
    ∃ metaBytes after,
      nodercPersist node disk =
        (.ok { node with metaBytes := metaBytes }, after) ∧
      Holds after node ∧ metaBytes.length = pagemetaSize ∧
      Writable after free { node with metaBytes := metaBytes } ∧
      Updates disk free after free [node.pageNumber] [] := by
  obtain ⟨metaBytes, after, stored, holds, metaFresh, updates⟩ :=
    nodercPersist_existing store writable.ok writable.encodable writable.size
      writable.present writable.used writable.metaFresh
  have later := writable.later updates
  have own : Holds after node := holds.withMeta node.metaBytes
  refine ⟨metaBytes, after, stored, own, metaFresh.size, ?_, updates⟩
  exact
    { ok := writable.ok.withMeta metaBytes
      encodable := writable.encodable.withMeta metaBytes
      size := later.size
      present := later.present
      used := later.used
      metaFresh := metaFresh }

/-- The same node but for its metadata. -/
def SameButMeta (node other : BTreeNode) : Prop :=
  ∃ metaBytes, other = { node with metaBytes := metaBytes } ∧
    metaBytes.length = pagemetaSize

/-- Writing nodes of different pages. -/
theorem nodercPersistN_run :
    ∀ {nodes : List BTreeNode} {disk : Disk}, Store disk free →
      (∀ node ∈ nodes, Writable disk free node) →
      (nodes.map BTreeNode.pageNumber).Nodup →
      ∃ stored after, nodercPersistN nodes disk = (.ok stored, after) ∧
        List.Forall₂ SameButMeta nodes stored ∧
        (∀ node ∈ nodes, Holds after node) ∧
        Updates disk free after free (nodes.map BTreeNode.pageNumber) []
  | [], disk, store, _, _ =>
      ⟨[], disk, rfl, .nil, by simp, .refl store⟩
  | node :: nodes, disk, store, writable, apart => by
      have distinct := List.nodup_cons.mp apart
      obtain ⟨metaBytes, middle, storedEq, holds, size, _, first⟩ :=
        (writable node List.mem_cons_self).persist store
      obtain ⟨stored, after, laterEq, sameLater, holdsLater, second⟩ :=
        nodercPersistN_run first.store
          (fun other member =>
            (writable other (List.mem_cons_of_mem _ member)).later first)
          distinct.2
      refine ⟨{ node with metaBytes := metaBytes } :: stored, after, ?_,
        .cons ⟨metaBytes, rfl, size⟩ sameLater, ?_, ?_⟩
      · unfold nodercPersistN
        rw [BtM.bind_ok storedEq, BtM.bind_ok laterEq]
        rfl
      · intro other member
        rcases List.mem_cons.mp member with rfl | inLater
        · exact second.holds holds distinct.1 (by simp)
        · exact holdsLater other inLater
      · exact first.trans second

end Writing

/-- Writing a record that is small enough for a cell of the node: it is an
entry more, or there is no room for it. -/
theorem btreeNodeWriteAt_small {disk : Disk} {free : List Nat}
    {node : BTreeNode} {index : ChildListIndex} {key : Nat}
    {data : List UInt8} (store : Store disk free)
    (writable : Writable disk free node)
    (inside : index.number node ≤ node.numKeys) (keyFits : key < 2 ^ 32)
    (isInline : heapRequiredForInsertion (cellInlineDiskSize data.length) ≤
      btreeNodeMaxCellSize node) :
    btreeNodeWriteAt node index key data disk =
        (.error (.err .errNodeNotEnoughSpace), disk) ∨
      ∃ filled metaBytes after,
        btreeNodeWriteAt node index key data disk =
          (.ok { filled with metaBytes := metaBytes }, after) ∧
        Refilled node (node.entries.insertIdx (index.number node)
          ⟨key, cellTypeCode .cellTypeInline, data⟩) filled ∧
        Writable after free { filled with metaBytes := metaBytes } ∧
        Updates disk free after free [node.pageNumber] [] := by
  unfold btreeNodeWriteAt
  rw [if_pos isInline]
  by_cases room : 16 + data.length ≤ node.freeHeap
  · right
    have insertEq : nodeInsertInline node index key
        { inlineSize := data.length, payload := data } =
        .ok (node.insertEntry (index.number node)
          ⟨key, cellTypeCode .cellTypeInline, data⟩) := by
      unfold nodeInsertInline
      rw [nodeInsertInlineEx_room inside (Nat.le_refl _) room]
      simp only [List.take_length]
      rfl
    have short : data.length < 2 ^ 32 := by
      have free := freeHeap_le_pageSize writable.ok
      have fits := writable.encodable.pageSize_lt
      omega
    have filled : Refilled node _ _ := @insertEntry_refilled node
      (index.number node) ⟨key, cellTypeCode .cellTypeInline, data⟩ writable.ok
      room inside short
    have fit := @EntriesFit.insertIdx node.entries (index.number node)
      ⟨key, cellTypeCode .cellTypeInline, data⟩ writable.encodable.entries
      (by rw [entries_length]; exact inside) keyFits
      (show cellTypeCode .cellTypeInline < 2 ^ 32 by decide)
    obtain ⟨metaBytes, after, storedEq, _, _, later, updates⟩ :=
      (writable.refilled filled fit).persist store
    rw [insertEq, BtM.bind_ok (BtM.ofExcept_ok _ disk)]
    exact ⟨_, metaBytes, after, storedEq, filled, later, updates⟩
  · left
    have full : nodeInsertInline node index key
        { inlineSize := data.length, payload := data } =
        .error (.err .errNodeNotEnoughSpace) := by
      unfold nodeInsertInline
      apply nodeInsertInlineEx_full
      simp only
      omega
    rw [full]
    rfl

/-! ## Cells that move -/

/-- A cell that is not too large for the destination is moved whole, or there
is no room for it. -/
theorem btreeNodeMoveCellExTo_run {disk : Disk} {source dest : BTreeNode}
    {index newKey : Nat} {position : ChildListIndex} {entry : Entry}
    (sourceOk : NodeOk source) (here : source.entries[index]? = some entry)
    (inside : position.number dest ≤ dest.numKeys)
    (small : entry.cellSize ≤ btreeNodeMaxCellSize dest) :
    btreeNodeMoveCellExTo source dest index position newKey disk =
      if entry.heapSize ≤ dest.freeHeap then
        (.ok (dest.insertEntry (position.number dest)
          (entry.withKey newKey)), disk)
      else (.error (.err .errNodeNotEnoughSpace), disk) := by
  have reads := sourceOk.reads here
  have bufferSize : btuGetCellBufferSize source index = entry.cellSize := by
    unfold btuGetCellBufferSize
    rw [reads.size_eq, Entry.cellSize]
    omega
  unfold btreeNodeMoveCellExTo
  rw [bufferSize, reads.flags_eq]
  by_cases room : entry.heapSize ≤ dest.freeHeap
  · rw [if_pos room]
    exact btreeNodeMoveCellFromData_room disk inside reads.size_eq
      reads.cell_eq small room
  · rw [if_neg room]
    unfold btreeNodeMoveCellFromData cellReadInline
    simp only
    rw [if_pos small, nodeInsertInlineEx_full (by
      simp only [reads.size_eq]
      unfold Entry.heapSize at room
      omega)]
    rfl

/-- A cell that was moved whole is an entry more at the destination. -/
theorem insertEntry_moved {dest : BTreeNode} {newKey position : Nat}
    {entry : Entry} (destOk : NodeOk dest)
    (fits : dest.pageSize < 2 ^ 32) (inside : position ≤ dest.numKeys)
    (room : entry.heapSize ≤ dest.freeHeap) :
    Refilled dest (dest.entries.insertIdx position (entry.withKey newKey))
      (dest.insertEntry position (entry.withKey newKey)) := by
  have free := freeHeap_le_pageSize destOk
  have short : (entry.withKey newKey).cell.length < 2 ^ 32 := by
    change entry.cell.length < 2 ^ 32
    unfold Entry.heapSize at room
    omega
  exact insertEntry_refilled destOk room inside short

end BtreeDb
