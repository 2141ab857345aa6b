import BtreeDb.Node.Insertion

/-!
# Runs of insertions and removals

A node under insertions and removals is the list of its entries: an insertion
that fits adds one entry, a removal erases one.  The removals keep to that as
long as closing the gap moves no cell onto one that is still to be moved.
-/

namespace BtreeDb

open Bytes

/-! ## The calls on a node -/

inductive NodeOp where
  | insertInlineEx (index : ChildListIndex) (key flags : Nat)
      (cell : BTreeCellInline)
  | insertOverflow (index : ChildListIndex) (key : Nat)
      (cell : BTreeCellOverflow)
  | remove (index : ChildListIndex)
  | ibtreeRemove (index : ChildListIndex)
  deriving DecidableEq, Repr

def NodeOp.apply (node : BTreeNode) : NodeOp → Except Stop BTreeNode
  | .insertInlineEx index key flags cell =>
      nodeInsertInlineEx node index key cell flags
  | .insertOverflow index key cell => nodeInsertOverflow node index key cell
  | .remove index => btreeNodeRemove node index
  | .ibtreeRemove index => ibtreeNodeRemove node index

/-- The node after a call: an error leaves it as it was; `none` is a failed
assertion. -/
def settle (node : BTreeNode) : Except Stop BTreeNode → Option BTreeNode
  | .ok after => some after
  | .error (.err _) => some node
  | .error _ => none

def stepNode (node : BTreeNode) (op : NodeOp) : Option BTreeNode :=
  settle node (op.apply node)

def runNode : List NodeOp → BTreeNode → Option BTreeNode
  | [], node => some node
  | op :: ops, node => (stepNode node op).bind (runNode ops)

/-- A removal that makes the given page the right child when it takes out the
old one. -/
def removeThen (node : BTreeNode) (index : ChildListIndex)
    (rightChild : Nat) : Except Stop BTreeNode :=
  match index.mode with
  | .limEnd => .error .assertFailed
  | .rightChild =>
      if node.isLeaf then .error (.err .errKeyNotFound)
      else if node.numKeys = 0 then .error (.err .errUnk)
      else
        .ok { nodeRemoveAt node (node.numKeys - 1) with
          rightChild := rightChild }
  | .limIndex =>
      if index.index < node.numKeys then .ok (nodeRemoveAt node index.index)
      else .error .assertFailed

/-- What the callers promise: positions and keys of the node, and cells whose
bytes are there. -/
def NodeOp.Permitted (node : BTreeNode) : NodeOp → Prop
  | .insertInlineEx index _ _ cell =>
      index.number node ≤ node.numKeys ∧ cell.inlineSize ≤ cell.payload.length
  | .insertOverflow index _ cell =>
      index.number node ≤ node.numKeys ∧ 8 ≤ cell.inlineSize ∧
        cell.inlineSize ≤ 8 + cell.inlinePayload.length
  | .remove index | .ibtreeRemove index =>
      index.mode = .limIndex ∧ index.index < node.numKeys ∨
        index.mode = .rightChild

/-- A removal closes its gap without moving a cell onto a later one. -/
def NodeOp.Safe (node : BTreeNode) : NodeOp → Prop
  | .insertInlineEx .. | .insertOverflow .. => True
  | .remove index | .ibtreeRemove index =>
      GcSafe node (removedIndex node index)

/-- Every step of the run is permitted and safe. -/
def SafeRun : BTreeNode → List NodeOp → Prop
  | _, [] => True
  | node, op :: ops =>
      op.Permitted node ∧ op.Safe node ∧
        ∀ after, stepNode node op = some after → SafeRun after ops

instance (node : BTreeNode) : (op : NodeOp) → Decidable (op.Permitted node)
  | .insertInlineEx .. => inferInstanceAs (Decidable (_ ∧ _))
  | .insertOverflow .. => inferInstanceAs (Decidable (_ ∧ _ ∧ _))
  | .remove _ | .ibtreeRemove _ => inferInstanceAs (Decidable (_ ∧ _ ∨ _))

instance (node : BTreeNode) : (op : NodeOp) → Decidable (op.Safe node)
  | .insertInlineEx .. | .insertOverflow .. => inferInstanceAs (Decidable True)
  | .remove _ | .ibtreeRemove _ => inferInstanceAs (Decidable (GcSafe _ _))

instance decidableSafeRun :
    (node : BTreeNode) → (ops : List NodeOp) → Decidable (SafeRun node ops)
  | _, [] => inferInstanceAs (Decidable True)
  | node, op :: ops =>
      match outcome : stepNode node op with
      | some after =>
          have := decidableSafeRun after ops
          decidable_of_iff
            (op.Permitted node ∧ op.Safe node ∧ SafeRun after ops)
            (by simp [SafeRun, outcome])
      | none =>
          decidable_of_iff (op.Permitted node ∧ op.Safe node)
            (by simp [SafeRun, outcome])

/-! ## The list of entries -/

/-- A node as the list of its entries and the heap they may take. -/
structure EntryList where
  capacity : Nat
  isLeaf : Bool
  entries : List Entry
  deriving DecidableEq, Repr

namespace EntryList

def position (list : EntryList) (index : ChildListIndex) : Nat :=
  if index.mode = .limEnd then list.entries.length else index.index

/-- Add an entry that fits. -/
def insert (list : EntryList) (position : Nat) (entry : Entry) : EntryList :=
  if (list.entries.map Entry.heapSize).sum + entry.heapSize ≤ list.capacity then
    { list with entries := list.entries.insertIdx position entry }
  else
    list

/-- Erase an entry; the right child of an inner node gives way to the last
entry. -/
def erase (list : EntryList) (index : ChildListIndex) : EntryList :=
  if index.mode = .rightChild then
    if list.isLeaf then list
    else
      { list with
        entries := list.entries.eraseIdx (list.entries.length - 1) }
  else
    { list with entries := list.entries.eraseIdx index.index }

def step (list : EntryList) : NodeOp → EntryList
  | .insertInlineEx index key flags cell =>
      list.insert (list.position index)
        ⟨key, flags, cell.payload.take cell.inlineSize⟩
  | .insertOverflow index key cell =>
      list.insert (list.position index)
        ⟨key, cellTypeCode .cellTypeOverflow,
          overflowCell cell.totalSize cell.overflowPageId
            (cell.inlinePayload.take (cell.inlineSize - 8))⟩
  | .remove index => list.erase index
  | .ibtreeRemove index => list.erase index

def run (list : EntryList) (ops : List NodeOp) : EntryList :=
  ops.foldl step list

end EntryList

/-! ## The node as the list -/

/-- The node holds the entries of the list, on a page of a tree. -/
structure ShowsList (node : BTreeNode) (list : EntryList) : Prop where
  ok : NodeOk node
  entries_eq : node.entries = list.entries
  isLeaf_eq : node.isLeaf = list.isLeaf
  capacity_eq : heapCapacity node.pageNumber node.pageSize = list.capacity
  large : btreeMinPageSize ≤ node.pageSize
  small : node.pageSize < 2 ^ 32

/-- An empty node of a page of a tree. -/
structure EmptyNode (node : BTreeNode) : Prop where
  ok : NodeOk node
  noKeys : node.keys = []
  large : btreeMinPageSize ≤ node.pageSize
  small : node.pageSize < 2 ^ 32

theorem headerOffset_le (pageNumber : Nat) :
    headerOffset pageNumber ≤ btreeHeaderSize := by
  unfold headerOffset
  split
  · exact Nat.le_refl _
  · exact Nat.zero_le _

theorem le_cellSize_sum (entries : List Entry) :
    4 * entries.length ≤ (entries.map Entry.cellSize).sum := by
  induction entries with
  | nil => simp
  | cons entry entries inductionHypothesis =>
      simp only [List.length_cons, List.map_cons, List.sum_cons]
      unfold Entry.cellSize at *
      omega

/-- On the smallest page there is room for a key behind the key array. -/
theorem NodeOk.wide {node : BTreeNode} (ok : NodeOk node)
    (large : btreeMinPageSize ≤ node.pageSize) :
    pageKeySize ≤ node.heap.length := by
  have lead := ok.lead
  have used := ok.used
  have highWater_le := ok.highWater_le
  have header := headerOffset_le node.pageNumber
  have each := le_cellSize_sum node.entries
  rw [entries_length] at each
  have minimum : btreeMinPageSize = 216 := rfl
  rw [minimum] at large
  unfold BTreeNode.pageSize BTreeNode.numKeys at large
  unfold btreeHeaderSize at header
  unfold pageHeaderSize pageKeySize at large
  unfold pageKeySize
  omega

section Step

variable {node : BTreeNode} {list : EntryList} (shown : ShowsList node list)

include shown

theorem ShowsList.position_eq (index : ChildListIndex) :
    list.position index = index.number node := by
  unfold EntryList.position ChildListIndex.number
  rw [← shown.entries_eq, entries_length]

theorem ShowsList.room_iff (entry : Entry) :
    (list.entries.map Entry.heapSize).sum + entry.heapSize ≤ list.capacity ↔
      entry.heapSize ≤ node.freeHeap := by
  have capacity := shown.ok.freeHeap_add
  rw [shown.entries_eq, shown.capacity_eq] at capacity
  omega

/-- An insertion that fits. -/
theorem ShowsList.insertEntry {position : Nat} {entry : Entry}
    (room : entry.heapSize ≤ node.freeHeap)
    (inside : position ≤ node.numKeys) :
    ShowsList (node.insertEntry position entry)
      (list.insert position entry) := by
  have freeLe := freeHeap_le_pageSize shown.ok
  have small := shown.small
  have refilled := insertEntry_refilled shown.ok room inside
    (by unfold Entry.heapSize at room; omega)
  have listEq : list.insert position entry =
      { list with entries := list.entries.insertIdx position entry } :=
    if_pos ((shown.room_iff entry).mpr room)
  rw [listEq]
  refine ⟨refilled.ok, ?_, shown.isLeaf_eq, ?_, ?_, ?_⟩
  · rw [refilled.entries_eq, shown.entries_eq]
  · rw [refilled.pageSize_eq]
    exact shown.capacity_eq
  · rw [refilled.pageSize_eq]
    exact shown.large
  · rw [refilled.pageSize_eq]
    exact shown.small

/-- A removal that is safe. -/
theorem ShowsList.removeAt {index : Nat} (inside : index < node.numKeys)
    (safe : GcSafe node index) :
    ShowsList (nodeRemoveAt node index)
      { list with entries := list.entries.eraseIdx index } := by
  have here : node.keys[index]? = some node.keys[index] :=
    List.getElem?_eq_getElem inside
  have ok := shown.ok
  have wide := ok.wide shown.large
  have frame := nodeRemoveAt_frame ok here safe
  have pageSizeEq := nodeRemoveAt_pageSize ok here safe wide
  refine ⟨nodeRemoveAt_ok ok here safe wide, ?_, ?_, ?_, ?_, ?_⟩
  · rw [nodeRemoveAt_entries ok here safe, shown.entries_eq]
  · rw [frame.2.2.2.1]
    exact shown.isLeaf_eq
  · rw [pageSizeEq, frame.1]
    exact shown.capacity_eq
  · rw [pageSizeEq]
    exact shown.large
  · rw [pageSizeEq]
    exact shown.small

/-- The right child is not part of the list. -/
theorem ShowsList.withRightChild (rightChild : Nat) :
    ShowsList { node with rightChild := rightChild } list :=
  ⟨⟨shown.ok.lead, shown.ok.free, shown.ok.used, shown.ok.placed,
    shown.ok.apart⟩, shown.entries_eq, shown.isLeaf_eq, shown.capacity_eq,
    shown.large, shown.small⟩

end Step

section Apply

variable {node : BTreeNode} {list : EntryList} (shown : ShowsList node list)

include shown

/-- An insertion adds the entry, or it is refused and changes nothing. -/
theorem ShowsList.step_insert {position : Nat} {entry : Entry}
    {outcome : Except Stop BTreeNode} (inside : position ≤ node.numKeys)
    (full : node.freeHeap < entry.heapSize →
      outcome = .error (.err .errNodeNotEnoughSpace))
    (room : entry.heapSize ≤ node.freeHeap →
      outcome = .ok (node.insertEntry position entry)) :
    ∃ after, settle node outcome = some after ∧
      ShowsList after (list.insert position entry) := by
  by_cases fits : entry.heapSize ≤ node.freeHeap
  · rw [room fits]
    exact ⟨_, rfl, shown.insertEntry fits inside⟩
  · have listEq : list.insert position entry = list :=
      if_neg fun listFits => fits ((shown.room_iff entry).mp listFits)
    rw [full (by omega), listEq]
    exact ⟨node, rfl, shown⟩

theorem ShowsList.erase_index {index : ChildListIndex}
    (mode : index.mode = .limIndex) (inside : index.index < node.numKeys)
    (safe : GcSafe node (removedIndex node index)) :
    ShowsList (nodeRemoveAt node index.index) (list.erase index) := by
  have notRight : ¬ index.mode = .rightChild := by
    rw [mode]
    decide
  unfold removedIndex at safe
  rw [if_neg notRight] at safe
  unfold EntryList.erase
  rw [if_neg notRight]
  exact shown.removeAt inside safe

theorem ShowsList.erase_last {index : ChildListIndex}
    (mode : index.mode = .rightChild) (inner : node.isLeaf = false)
    (some_ : node.numKeys ≠ 0) (safe : GcSafe node (removedIndex node index))
    (rightChild : Nat) :
    ShowsList { nodeRemoveAt node (node.numKeys - 1) with
      rightChild := rightChild } (list.erase index) := by
  have sameLength : list.entries.length = node.numKeys := by
    rw [← shown.entries_eq, entries_length]
  have innerList : ¬ list.isLeaf = true := by
    rw [← shown.isLeaf_eq, inner]
    decide
  unfold removedIndex at safe
  rw [if_pos mode] at safe
  unfold EntryList.erase
  rw [if_pos mode, if_neg innerList, sameLength]
  exact (shown.removeAt (by omega) safe).withRightChild rightChild

/-- There is nothing to erase in a leaf's right child and in an empty node. -/
theorem ShowsList.erase_nothing {index : ChildListIndex}
    (mode : index.mode = .rightChild)
    (nothing : node.isLeaf = true ∨ node.numKeys = 0) :
    list.erase index = list := by
  unfold EntryList.erase
  rw [if_pos mode]
  rcases nothing with leaf | empty
  · rw [if_pos (shown.isLeaf_eq ▸ leaf)]
  · have noEntries : list.entries = [] := by
      rw [← shown.entries_eq]
      exact List.length_eq_zero_iff.mp ((entries_length node).trans empty)
    have same : list.entries.eraseIdx (list.entries.length - 1) =
        list.entries := by
      rw [noEntries]
      rfl
    rw [same]
    split <;> rfl

/-- Both removals, each with the page that becomes the right child. -/
theorem ShowsList.step_erase {index : ChildListIndex} {rightChild : Nat}
    (permitted : index.mode = .limIndex ∧ index.index < node.numKeys ∨
      index.mode = .rightChild)
    (safe : GcSafe node (removedIndex node index)) :
    ∃ after, settle node (removeThen node index rightChild) = some after ∧
      ShowsList after (list.erase index) := by
  unfold removeThen
  rcases permitted with ⟨mode, inside⟩ | mode
  · rw [mode]
    simp only [if_pos inside]
    exact ⟨_, rfl, shown.erase_index mode inside safe⟩
  · rw [mode]
    simp only
    by_cases leaf : node.isLeaf = true
    · rw [if_pos leaf, shown.erase_nothing mode (Or.inl leaf)]
      exact ⟨node, rfl, shown⟩
    · rw [if_neg leaf]
      by_cases empty : node.numKeys = 0
      · rw [if_pos empty, shown.erase_nothing mode (Or.inr empty)]
        exact ⟨node, rfl, shown⟩
      · rw [if_neg empty]
        exact ⟨_, rfl,
          shown.erase_last mode (Bool.eq_false_of_not_eq_true leaf) empty safe _⟩

/-- One call does on the node what it does on the list. -/
theorem ShowsList.step {op : NodeOp} (permitted : op.Permitted node)
    (safe : op.Safe node) :
    ∃ after, stepNode node op = some after ∧ ShowsList after (list.step op) := by
  unfold stepNode NodeOp.apply EntryList.step
  cases op with
  | insertInlineEx index key flags cell =>
      obtain ⟨inside, whole⟩ := permitted
      have length : (cell.payload.take cell.inlineSize).length =
          cell.inlineSize := by
        rw [List.length_take]
        omega
      simp only
      rw [shown.position_eq]
      refine shown.step_insert inside ?_ ?_
      · intro full
        unfold Entry.heapSize at full
        exact nodeInsertInlineEx_full (by simp only [length] at full; omega)
      · intro room
        unfold Entry.heapSize at room
        exact nodeInsertInlineEx_room inside whole
          (by simp only [length] at room; omega)
  | insertOverflow index key cell =>
      obtain ⟨inside, least, whole⟩ := permitted
      have length : (overflowCell cell.totalSize cell.overflowPageId
          (cell.inlinePayload.take (cell.inlineSize - 8))).length =
            cell.inlineSize := by
        rw [overflowCell_length, List.length_take]
        omega
      simp only
      rw [shown.position_eq]
      refine shown.step_insert inside ?_ ?_
      · intro full
        unfold Entry.heapSize at full
        unfold nodeInsertOverflow heapRequiredForInsertion cellInlineDiskSize
          pageKeySize
        exact if_pos (by simp only [length] at full; omega)
      · intro room
        unfold Entry.heapSize at room
        exact nodeInsertOverflow_room inside whole least
          (by simp only [length] at room; omega)
  | remove index => exact shown.step_erase permitted safe
  | ibtreeRemove index => exact shown.step_erase permitted safe

end Apply

/-- A safe run does on the node what it does on the list. -/
theorem ShowsList.run {ops : List NodeOp} :
    ∀ {node : BTreeNode} {list : EntryList}, ShowsList node list →
      SafeRun node ops →
      ∃ after, runNode ops node = some after ∧
        ShowsList after (list.run ops) := by
  induction ops with
  | nil =>
      intro node list shown _
      exact ⟨node, rfl, shown⟩
  | cons op ops inductionHypothesis =>
      intro node list shown safe
      obtain ⟨permitted, safeHere, safeLater⟩ := safe
      obtain ⟨middle, stepEq, middleShown⟩ := shown.step permitted safeHere
      obtain ⟨after, runEq, afterShown⟩ :=
        inductionHypothesis middleShown (safeLater middle stepEq)
      refine ⟨after, ?_, afterShown⟩
      rw [runNode, stepEq]
      exact runEq

/-! ## Removals in a run -/

/-- What removing the entry at an index has to do: the other entries keep
their keys, flags and bytes, the cells stay apart, and the free heap grows by
what the entry took. -/
def RemovalErases (node : BTreeNode) (index : Nat) : Prop :=
  ∃ entry after, node.entries[index]? = some entry ∧
    btreeNodeRemove node ⟨.limIndex, index⟩ = .ok after ∧
    ibtreeNodeRemove node ⟨.limIndex, index⟩ = .ok after ∧
    after.entries = node.entries.eraseIdx index ∧
    (∀ key ∈ after.keys,
      Placed after.heap after.cellHighWaterOffset key) ∧
    after.keys.Pairwise (Apart after.heap) ∧
    after.freeHeap =
      node.freeHeap + heapRequiredForInsertion entry.cellSize

theorem ShowsList.removalErases {node : BTreeNode} {list : EntryList}
    (shown : ShowsList node list) {index : Nat} (inside : index < node.numKeys)
    (safe : GcSafe node index) : RemovalErases node index := by
  have here : node.keys[index]? = some node.keys[index] :=
    List.getElem?_eq_getElem inside
  have entryHere : node.entries[index]? =
      some (entryAt node.heap node.keys[index]) := by
    unfold BTreeNode.entries
    rw [List.getElem?_map, here]
    rfl
  have after := shown.removeAt inside safe
  refine ⟨_, nodeRemoveAt node index, entryHere, if_pos inside,
    if_pos inside, nodeRemoveAt_entries shown.ok here safe, after.ok.placed,
    after.ok.apart, ?_⟩
  rw [nodeRemoveAt_freeHeap shown.ok here safe]
  unfold heapRequiredForInsertion Entry.heapSize Entry.cellSize pageKeySize
  omega

theorem EmptyNode.shows_ {node : BTreeNode} (empty : EmptyNode node) :
    ShowsList node
      ⟨heapCapacity node.pageNumber node.pageSize, node.isLeaf, []⟩ := by
  refine ⟨empty.ok, ?_, rfl, rfl, empty.large, empty.small⟩
  unfold BTreeNode.entries
  rw [empty.noKeys]
  rfl

/-- In a run whose removals move no cell onto a later one the node is the list
of its entries, and the next such removal erases its entry. -/
theorem removal_erases_of_safeRun {start : BTreeNode} {ops : List NodeOp}
    (empty : EmptyNode start) (safe : SafeRun start ops) :
    ∃ node, runNode ops start = some node ∧ NodeOk node ∧
      node.entries =
        (EntryList.run ⟨heapCapacity start.pageNumber start.pageSize,
          start.isLeaf, []⟩ ops).entries ∧
      ∀ index, index < node.numKeys → GcSafe node index →
        RemovalErases node index := by
  obtain ⟨node, runEq, shown⟩ := empty.shows_.run safe
  exact ⟨node, runEq, shown.ok, shown.entries_eq,
    fun _ inside safeHere => shown.removalErases inside safeHere⟩

/-! ## Cells in the other order -/

/-- An empty leaf on a page of 216 bytes. -/
def emptyLeaf : BTreeNode where
  pageNumber := 2
  metaBytes := List.replicate pagemetaSize 0
  leadBytes := []
  isLeaf := true
  freeHeap := 196
  rightChild := 0
  cellHighWaterOffset := 0
  keys := []
  heap := List.replicate 196 0

theorem emptyLeaf_empty : EmptyNode emptyLeaf := by
  refine ⟨⟨rfl, by decide +kernel, rfl, ?_, List.Pairwise.nil⟩, rfl,
    by decide +kernel, by decide +kernel⟩
  intro key member
  cases member

/-- Put a one-byte record at a position. -/
def insertByte (position key : Nat) (byte : UInt8) : NodeOp :=
  .insertInlineEx ⟨.limIndex, position⟩ key (cellTypeCode .cellTypeInline)
    ⟨1, [byte]⟩

/-- Records put in front of each other: the first one lies lowest. -/
def descendingRun : List NodeOp :=
  [insertByte 0 3 10, insertByte 0 2 11, insertByte 0 1 12]

/-- Removing the lowest cell moves the first key's cell onto the second's,
which is lost. -/
theorem descending_run_loses_cell :
    EmptyNode emptyLeaf ∧ SafeRun emptyLeaf descendingRun ∧
      ∃ node, runNode descendingRun emptyLeaf = some node ∧
        2 < node.numKeys ∧ ¬ RemovalErases node 2 := by
  refine ⟨emptyLeaf_empty, by decide +kernel, ?_⟩
  have runSome : (runNode descendingRun emptyLeaf).isSome := by
    decide +kernel
  obtain ⟨node, runEq⟩ := Option.isSome_iff_exists.mp runSome
  have threeKeys : (runNode descendingRun emptyLeaf).map
      BTreeNode.numKeys = some 3 := by
    decide +kernel
  have lost : (runNode descendingRun emptyLeaf).bind (fun node =>
      (btreeNodeRemove node ⟨.limIndex, 2⟩).toOption.map fun after =>
        (after.entries, node.entries.eraseIdx 2)) =
      some ([⟨1, 1, [12]⟩, ⟨2, 1, [12]⟩], [⟨1, 1, [12]⟩, ⟨2, 1, [11]⟩]) := by
    decide +kernel
  rw [runEq] at threeKeys lost
  refine ⟨node, runEq, ?_, ?_⟩
  · have count := Option.some.inj threeKeys
    omega
  · rintro ⟨entry, after, -, removeEq, -, entriesEq, -⟩
    rw [Option.bind_some, removeEq] at lost
    obtain ⟨left, right⟩ := Prod.mk.inj (Option.some.inj lost)
    rw [left, right] at entriesEq
    revert entriesEq
    decide

/-- Records appended one behind the other, and the first one removed. -/
def ascendingRun : List NodeOp :=
  [insertByte 0 1 10, insertByte 1 2 11, insertByte 2 3 12,
    .remove ⟨.limIndex, 0⟩]

theorem ascending_run_erases :
    ∃ node, runNode ascendingRun emptyLeaf = some node ∧ NodeOk node ∧
      node.entries =
        (EntryList.run
          ⟨heapCapacity emptyLeaf.pageNumber emptyLeaf.pageSize,
            emptyLeaf.isLeaf, []⟩ ascendingRun).entries ∧
      ∀ index, index < node.numKeys → GcSafe node index →
        RemovalErases node index :=
  removal_erases_of_safeRun emptyLeaf_empty (by decide +kernel)

end BtreeDb
