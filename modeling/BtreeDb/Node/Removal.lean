import BtreeDb.Node.Layout

/-!
# Removing a cell

`gc_node` closes the gap of a removed cell: in key order it moves every cell
that lies above the gap.  A cell may be moved onto one that is still to be
moved; `GcSafe` says that this does not happen, and then the removal takes out
one entry and leaves the others as they are.
-/

namespace BtreeDb

open Bytes

/-- The key of a cell after the gap is closed. -/
def shiftKey (deletedOffset shiftSize : Nat) (key : PageKey) : PageKey :=
  if key.cellOffset < deletedOffset then key
  else { key with cellOffset := key.cellOffset - shiftSize }

theorem shiftKey_cellOffset (deletedOffset shiftSize : Nat) (key : PageKey) :
    (shiftKey deletedOffset shiftSize key).cellOffset =
      if key.cellOffset < deletedOffset then key.cellOffset
      else key.cellOffset - shiftSize := by
  unfold shiftKey
  split <;> rfl

/-- Moving the cell of `left` over a gap does not reach the cell of
`right`. -/
def MovesClear (heap : List UInt8) (deletedOffset shiftSize : Nat)
    (left right : PageKey) : Prop :=
  left.cellOffset < deletedOffset ∨ right.cellOffset < deletedOffset ∨
    left.cellOffset + cellTotal heap right.cellOffset ≤
      right.cellOffset + shiftSize ∨
    right.cellOffset + cellTotal heap left.cellOffset + shiftSize ≤
      left.cellOffset

/-- Closing the gap of a removed cell moves no cell onto one that comes later
in key order. -/
def GcSafe (node : BTreeNode) (index : Nat) : Prop :=
  (node.keys.eraseIdx index).Pairwise
    (MovesClear node.heap (node.keyAt index).cellOffset
      (cellTotal node.heap (node.keyAt index).cellOffset))

instance (heap : List UInt8) (deletedOffset shiftSize : Nat) :
    DecidableRel (MovesClear heap deletedOffset shiftSize) :=
  fun _ _ => inferInstanceAs (Decidable (_ ∨ _ ∨ _ ∨ _))

instance (node : BTreeNode) (index : Nat) : Decidable (GcSafe node index) :=
  inferInstanceAs (Decidable (List.Pairwise _ _))

/-! ## The loop of `gc_node` -/

section Loop

/-- What the loop starts from: the keys that stay, a gap, and cells that
overlap neither the gap nor each other. -/
structure Gap (heap : List UInt8) (keys : List PageKey)
    (deletedOffset shiftSize : Nat) : Prop where
  shift_pos : 0 < shiftSize
  shift_le : shiftSize ≤ deletedOffset
  gap_le : deletedOffset ≤ heap.length
  placed : ∀ key ∈ keys, Placed heap heap.length key
  beside : ∀ key ∈ keys, key.cellOffset + shiftSize ≤ deletedOffset ∨
    deletedOffset + cellTotal heap key.cellOffset ≤ key.cellOffset
  apart : keys.Pairwise (Apart heap)
  clear : keys.Pairwise (MovesClear heap deletedOffset shiftSize)

/-- After `count` steps the first `count` keys are moved, and every cell can
still be read at its present place. -/
structure Moved (start : BTreeNode) (deletedOffset shiftSize count : Nat)
    (node : BTreeNode) : Prop where
  frame : node = { start with keys := node.keys, heap := node.heap }
  keys_eq : node.keys =
    (start.keys.take count).map (shiftKey deletedOffset shiftSize) ++
      start.keys.drop count
  length_eq : node.heap.length = start.heap.length
  cells : ∀ index key, start.keys[index]? = some key →
    slice node.heap
        (node.heap.length -
          (if index < count then shiftKey deletedOffset shiftSize key
            else key).cellOffset)
        (cellTotal start.heap key.cellOffset) =
      rawCell start.heap key.cellOffset

variable {start : BTreeNode} {deletedOffset shiftSize : Nat}

theorem gap_apart {heap : List UInt8} {keys : List PageKey}
    (gap : Gap heap keys deletedOffset shiftSize) {left right : Nat}
    {leftKey rightKey : PageKey} (different : left ≠ right)
    (leftHere : keys[left]? = some leftKey)
    (rightHere : keys[right]? = some rightKey) :
    Apart heap leftKey rightKey := by
  obtain ⟨leftBound, rfl⟩ := List.getElem?_eq_some_iff.mp leftHere
  obtain ⟨rightBound, rfl⟩ := List.getElem?_eq_some_iff.mp rightHere
  rcases Nat.lt_or_gt_of_ne different with less | greater
  · exact List.pairwise_iff_getElem.mp gap.apart left right leftBound
      rightBound less
  · exact (List.pairwise_iff_getElem.mp gap.apart right left rightBound
      leftBound greater).symm

theorem gap_clear {heap : List UInt8} {keys : List PageKey}
    (gap : Gap heap keys deletedOffset shiftSize) {left right : Nat}
    {leftKey rightKey : PageKey} (order : left < right)
    (leftHere : keys[left]? = some leftKey)
    (rightHere : keys[right]? = some rightKey) :
    MovesClear heap deletedOffset shiftSize leftKey rightKey := by
  obtain ⟨leftBound, rfl⟩ := List.getElem?_eq_some_iff.mp leftHere
  obtain ⟨rightBound, rfl⟩ := List.getElem?_eq_some_iff.mp rightHere
  exact List.pairwise_iff_getElem.mp gap.clear left right leftBound rightBound
    order

theorem moved_start : Moved start deletedOffset shiftSize 0 start where
  frame := rfl
  keys_eq := by simp
  length_eq := rfl
  cells := by
    intro index key _
    simp only [Nat.not_lt_zero, if_false]
    rfl

/-- One step moves one cell. -/
theorem moved_step {node : BTreeNode} {count : Nat}
    (gap : Gap start.heap start.keys deletedOffset shiftSize)
    (moved : Moved start deletedOffset shiftSize count node)
    (running : count < start.keys.length) :
    Moved start deletedOffset shiftSize (count + 1)
      (gcStep deletedOffset shiftSize node count) := by
  have keyHere : start.keys[count]? = some start.keys[count] :=
    List.getElem?_eq_getElem running
  generalize start.keys[count] = key at keyHere
  have member : key ∈ start.keys := List.mem_of_getElem? keyHere
  have currentKey : node.keys[count]? = some key := by
    rw [moved.keys_eq, List.getElem?_append_right (by simp), List.length_map,
      List.length_take, Nat.min_eq_left (Nat.le_of_lt running), Nat.sub_self,
      List.getElem?_drop, Nat.add_zero, keyHere]
  have takeNext : start.keys.take (count + 1) =
      start.keys.take count ++ [key] := by
    rw [List.take_add_one, keyHere]
    rfl
  have dropHere : start.keys.drop count =
      key :: start.keys.drop (count + 1) := by
    rw [List.drop_eq_getElem_cons running]
    rw [List.getElem?_eq_getElem running] at keyHere
    rw [Option.some.inj keyHere]
  unfold gcStep
  simp only [currentKey]
  by_cases below : key.cellOffset < deletedOffset
  · have same : shiftKey deletedOffset shiftSize key = key := if_pos below
    rw [if_pos below]
    refine ⟨moved.frame, ?_, moved.length_eq, ?_⟩
    · rw [moved.keys_eq, takeNext, dropHere, List.map_append, List.map_singleton,
        same, List.append_assoc]
      rfl
    · intro index other otherHere
      have cell := moved.cells index other otherHere
      by_cases here : index = count
      · subst here
        rw [keyHere] at otherHere
        cases otherHere
        rw [if_pos (Nat.lt_succ_self _), same]
        rwa [if_neg (Nat.lt_irrefl _)] at cell
      · have sameSide : index < count + 1 ↔ index < count := by omega
        simp only [sameSide]
        exact cell
  · have moves : shiftKey deletedOffset shiftSize key =
        { key with cellOffset := key.cellOffset - shiftSize } := if_neg below
    have placed := gap.placed key member
    have shift_pos := gap.shift_pos
    have shift_le := gap.shift_le
    have total_le := placed.total_le
    have offset_le := placed.offset_le
    have above : deletedOffset + cellTotal start.heap key.cellOffset ≤
        key.cellOffset := by
      rcases gap.beside key member with under | above
      · omega
      · exact above
    have sourceCell := moved.cells count key keyHere
    rw [if_neg (Nat.lt_irrefl _)] at sourceCell
    have sourceTotal := cellTotal_of_rawCell sourceCell
    have sameLength := moved.length_eq
    have sourceSize :
        cellInlineSize (fromHighwater node.heap key.cellOffset) + 4 =
          cellTotal start.heap key.cellOffset := by
      rw [← sourceTotal, cellTotal]
      omega
    have copied : (fromHighwater node.heap key.cellOffset).take
        (cellTotal start.heap key.cellOffset) =
          rawCell start.heap key.cellOffset := sourceCell
    have copiedLength : (rawCell start.heap key.cellOffset).length =
        cellTotal start.heap key.cellOffset := by
      unfold rawCell
      exact slice_length (by omega)
    rw [if_neg below, sourceSize, copied]
    have targetBound : node.heap.length - (key.cellOffset - shiftSize) +
        (rawCell start.heap key.cellOffset).length ≤ node.heap.length := by
      rw [copiedLength]
      omega
    refine ⟨?_, ?_, ?_, ?_⟩
    · rw [moved.frame]
    · simp only
      rw [moved.keys_eq, takeNext, dropHere, List.map_append, List.map_singleton,
        moves, List.append_assoc, List.set_append_right _ _ (by simp)]
      congr 1
      rw [List.length_map, List.length_take,
        Nat.min_eq_left (Nat.le_of_lt running), Nat.sub_self,
        List.set_cons_zero]
      rfl
    · simp only
      rw [splice_length targetBound, sameLength]
    · intro index other otherHere
      simp only
      rw [splice_length targetBound]
      have otherMember : other ∈ start.keys := List.mem_of_getElem? otherHere
      by_cases here : index = count
      · subst here
        rw [keyHere] at otherHere
        cases otherHere
        rw [if_pos (Nat.lt_succ_self _), moves]
        simp only
        rw [← copiedLength]
        exact slice_splice_same targetBound
      · have sameSide : index < count + 1 ↔ index < count := by omega
        simp only [sameSide]
        have cell := moved.cells index other otherHere
        have otherPlaced := gap.placed other otherMember
        have otherTotal := otherPlaced.total_le
        have otherOffset := otherPlaced.offset_le
        rw [slice_splice_of_disjoint targetBound]
        · exact cell
        · rw [copiedLength]
          by_cases under : other.cellOffset < deletedOffset
          · -- below the gap nothing moves
            have clearOfGap : other.cellOffset + shiftSize ≤ deletedOffset := by
              rcases gap.beside other otherMember with low | high
              · exact low
              · omega
            have still : (if index < count then
                shiftKey deletedOffset shiftSize other else other) = other := by
              split
              · exact if_pos under
              · rfl
            rw [still]
            right
            omega
          · have otherAbove : deletedOffset +
                cellTotal start.heap other.cellOffset ≤ other.cellOffset := by
              rcases gap.beside other otherMember with low | high
              · omega
              · exact high
            by_cases earlier : index < count
            · -- both are moved, by the same distance
              have otherMoves : shiftKey deletedOffset shiftSize other =
                  { other with
                    cellOffset := other.cellOffset - shiftSize } :=
                if_neg under
              rw [if_pos earlier, otherMoves]
              simp only
              rcases gap_apart gap here otherHere keyHere with left | right
              · right
                omega
              · left
                omega
            · -- the other cell is still to be moved
              rw [if_neg earlier]
              rcases gap_clear gap (by omega : count < index) keyHere otherHere
                with low | low | past | short
              · omega
              · omega
              · left
                omega
              · right
                omega

theorem moved_run (gap : Gap start.heap start.keys deletedOffset shiftSize) :
    ∀ count, count ≤ start.keys.length →
      Moved start deletedOffset shiftSize count
        ((List.range count).foldl (gcStep deletedOffset shiftSize) start) := by
  intro count
  induction count with
  | zero =>
      intro _
      exact moved_start
  | succ count inductionHypothesis =>
      intro bound
      rw [List.range_succ, List.foldl_append]
      exact moved_step gap (inductionHypothesis (by omega)) (by omega)

end Loop

/-! ## The removal -/

section Remove

variable {node : BTreeNode} {index : Nat} {deleted : PageKey}
  (ok : NodeOk node) (here : node.keys[index]? = some deleted)
  (safe : GcSafe node index)

theorem keyAt_of_getElem? (here : node.keys[index]? = some deleted) :
    node.keyAt index = deleted := by
  unfold BTreeNode.keyAt
  rw [here]

include ok in
theorem fromHighwater_slideKeys {offset : Nat}
    (inside : offset ≤ node.cellHighWaterOffset) :
    fromHighwater (node.slideKeys index).heap offset =
      fromHighwater node.heap offset :=
  fromHighwater_append (Nat.le_trans inside ok.highWater_le)

include ok here in
/-- The cells that stay lie beside the removed one. -/
theorem beside_deleted : ∀ key ∈ node.keys.eraseIdx index,
    key.cellOffset + cellTotal node.heap deleted.cellOffset ≤
        deleted.cellOffset ∨
      deleted.cellOffset + cellTotal node.heap key.cellOffset ≤
        key.cellOffset := by
  obtain ⟨bound, rfl⟩ := List.getElem?_eq_some_iff.mp here
  intro key member
  have apart := ok.apart
  rw [← List.take_append_drop index node.keys, List.drop_eq_getElem_cons bound,
    List.pairwise_append, List.pairwise_cons] at apart
  rw [ListEdit.eraseIdx_eq_append] at member
  rcases List.mem_append.mp member with front | back
  · exact apart.2.2 key front _ List.mem_cons_self
  · exact (apart.2.1.1 key back).symm

include ok here safe in
theorem removal_gap :
    Gap (node.slideKeys index).heap (node.slideKeys index).keys
      deleted.cellOffset (cellTotal node.heap deleted.cellOffset) := by
  have deletedPlaced := ok.placed deleted (List.mem_of_getElem? here)
  have highWater_le := ok.highWater_le
  have sameTotal : ∀ key ∈ node.keys,
      cellTotal (node.slideKeys index).heap key.cellOffset =
        cellTotal node.heap key.cellOffset := fun key member =>
    cellTotal_congr (fromHighwater_slideKeys ok (ok.placed key member).offset_le)
  have longer : node.heap.length ≤ (node.slideKeys index).heap.length := by
    simp [BTreeNode.slideKeys]
  have stays : ∀ key ∈ (node.slideKeys index).keys, key ∈ node.keys :=
    fun key member => List.mem_of_mem_eraseIdx member
  have offset_le := deletedPlaced.offset_le
  refine ⟨?_, deletedPlaced.total_le, by omega, ?_, ?_, ?_, ?_⟩
  · unfold cellTotal
    omega
  · intro key member
    have placed := ok.placed key (stays key member)
    refine ⟨?_, ?_⟩
    · rw [sameTotal key (stays key member)]
      exact placed.total_le
    · have inside := placed.offset_le
      omega
  · intro key member
    rw [sameTotal key (stays key member)]
    exact beside_deleted ok here key member
  · have kept : (node.keys.eraseIdx index).Pairwise (Apart node.heap) :=
      ok.apart.sublist (List.eraseIdx_sublist _ _)
    refine kept.imp_of_mem ?_
    intro left right leftMember rightMember apart
    unfold Apart at apart ⊢
    rw [sameTotal left (stays left leftMember),
      sameTotal right (stays right rightMember)]
    exact apart
  · unfold GcSafe at safe
    rw [keyAt_of_getElem? here] at safe
    refine safe.imp_of_mem ?_
    intro left right leftMember rightMember clear
    unfold MovesClear at clear ⊢
    rw [sameTotal left (stays left leftMember),
      sameTotal right (stays right rightMember)]
    exact clear

include ok here safe in
/-- What the loop of `gc_node` leaves after a removal. -/
theorem removal_moved :
    Moved (node.slideKeys index) deleted.cellOffset
      (cellTotal node.heap deleted.cellOffset)
      (node.slideKeys index).keys.length
      ((List.range (node.slideKeys index).numKeys).foldl
        (gcStep deleted.cellOffset
          (cellTotal node.heap deleted.cellOffset)) (node.slideKeys index)) :=
  moved_run (removal_gap ok here safe) _ (Nat.le_refl _)

include here in
theorem nodeRemoveAt_eq :
    nodeRemoveAt node index =
      let shiftSize := cellTotal node.heap deleted.cellOffset
      let moved := (List.range (node.slideKeys index).numKeys).foldl
        (gcStep deleted.cellOffset shiftSize) (node.slideKeys index)
      { moved with
        cellHighWaterOffset := moved.cellHighWaterOffset - shiftSize
        freeHeap := moved.freeHeap + heapRequiredForInsertion shiftSize } := by
  have size : cellInlineSize (btuGetCellBuffer node index) + 4 =
      cellTotal node.heap deleted.cellOffset := by
    unfold btuGetCellBuffer cellTotal
    rw [keyAt_of_getElem? here]
    omega
  unfold nodeRemoveAt gcNode
  simp only
  rw [size, keyAt_of_getElem? here]

/-- Everything about the node but its keys and its cells. -/
def SameFrame (left right : BTreeNode) : Prop :=
  left.pageNumber = right.pageNumber ∧ left.metaBytes = right.metaBytes ∧
    left.leadBytes = right.leadBytes ∧ left.isLeaf = right.isLeaf ∧
    left.rightChild = right.rightChild

include ok here safe in
/-- A removal takes out one entry. -/
theorem nodeRemoveAt_entries :
    (nodeRemoveAt node index).entries = node.entries.eraseIdx index := by
  have gap := removal_gap ok here safe
  have moved := removal_moved ok here safe
  have sameTotal : ∀ key ∈ node.keys.eraseIdx index,
      cellAt (node.slideKeys index).heap key.cellOffset =
        cellAt node.heap key.cellOffset := fun key member =>
    cellAt_congr (fromHighwater_slideKeys ok
      (ok.placed key (List.mem_of_mem_eraseIdx member)).offset_le)
  rw [nodeRemoveAt_eq here]
  simp only
  generalize (List.range (node.slideKeys index).numKeys).foldl
    (gcStep deleted.cellOffset (cellTotal node.heap deleted.cellOffset))
    (node.slideKeys index) = after at moved
  have keysEq := moved.keys_eq
  rw [List.take_length, List.drop_length, List.append_nil] at keysEq
  unfold BTreeNode.entries
  simp only
  rw [keysEq, List.eraseIdx_map, List.map_map]
  apply List.map_congr_left
  intro key member
  obtain ⟨position, keyHere⟩ := List.mem_iff_getElem?.mp member
  have cell := moved.cells position key keyHere
  have bound := (List.getElem?_eq_some_iff.mp keyHere).1
  rw [if_pos bound] at cell
  have sameCell := cellAt_of_rawCell cell
  rw [sameTotal key member] at sameCell
  unfold entryAt
  simp only [Function.comp_apply, Entry.mk.injEq]
  refine ⟨?_, ?_, sameCell⟩
  · unfold shiftKey
    split <;> rfl
  · unfold shiftKey
    split <;> rfl

include ok here safe in
theorem nodeRemoveAt_frame :
    SameFrame (nodeRemoveAt node index) node := by
  have moved := removal_moved ok here safe
  rw [nodeRemoveAt_eq here]
  simp only
  generalize (List.range (node.slideKeys index).numKeys).foldl
    (gcStep deleted.cellOffset (cellTotal node.heap deleted.cellOffset))
    (node.slideKeys index) = after at moved
  rw [moved.frame]
  exact ⟨rfl, rfl, rfl, rfl, rfl⟩

include ok here safe in
theorem nodeRemoveAt_freeHeap :
    (nodeRemoveAt node index).freeHeap =
      node.freeHeap + (entryAt node.heap deleted).heapSize := by
  have moved := removal_moved ok here safe
  have placed := ok.placed deleted (List.mem_of_getElem? here)
  have size := placed.cellSize_eq ok.highWater_le
  rw [nodeRemoveAt_eq here]
  simp only
  generalize (List.range (node.slideKeys index).numKeys).foldl
    (gcStep deleted.cellOffset (cellTotal node.heap deleted.cellOffset))
    (node.slideKeys index) = after at moved
  have sameFree : after.freeHeap = node.freeHeap := by
    rw [moved.frame]
    rfl
  rw [sameFree, ← size]
  unfold heapRequiredForInsertion Entry.cellSize Entry.heapSize pageKeySize
  omega

include ok here safe in
theorem nodeRemoveAt_pageSize (wide : pageKeySize ≤ node.heap.length) :
    (nodeRemoveAt node index).pageSize = node.pageSize := by
  have moved := removal_moved ok here safe
  obtain ⟨bound, _⟩ := List.getElem?_eq_some_iff.mp here
  rw [nodeRemoveAt_eq here]
  simp only
  generalize (List.range (node.slideKeys index).numKeys).foldl
    (gcStep deleted.cellOffset (cellTotal node.heap deleted.cellOffset))
    (node.slideKeys index) = after at moved
  have keysLength := congrArg List.length moved.keys_eq
  have heapLength := moved.length_eq
  have sameLead : after.leadBytes = node.leadBytes := by
    rw [moved.frame]
    rfl
  rw [List.take_length, List.drop_length, List.append_nil, List.length_map]
    at keysLength
  have slid : (node.slideKeys index).keys.length + 1 = node.keys.length := by
    unfold BTreeNode.slideKeys
    simp only [List.length_eraseIdx, if_pos bound]
    omega
  have slidHeap : (node.slideKeys index).heap.length =
      pageKeySize + node.heap.length := by
    unfold BTreeNode.slideKeys
    simp only [List.length_append, List.length_take, Nat.min_eq_left wide]
  unfold BTreeNode.pageSize BTreeNode.numKeys
  simp only
  rw [keysLength, heapLength, slidHeap, sameLead]
  unfold pageKeySize
  omega

include ok here safe in
theorem nodeRemoveAt_ok (wide : pageKeySize ≤ node.heap.length) :
    NodeOk (nodeRemoveAt node index) := by
  have gap := removal_gap ok here safe
  have moved := removal_moved ok here safe
  have entriesEq := nodeRemoveAt_entries ok here safe
  have freeEq := nodeRemoveAt_freeHeap ok here safe
  have deletedPlaced := ok.placed deleted (List.mem_of_getElem? here)
  have size := deletedPlaced.cellSize_eq ok.highWater_le
  have free := ok.free
  have used := ok.used
  have highWater_le := ok.highWater_le
  have beside := beside_deleted ok here
  have entryHere : node.entries[index]? = some (entryAt node.heap deleted) := by
    unfold BTreeNode.entries
    rw [List.getElem?_map, here]
    rfl
  have sumErase := ListEdit.sum_map_eraseIdx Entry.cellSize entryHere
  have sameTotal : ∀ key ∈ node.keys.eraseIdx index,
      cellTotal (node.slideKeys index).heap key.cellOffset =
        cellTotal node.heap key.cellOffset := fun key member =>
    cellTotal_congr (fromHighwater_slideKeys ok
      (ok.placed key (List.mem_of_mem_eraseIdx member)).offset_le)
  have slidHeap : (node.slideKeys index).heap.length =
      pageKeySize + node.heap.length := by
    unfold BTreeNode.slideKeys
    simp only [List.length_append, List.length_take, Nat.min_eq_left wide]
  have newHighWater : (nodeRemoveAt node index).cellHighWaterOffset =
      node.cellHighWaterOffset - cellTotal node.heap deleted.cellOffset := by
    rw [nodeRemoveAt_eq here]
    simp only
    rw [moved.frame]
    rfl
  have newHeapLength : (nodeRemoveAt node index).heap.length =
      pageKeySize + node.heap.length := by
    rw [nodeRemoveAt_eq here]
    simp only
    rw [moved.length_eq, slidHeap]
  have newKeys : (nodeRemoveAt node index).keys =
      (node.keys.eraseIdx index).map
        (shiftKey deleted.cellOffset
          (cellTotal node.heap deleted.cellOffset)) := by
    rw [nodeRemoveAt_eq here]
    simp only
    rw [moved.keys_eq, List.take_length, List.drop_length, List.append_nil]
    rfl
  have newTotal : ∀ key ∈ node.keys.eraseIdx index,
      cellTotal (nodeRemoveAt node index).heap
          (shiftKey deleted.cellOffset
            (cellTotal node.heap deleted.cellOffset) key).cellOffset =
        cellTotal node.heap key.cellOffset := by
    intro key member
    obtain ⟨position, keyHere⟩ := List.mem_iff_getElem?.mp member
    have cell := moved.cells position key keyHere
    have bound : position < (node.slideKeys index).keys.length :=
      (List.getElem?_eq_some_iff.mp keyHere).1
    rw [if_pos bound] at cell
    rw [← sameTotal key member, nodeRemoveAt_eq here]
    exact cellTotal_of_rawCell cell
  have offset_le := deletedPlaced.offset_le
  have total_le := deletedPlaced.total_le
  refine ⟨?_, ?_, ?_, ?_, ?_⟩
  · have frame := nodeRemoveAt_frame ok here safe
    rw [frame.2.2.1, frame.1]
    exact ok.lead
  · rw [newHighWater, freeEq, newHeapLength]
    unfold Entry.heapSize pageKeySize
    unfold Entry.cellSize at size
    omega
  · rw [newHighWater, entriesEq]
    omega
  · rw [newKeys]
    intro moveKey moveMember
    obtain ⟨key, member, rfl⟩ := List.mem_map.mp moveMember
    have placed := ok.placed key (List.mem_of_mem_eraseIdx member)
    have inside := placed.offset_le
    have keyTotal := placed.total_le
    refine ⟨?_, ?_⟩
    · rw [newTotal key member]
      unfold shiftKey
      split
      · exact keyTotal
      · simp only
        rcases beside key member with under | above <;> omega
    · rw [newHighWater]
      unfold shiftKey
      split
      · rcases beside key member with under | above <;> omega
      · simp only
        omega
  · rw [newKeys, List.pairwise_map]
    have kept : (node.keys.eraseIdx index).Pairwise (Apart node.heap) :=
      ok.apart.sublist (List.eraseIdx_sublist _ _)
    refine kept.imp_of_mem ?_
    intro left right leftMember rightMember apart
    unfold Apart at apart ⊢
    rw [newTotal left leftMember, newTotal right rightMember]
    have leftBeside := beside left leftMember
    have rightBeside := beside right rightMember
    rw [shiftKey_cellOffset, shiftKey_cellOffset]
    split <;> split <;> omega

end Remove

end BtreeDb
