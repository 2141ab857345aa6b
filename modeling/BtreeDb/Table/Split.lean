import BtreeDb.Node.Insertion
import BtreeDb.Table.Insert

/-!
# Splitting a node

`split_node` deals the entries of a node to two empty ones.  A leaf gives the
left one the first half; an inner node keeps the last slot of that half out:
its key goes up and its child becomes the right child of the left node.
-/

namespace BtreeDb

open Bytes

/-! ## Moving a run of cells -/

theorem moveCellUnchecked_room {source dest : BTreeNode} {index : Nat}
    {entry : Entry} (disk : Disk) (sourceOk : NodeOk source)
    (here : source.entries[index]? = some entry)
    (small : entry.cellSize ≤ btreeNodeMaxCellSize dest)
    (room : entry.heapSize ≤ dest.freeHeap) :
    moveCellUnchecked source dest index disk =
      (.ok (dest.insertEntry dest.numKeys entry), disk) := by
  have moved := btreeNodeMoveCell_room disk sourceOk here small room
  unfold moveCellUnchecked
  rw [BtM.bind_ok (BtM.attempt_ok moved)]
  rfl

/-- What every entry of a node has to meet to be moved to another node: its
cell is small enough and its size fits a word. -/
structure Movable (dest : BTreeNode) (entries : List Entry) : Prop where
  small : ∀ entry ∈ entries, entry.cellSize ≤ btreeNodeMaxCellSize dest
  room : (entries.map Entry.heapSize).sum ≤ dest.freeHeap
  wide : dest.pageSize < 2 ^ 32

theorem moveCells_run {source : BTreeNode} (sourceOk : NodeOk source)
    (disk : Disk) :
    ∀ {indexes : List Nat} {added : List Entry} {dest : BTreeNode},
      NodeOk dest → Movable dest added →
      (indexes.map fun index => source.entries[index]?) = added.map some →
      ∃ after, moveCells source indexes dest disk = (.ok after, disk) ∧
        Refilled dest (dest.entries ++ added) after
  | [], [], dest, destOk, _, _ => by
      refine ⟨dest, rfl, ?_⟩
      rw [List.append_nil]
      exact .refl destOk
  | [], entry :: added, _, _, _, same => by simp at same
  | index :: indexes, [], _, _, _, same => by simp at same
  | index :: indexes, entry :: added, dest, destOk, movable, same => by
      rw [List.map_cons, List.map_cons, List.cons.injEq] at same
      have room := movable.room
      rw [List.map_cons, List.sum_cons] at room
      have small := movable.small entry List.mem_cons_self
      have wide := movable.wide
      have cellFits : entry.cell.length < 2 ^ 32 := by
        have free := freeHeap_le_pageSize destOk
        unfold Entry.heapSize at room
        omega
      have moved := moveCellUnchecked_room disk sourceOk same.1 small
        (by omega)
      have grown := insertEntry_refilled destOk (by omega)
        (Nat.le_refl dest.numKeys) cellFits
      have grownEntries : dest.entries.insertIdx dest.numKeys entry =
          dest.entries ++ [entry] := by
        have count : dest.numKeys = dest.entries.length :=
          (entries_length dest).symm
        rw [count, ListEdit.insertIdx_eq_append (Nat.le_refl _),
          List.take_length, List.drop_length]
      rw [grownEntries] at grown
      have restMovable : Movable (dest.insertEntry dest.numKeys entry) added := by
        refine ⟨?_, ?_, ?_⟩
        · intro other member
          rw [grown.maxCellSize_eq]
          exact movable.small other (List.mem_cons_of_mem _ member)
        · rw [insertEntry_freeHeap]
          omega
        · rw [grown.pageSize_eq]
          exact wide
      obtain ⟨after, runEq, refilled⟩ :=
        moveCells_run sourceOk disk grown.ok restMovable same.2
      refine ⟨after, ?_, ?_⟩
      · unfold moveCells
        rw [BtM.bind_ok moved]
        exact runEq
      · have whole := grown.trans refilled
        rw [grown.entries_eq, List.append_assoc, List.singleton_append] at whole
        exact whole

theorem map_getElem?_range {α : Type} (items : List α) {count : Nat}
    (bound : count ≤ items.length) :
    ((List.range count).map fun index => items[index]?) =
      (items.take count).map some := by
  apply List.ext_getElem?
  intro index
  rw [List.getElem?_map, List.getElem?_map, List.getElem?_take]
  by_cases inside : index < count
  · rw [if_pos inside, List.getElem?_range inside,
      List.getElem?_eq_getElem (by omega)]
    simp [List.getElem?_eq_getElem (show index < items.length by omega)]
  · rw [if_neg inside, List.getElem?_eq_none (by simpa using inside)]
    rfl

theorem map_getElem?_range' {α : Type} (items : List α) (start : Nat) :
    ((List.range' start (items.length - start)).map fun index =>
      items[index]?) = (items.drop start).map some := by
  apply List.ext_getElem?
  intro index
  rw [List.getElem?_map, List.getElem?_map, List.getElem?_drop]
  by_cases inside : start + index < items.length
  · rw [List.getElem?_range' (by omega), List.getElem?_eq_getElem inside]
    simp [List.getElem?_eq_getElem inside]
  · rw [List.getElem?_eq_none (by simp; omega),
      List.getElem?_eq_none (by omega)]
    rfl

/-! ## The two halves -/

section Halves

variable {source left right : BTreeNode} {half : Nat} {pivot : Entry}

theorem half_bounds (some : source.numKeys ≠ 0)
    (halfEq : half = (source.numKeys + 1) / 2) :
    half - 1 < source.entries.length ∧ half ≤ source.entries.length ∧
      half - 1 + 1 = half := by
  rw [entries_length]
  unfold BTreeNode.numKeys at some halfEq
  omega

theorem take_half (pivotHere : source.entries[half - 1]? = some pivot)
    (positive : half - 1 + 1 = half) :
    source.entries.take (half - 1) ++ [pivot] = source.entries.take half := by
  have next := List.take_add_one (l := source.entries) (i := half - 1)
  rw [positive, pivotHere] at next
  exact next.symm

variable (disk : Disk) (sourceOk : NodeOk source) (leftOk : NodeOk left)
  (rightOk : NodeOk right) (leftEmpty : left.entries = [])
  (rightEmpty : right.entries = []) (nonempty : source.numKeys ≠ 0)
  (halfEq : half = (source.numKeys + 1) / 2)
  (pivotHere : source.entries[half - 1]? = some pivot)
  (leftTakes : Movable left (source.entries.take half))
  (rightTakes : Movable right (source.entries.drop half))

include sourceOk rightOk rightEmpty rightTakes in
theorem splitRight_cells :
    ∃ after, moveCells source
        (List.range' half (source.numKeys - half)) right disk =
          (.ok after, disk) ∧
      Refilled right (source.entries.drop half) after := by
  have same := map_getElem?_range' source.entries half
  rw [entries_length] at same
  have run := moveCells_run sourceOk disk rightOk rightTakes same
  rwa [rightEmpty, List.nil_append] at run

include sourceOk leftOk leftEmpty nonempty halfEq pivotHere leftTakes in
theorem splitLeft_cells :
    ∃ after, moveCells source (List.range (half - 1)) left disk =
        (.ok after, disk) ∧
      Refilled left (source.entries.take (half - 1)) after ∧
      pivot.heapSize ≤ after.freeHeap ∧
      pivot.cellSize ≤ btreeNodeMaxCellSize after := by
  obtain ⟨inside, _, positive⟩ := half_bounds nonempty halfEq
  have whole := take_half pivotHere positive
  have room := leftTakes.room
  rw [← whole, List.map_append, List.sum_append, List.map_singleton,
    List.sum_singleton] at room
  have fewer : Movable left (source.entries.take (half - 1)) := by
    refine ⟨?_, by omega, leftTakes.wide⟩
    intro entry member
    refine leftTakes.small entry ?_
    rw [← whole]
    exact List.mem_append_left _ member
  have same := map_getElem?_range source.entries (Nat.le_of_lt inside)
  have run := moveCells_run sourceOk disk leftOk fewer same
  rw [leftEmpty, List.nil_append] at run
  obtain ⟨after, runEq, refilled⟩ := run
  refine ⟨after, runEq, refilled, ?_, ?_⟩
  · have free := refilled.freeHeap_add
    have freeBefore := leftOk.freeHeap_add
    rw [leftEmpty, List.map_nil, List.sum_nil] at freeBefore
    omega
  · rw [refilled.maxCellSize_eq]
    refine leftTakes.small pivot ?_
    rw [← whole]
    exact List.mem_append_right _ (List.mem_singleton_self _)

include sourceOk leftOk rightOk leftEmpty rightEmpty nonempty halfEq pivotHere
  leftTakes rightTakes

theorem splitNode_leaf (isLeaf : source.isLeaf = true) :
    ∃ leftAfter rightAfter,
      splitNode source left right disk =
        (.ok (leftAfter, rightAfter, pivot.key), disk) ∧
      Refilled left (source.entries.take half) leftAfter ∧
      Refilled right (source.entries.drop half) rightAfter := by
  obtain ⟨inside, _, positive⟩ := half_bounds nonempty halfEq
  obtain ⟨most, mostEq, mostFilled, room, small⟩ :=
    splitLeft_cells disk sourceOk leftOk leftEmpty nonempty halfEq
      pivotHere leftTakes
  obtain ⟨rightAfter, rightEq, rightFilled⟩ :=
    splitRight_cells disk sourceOk rightOk rightEmpty rightTakes
  have last := moveCellUnchecked_room disk sourceOk pivotHere small
    room
  have wide : pivot.cell.length < 2 ^ 32 := by
    have free := freeHeap_le_pageSize mostFilled.ok
    have size := leftTakes.wide
    rw [mostFilled.pageSize_eq] at free
    unfold Entry.heapSize at room
    omega
  have grown := insertEntry_refilled mostFilled.ok room
    (Nat.le_refl most.numKeys) wide
  have count : most.numKeys = most.entries.length := (entries_length most).symm
  have grownEntries : most.entries.insertIdx most.numKeys pivot =
      source.entries.take half := by
    rw [count, ListEdit.insertIdx_eq_append (Nat.le_refl _),
      List.take_length, List.drop_length, mostFilled.entries_eq]
    exact take_half pivotHere positive
  rw [grownEntries] at grown
  refine ⟨_, rightAfter, ?_, mostFilled.trans grown, rightFilled⟩
  unfold splitNode splitLeft splitRight
  rw [if_neg nonempty, ← halfEq]
  simp only [isLeaf, if_true]
  rw [BtM.bind_ok (show (_ : BtM BTreeNode) disk = _ by
    rw [BtM.bind_ok mostEq, last])]
  rw [BtM.bind_ok (show (_ : BtM BTreeNode) disk = _ by
    rw [BtM.bind_ok rightEq]; rfl)]
  rw [(sourceOk.reads pivotHere).key_eq]
  rfl

theorem splitNode_inner (isInner : source.isLeaf = false) :
    ∃ leftAfter rightAfter,
      splitNode source left right disk =
        (.ok (nodeRightChildSet leftAfter (readKeyCell source (half - 1)),
          nodeRightChildSet rightAfter source.rightChild, pivot.key), disk) ∧
      Refilled left (source.entries.take (half - 1)) leftAfter ∧
      Refilled right (source.entries.drop half) rightAfter := by
  obtain ⟨leftAfter, leftEq, leftFilled, _, _⟩ :=
    splitLeft_cells disk sourceOk leftOk leftEmpty nonempty halfEq
      pivotHere leftTakes
  obtain ⟨rightAfter, rightEq, rightFilled⟩ :=
    splitRight_cells disk sourceOk rightOk rightEmpty rightTakes
  refine ⟨leftAfter, rightAfter, ?_, leftFilled, rightFilled⟩
  unfold splitNode splitLeft splitRight
  rw [if_neg nonempty, ← halfEq]
  simp only [isInner, if_false, Bool.false_eq_true]
  rw [BtM.bind_ok (show (_ : BtM BTreeNode) disk = _ by
    rw [BtM.bind_ok leftEq]; rfl)]
  rw [BtM.bind_ok (show (_ : BtM BTreeNode) disk = _ by
    rw [BtM.bind_ok rightEq]; rfl)]
  rw [(sourceOk.reads pivotHere).key_eq]
  rfl

end Halves

end BtreeDb
