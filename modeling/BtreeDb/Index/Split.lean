import BtreeDb.Index.Insert
import BtreeDb.Table.Halves

/-!
# Splits and the record they are made for

Both splits deal the cells of a full node by their number, not by their size.
The half that the new record belongs to has all of its heap but the bytes of
the cells it gets, and that may be too little for the record.
-/

namespace BtreeDb

open Bytes

/-! ## Splitting a node of an index tree -/

section SplitCells

variable {source left right holding : BTreeNode} {half : Nat} {pivot : Entry}

theorem ibtaSplitCells_run (disk : Disk) (sourceOk : NodeOk source)
    (leftOk : NodeOk left) (rightOk : NodeOk right)
    (leftEmpty : left.entries = []) (rightEmpty : right.entries = [])
    (nonempty : source.numKeys ≠ 0)
    (halfEq : half = (source.numKeys + 1) / 2)
    (pivotHere : source.entries[half - 1]? = some pivot)
    (leftTakes : Movable left (source.entries.take half))
    (rightTakes : Movable right (source.entries.drop half))
    (holdingOk : NodeOk holding) (holdingEmpty : holding.entries = [])
    (holdingTakes : Movable holding [pivot]) :
    ∃ leftAfter rightAfter holdingAfter,
      ibtaSplitCells source left right (some holding) disk =
        (.ok (nodeRightChildSet leftAfter pivot.key,
          if source.isLeaf then rightAfter
          else nodeRightChildSet rightAfter source.rightChild,
          some holdingAfter, half - 1), disk) ∧
      Refilled left (source.entries.take (half - 1)) leftAfter ∧
      Refilled right (source.entries.drop half) rightAfter ∧
      Refilled holding [pivot] holdingAfter := by
  obtain ⟨leftAfter, leftEq, leftFilled, _, _⟩ :=
    splitLeft_cells disk sourceOk leftOk leftEmpty nonempty halfEq
      pivotHere leftTakes
  obtain ⟨rightAfter, rightEq, rightFilled⟩ :=
    splitRight_cells disk sourceOk rightOk rightEmpty rightTakes
  obtain ⟨holdingAfter, heldEq, held⟩ := moveCells_run sourceOk disk holdingOk
    holdingTakes
    (show ([half - 1].map fun index => source.entries[index]?) = _ by
      rw [List.map_singleton, pivotHere]
      rfl)
  rw [holdingEmpty, List.nil_append] at held
  unfold moveCells at heldEq
  obtain ⟨moved, middle, movedEq, restEq⟩ := BtM.bind_eq_ok heldEq
  obtain ⟨sameNode, sameDisk⟩ := Prod.mk.inj restEq
  have sameNode := Except.ok.inj sameNode
  subst sameNode sameDisk
  refine ⟨leftAfter, rightAfter, moved, ?_, leftFilled, rightFilled, held⟩
  unfold ibtaSplitCells
  rw [if_neg nonempty, ← halfEq]
  simp only
  rw [BtM.bind_ok leftEq, BtM.bind_ok movedEq,
    BtM.bind_ok (BtM.pure_apply (some moved) middle), BtM.bind_ok rightEq,
    (sourceOk.reads pivotHere).key_eq]
  rfl

end SplitCells

/-- A node in memory that has never been written to a page. -/
structure Unsaved (disk : Disk) (node : BTreeNode) : Prop where
  isNew : node.pageNumber = pageCreateNewPage
  metaBytes_length : node.metaBytes.length = pagemetaSize
  noLead : node.leadBytes = []
  pageSize_eq : node.pageSize = disk.pageSize

theorem Fresh.unsaved {disk : Disk} {node : BTreeNode}
    (fresh : Fresh disk pageCreateNewPage node) : Unsaved disk node where
  isNew := fresh.pageNumber_eq
  metaBytes_length := fresh.metaBytes_length
  noLead := fresh.ok.noLead (by rw [fresh.pageNumber_eq]; decide)
  pageSize_eq := fresh.pageSize_eq

/-- A node in memory after a reset. -/
theorem Unsaved.reset_fresh {disk : Disk} {node : BTreeNode}
    (unsaved : Unsaved disk node)
    (wide : btreeHeaderSize + pageHeaderSize ≤ disk.pageSize) :
    Fresh disk pageCreateNewPage (btreeNodeReset node) := by
  have offset : headerOffset node.pageNumber = 0 := by
    rw [unsaved.isNew]
    rfl
  have capacity : heapCapacity node.pageNumber node.pageSize =
      disk.pageSize - pageHeaderSize := by
    unfold heapCapacity
    rw [offset, unsaved.pageSize_eq]
    omega
  refine ⟨unsaved.isNew, unsaved.metaBytes_length, rfl, rfl, rfl, ?_, ?_⟩
  · refine ⟨?_, ?_, rfl, by simp [btreeNodeReset], by simp [btreeNodeReset]⟩
    · rw [show (btreeNodeReset node).leadBytes = node.leadBytes from rfl,
        unsaved.noLead]
      exact offset.symm
    · change heapCapacity _ _ + 0 = (List.replicate _ _).length
      rw [List.length_replicate, Nat.add_zero]
  · have leadLength : (btreeNodeReset node).leadBytes.length = 0 := by
      rw [show (btreeNodeReset node).leadBytes = node.leadBytes from rfl,
        unsaved.noLead]
      rfl
    have heapLength : (btreeNodeReset node).heap.length =
        disk.pageSize - pageHeaderSize := by
      change (List.replicate _ _).length = _
      rw [List.length_replicate]
      exact capacity
    have noKeys : (btreeNodeReset node).numKeys = 0 := rfl
    unfold BTreeNode.pageSize
    rw [leadLength, heapLength, noKeys]
    unfold pageHeaderSize btreeHeaderSize at *
    omega

section SplitBeside

variable {disk : Disk} {free : List Nat} {node : BTreeNode}
  (roomy : Roomy disk) (store : Store disk free) (holds : Holds disk node)
  (metaFresh : MetaFresh free node)
  (small : ∀ entry ∈ node.entries,
    entry.heapSize ≤ btreeNodeMaxCellSize node)
  (nonempty : node.numKeys ≠ 0) (notFirst : node.pageNumber ≠ 1)
  (used : node.pageNumber ∉ free)

include roomy store holds metaFresh small nonempty notFirst used

/-- `ibta_split_node` of a leaf or an inner node. -/
theorem ibtaSplitNode_run {holding : BTreeNode} {half : Nat} {pivot : Entry}
    (room : disk.maxPage + 1 < pageIdLimit)
    (holdingFresh : Fresh disk pageCreateNewPage holding)
    (halfEq : half = (node.numKeys + 1) / 2)
    (pivotHere : node.entries[half - 1]? = some pivot) :
    ∃ left right held after,
      ibtaSplitNode node holding disk =
        (.ok (right, held, ⟨left.pageNumber, half - 1⟩), after) ∧
      Written after free.tail node.isLeaf pivot.key
        (node.entries.take (half - 1)) left ∧
      Written after free.tail node.isLeaf
        (if node.isLeaf then 0 else node.rightChild)
        (node.entries.drop half) right ∧
      Refilled holding [pivot] held ∧
      left.pageNumber ≠ 1 ∧ left.pageNumber < pageIdLimit ∧
      right.pageNumber = node.pageNumber ∧
      Updates disk free after free.tail [node.pageNumber]
        [left.pageNumber] := by
  obtain ⟨leftBlank, leftBlankEq, leftFresh⟩ := nodercAcquire_fresh roomy.wide
  obtain ⟨rightBlank, rightBlankEq, rightFresh⟩ :=
    nodercReinitAs_fresh node.pageNumber roomy.wide
  have fit : EntriesFit node.entries := holds.encodable.entries
  have size := holds.pageSize_eq store
  have pivotMember := List.mem_of_getElem? pivotHere
  obtain ⟨left, right, held, splitEq, leftFilled, rightFilled, heldFilled⟩ :=
    ibtaSplitCells_run disk holds.ok leftFresh.ok rightFresh.ok
      leftFresh.empty rightFresh.empty nonempty halfEq pivotHere
      (fresh_movable roomy holds.ok size small leftFresh (by decide)
        (List.take_sublist _ _))
      (fresh_movable roomy holds.ok size small rightFresh notFirst
        (List.drop_sublist _ _))
      holdingFresh.ok holdingFresh.empty
      (fresh_movable roomy holds.ok size small holdingFresh (by decide)
        (List.singleton_sublist.mpr pivotMember))
  have rightRight : right.rightChild = 0 :=
    rightFilled.frame.2.2.2.2.trans rightFresh.noRightChild
  have rightShape : nodeIsLeafSet
      (if node.isLeaf then right else nodeRightChildSet right node.rightChild)
      node.isLeaf =
      { right with
        isLeaf := node.isLeaf
        rightChild := if node.isLeaf then 0 else node.rightChild } := by
    cases node.isLeaf with
    | true =>
        simp only [if_true]
        rw [← rightRight]
        rfl
    | false => rfl
  have rightChildFits : (if node.isLeaf then 0 else node.rightChild) <
      2 ^ 32 := by
    split
    · decide
    · exact holds.encodable.rightChild_lt
  obtain ⟨rightStored, middle, leftStored, after, copied, rightEq, leftEq,
    copyEq, leftWritten, rightWritten, notOne, limit, page, updates⟩ :=
    persistHalves_run roomy store holds metaFresh notFirst used room
      node.isLeaf leftFresh leftFilled (fit.take _)
      (fit pivot pivotMember).1 rightFresh rightFilled (fit.drop _)
      rightChildFits
  refine ⟨leftStored, copied, held, after, ?_, leftWritten, rightWritten,
    heldFilled, notOne, limit, page, updates⟩
  unfold ibtaSplitNode
  rw [BtM.bind_ok leftBlankEq, BtM.bind_ok rightBlankEq, BtM.bind_ok splitEq]
  simp only
  rw [rightShape, nodeIsLeafSet_rightChildSet, BtM.bind_ok rightEq,
    BtM.bind_ok leftEq, copyEq, BtM.bind_ok (BtM.ofExcept_ok _ after)]
  rfl

end SplitBeside

/-! ## Room for the new record -/

/-- The entries of the half that `btree_insert` writes a key to. -/
def btaHalf (node : BTreeNode) (key : Nat) : List Entry :=
  let firstHalf := (node.numKeys + 1) / 2
  if asInt key ≤ asInt (node.keyAt (firstHalf - 1)).key then
    node.entries.take (leftHalf node)
  else node.entries.drop firstHalf

/-- The entries of the half that `ibta_insert_at` writes to. -/
def ibtaHalf (node : BTreeNode) (index : ChildListIndex) : List Entry :=
  let firstHalf := (node.numKeys + 1) / 2
  if leftOrRightInsertion index node = -1 then
    node.entries.take (firstHalf - 1)
  else node.entries.drop firstHalf

/-- What is free in a node of its own with these entries. -/
def freeInHalf (node : BTreeNode) (half : List Entry) : Nat :=
  heapCapacity node.pageNumber node.pageSize - (half.map Entry.heapSize).sum

/-- A record is taken by a node of its own with these entries. -/
def HalfTakes (node : BTreeNode) (half : List Entry) (size : Nat) : Prop :=
  Takes (btreeNodeMaxCellSize node) (freeInHalf node half) size

instance (node : BTreeNode) (half : List Entry) (size : Nat) :
    Decidable (HalfTakes node half size) :=
  inferInstanceAs (Decidable (Takes _ _ _))

/-- The turn of `btree_insert` in a full node other than the root, up to the
write of the data to one of the halves. -/
def btaSplitAndWrite (node : BTreeNode) (key : Nat) (data : List UInt8) :
    BtM SplitPage := do
  let (node, splitResult) ← btaSplitNode node
  let node ← btreeInsertLoop.insertionHalf node key splitResult
  let _ ← btreeNodeWrite node key data
  pure splitResult

theorem heapCapacity_notFirst {pageNumber other pageSize : Nat}
    (notFirst : pageNumber ≠ 1) (otherNotFirst : other ≠ 1) :
    heapCapacity pageNumber pageSize = heapCapacity other pageSize := by
  unfold heapCapacity headerOffset
  rw [if_neg notFirst, if_neg otherNotFirst]

/-- Writing to a node of its own. -/
theorem half_write_iff {disk after : Disk} {left : List Nat}
    {node stored : BTreeNode} {half : List Entry} {position : ChildListIndex}
    {key : Nat} {data : List UInt8} (roomy : Roomy after)
    (store : Store after left) (holds : Holds after stored)
    (metaFresh : MetaFresh left stored) (entriesEq : stored.entries = half)
    (notFirst : node.pageNumber ≠ 1) (storedNotFirst : stored.pageNumber ≠ 1)
    (size : node.pageSize = disk.pageSize)
    (sameSize : after.pageSize = disk.pageSize)
    (used : stored.pageNumber ∉ left)
    (inside : position.number stored ≤ stored.numKeys) (keyFits : key < 2 ^ 32)
    (sizeFits : data.length < 2 ^ 32)
    (grows : after.maxPage ≤ disk.maxPage + 1)
    (room : disk.maxPage + 1 + recordPages (btreeNodeMaxCellSize node)
      (freeInHalf node half) disk.pageSize data.length < pageIdLimit) :
    (∃ result last,
      btreeNodeWriteAt stored position key data after = (.ok result, last)) ↔
      HalfTakes node half data.length := by
  have storedSize : stored.pageSize = node.pageSize :=
    (holds.pageSize_eq store).trans (sameSize.trans size.symm)
  have capacity : heapCapacity stored.pageNumber stored.pageSize =
      heapCapacity node.pageNumber node.pageSize := by
    rw [storedSize]
    exact heapCapacity_notFirst storedNotFirst notFirst
  have maxEq : btreeNodeMaxCellSize stored = btreeNodeMaxCellSize node := by
    unfold btreeNodeMaxCellSize
    rw [btuGetNodeHeapSize_eq, btuGetNodeHeapSize_eq, capacity]
  have freeEq : stored.freeHeap = freeInHalf node half := by
    have free := holds.ok.freeHeap_add
    rw [entriesEq, capacity] at free
    unfold freeInHalf
    omega
  have written := @btreeNodeWriteAt_ok_iff after left stored position key data
    roomy store holds metaFresh used inside keyFits sizeFits
    (by rw [maxEq, freeEq, sameSize]; omega)
  rw [maxEq, freeEq] at written
  exact written

theorem leftOrRightInsertion_eq {index : ChildListIndex} {node : BTreeNode} :
    leftOrRightInsertion index node = -1 ∧ index.mode = .limIndex ∧
        index.index < (node.numKeys + 1) / 2 ∨
      leftOrRightInsertion index node = 1 ∧ (index.mode = .limIndex →
        (node.numKeys + 1) / 2 ≤ index.index) := by
  unfold leftOrRightInsertion
  by_cases atIndex : index.mode = .limIndex
  · rw [if_neg (fun other => other atIndex)]
    by_cases below : index.index < (node.numKeys + 1) / 2
    · exact .inl ⟨if_pos below, atIndex, below⟩
    · exact .inr ⟨if_neg below, fun _ => by omega⟩
  · exact .inr ⟨if_pos atIndex, fun same => absurd same atIndex⟩

/-- The place of the new record in the left half. -/
theorem indexInHalf_left {node stored : BTreeNode} {index : ChildListIndex}
    (isLeft : leftOrRightInsertion index node = -1)
    (count : stored.numKeys = (node.numKeys + 1) / 2 - 1) :
    (indexInHalf index node).number stored ≤ stored.numKeys := by
  rcases @leftOrRightInsertion_eq index node with
    ⟨_, atIndex, below⟩ | ⟨isRight, _⟩
  · have same : indexInHalf index node = index := by
      unfold indexInHalf
      rw [isLeft]
      exact if_neg (by decide)
    have notEnd : index.mode ≠ .limEnd := by
      rw [atIndex]
      decide
    rw [same, ChildListIndex.number, if_neg notEnd]
    omega
  · rw [isLeft] at isRight
    cases isRight

/-- The place of the new record in the right half. -/
theorem indexInHalf_right {node stored : BTreeNode} {cli : ChildListIndex}
    (notLeft : leftOrRightInsertion (fromCli cli) node ≠ -1)
    (inside : (fromCli cli).number node ≤ node.numKeys)
    (few : node.numKeys < 2 ^ 32)
    (count : stored.numKeys = node.numKeys - (node.numKeys + 1) / 2) :
    (indexInHalf (fromCli cli) node).number stored ≤ stored.numKeys := by
  rcases @leftOrRightInsertion_eq (fromCli cli) node with
    ⟨isLeft, _, _⟩ | ⟨isRight, above⟩
  · exact absurd isLeft notLeft
  · unfold indexInHalf
    rw [if_pos isRight]
    cases mode : (fromCli cli).mode with
    | limEnd => exact Nat.le_refl _
    | rightChild =>
        unfold fromCli at mode
        simp only at mode
        split at mode
        · cases mode
        · rename_i other
          exact absurd mode other
    | limIndex =>
        have atLeast := above mode
        have notEnd : (fromCli cli).mode ≠ .limEnd := by
          rw [mode]
          decide
        unfold ChildListIndex.number at inside ⊢
        simp only
        rw [if_neg notEnd] at inside
        rw [← mode, if_neg notEnd]
        rw [show (fromCli cli).index + (2 ^ 32 - (node.numKeys + 1) / 2) =
          (fromCli cli).index - (node.numKeys + 1) / 2 + 2 ^ 32 by omega,
          Nat.add_mod_right, Nat.mod_eq_of_lt (by omega)]
        omega

section MakesRoom

variable {disk : Disk} {free : List Nat} {node : BTreeNode} {key : Nat}
  {data : List UInt8} (roomy : Roomy disk) (store : Store disk free)
  (holds : Holds disk node) (metaFresh : MetaFresh free node)
  (small : ∀ entry ∈ node.entries,
    entry.heapSize ≤ btreeNodeMaxCellSize node)
  (nonempty : node.numKeys ≠ 0) (notFirst : node.pageNumber ≠ 1)
  (used : node.pageNumber ∉ free) (keyFits : key < 2 ^ 32)
  (sizeFits : data.length < 2 ^ 32)

include roomy store holds metaFresh small nonempty notFirst used keyFits
  sizeFits

theorem btaSplitAndWrite_iff
    (room : disk.maxPage + 1 + recordPages (btreeNodeMaxCellSize node)
      (freeInHalf node (btaHalf node key)) disk.pageSize data.length <
        pageIdLimit) :
    (∃ splitResult after,
      btaSplitAndWrite node key data disk = (.ok splitResult, after)) ↔
      HalfTakes node (btaHalf node key) data.length := by
  obtain ⟨inside, _, _⟩ := half_bounds nonempty rfl
  obtain ⟨pivot, pivotHere⟩ : ∃ pivot,
      node.entries[(node.numKeys + 1) / 2 - 1]? = some pivot :=
    ⟨_, List.getElem?_eq_getElem inside⟩
  have size := holds.pageSize_eq store
  obtain ⟨left, right, after, splitEq, leftWritten, rightWritten, leftNotFirst,
    _, rightPage, updates⟩ :=
    btaSplitNode_run roomy store holds metaFresh notFirst used (by omega) small
      nonempty rfl pivotHere
  have pivotKey := (holds.ok.reads pivotHere).key_eq
  have afterRoomy := roomy.congr updates.pageSize
  have grows := updates.bounded
  rw [List.length_singleton] at grows
  unfold btaSplitAndWrite
  rw [BtM.bind_ok splitEq]
  simp only
  unfold btaHalf at room ⊢
  simp only [pivotKey] at room ⊢
  unfold btreeInsertLoop.insertionHalf
  by_cases below : asInt key ≤ asInt pivot.key
  · obtain ⟨metaBytes, readEq, leftFresh⟩ :=
      nodercReinitRead_holds leftWritten.holds updates.store
    rw [if_pos below, BtM.bind_ok readEq, BtM.bind_pure_ok_iff]
    rw [if_pos below] at room ⊢
    exact half_write_iff afterRoomy updates.store
      (leftWritten.holds.withMeta metaBytes) leftFresh leftWritten.entries_eq
      notFirst leftNotFirst size updates.pageSize
      (fun isFree => (List.nodup_cons.mp updates.distinct).1 isFree)
      (initInsertionIndexFromIndex_le _ _) keyFits sizeFits grows room
  · rw [if_neg below, BtM.bind_ok (BtM.pure_apply right after),
      BtM.bind_pure_ok_iff]
    rw [if_neg below] at room ⊢
    exact half_write_iff afterRoomy updates.store rightWritten.holds
      rightWritten.metaFresh rightWritten.entries_eq notFirst
      (by rw [rightPage]; exact notFirst) size updates.pageSize
      (fun isFree => used (updates.shrinks _ (rightPage ▸ isFree)))
      (initInsertionIndexFromIndex_le _ _) keyFits sizeFits grows room

/-- The insertion index that comes from a cursor's place is a place among the
keys. -/
theorem ibtaSplitAndWrite_iff {holding : BTreeNode} {cli : ChildListIndex}
    {flags : Nat} (unsaved : Unsaved disk holding)
    (inside : (fromCli cli).number node ≤ node.numKeys)
    (room : disk.maxPage + 1 + recordPages (btreeNodeMaxCellSize node)
      (freeInHalf node (ibtaHalf node (fromCli cli))) disk.pageSize
        data.length < pageIdLimit) :
    (∃ result after,
      ibtaSplitAndWrite node holding (fromCli cli) ⟨data, flags, key, .raw⟩
        disk = (.ok result, after)) ↔
      HalfTakes node (ibtaHalf node (fromCli cli)) data.length := by
  obtain ⟨bound, _, positive⟩ := half_bounds nonempty rfl
  obtain ⟨pivot, pivotHere⟩ : ∃ pivot,
      node.entries[(node.numKeys + 1) / 2 - 1]? = some pivot :=
    ⟨_, List.getElem?_eq_getElem bound⟩
  have size := holds.pageSize_eq store
  obtain ⟨left, right, held, after, splitEq, leftWritten, rightWritten, _,
    leftNotFirst, _, rightPage, updates⟩ :=
    ibtaSplitNode_run roomy store holds metaFresh small nonempty notFirst used
      (by omega) (unsaved.reset_fresh roomy.wide) rfl pivotHere
  have afterRoomy := roomy.congr updates.pageSize
  have grows := updates.bounded
  rw [List.length_singleton] at grows
  have few : node.numKeys < 2 ^ 32 := by
    have fits := holds.encodable.pageSize_lt
    unfold BTreeNode.pageSize pageKeySize at fits
    omega
  unfold ibtaSplitAndWrite
  rw [BtM.bind_ok splitEq]
  simp only
  unfold ibtaHalf at room ⊢
  simp only at room ⊢
  by_cases isLeft : leftOrRightInsertion (fromCli cli) node = -1
  · obtain ⟨metaBytes, readEq, leftFresh⟩ :=
      nodercReinitRead_holds leftWritten.holds updates.store
    rw [if_pos isLeft, BtM.bind_ok readEq, BtM.bind_pure_ok_iff]
    rw [if_pos isLeft] at room ⊢
    refine half_write_iff afterRoomy updates.store
      (leftWritten.holds.withMeta metaBytes) leftFresh leftWritten.entries_eq
      notFirst leftNotFirst size updates.pageSize
      (fun isFree => (List.nodup_cons.mp updates.distinct).1 isFree)
      (indexInHalf_left isLeft ?_) keyFits sizeFits grows room
    change left.keys.length = _
    rw [← entries_length, leftWritten.entries_eq, List.length_take]
    exact Nat.min_eq_left (Nat.le_of_lt bound)
  · rw [if_neg isLeft, BtM.bind_ok (BtM.pure_apply right after),
      BtM.bind_pure_ok_iff]
    rw [if_neg isLeft] at room ⊢
    refine half_write_iff afterRoomy updates.store rightWritten.holds
      rightWritten.metaFresh rightWritten.entries_eq notFirst
      (by rw [rightPage]; exact notFirst) size updates.pageSize
      (fun isFree => used (updates.shrinks _ (rightPage ▸ isFree)))
      (indexInHalf_right isLeft inside few ?_) keyFits sizeFits grows room
    change right.keys.length = _
    rw [← entries_length, rightWritten.entries_eq, List.length_drop,
      entries_length]

end MakesRoom

/-- A node that is too full for a record has entries. -/
theorem numKeys_ne_zero_of_full {disk : Disk} {node : BTreeNode} {size : Nat}
    (roomy : Roomy disk) (ok : NodeOk node)
    (pageSize : node.pageSize = disk.pageSize)
    (full : ¬ Takes (btreeNodeMaxCellSize node) node.freeHeap size) :
    node.numKeys ≠ 0 := by
  intro empty
  have least := roomy.maxCellSize pageSize
  have free := ok.freeHeap_of_empty empty
  have maxEq : btreeNodeMaxCellSize node = node.freeHeap / 4 := by
    unfold btreeNodeMaxCellSize
    rw [btuGetNodeHeapSize_eq, free]
  refine full ?_
  unfold Takes
  unfold heapRequiredForInsertion cellOverflowMinDiskSize pageKeySize
  split <;> omega

/-- After a split, the half that the caller chooses for the record takes it
exactly when the cells that it got leave enough of its heap. -/
theorem split_makes_room_iff {disk : Disk} {free : List Nat}
    {node : BTreeNode} {key : Nat} {data : List UInt8} (roomy : Roomy disk)
    (store : Store disk free) (holds : Holds disk node)
    (metaFresh : MetaFresh free node)
    (small : ∀ entry ∈ node.entries,
      entry.heapSize ≤ btreeNodeMaxCellSize node)
    (notFirst : node.pageNumber ≠ 1) (used : node.pageNumber ∉ free)
    (keyFits : key < 2 ^ 32) (sizeFits : data.length < 2 ^ 32)
    (full : ¬ Takes (btreeNodeMaxCellSize node) node.freeHeap data.length) :
    (disk.maxPage + 1 + recordPages (btreeNodeMaxCellSize node)
        (freeInHalf node (btaHalf node key)) disk.pageSize data.length <
          pageIdLimit →
      ((∃ splitResult after,
        btaSplitAndWrite node key data disk = (.ok splitResult, after)) ↔
        HalfTakes node (btaHalf node key) data.length)) ∧
    ∀ (holding : BTreeNode) (cli : ChildListIndex) (flags : Nat),
      Unsaved disk holding → (fromCli cli).number node ≤ node.numKeys →
      disk.maxPage + 1 + recordPages (btreeNodeMaxCellSize node)
        (freeInHalf node (ibtaHalf node (fromCli cli))) disk.pageSize
          data.length < pageIdLimit →
      ((∃ result after,
        ibtaSplitAndWrite node holding (fromCli cli) ⟨data, flags, key, .raw⟩
          disk = (.ok result, after)) ↔
        HalfTakes node (ibtaHalf node (fromCli cli)) data.length) := by
  have nonempty := numKeys_ne_zero_of_full roomy holds.ok
    (holds.pageSize_eq store) full
  constructor
  · intro room
    exact btaSplitAndWrite_iff roomy store holds metaFresh small nonempty
      notFirst used keyFits sizeFits room
  · intro holding cli flags unsaved inside room
    exact ibtaSplitAndWrite_iff roomy store holds metaFresh small nonempty
      notFirst used keyFits sizeFits unsaved inside room

/-! ## A leaf with its large cells in front -/

/-- Four records of 84 bytes and five empty ones in the leaf on page 2. -/
def crowdedDisk : Disk :=
  diskOfNodes 512
    [(false, 3, [(9, le32 2)]),
      (true, 0, [(1, List.replicate 84 1), (2, List.replicate 84 2),
        (3, List.replicate 84 3), (4, List.replicate 84 4), (5, []), (6, []),
        (7, []), (8, []), (9, [])]),
      (true, 0, [(20, [20])])]

def crowdedLeaf : BTreeNode := loadedNode crowdedDisk 2

/-- A node in memory for the cell between the halves. -/
def emptyHolding : BTreeNode :=
  nodeInitFromPage (blankPage crowdedDisk pageCreateNewPage)

def mediumRecord : List UInt8 := List.replicate 94 7

theorem crowded_right_half_takes :
    (∃ splitResult after,
      btaSplitAndWrite crowdedLeaf 10 mediumRecord crowdedDisk =
        (.ok splitResult, after)) ∧
    ∃ result after,
      ibtaSplitAndWrite crowdedLeaf emptyHolding (fromCli ⟨.rightChild, 9⟩)
        ⟨mediumRecord, 0, 10, .raw⟩ crowdedDisk = (.ok result, after) := by
  obtain ⟨checked, holds, metaSize, small, notFirst, used, fits, full⟩ :
      CheckedStore crowdedDisk [] ∧ Holds crowdedDisk crowdedLeaf ∧
        crowdedLeaf.metaBytes.length = pagemetaSize ∧ SmallCells crowdedLeaf ∧
        crowdedLeaf.pageNumber ≠ 1 ∧ crowdedLeaf.pageNumber ∉ ([] : List Nat) ∧
        mediumRecord.length < 2 ^ 32 ∧
        ¬ Takes (btreeNodeMaxCellSize crowdedLeaf) crowdedLeaf.freeHeap
          mediumRecord.length := by
    decide +kernel
  obtain ⟨tableRoom, inside, indexRoom⟩ :
      crowdedDisk.maxPage + 1 + recordPages (btreeNodeMaxCellSize crowdedLeaf)
          (freeInHalf crowdedLeaf (btaHalf crowdedLeaf 10)) crowdedDisk.pageSize
          mediumRecord.length < pageIdLimit ∧
        (fromCli ⟨.rightChild, 9⟩).number crowdedLeaf ≤ crowdedLeaf.numKeys ∧
        crowdedDisk.maxPage + 1 + recordPages (btreeNodeMaxCellSize crowdedLeaf)
          (freeInHalf crowdedLeaf
            (ibtaHalf crowdedLeaf (fromCli ⟨.rightChild, 9⟩)))
          crowdedDisk.pageSize mediumRecord.length < pageIdLimit := by
    decide +kernel
  have iff := @split_makes_room_iff crowdedDisk [] crowdedLeaf 10 mediumRecord
    ⟨by decide, by decide⟩ checked.store holds
    ⟨metaSize, fun isFirst => absurd isFirst notFirst⟩ small notFirst used
    (by decide) fits full
  have blank : Unsaved crowdedDisk emptyHolding :=
    (blank_fresh pageCreateNewPage (by decide)).unsaved
  exact ⟨(iff.1 tableRoom).mpr (by decide +kernel),
    (iff.2 emptyHolding ⟨.rightChild, 9⟩ 0 blank inside indexRoom).mpr
      (by decide +kernel)⟩

/-- The half of the large cells has no room for the record after the split. -/
theorem crowded_left_half_full :
    ¬ Takes (btreeNodeMaxCellSize crowdedLeaf) crowdedLeaf.freeHeap
        mediumRecord.length ∧
    SmallCells crowdedLeaf ∧
    (¬ ∃ splitResult after,
      btaSplitAndWrite crowdedLeaf 0 mediumRecord crowdedDisk =
        (.ok splitResult, after)) ∧
    ¬ ∃ result after,
      ibtaSplitAndWrite crowdedLeaf emptyHolding (fromCli ⟨.limIndex, 0⟩)
        ⟨mediumRecord, 0, 0, .raw⟩ crowdedDisk = (.ok result, after) := by
  have tableFails : (btaSplitAndWrite crowdedLeaf 0 mediumRecord
      crowdedDisk).1.isOk = false := by
    decide +kernel
  have indexFails : (ibtaSplitAndWrite crowdedLeaf emptyHolding
      (fromCli ⟨.limIndex, 0⟩) ⟨mediumRecord, 0, 0, .raw⟩
        crowdedDisk).1.isOk = false := by
    decide +kernel
  refine ⟨by decide +kernel, by decide +kernel, ?_, ?_⟩
  · rintro ⟨splitResult, after, written⟩
    rw [written] at tableFails
    cases tableFails
  · rintro ⟨result, after, written⟩
    rw [written] at indexFails
    cases indexFails

end BtreeDb
