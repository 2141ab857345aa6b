import BtreeDb.Node.Rewriting
import BtreeDb.Node.Storing
import BtreeDb.Table.Split

/-!
# Splitting a node on disk

The two splits of `btree_alg.c` on a node that the disk holds.
`bta_split_node` leaves the right half on the page of the node and puts the
left half on a new page; `bta_split_node_as_parent` puts both halves on new
pages and makes the node their parent.
-/

namespace BtreeDb

open Bytes

/-! ## Nodes with another shape -/

/-- What is on disk after a node has been written. -/
structure Written (after : Disk) (left : List Nat) (isLeaf : Bool)
    (rightChild : Nat) (entries : List Entry) (stored : BTreeNode) : Prop where
  holds : Holds after stored
  metaFresh : MetaFresh left stored
  isLeaf_eq : stored.isLeaf = isLeaf
  rightChild_eq : stored.rightChild = rightChild
  entries_eq : stored.entries = entries

theorem Roomy.wide {disk : Disk} (roomy : Roomy disk) :
    btreeHeaderSize + pageHeaderSize ≤ disk.pageSize := by
  have least := roomy.least
  unfold btreeMinPageSize at least
  omega

section Write

variable {disk : Disk} {free : List Nat} {blank node : BTreeNode}
  {entries : List Entry} {pageId rightChild : Nat} (isLeaf : Bool)
  (roomy : Roomy disk) (store : Store disk free)
  (fresh : Fresh disk pageId blank) (filled : Refilled blank entries node)
  (fit : EntriesFit entries) (rightFits : rightChild < 2 ^ 32)

include roomy fresh filled fit rightFits

theorem filled_encodable :
    Encodable { node with isLeaf := isLeaf, rightChild := rightChild } := by
  refine encodable_of_entries rightFits ?_ ?_
  · change node.pageSize < 2 ^ 32
    rw [filled.pageSize_eq, fresh.pageSize_eq]
    exact roomy.fits
  · change ∀ entry ∈ node.entries, _
    rw [filled.entries_eq]
    exact fit

include store

/-- A filled blank node on a page that is not on disk yet. -/
theorem persist_filled_new (isNew : pageId = 0)
    (room : disk.maxPage + 1 < pageIdLimit) :
    ∃ stored after,
      nodercPersist { node with isLeaf := isLeaf, rightChild := rightChild }
        disk = (.ok stored, after) ∧
      Written after free.tail isLeaf rightChild entries stored ∧
      stored.pageNumber ≠ 1 ∧ stored.pageNumber < pageIdLimit ∧
      Updates disk free after free.tail [] [stored.pageNumber] := by
  obtain ⟨number, metaEq, _, _, _⟩ := filled.frame
  obtain ⟨page, metaBytes, after, persistEq, metaLength, _, notFirst, small,
    holds, updates⟩ := nodercPersist_new store
      (filled.ok.shaped isLeaf rightChild)
      (filled_encodable isLeaf roomy fresh filled fit rightFits)
      (filled.pageSize_eq.trans fresh.pageSize_eq)
      (number.trans (fresh.pageNumber_eq.trans isNew))
      (by simp only [metaEq]; exact fresh.metaBytes_length) room
  refine ⟨_, after, persistEq, ⟨holds, ⟨metaLength, ?_⟩, rfl, rfl,
    filled.entries_eq⟩, notFirst, small, updates⟩
  intro isFirst
  exact absurd isFirst notFirst

/-- A filled blank node in the place of a node other than that of page 1. -/
theorem persist_filled_existing (notFirst : pageId ≠ 1)
    (present : pageId ≠ 0 ∧ pageId ≤ disk.maxPage) (used : pageId ∉ free) :
    ∃ stored after,
      nodercPersist { node with isLeaf := isLeaf, rightChild := rightChild }
        disk = (.ok stored, after) ∧
      Written after free isLeaf rightChild entries stored ∧
      stored.pageNumber = pageId ∧
      Updates disk free after free [pageId] [] := by
  obtain ⟨number, metaEq, _, _, _⟩ := filled.frame
  have atPage := number.trans fresh.pageNumber_eq
  obtain ⟨metaBytes, after, persistEq, holds, metaFresh, updates⟩ :=
    nodercPersist_existing store (filled.ok.shaped isLeaf rightChild)
      (filled_encodable isLeaf roomy fresh filled fit rightFits)
      (filled.pageSize_eq.trans fresh.pageSize_eq)
      (by simp only [atPage]; exact present)
      (by simp only [atPage]; exact used)
      ⟨by simp only [metaEq]; exact fresh.metaBytes_length,
        fun isFirst => absurd (atPage.symm.trans isFirst) notFirst⟩
  simp only [atPage] at updates
  exact ⟨_, after, persistEq, ⟨holds, metaFresh, rfl, rfl,
    filled.entries_eq⟩, atPage, updates⟩

end Write

/-! ## What the halves can take -/

/-- A blank node other than that of page 1 takes any of a node's entries. -/
theorem fresh_movable {disk : Disk} {node blank : BTreeNode} {pageId : Nat}
    {entries : List Entry} (roomy : Roomy disk) (ok : NodeOk node)
    (size : node.pageSize = disk.pageSize)
    (small : ∀ entry ∈ node.entries,
      entry.heapSize ≤ btreeNodeMaxCellSize node)
    (fresh : Fresh disk pageId blank) (notFirst : pageId ≠ 1)
    (sublist : entries.Sublist node.entries) : Movable blank entries := by
  have wider : heapCapacity node.pageNumber disk.pageSize ≤
      heapCapacity pageId disk.pageSize := heapCapacity_le _ _ notFirst
  have blankFree := fresh.ok.freeHeap_add
  rw [fresh.empty, fresh.pageNumber_eq, fresh.pageSize_eq] at blankFree
  have nodeFree := ok.freeHeap_add
  rw [size] at nodeFree
  have fewer := ListEdit.sum_map_sublist Entry.heapSize sublist
  refine ⟨?_, ?_, ?_⟩
  · intro entry member
    have bound := small entry (sublist.subset member)
    unfold btreeNodeMaxCellSize at bound ⊢
    rw [btuGetNodeHeapSize_eq, size] at bound
    rw [btuGetNodeHeapSize_eq, fresh.pageNumber_eq, fresh.pageSize_eq]
    unfold Entry.heapSize at bound
    unfold Entry.cellSize
    omega
  · rw [List.map_nil, List.sum_nil] at blankFree
    omega
  · rw [fresh.pageSize_eq]
    exact roomy.fits

/-- Copying a node of the same page keeps the metadata and the bytes before
the header. -/
theorem btreeNodeCopy_same (dest : BTreeNode) {src : BTreeNode} (srcOk : NodeOk src)
    (samePage : src.pageNumber = dest.pageNumber)
    (sameSize : src.pageSize = dest.pageSize) :
    btreeNodeCopy dest src =
      .ok { src with
        metaBytes := dest.metaBytes
        leadBytes := dest.leadBytes } := by
  have sizes : btuGetNodeSize src = btuGetNodeSize dest := by
    unfold btuGetNodeSize
    rw [samePage, sameSize]
  have freeEq : (if src.numKeys = 0 then
      heapCapacity dest.pageNumber dest.pageSize else src.freeHeap) =
        src.freeHeap := by
    split
    · rename_i empty
      rw [srcOk.freeHeap_of_empty empty, samePage, sameSize]
    · rfl
  unfold btreeNodeCopy
  rw [if_pos sizes, freeEq, ← samePage]

theorem NodeOk.noLead {node : BTreeNode} (ok : NodeOk node)
    (notFirst : node.pageNumber ≠ 1) : node.leadBytes = [] := by
  have lead := ok.lead
  unfold headerOffset at lead
  rw [if_neg notFirst] at lead
  exact List.length_eq_zero_iff.mp lead

theorem Written.congr {disk after : Disk} {left others : List Nat}
    {isLeaf : Bool} {rightChild : Nat} {entries : List Entry}
    {stored : BTreeNode}
    (written : Written disk left isLeaf rightChild entries stored)
    (same : after.buffer? stored.pageNumber =
      disk.buffer? stored.pageNumber)
    (notFirst : stored.pageNumber ≠ 1) :
    Written after others isLeaf rightChild entries stored :=
  ⟨written.holds.congr same,
    ⟨written.metaFresh.size, fun isFirst => absurd isFirst notFirst⟩,
    written.isLeaf_eq, written.rightChild_eq, written.entries_eq⟩

/-! ## Splitting a node next to its page -/

section SplitBeside

variable {disk : Disk} {free : List Nat} {node : BTreeNode}
  (roomy : Roomy disk) (store : Store disk free) (holds : Holds disk node)
  (metaFresh : MetaFresh free node) (notFirst : node.pageNumber ≠ 1)
  (used : node.pageNumber ∉ free) (room : disk.maxPage + 1 < pageIdLimit)

include roomy store holds metaFresh notFirst used room

/-- Writing the two halves: the right one to the page of the node, which then
has it in memory too, and the left one to a new page. -/
theorem persistHalves_run {leftBlank rightBlank left right : BTreeNode}
    {leftEntries rightEntries : List Entry} {leftChild rightChild : Nat}
    (isLeaf : Bool) (leftFresh : Fresh disk pageCreateNewPage leftBlank)
    (leftFilled : Refilled leftBlank leftEntries left)
    (leftFit : EntriesFit leftEntries) (leftChildFits : leftChild < 2 ^ 32)
    (rightFresh : Fresh disk node.pageNumber rightBlank)
    (rightFilled : Refilled rightBlank rightEntries right)
    (rightFit : EntriesFit rightEntries) (rightChildFits : rightChild < 2 ^ 32) :
    ∃ rightStored middle leftStored after copied,
      nodercPersist { right with isLeaf := isLeaf, rightChild := rightChild }
        disk = (.ok rightStored, middle) ∧
      nodercPersist { left with isLeaf := isLeaf, rightChild := leftChild }
        middle = (.ok leftStored, after) ∧
      btreeNodeCopy node rightStored = .ok copied ∧
      Written after free.tail isLeaf leftChild leftEntries leftStored ∧
      Written after free.tail isLeaf rightChild rightEntries copied ∧
      leftStored.pageNumber ≠ 1 ∧ leftStored.pageNumber < pageIdLimit ∧
      copied.pageNumber = node.pageNumber ∧
      Updates disk free after free.tail [node.pageNumber]
        [leftStored.pageNumber] := by
  obtain ⟨rightStored, middle, rightEq, rightWritten, rightPage,
    rightUpdates⟩ := persist_filled_existing isLeaf roomy store rightFresh
      rightFilled rightFit rightChildFits notFirst holds.present used
  have middleRoomy := roomy.congr rightUpdates.pageSize
  have leftFreshMiddle : Fresh middle pageCreateNewPage leftBlank :=
    { leftFresh with
      pageSize_eq := leftFresh.pageSize_eq.trans rightUpdates.pageSize.symm }
  have middleMax := rightUpdates.bounded
  rw [List.length_nil, Nat.add_zero] at middleMax
  obtain ⟨leftStored, after, leftEq, leftWritten, leftNotFirst, leftSmall,
    leftUpdates⟩ :=
    persist_filled_new isLeaf middleRoomy rightUpdates.store
      leftFreshMiddle leftFilled leftFit leftChildFits rfl (by omega)
  have whole := rightUpdates.trans leftUpdates
  rw [List.append_nil, List.nil_append] at whole
  have rightKept : after.buffer? rightStored.pageNumber =
      middle.buffer? rightStored.pageNumber := by
    rw [rightPage]
    exact leftUpdates.kept_used (by simp) used
      (Nat.le_trans holds.present.2 rightUpdates.grows)
  have rightAfter : Written after free.tail isLeaf rightChild rightEntries
      rightStored :=
    rightWritten.congr rightKept (by rw [rightPage]; exact notFirst)
  have nodeLead := holds.ok.noLead notFirst
  have rightLead := rightAfter.holds.ok.noLead
    (by rw [rightPage]; exact notFirst)
  have copyEq := btreeNodeCopy_same node rightAfter.holds.ok rightPage
    (by rw [rightAfter.holds.pageSize_eq whole.store, whole.pageSize,
      holds.pageSize_eq store])
  rw [nodeLead, ← rightLead] at copyEq
  exact ⟨rightStored, middle, leftStored, after,
    { rightStored with metaBytes := node.metaBytes }, rightEq, leftEq, copyEq,
    leftWritten, ⟨rightAfter.holds.withMeta _, ⟨metaFresh.size, fun isFirst =>
      absurd (rightPage.symm.trans isFirst) notFirst⟩, rightAfter.isLeaf_eq,
      rightAfter.rightChild_eq, rightAfter.entries_eq⟩, leftNotFirst,
    leftSmall, rightPage, whole⟩

omit roomy store holds metaFresh notFirst used room in
theorem nodeIsLeafSet_rightChildSet (node : BTreeNode) (isLeaf : Bool)
    (child : Nat) :
    nodeIsLeafSet (nodeRightChildSet node child) isLeaf =
      { node with isLeaf := isLeaf, rightChild := child } := rfl

/-- How many entries of a node go to the left half: an inner node keeps the
last one of the first half out. -/
def leftHalf (node : BTreeNode) : Nat :=
  if node.isLeaf then (node.numKeys + 1) / 2 else (node.numKeys + 1) / 2 - 1

/-- `bta_split_node` of a leaf or an inner node. -/
theorem btaSplitNode_run {half : Nat} {pivot : Entry}
    (small : ∀ entry ∈ node.entries,
      entry.heapSize ≤ btreeNodeMaxCellSize node)
    (nonempty : node.numKeys ≠ 0) (halfEq : half = (node.numKeys + 1) / 2)
    (pivotHere : node.entries[half - 1]? = some pivot) :
    ∃ left right after,
      btaSplitNode node disk =
        (.ok (right, ⟨left.pageNumber, pivot.key⟩), after) ∧
      Written after free.tail node.isLeaf
        (if node.isLeaf then 0 else readKeyCell node (half - 1))
        (node.entries.take (leftHalf node)) left ∧
      Written after free.tail node.isLeaf
        (if node.isLeaf then 0 else node.rightChild)
        (node.entries.drop half) right ∧
      left.pageNumber ≠ 1 ∧ left.pageNumber < pageIdLimit ∧
      right.pageNumber = node.pageNumber ∧
      Updates disk free after free.tail [node.pageNumber]
        [left.pageNumber] := by
  obtain ⟨leftBlank, leftBlankEq, leftFresh⟩ := nodercAcquire_fresh roomy.wide
  obtain ⟨rightBlank, rightBlankEq, rightFresh⟩ :=
    nodercReinitAs_fresh node.pageNumber roomy.wide
  have fit : EntriesFit node.entries := holds.encodable.entries
  have size := holds.pageSize_eq store
  have leftTakes : Movable leftBlank (node.entries.take half) :=
    fresh_movable roomy holds.ok size small leftFresh (by decide)
      (List.take_sublist _ _)
  have rightTakes : Movable rightBlank (node.entries.drop half) :=
    fresh_movable roomy holds.ok size small rightFresh notFirst
      (List.drop_sublist _ _)
  unfold btaSplitNode leftHalf
  rw [BtM.bind_ok leftBlankEq, BtM.bind_ok rightBlankEq, ← halfEq]
  by_cases isLeaf : node.isLeaf = true
  · obtain ⟨left, right, splitEq, leftFilled, rightFilled⟩ :=
      splitNode_leaf disk holds.ok leftFresh.ok rightFresh.ok leftFresh.empty
        rightFresh.empty nonempty halfEq pivotHere leftTakes rightTakes isLeaf
    obtain ⟨rightStored, middle, leftStored, after, copied, rightEq, leftEq,
      copyEq, leftWritten, rightWritten, notOne, limit, page, updates⟩ :=
      persistHalves_run roomy store holds metaFresh notFirst used room true
        leftFresh leftFilled (fit.take _) (by decide : 0 < 2 ^ 32) rightFresh
        rightFilled (fit.drop _) (by decide : 0 < 2 ^ 32)
    have leftShape : nodeIsLeafSet left true =
        { left with isLeaf := true, rightChild := 0 } := by
      rw [← leftFilled.frame.2.2.2.2.trans leftFresh.noRightChild]
      rfl
    have rightShape : nodeIsLeafSet right true =
        { right with isLeaf := true, rightChild := 0 } := by
      rw [← rightFilled.frame.2.2.2.2.trans rightFresh.noRightChild]
      rfl
    rw [BtM.bind_ok splitEq]
    simp only [isLeaf, if_true]
    rw [leftShape, rightShape, BtM.bind_ok rightEq, BtM.bind_ok leftEq, copyEq,
      BtM.bind_ok (BtM.ofExcept_ok _ after)]
    exact ⟨leftStored, copied, after, rfl, leftWritten, rightWritten, notOne,
      limit, page, updates⟩
  · have isInner : node.isLeaf = false := Bool.not_eq_true _ ▸ isLeaf
    obtain ⟨left, right, splitEq, leftFilled, rightFilled⟩ :=
      splitNode_inner disk holds.ok leftFresh.ok rightFresh.ok leftFresh.empty
        rightFresh.empty nonempty halfEq pivotHere leftTakes rightTakes isInner
    have leftChildFits : readKeyCell node (half - 1) < 2 ^ 32 := u32At_lt _ _
    obtain ⟨rightStored, middle, leftStored, after, copied, rightEq, leftEq,
      copyEq, leftWritten, rightWritten, notOne, limit, page, updates⟩ :=
      persistHalves_run roomy store holds metaFresh notFirst used room false
        leftFresh leftFilled (fit.take _) leftChildFits rightFresh rightFilled
        (fit.drop _) holds.encodable.rightChild_lt
    rw [BtM.bind_ok splitEq]
    simp only [isInner, Bool.false_eq_true, if_false]
    rw [nodeIsLeafSet_rightChildSet, nodeIsLeafSet_rightChildSet,
      BtM.bind_ok rightEq, BtM.bind_ok leftEq, copyEq,
      BtM.bind_ok (BtM.ofExcept_ok _ after)]
    exact ⟨leftStored, copied, after, rfl, leftWritten, rightWritten, notOne,
      limit, page, updates⟩

end SplitBeside

/-! ## Splitting a node below itself -/

/-- What `bta_split_node_as_parent` leaves on the disk. -/
structure ParentSplit (disk : Disk) (free : List Nat) (node : BTreeNode)
    (highKey leftChild rightChild : Nat) (leftEntries rightEntries : List Entry)
    (left right root : BTreeNode) (after : Disk) : Prop where
  leftWritten : Written after free.tail.tail node.isLeaf leftChild leftEntries
    left
  rightWritten : Written after free.tail.tail node.isLeaf rightChild
    rightEntries right
  leftNotFirst : left.pageNumber ≠ 1
  rightNotFirst : right.pageNumber ≠ 1
  leftSmall : left.pageNumber < pageIdLimit
  rightSmall : right.pageNumber < pageIdLimit
  rootHolds : Holds after root
  rootPage : root.pageNumber = node.pageNumber
  rootInner : root.isLeaf = false
  rootRight : root.rightChild = right.pageNumber
  rootEntries : root.entries =
    [⟨highKey, cellTypeCode .cellTypeInline, le32 left.pageNumber⟩]
  updates : Updates disk free after free.tail.tail [node.pageNumber]
    [left.pageNumber, right.pageNumber]

section AsParent

variable {disk : Disk} {free : List Nat} {node : BTreeNode} {highKey : Nat}
  (roomy : Roomy disk) (store : Store disk free) (holds : Holds disk node)
  (metaFresh : MetaFresh free node) (used : node.pageNumber ∉ free)
  (noneFree : node.pageNumber = 1 → free = [])
  (keyFits : highKey < 2 ^ 32)

include roomy keyFits

omit keyFits in
/-- The root with the two halves as its children. -/
theorem parent_filled {parent : BTreeNode} {leftPage rightPage : Nat}
    (parentFresh : Fresh disk node.pageNumber parent) :
    ∃ filled,
      nodeInsertInline (nodeRightChildSet (nodeIsLeafSet parent false) rightPage)
        insertEnd highKey { inlineSize := 4, payload := le32 leftPage } =
          .ok { filled with isLeaf := false, rightChild := rightPage } ∧
      Refilled parent
        [⟨highKey, cellTypeCode .cellTypeInline, le32 leftPage⟩] filled := by
  have free := parentFresh.ok.freeHeap_add
  rw [parentFresh.empty, parentFresh.pageNumber_eq, parentFresh.pageSize_eq,
    List.map_nil, List.sum_nil] at free
  have least := roomy.least
  have minPage : 216 ≤ disk.pageSize := least
  have offset_le : headerOffset node.pageNumber ≤ 100 := by
    unfold headerOffset btreeHeaderSize
    split <;> omega
  have room : 20 ≤ parent.freeHeap := by
    unfold heapCapacity pageHeaderSize at free
    omega
  have cellFits : (le32 leftPage).length < 2 ^ 32 := by
    rw [le32_length]
    decide
  have filled : Refilled parent _ (parent.insertEntry parent.numKeys
      ⟨highKey, cellTypeCode .cellTypeInline, le32 leftPage⟩) :=
    insertEntry_refilled parentFresh.ok room (Nat.le_refl parent.numKeys)
      cellFits
  have noKeys : parent.numKeys = 0 := by
    have count := entries_length parent
    rw [parentFresh.empty] at count
    exact count.symm
  rw [parentFresh.empty, noKeys] at filled
  refine ⟨_, ?_, filled⟩
  have inserted : nodeInsertInlineEx
      (nodeRightChildSet (nodeIsLeafSet parent false) rightPage) insertEnd
      highKey { inlineSize := 4, payload := le32 leftPage }
      (cellTypeCode .cellTypeInline) = _ :=
    nodeInsertInlineEx_room (Nat.le_refl _) (Nat.le_refl 4) room
  unfold nodeInsertInline
  rw [show pkeySetCellType 0 .cellTypeInline = cellTypeCode .cellTypeInline
    from rfl, inserted]
  have position : insertEnd.number
      (nodeRightChildSet (nodeIsLeafSet parent false) rightPage) = 0 := noKeys
  rw [position]
  rfl

end AsParent

end BtreeDb
