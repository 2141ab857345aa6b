import BtreeDb.Table.Halves
import BtreeDb.Table.Update

/-!
# Splits keep the order

The two halves of a split hold the entries of the node in their order, with the
keys, the flags and the cell bytes they had.  In an inner node the last entry
of the left half becomes the right child of the left node, and its key is the
one that goes up.  This holds on every page, the first one too.
-/

namespace BtreeDb

open Bytes

/-! ## The parts of a node -/

/-- A node of a table tree: no entry takes more than its share, the keys are in
order, and the cells of an inner node are child pages. -/
structure TableNode (node : BTreeNode) : Prop where
  small : ∀ entry ∈ node.entries,
    entry.heapSize ≤ btreeNodeMaxCellSize node
  ordered : node.entries.Pairwise fun left right => left.key ≤ right.key
  inner : node.isLeaf = false → ∃ slots : List Slot,
    node.entries = slots.map Slot.entry ∧ ∀ slot ∈ slots, slot.child < 2 ^ 32

/-- The entries that the left node stands for: in an inner node its right child
is one of them, under the key that went up. -/
def leftPart (left : BTreeNode) (highKey : Nat) : List Entry :=
  if left.isLeaf then left.entries
  else left.entries ++ [(Slot.mk left.rightChild highKey).entry]

/-- A left and a right node are the parts of a node. -/
structure PartsOf (node left right : BTreeNode) (highKey : Nat) : Prop where
  leftIsLeaf : left.isLeaf = node.isLeaf
  rightIsLeaf : right.isLeaf = node.isLeaf
  entriesEq : node.entries = leftPart left highKey ++ right.entries
  rightChild : node.isLeaf = false → right.rightChild = node.rightChild
  highKey_mem : ∃ entry ∈ leftPart left highKey, entry.key = highKey
  highKey_max : ∀ entry ∈ leftPart left highKey, entry.key ≤ highKey

/-- The child in the cell of an inner node. -/
theorem readKeyCell_slot {node : BTreeNode} {slots : List Slot} {index : Nat}
    {entry : Entry} (ok : NodeOk node)
    (entriesEq : node.entries = slots.map Slot.entry)
    (children : ∀ slot ∈ slots, slot.child < 2 ^ 32)
    (here : node.entries[index]? = some entry) :
    (Slot.mk (readKeyCell node index) entry.key).entry = entry := by
  have inSlots := here
  rw [entriesEq, List.getElem?_map] at inSlots
  obtain ⟨slot, slotHere, rfl⟩ := Option.map_eq_some_iff.mp inSlots
  have cellEq := (ok.reads here).cell_eq
  have childEq : readKeyCell node index = slot.child := by
    unfold Slot.entry at cellEq
    rw [le32_length] at cellEq
    unfold readKeyCell
    rw [u32At, slice, cellEq, fromLe_le32]
    exact Nat.mod_eq_of_lt (children slot (List.mem_of_getElem? slotHere))
  rw [childEq]
  rfl

/-- The halves that `split_node` deals are the parts of the node. -/
theorem partsOf_halves {node left right : BTreeNode} {half : Nat}
    {pivot : Entry} (ok : NodeOk node) (table : TableNode node)
    (nonempty : node.numKeys ≠ 0) (halfEq : half = (node.numKeys + 1) / 2)
    (pivotHere : node.entries[half - 1]? = some pivot)
    (leftIsLeaf : left.isLeaf = node.isLeaf)
    (rightIsLeaf : right.isLeaf = node.isLeaf)
    (leftEntries : left.entries = node.entries.take (leftHalf node))
    (rightEntries : right.entries = node.entries.drop half)
    (leftChild : node.isLeaf = false →
      left.rightChild = readKeyCell node (half - 1))
    (rightChild : node.isLeaf = false → right.rightChild = node.rightChild) :
    PartsOf node left right pivot.key := by
  obtain ⟨_, _, positive⟩ := half_bounds nonempty halfEq
  have front := take_half pivotHere positive
  have partEq : leftPart left pivot.key = node.entries.take half := by
    unfold leftPart
    rw [leftIsLeaf, leftEntries]
    unfold leftHalf
    rw [← halfEq]
    cases isLeaf : node.isLeaf with
    | true => rfl
    | false =>
        obtain ⟨slots, slotsEq, children⟩ := table.inner isLeaf
        simp only [Bool.false_eq_true, if_false]
        rw [leftChild isLeaf, readKeyCell_slot ok slotsEq children pivotHere]
        exact front
  have frontOrdered := table.ordered.sublist (List.take_sublist half _)
  rw [← front] at frontOrdered
  refine ⟨leftIsLeaf, rightIsLeaf, ?_, rightChild, ?_, ?_⟩
  · rw [partEq, rightEntries, List.take_append_drop]
  · rw [partEq, ← front]
    exact ⟨pivot, List.mem_append_right _ (List.mem_singleton_self _), rfl⟩
  · intro entry member
    rw [partEq, ← front] at member
    rcases List.mem_append.mp member with earlier | last
    · exact (List.pairwise_append.mp frontOrdered).2.2 entry earlier pivot
        (List.mem_singleton_self _)
    · rw [List.mem_singleton.mp last]

/-! ## Dealing the entries -/

/-- A blank node with at least the capacity of a node takes its entries. -/
theorem blank_takes {disk : Disk} {node blank : BTreeNode} {pageId : Nat}
    {entries : List Entry} (roomy : Roomy disk) (ok : NodeOk node)
    (size : node.pageSize = disk.pageSize) (table : TableNode node)
    (fresh : Fresh disk pageId blank)
    (wider : heapCapacity node.pageNumber disk.pageSize ≤
      heapCapacity pageId disk.pageSize)
    (sublist : entries.Sublist node.entries) : Movable blank entries := by
  have blankFree := fresh.ok.freeHeap_add
  rw [fresh.empty, fresh.pageNumber_eq, fresh.pageSize_eq] at blankFree
  have nodeFree := ok.freeHeap_add
  rw [size] at nodeFree
  have fewer := ListEdit.sum_map_sublist Entry.heapSize sublist
  refine ⟨?_, ?_, ?_⟩
  · intro entry member
    have bound := table.small entry (sublist.subset member)
    unfold btreeNodeMaxCellSize at bound ⊢
    rw [btuGetNodeHeapSize_eq, size] at bound
    rw [btuGetNodeHeapSize_eq, fresh.pageNumber_eq, fresh.pageSize_eq]
    unfold Entry.heapSize at bound
    unfold Entry.cellSize
    omega
  · rw [List.map_nil, List.sum_nil] at blankFree
    omega
  · rw [fresh.pageSize_eq]
    exact roomy.fits

/-- Two blank nodes with the entries of a node dealt to them. -/
structure Dealt (node leftBlank rightBlank left right leftFilled
    rightFilled : BTreeNode) (half leftChild rightChild : Nat) : Prop where
  leftShape : nodeIsLeafSet left node.isLeaf =
    { leftFilled with isLeaf := node.isLeaf, rightChild := leftChild }
  rightShape : nodeIsLeafSet right node.isLeaf =
    { rightFilled with isLeaf := node.isLeaf, rightChild := rightChild }
  leftRefilled : Refilled leftBlank (node.entries.take (leftHalf node))
    leftFilled
  rightRefilled : Refilled rightBlank (node.entries.drop half) rightFilled
  leftFits : leftChild < 2 ^ 32
  rightFits : rightChild < 2 ^ 32
  leftInner : node.isLeaf = false → leftChild = readKeyCell node (half - 1)
  rightInner : node.isLeaf = false → rightChild = node.rightChild

/-- `split_node` of a leaf or an inner node. -/
theorem splitNode_dealt {disk : Disk} {node leftBlank rightBlank : BTreeNode}
    {leftPage rightPage half : Nat} {pivot : Entry} (roomy : Roomy disk)
    (ok : NodeOk node) (size : node.pageSize = disk.pageSize)
    (rightFits : node.rightChild < 2 ^ 32) (table : TableNode node)
    (leftFresh : Fresh disk leftPage leftBlank)
    (rightFresh : Fresh disk rightPage rightBlank)
    (leftWider : heapCapacity node.pageNumber disk.pageSize ≤
      heapCapacity leftPage disk.pageSize)
    (rightWider : heapCapacity node.pageNumber disk.pageSize ≤
      heapCapacity rightPage disk.pageSize)
    (nonempty : node.numKeys ≠ 0) (halfEq : half = (node.numKeys + 1) / 2)
    (pivotHere : node.entries[half - 1]? = some pivot) :
    ∃ left right leftFilled rightFilled leftChild rightChild,
      splitNode node leftBlank rightBlank disk =
        (.ok (left, right, pivot.key), disk) ∧
      Dealt node leftBlank rightBlank left right leftFilled rightFilled half
        leftChild rightChild := by
  have leftTakes := blank_takes roomy ok size table leftFresh leftWider
    (List.take_sublist half _)
  have rightTakes := blank_takes roomy ok size table rightFresh rightWider
    (List.drop_sublist half _)
  cases isLeaf : node.isLeaf with
  | true =>
      obtain ⟨left, right, splitEq, leftFilled, rightFilled⟩ :=
        splitNode_leaf disk ok leftFresh.ok rightFresh.ok leftFresh.empty
          rightFresh.empty nonempty halfEq pivotHere leftTakes rightTakes isLeaf
      refine ⟨left, right, left, right, 0, 0, splitEq, ?_, ?_, ?_, rightFilled,
        by decide, by decide, ?_, ?_⟩
      · rw [← leftFilled.frame.2.2.2.2.trans leftFresh.noRightChild]
        rfl
      · rw [← rightFilled.frame.2.2.2.2.trans rightFresh.noRightChild]
        rfl
      · unfold leftHalf
        rw [if_pos isLeaf, ← halfEq]
        exact leftFilled
      · intro isInner
        rw [isLeaf] at isInner
        cases isInner
      · intro isInner
        rw [isLeaf] at isInner
        cases isInner
  | false =>
      obtain ⟨left, right, splitEq, leftFilled, rightFilled⟩ :=
        splitNode_inner disk ok leftFresh.ok rightFresh.ok leftFresh.empty
          rightFresh.empty nonempty halfEq pivotHere leftTakes rightTakes isLeaf
      refine ⟨_, _, left, right, _, _, splitEq, rfl, rfl, ?_, rightFilled,
        u32At_lt _ _, rightFits, fun _ => rfl, fun _ => rfl⟩
      unfold leftHalf
      rw [if_neg (by rw [isLeaf]; exact Bool.false_ne_true), ← halfEq]
      exact leftFilled

/-! ## Writing over a page -/

section Persist

variable {disk : Disk} {free : List Nat} {node : BTreeNode}

/-- A page whose metadata names no free page ends the list of free pages if it
is the first page. -/
theorem Store.written_over (store : Store disk free)
    (size : node.pageSize = disk.pageSize)
    (metaSize : node.metaBytes.length = pagemetaSize)
    (noneNext : u32At node.metaBytes 1 = 0)
    (present : node.pageNumber ≠ 0 ∧ node.pageNumber ≤ disk.maxPage)
    (used : node.pageNumber ∉ free) :
    ∃ left, Store (disk.store node.pageNumber (setInUse node.page).image)
        left ∧ ∀ page ∈ left, page ∈ free := by
  have bufferSize : node.page.pageBuffer.length = disk.pageSize := by
    rw [page_pageBuffer_length, size]
  by_cases isFirst : node.pageNumber = 1
  · exact ⟨[], store.write_first isFirst metaSize bufferSize noneNext
      List.nodup_nil List.not_mem_nil,
      fun page member => absurd member List.not_mem_nil⟩
  · exact ⟨free, store.write present.1 present.2 used metaSize bufferSize
      fun first => absurd first isFirst, fun _ member => member⟩

/-- A filled blank node over any page that is not free. -/
theorem persist_filled_over {blank : BTreeNode} {entries : List Entry}
    {pageId rightChild : Nat} (isLeaf : Bool) (roomy : Roomy disk)
    (store : Store disk free) (fresh : Fresh disk pageId blank)
    (noneNext : u32At blank.metaBytes 1 = 0)
    (filled : Refilled blank entries node) (fit : EntriesFit entries)
    (rightFits : rightChild < 2 ^ 32)
    (present : pageId ≠ 0 ∧ pageId ≤ disk.maxPage) (used : pageId ∉ free) :
    ∃ metaBytes after left,
      nodercPersist { node with isLeaf := isLeaf, rightChild := rightChild }
        disk = (.ok { node with
          metaBytes := metaBytes, isLeaf := isLeaf
          rightChild := rightChild }, after) ∧
      Holds after { node with
        metaBytes := metaBytes, isLeaf := isLeaf, rightChild := rightChild } ∧
      Store after left ∧ (∀ page ∈ left, page ∈ free) ∧
      after.pageSize = disk.pageSize ∧ after.maxPage = disk.maxPage := by
  obtain ⟨number, metaEq, _, _, _⟩ := filled.frame
  have atPage : node.pageNumber = pageId := number.trans fresh.pageNumber_eq
  have encodable := filled_encodable isLeaf roomy fresh filled fit rightFits
  have ok := filled.ok.shaped isLeaf rightChild
  have size := filled.pageSize_eq.trans fresh.pageSize_eq
  have metaSize : node.metaBytes.length = pagemetaSize := by
    rw [metaEq]
    exact fresh.metaBytes_length
  rw [← metaEq] at noneNext
  rw [← atPage] at present used
  obtain ⟨metaBytes, after, persistEq, afterEq, holds, sameSize, sameMax, _⟩ :=
    nodercPersist_over store ok encodable present
  obtain ⟨left, leftStore, within⟩ := @Store.written_over disk free
    { node with isLeaf := isLeaf, rightChild := rightChild } store size metaSize
    noneNext present used
  rw [← afterEq] at leftStore
  exact ⟨metaBytes, after, left, persistEq, holds, leftStore, within, sameSize,
    sameMax⟩

end Persist

/-! ## The two splits -/

section Splits

variable {disk : Disk} {free : List Nat} {node : BTreeNode}

/-- What `bta_split_node` leaves: the right half on the page of the node, the
left half on another page.  The bytes before the header of the first page are
not those in memory. -/
structure SplitBeside (disk : Disk) (node : BTreeNode) : Prop where
  run : ∃ left right highKey after,
    btaSplitNode node disk =
      (.ok (right, ⟨left.pageNumber, highKey⟩), after) ∧
    Holds after left ∧
    (∃ leadBytes, Holds after { right with leadBytes := leadBytes }) ∧
    right.pageNumber = node.pageNumber ∧
    left.pageNumber ≠ node.pageNumber ∧ PartsOf node left right highKey

/-- What `bta_split_node_as_parent` leaves: the halves on two other pages, and
on the page of the node their parent with one key. -/
structure SplitBelow (disk : Disk) (node : BTreeNode) : Prop where
  run : ∃ left right parent highKey after,
    btaSplitNodeAsParent node disk =
      (.ok ⟨left.pageNumber, highKey, right.pageNumber⟩, after) ∧
    Holds after left ∧ Holds after right ∧ Holds after parent ∧
    parent.pageNumber = node.pageNumber ∧
    [left.pageNumber, right.pageNumber, node.pageNumber].Nodup ∧
    parent.isLeaf = false ∧
    parent.entries = [(Slot.mk left.pageNumber highKey).entry] ∧
    parent.rightChild = right.pageNumber ∧ PartsOf node left right highKey

/-- The halves on two new pages, and the node as it is before it is written. -/
structure BelowHalves (disk : Disk) (free : List Nat)
    (node left right copied : BTreeNode) (highKey : Nat) (second : Disk) :
    Prop where
  leftWritten : ∃ leftChild, Written second free.tail.tail node.isLeaf leftChild
    (node.entries.take (leftHalf node)) left
  rightWritten : ∃ rightChild, Written second free.tail.tail node.isLeaf
    rightChild (node.entries.drop ((node.numKeys + 1) / 2)) right
  leftNotFirst : left.pageNumber ≠ 1
  rightNotFirst : right.pageNumber ≠ 1
  leftSmall : left.pageNumber < pageIdLimit
  updates : Updates disk free second free.tail.tail []
    [left.pageNumber, right.pageNumber]
  copiedOk : NodeOk copied
  copiedEncodable : Encodable copied
  copiedPage : copied.pageNumber = node.pageNumber
  copiedSize : copied.pageSize = disk.pageSize
  copiedMeta : copied.metaBytes = node.metaBytes
  copiedInner : copied.isLeaf = false
  copiedEntries : copied.entries = [(Slot.mk left.pageNumber highKey).entry]
  copiedRight : copied.rightChild = right.pageNumber
  pivotHere : ∃ pivot, node.entries[(node.numKeys + 1) / 2 - 1]? = some pivot ∧
    pivot.key = highKey
  runs : ∀ stored after, nodercPersist copied second = (.ok stored, after) →
    btaSplitNodeAsParent node disk =
      (.ok ⟨left.pageNumber, highKey, right.pageNumber⟩, after)
  parts : PartsOf node left right highKey

variable (roomy : Roomy disk) (store : Store disk free)
  (holds : Holds disk node) (used : node.pageNumber ∉ free)
  (table : TableNode node) (nonempty : node.numKeys ≠ 0)

include roomy store holds used table nonempty

theorem splitBeside_of_table (room : disk.maxPage + 1 < pageIdLimit) :
    SplitBeside disk node := by
  obtain ⟨leftBlank, leftBlankEq, leftFresh⟩ := nodercAcquire_fresh roomy.wide
  have rightBlankEq : nodercReinitAs node.pageNumber disk =
      (.ok (nodeInitFromPage (blankPage disk node.pageNumber)), disk) := rfl
  have rightFresh := @blank_fresh disk node.pageNumber roomy.wide
  have size := holds.pageSize_eq store
  obtain ⟨inside, _, _⟩ := half_bounds nonempty rfl
  have pivotHere := List.getElem?_eq_getElem inside
  obtain ⟨left, right, leftFilled, rightFilled, leftChild, rightChild, splitEq,
    dealt⟩ := splitNode_dealt roomy holds.ok size holds.encodable.rightChild_lt
      table leftFresh rightFresh
      (heapCapacity_le _ _ (by decide : pageCreateNewPage ≠ 1)) (Nat.le_refl _)
      nonempty rfl pivotHere
  have fit : EntriesFit node.entries := holds.encodable.entries
  obtain ⟨metaBytes, middle, rest, rightEq, rightHolds, middleStore, within,
    sameSize, sameMax⟩ := persist_filled_over node.isLeaf roomy store rightFresh
      rfl dealt.rightRefilled (fit.drop _) dealt.rightFits holds.present used
  have leftFreshMiddle : Fresh middle pageCreateNewPage leftBlank :=
    { leftFresh with pageSize_eq := leftFresh.pageSize_eq.trans sameSize.symm }
  obtain ⟨leftStored, after, leftEq, leftWritten, _, _, updates⟩ :=
    persist_filled_new node.isLeaf (roomy.congr sameSize) middleStore
      leftFreshMiddle dealt.leftRefilled (fit.take _) dealt.leftFits rfl
      (by rw [sameMax]; exact room)
  have rightPage : rightFilled.pageNumber = node.pageNumber :=
    dealt.rightRefilled.frame.1.trans rightFresh.pageNumber_eq
  have apart : node.pageNumber ≠ leftStored.pageNumber := by
    intro same
    rcases updates.fresh leftStored.pageNumber (List.mem_singleton_self _)
      with wasFree | beyond
    · exact used (same ▸ within _ wasFree)
    · have onDisk := holds.present.2
      omega
  have rightKept : after.buffer? rightFilled.pageNumber =
      middle.buffer? rightFilled.pageNumber := by
    apply updates.kept _ (by simp)
    rw [rightPage]
    exact fun member => apart (List.mem_singleton.mp member)
  have rightAfter := rightHolds.congr rightKept
  have copyEq := btreeNodeCopy_same node rightAfter.ok rightPage
    (by rw [rightAfter.pageSize_eq updates.store, updates.pageSize, sameSize,
      size])
  have parts := @partsOf_halves node leftStored
    { rightFilled with
      metaBytes := node.metaBytes, leadBytes := node.leadBytes
      isLeaf := node.isLeaf, rightChild := rightChild }
    _ _ holds.ok table nonempty rfl pivotHere leftWritten.isLeaf_eq rfl
    leftWritten.entries_eq dealt.rightRefilled.entries_eq
    (fun isInner => leftWritten.rightChild_eq.trans (dealt.leftInner isInner))
    dealt.rightInner
  refine ⟨leftStored, { rightFilled with
      metaBytes := node.metaBytes, leadBytes := node.leadBytes
      isLeaf := node.isLeaf, rightChild := rightChild }, _, after, ?_,
    leftWritten.holds,
    ⟨rightFilled.leadBytes, rightAfter.withMeta node.metaBytes⟩, rightPage,
    apart.symm, parts⟩
  unfold btaSplitNode
  rw [BtM.bind_ok leftBlankEq, BtM.bind_ok rightBlankEq, BtM.bind_ok splitEq]
  dsimp only
  rw [dealt.rightShape, BtM.bind_ok rightEq, dealt.leftShape,
    BtM.bind_ok leftEq, copyEq, BtM.bind_ok (BtM.ofExcept_ok _ after)]
  rfl

omit used in
theorem belowHalves_of_table (room : disk.maxPage + 2 < pageIdLimit) :
    ∃ left right copied highKey second,
      BelowHalves disk free node left right copied highKey second := by
  obtain ⟨blank, blankEq, fresh⟩ := nodercAcquire_fresh roomy.wide
  have parentEq : nodercReinitAs node.pageNumber disk =
      (.ok (nodeInitFromPage (blankPage disk node.pageNumber)), disk) := rfl
  have parentFresh := @blank_fresh disk node.pageNumber roomy.wide
  have size := holds.pageSize_eq store
  have wider : heapCapacity node.pageNumber disk.pageSize ≤
      heapCapacity pageCreateNewPage disk.pageSize :=
    heapCapacity_le _ _ (by decide)
  obtain ⟨inside, _, _⟩ := half_bounds nonempty rfl
  have pivotHere := List.getElem?_eq_getElem inside
  obtain ⟨left, right, leftFilled, rightFilled, leftChild, rightChild, splitEq,
    dealt⟩ := splitNode_dealt roomy holds.ok size holds.encodable.rightChild_lt
      table fresh fresh wider wider nonempty rfl pivotHere
  have fit : EntriesFit node.entries := holds.encodable.entries
  obtain ⟨leftStored, first, leftEq, leftWritten, leftNotFirst, leftSmall,
    leftUpdates⟩ :=
    persist_filled_new node.isLeaf roomy store fresh dealt.leftRefilled
      (fit.take _) dealt.leftFits rfl (by omega)
  have freshNext : Fresh first pageCreateNewPage blank :=
    { fresh with
      pageSize_eq := fresh.pageSize_eq.trans leftUpdates.pageSize.symm }
  have firstMax := leftUpdates.bounded
  rw [List.length_singleton] at firstMax
  obtain ⟨rightStored, second, rightEq, rightWritten, rightNotFirst, rightSmall,
    rightUpdates⟩ :=
    persist_filled_new node.isLeaf (roomy.congr leftUpdates.pageSize)
      leftUpdates.store freshNext dealt.rightRefilled (fit.drop _)
      dealt.rightFits rfl (by omega)
  have whole := leftUpdates.trans rightUpdates
  have distinct := (List.nodup_append.mp whole.distinct).1
  have leftRight : leftStored.pageNumber ≠ rightStored.pageNumber := by
    intro same
    exact (List.nodup_cons.mp distinct).1 (List.mem_singleton.mpr same)
  obtain ⟨filled, insertEq, parentFilled⟩ := @parent_filled disk node
    node.entries[(node.numKeys + 1) / 2 - 1].key roomy _
    leftStored.pageNumber rightStored.pageNumber parentFresh
  have parentPage : filled.pageNumber = node.pageNumber :=
    parentFilled.frame.1.trans parentFresh.pageNumber_eq
  have parentSize : filled.pageSize = disk.pageSize :=
    parentFilled.pageSize_eq.trans parentFresh.pageSize_eq
  have parentOk := parentFilled.ok.shaped false rightStored.pageNumber
  have copyEq := btreeNodeCopy_same node parentOk parentPage
    (parentSize.trans size.symm)
  have pivotFits := fit _ (List.getElem_mem inside)
  have rightPageFits : rightStored.pageNumber < 2 ^ 32 :=
    Nat.lt_trans rightSmall (by decide)
  have parentFit : EntriesFit [⟨node.entries[(node.numKeys + 1) / 2 - 1].key,
      cellTypeCode .cellTypeInline, le32 leftStored.pageNumber⟩] := by
    intro entry member
    rw [List.mem_singleton.mp member]
    exact ⟨pivotFits.1, (by decide : cellTypeCode .cellTypeInline < 2 ^ 32)⟩
  have parentEncodable := filled_encodable false roomy parentFresh parentFilled
    parentFit rightPageFits
  have copiedLead : node.leadBytes.length = filled.leadBytes.length := by
    rw [holds.ok.lead, parentFilled.ok.lead, parentPage]
  have copiedSize : BTreeNode.pageSize { filled with
      metaBytes := node.metaBytes, leadBytes := node.leadBytes
      isLeaf := false, rightChild := rightStored.pageNumber } =
        filled.pageSize := by
    unfold BTreeNode.pageSize
    rw [← copiedLead]
  have leftAfter : Written second free.tail.tail node.isLeaf leftChild
      (node.entries.take (leftHalf node)) leftStored :=
    leftWritten.congr (rightUpdates.kept _ (by simp)
      (by simpa using leftRight)) leftNotFirst
  refine ⟨leftStored, rightStored, { filled with
      metaBytes := node.metaBytes, leadBytes := node.leadBytes
      isLeaf := false, rightChild := rightStored.pageNumber }, _, second,
    ⟨leftChild, leftAfter⟩, ⟨rightChild, rightWritten⟩, leftNotFirst,
    rightNotFirst, leftSmall, whole,
    ⟨copiedLead.trans parentOk.lead, parentOk.free, parentOk.used,
      parentOk.placed, parentOk.apart⟩,
    ⟨parentEncodable.rightChild_lt, parentEncodable.key_lt,
      parentEncodable.flags_lt, ?_⟩,
    parentPage, copiedSize.trans parentSize, rfl, rfl, parentFilled.entries_eq,
    rfl, ⟨_, pivotHere, rfl⟩, ?_, ?_⟩
  · rw [copiedSize]
    exact parentEncodable.pageSize_lt
  · intro stored after persistEq
    have body : btaSplitNodeAsParentBody node disk =
        (.ok ⟨leftStored.pageNumber,
          node.entries[(node.numKeys + 1) / 2 - 1].key,
          rightStored.pageNumber⟩, after) := by
      unfold btaSplitNodeAsParentBody
      rw [BtM.bind_ok blankEq, BtM.bind_ok blankEq, BtM.bind_ok parentEq,
        BtM.bind_ok splitEq]
      dsimp only
      rw [dealt.leftShape, BtM.bind_ok leftEq, dealt.rightShape,
        BtM.bind_ok rightEq, insertEq, BtM.bind_ok (BtM.ofExcept_ok _ second),
        copyEq, BtM.bind_ok (BtM.ofExcept_ok _ second), BtM.bind_ok persistEq]
      rfl
    unfold btaSplitNodeAsParent
    rw [BtM.bind_ok (BtM.attempt_ok body)]
    rfl
  · exact partsOf_halves holds.ok table nonempty rfl pivotHere
      leftWritten.isLeaf_eq rightWritten.isLeaf_eq leftWritten.entries_eq
      rightWritten.entries_eq
      (fun isInner => leftWritten.rightChild_eq.trans (dealt.leftInner isInner))
      (fun isInner =>
        rightWritten.rightChild_eq.trans (dealt.rightInner isInner))

omit roomy table nonempty in
/-- The pages of the halves are not that of the node. -/
theorem BelowHalves.apart {left right copied : BTreeNode} {highKey : Nat}
    {second : Disk}
    (halves : BelowHalves disk free node left right copied highKey second) :
    [left.pageNumber, right.pageNumber, node.pageNumber].Nodup := by
  have usedApart : ([node.pageNumber] ++ free).Nodup :=
    List.nodup_cons.mpr ⟨used, store.distinct⟩
  have apart := halves.updates.used_apart usedApart (fun page member => by
    rw [List.mem_singleton.mp member]
    exact holds.present.2)
  have pages := (List.nodup_append.mp apart).1
  refine (List.Perm.nodup_iff ?_).mp pages
  exact @List.perm_append_comm _ [node.pageNumber]
    [left.pageNumber, right.pageNumber]

theorem splitBelow_of_table (room : disk.maxPage + 2 < pageIdLimit) :
    SplitBelow disk node := by
  obtain ⟨left, right, copied, highKey, second, halves⟩ :=
    belowHalves_of_table roomy store holds table nonempty room
  have pages := halves.apart store holds used
  have present : copied.pageNumber ≠ 0 ∧
      copied.pageNumber ≤ second.maxPage := by
    rw [halves.copiedPage]
    exact ⟨holds.present.1,
      Nat.le_trans holds.present.2 halves.updates.grows⟩
  obtain ⟨metaBytes, after, persistEq, _, parentHolds, _, _, kept⟩ :=
    nodercPersist_over halves.updates.store halves.copiedOk
      halves.copiedEncodable present
  simp only [List.nodup_cons, List.mem_cons, List.not_mem_nil, or_false,
    not_or] at pages
  obtain ⟨leftChild, leftWritten⟩ := halves.leftWritten
  obtain ⟨rightChild, rightWritten⟩ := halves.rightWritten
  have leftAfter : Holds after left := by
    apply leftWritten.holds.congr
    apply kept
    rw [halves.copiedPage]
    exact pages.1.2
  have rightAfter : Holds after right := by
    apply rightWritten.holds.congr
    apply kept
    rw [halves.copiedPage]
    exact pages.2.1
  exact ⟨left, right, _, highKey, after, halves.runs _ _ persistEq, leftAfter,
    rightAfter, parentHolds, halves.copiedPage,
    halves.apart store holds used, halves.copiedInner, halves.copiedEntries,
    halves.copiedRight, halves.parts⟩

/-- Both splits of a node of a table tree keep its entries in their order. -/
theorem table_split_keeps_order (room : disk.maxPage + 2 < pageIdLimit) :
    SplitBeside disk node ∧ SplitBelow disk node :=
  ⟨splitBeside_of_table roomy store holds used table nonempty (by omega),
    splitBelow_of_table roomy store holds used table nonempty room⟩

end Splits

/-! ## A leaf with two records -/

theorem twoRecords_split :
    SplitBeside twoRecordsDisk twoRecordsLeaf ∧
      SplitBelow twoRecordsDisk twoRecordsLeaf := by
  obtain ⟨holds, isLeaf, _, entriesEq⟩ := twoRecords_checked.2.1
  have valid := twoRecords_store.valid
  have small : ∀ entry ∈ [⟨1, 1, [10]⟩, ⟨2, 1, [20]⟩],
      Entry.heapSize entry ≤ btreeNodeMaxCellSize twoRecordsLeaf := by
    decide +kernel
  have table : TableNode twoRecordsLeaf := by
    refine ⟨by rw [entriesEq]; exact small, by rw [entriesEq]; decide, ?_⟩
    intro isInner
    rw [isLeaf] at isInner
    cases isInner
  have nonempty : twoRecordsLeaf.numKeys ≠ 0 := by
    have count := entries_length twoRecordsLeaf
    rw [entriesEq] at count
    exact fun none => absurd (count.trans none) (by decide)
  exact table_split_keeps_order valid.roomy valid.store holds
    List.not_mem_nil table nonempty (by decide +kernel)

end BtreeDb
