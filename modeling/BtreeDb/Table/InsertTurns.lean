import BtreeDb.Table.Growing

/-!
# The turns of an insertion

What one turn of the loop of `btree_insert` does with the node on top of its
stack: the node takes the record, it becomes the parent of its two halves, or
it is split beside its page and the left half is left to the node below on the
stack.
-/

namespace BtreeDb

section Turns

variable {tree : BTree} {disk middle after : Disk} {cursor : Cursor}
variable {crumb : CursorBreadcrumb} {rest : List CursorBreadcrumb}
variable {key fuel : Nat} {data : InsertData} {splitResult : SplitPage}
variable {node half stored : BTreeNode}

theorem cursorPop_crumb (stack : cursor.breadcrumbs = crumb :: rest) :
    ∃ lower, cursorPop cursor = .ok (crumb, lower) ∧
      lower.breadcrumbs = rest := by
  unfold cursorPop
  rw [stack]
  cases rest with
  | nil => exact ⟨_, rfl, rfl⟩
  | cons below others => exact ⟨_, rfl, rfl⟩

variable (stack : cursor.breadcrumbs = crumb :: rest)
  (readEq : nodercReinitRead crumb.pageId disk = (.ok node, disk))

include stack readEq

theorem btreeInsertLoop_fits
    (writeEq : btreeNodeWrite node key (data.read splitResult) disk =
      (.ok stored, after)) :
    btreeInsertLoop tree (fuel + 1) cursor key data splitResult disk =
      (.ok (), after) := by
  obtain ⟨lower, popEq, _⟩ := cursorPop_crumb stack
  unfold btreeInsertLoop
  rw [popEq, BtM.bind_ok (BtM.ofExcept_ok _ disk)]
  dsimp only
  rw [BtM.bind_ok readEq, BtM.bind_ok (BtM.attempt_ok writeEq)]
  rfl

variable (full : btreeNodeWrite node key (data.read splitResult) disk =
  (.error (.err .errNodeNotEnoughSpace), disk))

include full

theorem btreeInsertLoop_newRoot {split : SplitPageAsParent}
    (isRoot : node.pageNumber = tree.rootPageId)
    (splitEq : btaSplitNodeAsParent node disk = (.ok split, middle))
    (halfEq : nodercReinitRead
      (if asInt key ≤ asInt split.leftChildHighKey then split.leftChildPageId
      else split.rightChildPageId) middle = (.ok half, middle))
    (writeEq : btreeNodeWrite half key (data.read splitResult) middle =
      (.ok stored, after)) :
    btreeInsertLoop tree (fuel + 1) cursor key data splitResult disk =
      (.ok (), after) := by
  obtain ⟨lower, popEq, _⟩ := cursorPop_crumb stack
  unfold btreeInsertLoop
  rw [popEq, BtM.bind_ok (BtM.ofExcept_ok _ disk)]
  dsimp only
  rw [BtM.bind_ok readEq, BtM.bind_ok (BtM.attempt_error full)]
  dsimp only
  rw [if_pos isRoot, BtM.bind_ok splitEq, BtM.bind_ok halfEq,
    BtM.bind_ok writeEq]
  rfl

theorem btreeInsertLoop_beside {parent : CursorBreadcrumb}
    {above : List CursorBreadcrumb} {split : SplitPage} {right : BTreeNode}
    (restEq : rest = parent :: above) (few : above.length < maxBreadcrumbs)
    (notRoot : node.pageNumber ≠ tree.rootPageId)
    (splitEq : btaSplitNode node disk = (.ok (right, split), middle))
    (halfEq : btreeInsertLoop.insertionHalf right key split middle =
      (.ok half, middle))
    (writeEq : btreeNodeWrite half key (data.read split) middle =
      (.ok stored, after)) :
    ∃ next : Cursor,
      next.breadcrumbs =
        ⟨⟨.limIndex, parent.keyIndex.index⟩, parent.pageId⟩ :: above ∧
      btreeInsertLoop tree (fuel + 1) cursor key data splitResult disk =
        btreeInsertLoop tree fuel next split.leftPageHighKey .leftPageId split
          after := by
  obtain ⟨lower, popEq, lowerStack⟩ := cursorPop_crumb stack
  obtain ⟨base, popAgain, baseStack⟩ :=
    cursorPop_crumb (lowerStack.trans restEq)
  have pushEq : cursorPushCrumb base
      { parent with keyIndex := ⟨.limIndex, parent.keyIndex.index⟩ } =
      .ok ⟨parent.pageId, ⟨.limIndex, parent.keyIndex.index⟩,
        ⟨⟨.limIndex, parent.keyIndex.index⟩, parent.pageId⟩ :: above⟩ := by
    unfold cursorPushCrumb
    rw [baseStack, if_neg (Nat.ne_of_lt few)]
  refine ⟨⟨parent.pageId, ⟨.limIndex, parent.keyIndex.index⟩,
    ⟨⟨.limIndex, parent.keyIndex.index⟩, parent.pageId⟩ :: above⟩, rfl, ?_⟩
  rw [btreeInsertLoop]
  rw [popEq, BtM.bind_ok (BtM.ofExcept_ok _ disk)]
  dsimp only
  rw [BtM.bind_ok readEq, BtM.bind_ok (BtM.attempt_error full)]
  dsimp only
  rw [if_neg notRoot, BtM.bind_ok splitEq]
  dsimp only
  rw [BtM.bind_ok halfEq, BtM.bind_ok writeEq, popAgain,
    BtM.bind_ok (BtM.ofExcept_ok _ after)]
  dsimp only
  rw [pushEq, BtM.bind_ok (BtM.ofExcept_ok _ after)]

end Turns

/-! ## The turns with a full node -/

section Full

variable {tree : BTree} {disk : Disk} {free : List Nat} {node : BTreeNode}
variable {key : Nat} {payload : List UInt8}
variable (roomy : Roomy disk) (store : Store disk free)
  (holds : Holds disk node) (metaFresh : MetaFresh free node)
  (used : node.pageNumber ∉ free) (table : TableNode node)
  (increase : KeysIncrease node.entries)
  (readEq : nodercReinitRead node.pageNumber disk = (.ok node, disk))
  (full : ¬ Takes (btreeNodeMaxCellSize node) node.freeHeap payload.length)
  (takes : HalfAdmits disk.pageSize node key payload.length)
  (keyFits : key < 2 ^ 32) (sizeFits : payload.length < 2 ^ 32)

/-- The half that is loaded is the one on the side of the key. -/
theorem half_read {middle : Disk} {between : List Nat} {left right : BTreeNode}
    (store : Store middle between)
    (halved : Halved middle between node left right)
    (agree : asInt key ≤ asInt (splitKey node) ↔ key ≤ splitKey node) :
    ∃ leftMeta rightMeta,
      leftMeta.length = pagemetaSize ∧ rightMeta.length = pagemetaSize ∧
      nodercReinitRead (if asInt key ≤ asInt (splitKey node) then
          left.pageNumber else right.pageNumber) middle =
        (.ok (if key ≤ splitKey node then { left with metaBytes := leftMeta }
          else { right with metaBytes := rightMeta }), middle) := by
  obtain ⟨leftMeta, leftEq, leftFresh⟩ :=
    nodercReinitRead_holds halved.leftHolds store
  obtain ⟨rightMeta, rightEq, rightFresh⟩ :=
    nodercReinitRead_holds halved.rightHolds store
  refine ⟨leftMeta, rightMeta, leftFresh.size, rightFresh.size, ?_⟩
  by_cases isBelow : key ≤ splitKey node
  · rw [if_pos (agree.mpr isBelow), if_pos isBelow]
    exact leftEq
  · rw [if_neg (fun less => isBelow (agree.mp less)), if_neg isBelow]
    exact rightEq

include roomy store holds metaFresh used table increase readEq full takes keyFits
  sizeFits

/-- A full root becomes the parent of its two halves. -/
theorem newRoot_run (isRoot : node.pageNumber = tree.rootPageId)
    (noneFree : node.pageNumber = 1 → free = [])
    (room : disk.maxPage + payload.length + 3 < pageIdLimit) :
    ∃ after rest left right parent entry chain,
      (∀ {cursor : Cursor} {crumb : CursorBreadcrumb}
          {crumbs : List CursorBreadcrumb} {data : InsertData}
          {splitResult : SplitPage} (fuel : Nat),
        cursor.breadcrumbs = crumb :: crumbs →
        crumb.pageId = node.pageNumber → data.read splitResult = payload →
          btreeInsertLoop tree (fuel + 1) cursor key data splitResult disk =
            (.ok (), after)) ∧
      Divided disk free node key payload after rest left right entry
        [left.pageNumber, right.pageNumber] chain ∧
      Holds after parent ∧ parent.pageNumber = node.pageNumber ∧
      HasSlots parent [⟨left.pageNumber, splitKey node⟩] ∧
      parent.rightChild = right.pageNumber := by
  have sameSize := holds.pageSize_eq store
  have several := four_of_full holds.ok table.small
    (free_of_full roomy sameSize full)
  obtain ⟨left, right, parent, middle, splitEq, halved, parentHolds, parentPage,
    hasSlots, parentRight, split⟩ := btaSplitNodeAsParent_halved roomy store
      holds metaFresh used table (by omega) noneFree (by omega)
  have bounded := split.bounded
  rw [List.length_cons, List.length_singleton] at bounded
  obtain ⟨leftMeta, rightMeta, leftSized, rightSized, halfEq⟩ :=
    half_read split.store halved takes.agree
  rw [← split.pageSize] at sameSize takes
  obtain ⟨stored, after, rest, left', right', entry, chain, writeEq, written⟩ :=
    halved.write (roomy.congr split.pageSize) split.store sameSize table.small
      increase keyFits takes sizeFits (by omega) leftSized rightSized
  have divided := written.divided halved increase (by omega) split (by simp)
    (by simp)
  obtain ⟨touched, updates, touchedEq⟩ := written.updates
  rw [← written.leftSame.1] at hasSlots
  rw [← written.rightSame.1] at parentRight
  have pages := split.distinct
  have nodeApart : node.pageNumber ≠ left.pageNumber ∧
      node.pageNumber ≠ right.pageNumber := by
    have fresh := split.fresh
    have present := holds.present.2
    constructor
    · intro same
      rcases fresh left.pageNumber (by simp) with wasFree | beyond
      · exact used (same ▸ wasFree)
      · omega
    · intro same
      rcases fresh right.pageNumber (by simp) with wasFree | beyond
      · exact used (same ▸ wasFree)
      · omega
  have parentAfter : Holds after parent := by
    refine parentHolds.congr (updates.kept_used ?_ ?_ parentHolds.present.2)
    · rw [parentPage]
      intro member
      rcases touchedEq _ member with atLeft | atRight
      · exact nodeApart.1 atLeft
      · exact nodeApart.2 atRight
    · rw [parentPage]
      exact fun member => used
        (List.mem_of_mem_tail (List.mem_of_mem_tail member))
  rw [← written.leftSame.1, ← written.rightSame.1] at divided
  refine ⟨after, rest, left', right', parent, entry, chain, ?_, divided,
    parentAfter, parentPage, hasSlots, parentRight⟩
  intro cursor crumb crumbs data splitResult fuel stack crumbPage dataEq
  rw [← crumbPage] at readEq
  rw [← dataEq] at writeEq full
  exact btreeInsertLoop_newRoot stack readEq (btreeNodeWrite_full roomy
    (holds.pageSize_eq store) full) isRoot splitEq halfEq writeEq

/-- A full node elsewhere leaves its left half to the node below on the
stack. -/
theorem beside_run {cursor : Cursor} {crumb parent : CursorBreadcrumb}
    {above : List CursorBreadcrumb} {splitResult : SplitPage} (fuel : Nat)
    (stack : cursor.breadcrumbs = crumb :: parent :: above)
    (few : above.length < maxBreadcrumbs)
    (crumbPage : crumb.pageId = node.pageNumber)
    (notRoot : node.pageNumber ≠ tree.rootPageId)
    (notFirst : node.pageNumber ≠ 1)
    (room : disk.maxPage + payload.length + 2 < pageIdLimit) :
    ∃ after rest left right entry chain next,
      next.breadcrumbs =
        ⟨⟨.limIndex, parent.keyIndex.index⟩, parent.pageId⟩ :: above ∧
      btreeInsertLoop tree (fuel + 1) cursor key (.bytes payload) splitResult
          disk =
        btreeInsertLoop tree fuel next (splitKey node) .leftPageId
          ⟨left.pageNumber, splitKey node⟩ after ∧
      Divided disk free node key payload after rest left right entry
        [left.pageNumber] chain ∧
      right.pageNumber = node.pageNumber ∧
      left.pageNumber < pageIdLimit := by
  have sameSize := holds.pageSize_eq store
  have several := four_of_full holds.ok table.small
    (free_of_full roomy sameSize full)
  obtain ⟨left, right, middle, splitEq, halved, rightPage, rightSized, leftLimit,
    split⟩ := btaSplitNode_halved roomy store holds metaFresh used table
      (by omega) notFirst (by omega)
  have bounded := split.bounded
  rw [List.length_singleton] at bounded
  obtain ⟨leftMeta, leftEq, leftFresh⟩ :=
    nodercReinitRead_holds halved.leftHolds split.store
  have agree := takes.agree
  rw [← split.pageSize] at sameSize takes
  obtain ⟨stored, after, rest, left', right', entry, chain, writeEq, written⟩ :=
    halved.write (roomy.congr split.pageSize) split.store sameSize table.small
      increase keyFits takes sizeFits (by omega) leftFresh.size rightSized
  have halfEq : btreeInsertLoop.insertionHalf right key
      ⟨left.pageNumber, splitKey node⟩ middle =
        (.ok (if key ≤ splitKey node then { left with metaBytes := leftMeta }
          else { right with metaBytes := right.metaBytes }), middle) := by
    unfold btreeInsertLoop.insertionHalf
    by_cases isBelow : key ≤ splitKey node
    · rw [if_pos (agree.mpr isBelow), if_pos isBelow]
      exact leftEq
    · rw [if_neg (fun less => isBelow (agree.mp less)), if_neg isBelow]
      rfl
  have divided := written.divided halved increase (by omega) split (by
    intro page own
    rw [rightPage] at own
    exact own.symm.imp List.mem_singleton.mpr List.mem_singleton.mpr)
    (fun page member => Or.inl (List.mem_singleton.mp member))
  rw [← crumbPage] at readEq
  obtain ⟨next, nextStack, loopEq⟩ := @btreeInsertLoop_beside tree disk middle
    after cursor crumb _ key fuel (.bytes payload) splitResult node _ stored stack
    readEq (btreeNodeWrite_full roomy (holds.pageSize_eq store) full) parent
    above _ right rfl few notRoot splitEq halfEq writeEq
  rw [← written.leftSame.1] at divided leftLimit loopEq
  exact ⟨after, rest, left', right', entry, chain, next, nextStack, loopEq,
    divided, written.rightSame.1.trans rightPage, leftLimit⟩

end Full

end BtreeDb
