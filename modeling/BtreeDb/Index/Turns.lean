import BtreeDb.Index.Rebalance

/-!
# The loops of the trees stop

The insertions go up a stack of eight crumbs, one crumb a turn.  With the loops
of the cursor and of the rebalancing, all loops of the trees end within nine
turns, on every disk and from every state of the cursor.
-/

namespace BtreeDb

open BtM

/-! ## Splits -/

section Splits

variable {node left right : BTreeNode}

theorem splitLeft_ends (firstHalf : Nat) :
    Ends (splitLeft node left firstHalf) := by
  apply Ends.bind (moveCells_ends _ _ _)
  intro filled
  split
  · exact moveCellUnchecked_ends _ _ _
  · exact Ends.pure _

theorem splitRight_ends (firstHalf : Nat) :
    Ends (splitRight node right firstHalf) := by
  apply Ends.bind (moveCells_ends _ _ _)
  intro filled
  split
  · exact Ends.pure _
  · exact Ends.pure _

theorem splitNode_ends : Ends (splitNode node left right) := by
  unfold splitNode
  split
  · exact Ends.pure _
  · apply Ends.bind (splitLeft_ends _)
    intro filled
    apply Ends.bind (splitRight_ends _)
    intro rest
    exact Ends.pure _

theorem btaSplitNodeAsParent_ends : Ends (btaSplitNodeAsParent node) := by
  have body : Ends (btaSplitNodeAsParentBody node) := by
    apply Ends.bind nodercAcquire_ends
    intro left
    apply Ends.bind nodercAcquire_ends
    intro right
    apply Ends.bind (nodercReinitAs_ends _)
    intro parent
    apply Ends.bind splitNode_ends
    intro halves
    apply Ends.bind (nodercPersist_ends _)
    intro left
    apply Ends.bind (nodercPersist_ends _)
    intro right
    apply Ends.bind (Ends.ofExcept nodeInsertInlineEx_settled)
    intro parent
    apply Ends.bind (Ends.ofExcept (btreeNodeCopy_settled _ _))
    intro copied
    apply Ends.bind (nodercPersist_ends _)
    intro _
    exact Ends.pure _
  apply Ends.bind (Ends.attempt body)
  intro outcome
  cases outcome with
  | ok split => exact Ends.pure split
  | error code => exact Ends.pure _

theorem btaSplitNode_ends : Ends (btaSplitNode node) := by
  apply Ends.bind nodercAcquire_ends
  intro left
  apply Ends.bind (nodercReinitAs_ends _)
  intro right
  apply Ends.bind splitNode_ends
  intro halves
  apply Ends.bind (nodercPersist_ends _)
  intro right
  apply Ends.bind (nodercPersist_ends _)
  intro left
  apply Ends.bind (Ends.ofExcept (btreeNodeCopy_settled _ _))
  intro copied
  exact Ends.pure _

theorem ibtaSplitCells_ends (holding : Option BTreeNode) :
    Ends (ibtaSplitCells node left right holding) := by
  unfold ibtaSplitCells
  split
  · exact Ends.pure _
  · apply Ends.bind (moveCells_ends _ _ _)
    intro filled
    cases holding with
    | none =>
        apply Ends.bind (Ends.pure _)
        intro holding
        apply Ends.bind (moveCells_ends _ _ _)
        intro rest
        exact Ends.pure _
    | some holding =>
        apply Ends.bind (moveCellUnchecked_ends _ _ _)
        intro moved
        apply Ends.bind (Ends.pure _)
        intro holding
        apply Ends.bind (moveCells_ends _ _ _)
        intro rest
        exact Ends.pure _

theorem ibtaSplitNodeAsParent_ends (uninitialized : SplitPageAsParent) :
    Ends (ibtaSplitNodeAsParent uninitialized node) := by
  have body : Ends (ibtaSplitNodeAsParentBody node) := by
    apply Ends.bind nodercAcquire_ends
    intro left
    apply Ends.bind nodercAcquire_ends
    intro right
    apply Ends.bind (nodercReinitAs_ends _)
    intro parent
    apply Ends.bind (ibtaSplitCells_ends none)
    intro halves
    apply Ends.bind (nodercPersist_ends _)
    intro left
    apply Ends.bind (nodercPersist_ends _)
    intro right
    apply Ends.bind btreeNodeMoveCellFromData_ends
    intro parent
    apply Ends.bind (Ends.ofExcept (btreeNodeCopy_settled _ _))
    intro copied
    apply Ends.bind (nodercPersist_ends _)
    intro _
    exact Ends.pure _
  apply Ends.bind (Ends.attempt body)
  intro outcome
  cases outcome with
  | ok split => exact Ends.pure split
  | error code => exact Ends.pure _

theorem ibtaSplitNode_ends (holdingNode : BTreeNode) :
    Ends (ibtaSplitNode node holdingNode) := by
  apply Ends.bind nodercAcquire_ends
  intro left
  apply Ends.bind (nodercReinitAs_ends _)
  intro right
  apply Ends.bind (ibtaSplitCells_ends _)
  intro halves
  apply Ends.bind (nodercPersist_ends _)
  intro right
  apply Ends.bind (nodercPersist_ends _)
  intro left
  apply Ends.bind (Ends.ofExcept (btreeNodeCopy_settled _ _))
  intro copied
  exact Ends.pure _

end Splits

/-! ## Insertion -/

section Insertion

variable {tree : BTree}

theorem btreeNodeWriteEx_ends (node : BTreeNode) (index : ChildListIndex)
    (insertAt : IbtaInsertAt) :
    Ends (btreeNodeWriteEx node index insertAt) := by
  unfold btreeNodeWriteEx
  cases insertAt.mode with
  | raw => exact btreeNodeWriteAt_ends _
  | cellMove => exact btreeNodeWriteCell_ends

theorem insertionHalf_ends (node : BTreeNode) (key : Nat)
    (splitResult : SplitPage) :
    Ends (btreeInsertLoop.insertionHalf node key splitResult) := by
  unfold btreeInsertLoop.insertionHalf
  split
  · exact nodercReinitRead_ends _
  · exact Ends.pure node

/-- The crumb that goes back on the stack before the next turn. -/
theorem bind_parentCrumb {α : Type} {next : Cursor → BtM α} {cursor : Cursor}
    (inside : cursor.depth ≤ maxBreadcrumbs)
    (rest : ∀ later : Cursor, later.depth = cursor.depth →
      Ends (next later)) :
    Ends (do
      let (crumb, cursor) ← BtM.ofExcept (cursorPop cursor)
      let cursor ← BtM.ofExcept (cursorPushCrumb cursor
        { crumb with keyIndex := ⟨.limIndex, crumb.keyIndex.index⟩ })
      next cursor) := by
  apply Ends.bind_ofExcept (cursorPop_settled cursor)
  rintro ⟨crumb, below⟩ popped
  have lower := cursorPop_depth popped
  apply Ends.bind_ofExcept (cursorPushCrumb_settled below _)
  intro later pushed
  obtain ⟨more, _⟩ := cursorPushCrumb_depth pushed (by omega)
  exact rest later (by omega)

/-- The loop of `btree_insert` ends within one turn more than there are
crumbs. -/
theorem btreeInsertLoop_ends : ∀ {turns : Nat} {cursor : Cursor} {key : Nat}
    {data : InsertData} {splitResult : SplitPage},
    cursor.depth ≤ maxBreadcrumbs → cursor.depth < turns →
      Ends (btreeInsertLoop tree turns cursor key data splitResult) := by
  intro turns
  induction turns with
  | zero =>
      intro cursor key data splitResult inside enough
      omega
  | succ turns inductionHypothesis =>
      intro cursor key data splitResult inside enough
      apply Ends.bind_ofExcept (cursorPop_settled cursor)
      rintro ⟨crumb, below⟩ popped
      have lower := cursorPop_depth popped
      apply Ends.bind (nodercReinitRead_ends _)
      intro node
      apply Ends.bind (Ends.attempt (btreeNodeWriteAt_ends _))
      intro written
      split
      · exact Ends.pure _
      · split
        · apply Ends.bind btaSplitNodeAsParent_ends
          intro split
          apply Ends.bind (nodercReinitRead_ends _)
          intro half
          apply Ends.bind (btreeNodeWriteAt_ends _)
          intro _
          exact Ends.pure _
        · apply Ends.bind btaSplitNode_ends
          intro split
          apply Ends.bind (insertionHalf_ends _ _ _)
          intro half
          apply Ends.bind (btreeNodeWriteAt_ends _)
          intro _
          apply bind_parentCrumb (show below.depth ≤ maxBreadcrumbs by omega)
          intro later same
          exact inductionHypothesis (by omega) (by omega)
      · exact Ends.fail _

theorem btreeInsert_ends (key : Nat) (data : List UInt8) :
    Ends (btreeInsert tree key data) := by
  have created : (cursorCreate tree).depth = 1 := rfl
  have body : Ends (btreeInsertBody tree key data) := by
    intro disk
    apply Ends.bind_at
    · exact cursorTraverseLoop_settled (fun _ => rfl) (fun _ => settled_ok _)
        (by rw [created]; decide) (by rw [created]; decide)
    · rintro ⟨hit, cursor⟩ after traversed
      have within : cursor.depth ≤ maxBreadcrumbs :=
        cursorTraverseLoop_depth (by rw [created]; decide) traversed
      exact btreeInsertLoop_ends within (by omega) after
  apply Ends.bind (Ends.attempt body)
  intro _
  exact Ends.pure ()

theorem ibtaSplitAndWrite_ends (node holdingNode : BTreeNode)
    (index : ChildListIndex) (insertAt : IbtaInsertAt) :
    Ends (ibtaSplitAndWrite node holdingNode index insertAt) := by
  apply Ends.bind (ibtaSplitNode_ends _)
  rintro ⟨right, holding, split⟩
  simp only
  split
  · apply Ends.bind (nodercReinitRead_ends _)
    intro half
    apply Ends.bind (btreeNodeWriteEx_ends _ _ _)
    intro _
    exact Ends.pure _
  · apply Ends.bind (Ends.pure right)
    intro half
    apply Ends.bind (btreeNodeWriteEx_ends _ _ _)
    intro _
    exact Ends.pure _

theorem ibtaSplitRootAndWrite_ends (uninitialized : SplitPageAsParent)
    (node : BTreeNode) (index : ChildListIndex) (insertAt : IbtaInsertAt) :
    Ends (ibtaSplitRootAndWrite uninitialized node index insertAt) := by
  apply Ends.bind (ibtaSplitNodeAsParent_ends _)
  intro split
  apply Ends.bind (nodercReinitRead_ends _)
  intro half
  apply Ends.bind (btreeNodeWriteEx_ends _ _ _)
  intro _
  exact Ends.pure _

/-- The loop of `ibta_insert_at` ends within one turn more than there are
crumbs. -/
theorem ibtaInsertAtLoop_ends (uninitialized : SplitPageAsParent) :
    ∀ {turns : Nat} {cursor : Cursor} {insertAt : IbtaInsertAt}
      {nextHolding otherHolding : BTreeNode},
      cursor.depth ≤ maxBreadcrumbs → cursor.depth < turns →
        Ends (ibtaInsertAtLoop tree uninitialized turns cursor insertAt
          nextHolding otherHolding) := by
  intro turns
  induction turns with
  | zero =>
      intro cursor insertAt nextHolding otherHolding inside enough
      omega
  | succ turns inductionHypothesis =>
      intro cursor insertAt nextHolding otherHolding inside enough
      apply Ends.bind_ofExcept (cursorPop_settled cursor)
      rintro ⟨crumb, below⟩ popped
      have lower := cursorPop_depth popped
      apply Ends.bind (nodercReinitRead_ends _)
      intro node
      apply Ends.bind (Ends.attempt (btreeNodeWriteEx_ends _ _ _))
      intro written
      split
      · exact Ends.pure _
      · split
        · exact ibtaSplitRootAndWrite_ends _ _ _ _
        · apply Ends.bind (ibtaSplitAndWrite_ends _ _ _ _)
          rintro ⟨holding, splitResult⟩
          apply bind_parentCrumb (show below.depth ≤ maxBreadcrumbs by omega)
          intro later same
          exact inductionHypothesis (by omega) (by omega)
      · exact Ends.fail _

end Insertion

/-! ## All loops -/

theorem Leaves.ends {α : Type} {call : CursorM α} {cursor : Cursor}
    {post : Except BTreeE α → Cursor → Prop}
    (leaves : Leaves call cursor post) : Ends (call cursor) := by
  intro disk
  have here := leaves disk
  cases outcome : (call cursor disk).1 with
  | ok ended => exact settled_ok ended
  | error reason =>
      rw [outcome] at here
      exact settled_error here

/-- Every loop of the trees ends within nine turns: a descent that starts at a
crumb loads no more pages than the stack has room for, and one more, and an
upward loop makes no more turns than there are crumbs, and one more.  A descent
by a search ends unless the search of a single node does not. -/
theorem loops_stop (tree : BTree) {cursor : Cursor}
    (inside : cursor.depth ≤ maxBreadcrumbs) :
    (∀ searchKeys, SearchesKeys searchKeys → ∀ loads found disk,
      maxBreadcrumbs < cursor.depth + loads →
      (cursorTraverseLoop tree searchKeys loads cursor found disk).1 =
        .error .diverges →
      ∃ node, (searchKeys node disk).1 = .error .diverges) ∧
    (∀ key loads found, maxBreadcrumbs < cursor.depth + loads →
      Ends (cursorTraverseLoop tree
        (fun node => pure (btreeNodeSearchKeys node key)) loads cursor
        found)) ∧
    (∀ move, move = moveToBegin ∨ move = moveToEnd → ∀ loads,
      maxBreadcrumbs < cursor.depth + loads →
      Ends (traverseByMoverLoop tree move loads cursor)) ∧
    (∀ turns, cursor.depth < turns →
      (∀ goesOn, Ends (popWhile goesOn turns cursor)) ∧
      Ends (btreeIterLoop tree turns cursor) ∧
      (∀ mode, Ends (rebalanceLoop tree (btaRotate tree) (btaMerge tree)
        (btaRebalanceRoot tree) turns mode cursor)) ∧
      (∀ mode, Ends (rebalanceLoop tree (ibtaRotate tree) (ibtaMerge tree)
        (ibtaRebalanceRoot tree) turns mode cursor)) ∧
      (∀ key data splitResult,
        Ends (btreeInsertLoop tree turns cursor key data splitResult)) ∧
      ∀ uninitialized insertAt nextHolding otherHolding,
        Ends (ibtaInsertAtLoop tree uninitialized turns cursor insertAt
          nextHolding otherHolding)) ∧
    Ends (btreeIterNext tree cursor) ∧ Ends (ibtreeIterNext tree cursor) ∧
    Ends (btaRebalance tree cursor) ∧ Ends (ibtaRebalance tree cursor) ∧
    (∀ uninitialized insertAt,
      Ends (ibtaInsertAt tree uninitialized cursor insertAt)) ∧
    ∀ key data, Ends (btreeInsert tree key data) := by
  have enough : cursor.depth < maxBreadcrumbs + 1 := by omega
  have rebalances : ∀ turns, cursor.depth < turns →
      (∀ mode, Ends (rebalanceLoop tree (btaRotate tree) (btaMerge tree)
        (btaRebalanceRoot tree) turns mode cursor)) ∧
      (∀ mode, Ends (rebalanceLoop tree (ibtaRotate tree) (ibtaMerge tree)
        (ibtaRebalanceRoot tree) turns mode cursor)) := by
    intro turns few
    refine ⟨?_, ?_⟩
    · intro mode
      exact (rebalanceLoop_leaves btaRotate_noDeeper btaMerge_noDeeper
        btaRebalanceRoot_ends (Nat.le_refl _) inside few).ends
    · intro mode
      exact (rebalanceLoop_leaves ibtaRotate_noDeeper ibtaMerge_noDeeper
        ibtaRebalanceRoot_ends (Nat.le_refl _) inside few).ends
  refine ⟨?_, ?_, ?_, ?_, ?_, ?_, ?_, ?_, ?_, ?_⟩
  · intro searchKeys searches loads found disk more diverges
    by_contra allSettled
    apply cursorTraverseLoop_settled (fun node => searches.reads node disk) _
      inside more diverges
    intro node
    exact fun same => allSettled ⟨node, same⟩
  · intro key loads found more disk
    exact cursorTraverseLoop_settled (fun _ => rfl) (fun _ => settled_ok _)
      inside more
  · rintro move (rfl | rfl) loads more
    · exact (@traverseByMoverLoop_leaves tree moveToBegin (fun _ _ => rfl) _ _
        inside more).ends
    · exact (@traverseByMoverLoop_leaves tree moveToEnd (fun _ _ => rfl) _ _
        inside more).ends
  · intro turns few
    refine ⟨?_, ?_, ?_, ?_, ?_, ?_⟩
    · intro goesOn
      exact (popWhile_leaves goesOn few).ends
    · exact (btreeIterLoop_leaves inside few).ends
    · exact (rebalances turns few).1
    · exact (rebalances turns few).2
    · intro key data splitResult
      exact btreeInsertLoop_ends inside few
    · intro uninitialized insertAt nextHolding otherHolding
      exact ibtaInsertAtLoop_ends uninitialized inside few
  · exact (btreeIterNext_leaves inside).ends
  · exact (ibtreeIterNext_leaves inside).ends
  · exact (rebalances _ enough).1 none
  · exact (rebalances _ enough).2 none
  · intro uninitialized insertAt
    apply Ends.bind nodercAcquire_ends
    intro holdingOne
    apply Ends.bind nodercAcquire_ends
    intro holdingTwo
    exact ibtaInsertAtLoop_ends uninitialized inside enough
  · intro key data
    exact btreeInsert_ends key data

/-! ## A page that is its own child -/

def cyclicDisk : Disk := diskOfNodes 216 [(false, 1, [])]

/-- The descent runs into the end of the stack, and the loops end. -/
theorem cyclic_page_loops_stop :
    (cursorTraverseTo ⟨1, .table, 1⟩ (cursorCreate ⟨1, .table, 1⟩) 5
      cyclicDisk).1 = .error (.err .errCursorDepthExceeded) ∧
    Settled (btreeIterNext ⟨1, .table, 1⟩ (cursorCreate ⟨1, .table, 1⟩)
      cyclicDisk).1 ∧
    Settled (btaRebalance ⟨1, .table, 1⟩ (cursorCreate ⟨1, .table, 1⟩)
      cyclicDisk).1 := by
  have stops := loops_stop ⟨1, .table, 1⟩
    (by decide : (cursorCreate ⟨1, .table, 1⟩).depth ≤ maxBreadcrumbs)
  exact ⟨by decide +kernel, stops.2.2.2.2.1 cyclicDisk,
    stops.2.2.2.2.2.2.1 cyclicDisk⟩

end BtreeDb
