import BtreeDb.Tree.Ends

/-!
# Loops over the crumbs

Every turn of a loop of the cursor functions pushes a crumb on a stack of eight,
or takes at least one off.  So each loop ends within nine turns, whatever the
pages hold.
-/

namespace BtreeDb

open BtM

/-! ## Going down -/

section Down

variable {tree : BTree}

/-- `cursor_traverse_to_ex`: every turn loads one page and pushes one crumb.  It
ends if the search of a node does. -/
theorem cursorTraverseLoop_settled {searchKeys : BTreeNode → BtM (Bool × Nat)}
    {disk : Disk} (reads : ∀ node, (searchKeys node disk).2 = disk)
    (searches : ∀ node, Settled (searchKeys node disk).1) :
    ∀ {loads : Nat} {cursor : Cursor} {found : Bool},
      cursor.depth ≤ maxBreadcrumbs → maxBreadcrumbs < cursor.depth + loads →
        Settled (cursorTraverseLoop tree searchKeys loads cursor found
          disk).1 := by
  intro loads
  induction loads with
  | zero =>
      intro cursor found inside enough
      omega
  | succ loads inductionHypothesis =>
      intro cursor found inside enough
      apply Ends.bind_at (nodercReinitRead_ends _ disk)
      intro node loaded loadedEq
      have same := nodercReinitRead_disk cursor.currentPageId disk
      rw [loadedEq] at same
      obtain rfl : loaded = disk := same
      apply Ends.bind_at (searches node)
      intro searched read searchedEq
      have same := reads node
      rw [searchedEq] at same
      obtain rfl : read = loaded := same
      apply Ends.bind_at (Ends.ofExcept (cursorPush_settled _) read)
      intro later last pushedEq
      obtain ⟨pushed, rfl⟩ := BtM.ofExcept_eq_ok pushedEq
      obtain ⟨more, within⟩ := cursorPush_depth pushed inside
      have more : later.depth = cursor.depth + 1 := more
      split
      · apply Ends.bind_at (Ends.ofExcept (readCellPage_settled tree node _) _)
        intro page after pageEq
        obtain ⟨_, rfl⟩ := BtM.ofExcept_eq_ok pageEq
        refine inductionHypothesis within ?_
        change maxBreadcrumbs < later.depth + loads
        omega
      · exact settled_ok _

theorem cursorTraverseLoop_depth {searchKeys : BTreeNode → BtM (Bool × Nat)} :
    ∀ {loads : Nat} {cursor later : Cursor} {found hit : Bool}
      {disk after : Disk}, cursor.depth ≤ maxBreadcrumbs →
      cursorTraverseLoop tree searchKeys loads cursor found disk =
        (.ok (hit, later), after) → later.depth ≤ maxBreadcrumbs := by
  intro loads
  induction loads with
  | zero =>
      intro cursor later found hit disk after inside traversed
      cases traversed
  | succ loads inductionHypothesis =>
      intro cursor later found hit disk after inside traversed
      obtain ⟨node, _, _, traversed⟩ := BtM.bind_eq_ok traversed
      obtain ⟨searched, _, _, traversed⟩ := BtM.bind_eq_ok traversed
      obtain ⟨below, _, pushedEq, traversed⟩ := BtM.bind_eq_ok traversed
      obtain ⟨pushed, _⟩ := BtM.ofExcept_eq_ok pushedEq
      obtain ⟨_, within⟩ := cursorPush_depth pushed inside
      split at traversed
      · obtain ⟨page, _, _, traversed⟩ := BtM.bind_eq_ok traversed
        exact @inductionHypothesis { below with currentPageId := page } _ _ _ _
          _ within traversed
      · cases traversed
        exact within

/-- `cursor_traverse_by_mover`: every turn loads one page, and every turn but
the last pushes one crumb. -/
theorem traverseByMoverLoop_leaves {move : BTreeNode → Cursor → Cursor}
    (moves : ∀ node cursor, (move node cursor).depth = cursor.depth) :
    ∀ {turns : Nat} {cursor : Cursor}, cursor.depth ≤ maxBreadcrumbs →
      maxBreadcrumbs < cursor.depth + turns →
        Leaves (traverseByMoverLoop tree move turns) cursor
          (AtMost maxBreadcrumbs) := by
  intro turns
  induction turns with
  | zero =>
      intro cursor inside enough
      omega
  | succ turns inductionHypothesis =>
      intro cursor inside enough
      apply Leaves.bind peek_leaves
      · rintro code later rfl
        exact inside
      · rintro crumb later rfl
        apply Leaves.bind_lift (nodercReinitRead_ends _)
        · intro code
          exact inside
        · intro node
          have same := moves node later
          apply Leaves.bind_getCursor
          apply Leaves.bind_setCursor
          split
          · apply Leaves.pure
            change (move node later).depth ≤ maxBreadcrumbs
            omega
          · apply Leaves.bind_lift
              (Ends.ofExcept (readCellPage_settled tree node _))
            · intro code
              change (move node later).depth ≤ maxBreadcrumbs
              omega
            · intro page
              apply Leaves.bind_setCursor
              refine Leaves.bind (push_leaves ?_) ?_ ?_
              · change (move node later).depth ≤ maxBreadcrumbs
                omega
              · rintro code last rfl
                change (move node later).depth ≤ maxBreadcrumbs
                omega
              · rintro value last ⟨more, within⟩
                have more : last.depth = (move node later).depth + 1 := more
                exact inductionHypothesis within (by omega)

theorem cursorTraverseSmallest_leaves {cursor : Cursor}
    (inside : cursor.depth ≤ maxBreadcrumbs) :
    Leaves (cursorTraverseSmallest tree) cursor (AtMost maxBreadcrumbs) := by
  have enough : maxBreadcrumbs < cursor.depth + (maxBreadcrumbs + 1) := by
    omega
  exact @traverseByMoverLoop_leaves tree moveToBegin (fun _ _ => rfl) _ _ inside
    enough

theorem cursorTraverseLargest_leaves {cursor : Cursor}
    (inside : cursor.depth ≤ maxBreadcrumbs) :
    Leaves (cursorTraverseLargest tree) cursor (AtMost maxBreadcrumbs) := by
  have enough : maxBreadcrumbs < cursor.depth + (maxBreadcrumbs + 1) := by
    omega
  exact @traverseByMoverLoop_leaves tree moveToEnd (fun _ _ => rfl) _ _ inside
    enough

end Down

/-! ## Iterating -/

section Iterating

variable {tree : BTree}

/-- Fewer crumbs after a loop that has popped some. -/
def Fewer {α : Type} (cursor : Cursor) : Except BTreeE α → Cursor → Prop
  | .ok _, later => later.depth < cursor.depth
  | .error _, later => later.depth ≤ cursor.depth

/-- The inner loop of the iterators: every turn pops a crumb. -/
theorem popWhile_leaves (goesOn : Cursor → Bool) :
    ∀ {turns : Nat} {cursor : Cursor}, cursor.depth < turns →
      Leaves (popWhile goesOn turns) cursor (Fewer cursor) := by
  intro turns
  induction turns with
  | zero =>
      intro cursor enough
      omega
  | succ turns inductionHypothesis =>
      intro cursor enough
      apply Leaves.bind pop_leaves
      · rintro code later rfl
        exact Nat.le_refl _
      · intro crumb later lower
        have lower : later.depth + 1 = cursor.depth := lower
        apply Leaves.bind_getCursor
        split
        · apply Leaves.weaken (inductionHypothesis (by omega))
          intro result last fewer
          cases result with
          | ok _ =>
              have fewer : last.depth < later.depth := fewer
              change last.depth < cursor.depth
              omega
          | error code =>
              have fewer : last.depth ≤ later.depth := fewer
              change last.depth ≤ cursor.depth
              omega
        · apply Leaves.pure
          change later.depth < cursor.depth
          omega

theorem moveRight_leaves (node : BTreeNode) {cursor : Cursor} {bound : Nat}
    (within : cursor.depth ≤ bound) (inside : bound ≤ maxBreadcrumbs) :
    Leaves (moveRight node) cursor (AtMost bound) := by
  apply bind_pop within
  intro crumb later room
  apply Leaves.bind (Leaves.attempt (pushCrumb_atMost _ room inside))
  · rintro code last ⟨inner, same, _⟩
    cases same
  · rintro value last ⟨_, _, pushed⟩
    split
    · exact Leaves.pure pushed
    · exact Leaves.fail pushed

theorem intoChild_leaves (node : BTreeNode) {cursor : Cursor}
    (inside : cursor.depth ≤ maxBreadcrumbs) :
    Leaves (intoChild tree node) cursor (AtMost maxBreadcrumbs) := by
  unfold intoChild
  split
  · exact Leaves.pure inside
  · apply Leaves.bind_getCursor
    apply Leaves.bind_lift (Ends.ofExcept (readCellPage_settled tree node _))
    · intro code
      exact inside
    · intro page
      apply Leaves.bind_setCursor
      refine Leaves.bind (push_leaves ?_) ?_ ?_
      · exact inside
      · rintro code later rfl
        exact inside
      · rintro value later ⟨_, within⟩
        exact cursorTraverseSmallest_leaves within

theorem orIterDone_leaves {call : CursorM Unit} {cursor : Cursor} {bound : Nat}
    (leaves : Leaves call cursor (AtMost bound)) :
    Leaves (orIterDone call) cursor (AtMost bound) := by
  apply Leaves.bind (Leaves.attempt leaves)
  · rintro code later ⟨inner, same, _⟩
    cases same
  · rintro result later ⟨_, _, within⟩
    apply Leaves.bind_getCursor
    split
    · exact Leaves.fail within
    · exact Leaves.ofResult within

/-- The assertions at the start of an iterator. -/
theorem bind_assertOnKey {next : Unit → CursorM Unit} {cursor : Cursor}
    {bound : Nat} (within : cursor.depth ≤ bound)
    (rest : Leaves (next ()) cursor (AtMost bound)) :
    Leaves (assertOnKey >>= next) cursor (AtMost bound) := by
  have asserted : Leaves assertOnKey cursor
      (fun _ later => later = cursor) := by
    apply Leaves.bind_getCursor
    apply Leaves.bind_lift (Ends.assert _)
    · intro code
      rfl
    · intro value
      exact Leaves.lift (Ends.assert _)
  apply Leaves.bind asserted
  · rintro code later rfl
    exact within
  · rintro value later rfl
    exact rest

/-- The outer loop of `btree_iter_next`: every turn pops a crumb. -/
theorem btreeIterLoop_leaves : ∀ {turns : Nat} {cursor : Cursor},
    cursor.depth ≤ maxBreadcrumbs → cursor.depth < turns →
      Leaves (btreeIterLoop tree turns) cursor (AtMost maxBreadcrumbs) := by
  intro turns
  induction turns with
  | zero =>
      intro cursor inside enough
      omega
  | succ turns inductionHypothesis =>
      intro cursor inside enough
      apply Leaves.bind_getCursor
      apply Leaves.bind_lift (nodercReinitRead_ends _)
      · intro code
        exact inside
      · intro node
        apply Leaves.bind
          (Leaves.attempt (moveRight_leaves node (Nat.le_refl _) inside))
        · rintro code later ⟨inner, same, _⟩
          cases same
        · rintro moved later ⟨_, _, within⟩
          have within : later.depth ≤ cursor.depth := within
          cases moved with
          | ok _ => exact intoChild_leaves node (by omega)
          | error code =>
              apply Leaves.bind (popWhile_leaves atRightChildOfPage
                (show later.depth < maxBreadcrumbs + 1 by omega))
              · intro code last fewer
                have fewer : last.depth ≤ later.depth := fewer
                change last.depth ≤ maxBreadcrumbs
                omega
              · intro value last fewer
                have fewer : last.depth < later.depth := fewer
                apply Leaves.bind_getCursor
                split
                · exact inductionHypothesis (by omega) (by omega)
                · apply Leaves.pure
                  change last.depth ≤ maxBreadcrumbs
                  omega

theorem btreeIterNext_leaves {cursor : Cursor}
    (inside : cursor.depth ≤ maxBreadcrumbs) :
    Leaves (btreeIterNext tree) cursor (AtMost maxBreadcrumbs) := by
  apply bind_assertOnKey inside
  apply orIterDone_leaves
  exact btreeIterLoop_leaves inside (by omega)

theorem ibtreeIterNext_leaves {cursor : Cursor}
    (inside : cursor.depth ≤ maxBreadcrumbs) :
    Leaves (ibtreeIterNext tree) cursor (AtMost maxBreadcrumbs) := by
  apply bind_assertOnKey inside
  apply orIterDone_leaves
  apply Leaves.bind_getCursor
  apply Leaves.bind_lift (nodercReinitRead_ends _)
  · intro code
    exact inside
  · intro node
    apply Leaves.bind
      (Leaves.attempt (moveRight_leaves node inside (Nat.le_refl _)))
    · rintro code later ⟨inner, same, _⟩
      cases same
    · rintro moved later ⟨_, _, within⟩
      cases moved with
      | ok _ => exact intoChild_leaves node within
      | error code =>
          have within : later.depth ≤ maxBreadcrumbs := within
          apply Leaves.weaken (popWhile_leaves atRightChild (by omega))
          intro result last fewer
          change last.depth ≤ maxBreadcrumbs
          cases result with
          | ok _ =>
              have fewer : last.depth < later.depth := fewer
              omega
          | error code =>
              have fewer : last.depth ≤ later.depth := fewer
              omega

end Iterating

/-! ## Rebalancing -/

def RebalanceMode.isRotation : RebalanceMode → Bool
  | .rotateRight | .rotateLeft => true
  | .mergeRight | .mergeLeft => false

/-- The `switch` of the rebalance functions. -/
def rebalanceAs (rotate merge : RebalanceMode → CursorM Unit) :
    Option RebalanceMode → CursorM Unit
  | some mode => if mode.isRotation then rotate mode else merge mode
  | none => CursorM.fail .errUnk

/-- The loop of `bta_rebalance` and `ibta_rebalance`.  A choice that fails
leaves the mode of the turn before. -/
def rebalanceLoop (tree : BTree) (rotate merge : RebalanceMode → CursorM Unit)
    (rebalanceRoot : BtM Unit) :
    Nat → Option RebalanceMode → CursorM Unit
  | 0, _ => fun _ => BtM.stop .diverges
  | fuel + 1, mode => do
      let (decided, chosen) ← btaDecideRebalanceMode tree
      let mode := chosen.orElse fun _ => mode
      if decided = .error .errCursorNoParent then
        CursorM.lift rebalanceRoot
      else
        let result ← CursorM.attempt (rebalanceAs rotate merge mode)
        if result = .error .errParentDeficient then
          match ← CursorM.attempt pop with
          | .ok _ =>
              rebalanceLoop tree rotate merge rebalanceRoot fuel mode
          | .error _ => CursorM.ofResult result
        else
          CursorM.ofResult result

section Rebalancing

variable {tree : BTree} {rotate merge : RebalanceMode → CursorM Unit}
variable {rebalanceRoot : BtM Unit}

/-- A call that ends with no more crumbs than there were. -/
def NoDeeper (call : CursorM Unit) : Prop :=
  ∀ {cursor : Cursor} {bound : Nat}, cursor.depth ≤ bound →
    bound ≤ maxBreadcrumbs → Leaves call cursor (AtMost bound)

/-- The loop ends within as many turns as there are crumbs, and one more: a
turn that goes on pops a crumb, and neither the choice nor what follows it
leaves more crumbs. -/
theorem rebalanceLoop_leaves (rotates : ∀ mode, NoDeeper (rotate mode))
    (merges : ∀ mode, NoDeeper (merge mode)) (roots : Ends rebalanceRoot) :
    ∀ {turns : Nat} {mode : Option RebalanceMode} {cursor : Cursor}
      {bound : Nat}, cursor.depth ≤ bound → bound ≤ maxBreadcrumbs →
      bound < turns →
        Leaves (rebalanceLoop tree rotate merge rebalanceRoot turns mode)
          cursor (AtMost bound) := by
  intro turns
  induction turns with
  | zero =>
      intro mode cursor bound within inside enough
      omega
  | succ turns inductionHypothesis =>
      intro mode cursor bound within inside enough
      apply Leaves.bind (btaDecideRebalanceMode_atMost within inside)
      · intro code later decided
        exact decided
      · rintro ⟨decided, chosen⟩ later chose
        have chose : later.depth ≤ bound := chose
        simp only
        split
        · apply Leaves.weaken (Leaves.lift roots)
          rintro result last rfl
          exact chose
        · have step : Leaves (rebalanceAs rotate merge
              (chosen.orElse fun _ => mode)) later (AtMost bound) := by
            cases chosen.orElse fun _ => mode with
            | none => exact Leaves.fail chose
            | some mode =>
                change Leaves (if mode.isRotation = true then rotate mode
                  else merge mode) later (AtMost bound)
                split
                · exact rotates mode chose inside
                · exact merges mode chose inside
          apply Leaves.bind (Leaves.attempt step)
          · rintro code last ⟨inner, same, _⟩
            cases same
          · rintro result last ⟨_, _, moved⟩
            have moved : last.depth ≤ bound := moved
            split
            · apply Leaves.bind (Leaves.attempt pop_leaves)
              · rintro code top ⟨inner, same, _⟩
                cases same
              · rintro popped top ⟨inner, same, outcome⟩
                cases same
                cases popped with
                | ok crumb =>
                    have lower : top.depth + 1 = last.depth := outcome
                    apply Leaves.weaken
                      (@inductionHypothesis _ top (bound - 1) (by omega)
                        (by omega) (by omega))
                    intro ended after atMost
                    have atMost : after.depth ≤ bound - 1 := atMost
                    change after.depth ≤ bound
                    omega
                | error code =>
                    have same : top = last := outcome
                    apply Leaves.ofResult
                    rw [same]
                    exact moved
            · exact Leaves.ofResult moved

end Rebalancing

end BtreeDb
