import BtreeDb.Tree.Walk

/-!
# From leaf to leaf

In a table tree `btree_iter_next` goes through the keys of a leaf and then to
the next leaf, whether that one has a key or not.  The crumbs determine the
leaves still to come (`leavesBehind`).
-/

namespace BtreeDb

/-! ## The leaves of a tree -/

/-- The leaves below a page, from the left to the right. -/
def leavesBelow (tree : BTree) (disk : Disk) : Nat → Nat → List Nat
  | 0, page => [page]
  | height + 1, page =>
      (List.range' 0 (keysOn disk page + 1)).flatMap fun index =>
        leavesBelow tree disk height (childPage tree disk page index)

/-- The leaves below the children of a page from an index on. -/
def leavesFrom (tree : BTree) (disk : Disk) : Nat → Nat → Nat → List Nat
  | 0, _, _ => []
  | height + 1, page, index =>
      (List.range' index (keysOn disk page + 1 - index)).flatMap fun child =>
        leavesBelow tree disk height (childPage tree disk page child)

/-- The leaves behind the children that the crumbs of inner nodes, the first of
them at the given height, stand on. -/
def leavesBehind (tree : BTree) (disk : Disk) :
    Nat → List CursorBreadcrumb → List Nat
  | _, [] => []
  | height, crumb :: rest =>
      leavesFrom tree disk height crumb.pageId (crumb.keyIndex.index + 1) ++
        leavesBehind tree disk (height + 1) rest

/-- A crumb stands on a key, on the first slot, or on the right child. -/
def OnSlot (disk : Disk) (crumb : CursorBreadcrumb) : Prop :=
  (crumb.keyIndex.mode = .limIndex ∧
    (crumb.keyIndex.index < keysOn disk crumb.pageId ∨
      crumb.keyIndex.index = 0)) ∨
  OnRightChild disk crumb

/-- The crumbs from a height on up to the root at height `top`. -/
inductive LeafStack (tree : BTree) (disk : Disk) (top : Nat) :
    Nat → List CursorBreadcrumb → Prop
  | empty : LeafStack tree disk top (top + 1) []
  | crumb {height : Nat} {crumb : CursorBreadcrumb}
      {rest : List CursorBreadcrumb}
      (shape : WellShaped tree disk height crumb.pageId)
      (place : OnSlot disk crumb)
      (above : LeafStack tree disk top (height + 1) rest) :
      LeafStack tree disk top height (crumb :: rest)

/-- The crumb of a leaf that is entered. -/
def entered (page : Nat) : CursorBreadcrumb := ⟨⟨.limIndex, 0⟩, page⟩

section Stacks

variable {tree : BTree} {disk : Disk} {top height page index : Nat}
variable {crumb : CursorBreadcrumb} {rest : List CursorBreadcrumb}

theorem leavesBelow_succ :
    leavesBelow tree disk (height + 1) page =
      leavesFrom tree disk (height + 1) page 0 := rfl

/-- The leaves of one child and of those behind it. -/
theorem leavesFrom_step (bound : index ≤ keysOn disk page) :
    leavesFrom tree disk (height + 1) page index =
      leavesBelow tree disk height (childPage tree disk page index) ++
        leavesFrom tree disk (height + 1) page (index + 1) := by
  have count : keysOn disk page + 1 - index =
      (keysOn disk page + 1 - (index + 1)) + 1 := by omega
  rw [leavesFrom, leavesFrom, count, List.range'_succ, List.flatMap_cons]

theorem leavesFrom_end (bound : keysOn disk page < index) :
    leavesFrom tree disk height page index = [] := by
  cases height with
  | zero => rfl
  | succ height =>
      have none : keysOn disk page + 1 - index = 0 := by omega
      rw [leavesFrom, none]
      rfl

theorem onSlot_first (page : Nat) : OnSlot disk ⟨⟨.limIndex, 0⟩, page⟩ :=
  Or.inl ⟨rfl, Or.inr rfl⟩

theorem LeafStack.length (stack : LeafStack tree disk top height rest) :
    rest.length + height = top + 1 := by
  induction stack with
  | empty => simp
  | crumb shape place above inductionHypothesis =>
      rw [List.length_cons]
      omega

theorem LeafStack.pages (stack : LeafStack tree disk top height rest) :
    ∀ crumb ∈ rest, crumb.pageId ≠ 0 := by
  induction stack with
  | empty =>
      intro crumb member
      cases member
  | crumb shape place above inductionHypothesis =>
      intro crumb member
      rcases List.mem_cons.mp member with rfl | deeper
      · exact shape.onDisk.1
      · exact inductionHypothesis crumb deeper

theorem LeafStack.above
    (stack : LeafStack tree disk top height (crumb :: rest)) :
    LeafStack tree disk top (height + 1) rest := by
  cases stack with
  | crumb shape place above => exact above

theorem LeafStack.shape
    (stack : LeafStack tree disk top height (crumb :: rest)) :
    WellShaped tree disk height crumb.pageId := by
  cases stack with
  | crumb shape place above => exact shape

theorem LeafStack.few
    (stack : LeafStack tree disk top height (crumb :: rest))
    (room : top + 1 ≤ maxBreadcrumbs) : rest.length < maxBreadcrumbs := by
  have deep := stack.length
  rw [List.length_cons] at deep
  omega

/-- Behind right children there is nothing. -/
theorem LeafStack.dropRight (stack : LeafStack tree disk top height rest) :
    ∃ higher, LeafStack tree disk top higher
        (rest.dropWhile fun below => below.keyIndex.mode == .rightChild) ∧
      leavesBehind tree disk height rest =
        leavesBehind tree disk higher
          (rest.dropWhile fun below => below.keyIndex.mode == .rightChild) ∧
      height ≤ higher ∧
      ∀ crumb ∈ (rest.dropWhile fun below =>
        below.keyIndex.mode == .rightChild).head?,
          crumb.keyIndex.mode = .limIndex := by
  induction stack with
  | empty => exact ⟨_, .empty, rfl, Nat.le_refl _, by simp⟩
  | @crumb height crumb rest shape place above inductionHypothesis =>
      rw [List.dropWhile_cons]
      rcases place with ⟨atIndex, inside⟩ | ⟨atRight, atEnd⟩
      · have stays : (crumb.keyIndex.mode == .rightChild) = false := by
          rw [atIndex]
          rfl
        simp only [stays, Bool.false_eq_true, if_false]
        refine ⟨height, .crumb shape (Or.inl ⟨atIndex, inside⟩) above, rfl,
          Nat.le_refl _, ?_⟩
        intro crumb isHead
        rw [← Option.some.inj isHead]
        exact atIndex
      · obtain ⟨higher, lower, same, order, head⟩ := inductionHypothesis
        have goes : (crumb.keyIndex.mode == .rightChild) = true := by
          rw [atRight]
          rfl
        have nothing : leavesFrom tree disk height crumb.pageId
            (crumb.keyIndex.index + 1) = [] := leavesFrom_end (by omega)
        simp only [goes, if_true]
        refine ⟨higher, lower, ?_, by omega, head⟩
        rw [leavesBehind, nothing, List.nil_append, same]

/-- Going down to the first leaf of a subtree. -/
theorem cursorTraverseSmallest_leaf :
    ∀ {height page fuel : Nat} {rest : List CursorBreadcrumb} {cursor : Cursor},
      WellShaped tree disk height page →
      LeafStack tree disk top (height + 1) rest → top + 1 ≤ maxBreadcrumbs →
      cursor.breadcrumbs = entered page :: rest → height < fuel →
      ∃ leaf above,
        traverseByMoverLoop tree moveToBegin fuel cursor disk =
          (.ok (.ok (), cursorAt (entered leaf :: above)), disk) ∧
        LeafStack tree disk top 0 (entered leaf :: above) ∧
        leaf :: leavesBehind tree disk 1 above =
          leavesBelow tree disk height page ++
            leavesBehind tree disk (height + 1) rest := by
  intro height
  induction height with
  | zero =>
      intro page fuel rest cursor shape stack room crumbs enough
      obtain ⟨turns, rfl⟩ := Nat.exists_eq_succ_of_ne_zero
        (Nat.pos_iff_ne_zero.mp enough)
      have loadedPage : (loadedNode disk page).pageNumber = page := by
        unfold loadedNode
        split <;> rfl
      refine ⟨page, rest, ?_, .crumb shape (onSlot_first page) stack, rfl⟩
      rw [traverseByMoverLoop, CursorM.bind_ok (peek_apply crumbs)]
      have standsAt : (entered page).pageId = page := rfl
      rw [standsAt, CursorM.bind_ok (CursorM.lift_ok
          (nodercReinitRead_onDisk shape.onDisk)),
        CursorM.bind_ok CursorM.getCursor_apply,
        CursorM.bind_ok (CursorM.setCursor_apply _), if_pos shape.2]
      unfold moveToBegin
      rw [crumbs, loadedPage]
      rfl
  | succ height inductionHypothesis =>
      intro page fuel rest cursor shape stack room crumbs enough
      obtain ⟨turns, rfl⟩ := Nat.exists_eq_succ_of_ne_zero
        (Nat.pos_iff_ne_zero.mp (Nat.zero_lt_of_lt enough))
      obtain ⟨readEq, _, child⟩ := shape.child 0
      have own : LeafStack tree disk top (height + 1) (entered page :: rest) :=
        .crumb shape (onSlot_first page) stack
      have deep := own.length
      rw [List.length_cons] at deep
      obtain ⟨leaf, above, runEq, leafStack, listEq⟩ :=
        @inductionHypothesis _ _ _ (cursorAt
          (entered (childPage tree disk page 0) :: entered page :: rest)) child
          own room (cursorAt_breadcrumbs _) (Nat.lt_of_succ_lt_succ enough)
      refine ⟨leaf, above, ?_, leafStack, ?_⟩
      · have isInner : ¬ (loadedNode disk page).isLeaf = true := by
          rw [shape.2.1]
          exact Bool.false_ne_true
        have standsAt : (entered page).pageId = page := rfl
        rw [traverseByMoverLoop, CursorM.bind_ok (peek_apply crumbs), standsAt,
          CursorM.bind_ok (CursorM.lift_ok
            (nodercReinitRead_onDisk shape.onDisk)),
          CursorM.bind_ok CursorM.getCursor_apply,
          CursorM.bind_ok (CursorM.setCursor_apply _), if_neg isInner]
        unfold moveToBegin
        simp only
        rw [readEq, CursorM.bind_ok (CursorM.lift_ok (BtM.ofExcept_ok _ disk)),
          CursorM.bind_ok (CursorM.setCursor_apply _), crumbs,
          CursorM.bind_ok (push_apply (by
            simp only [List.length_cons]
            omega))]
        exact runEq
      · rw [listEq, leavesBehind, leavesBelow_succ,
          leavesFrom_step (Nat.zero_le _), List.append_assoc]
        rfl

/-! ## One step -/

/-- A call goes to the next leaf, or leaves no crumb where there is none. -/
def ReachesLeaf (tree : BTree) (disk : Disk) (top : Nat)
    (outcome : Except Stop (Except BTreeE Unit × Cursor) × Disk) :
    List Nat → Prop
  | [] => ∃ result, outcome = (.ok (result, cursorAt []), disk)
  | leaf :: later => ∃ above,
      outcome = (.ok (.ok (), cursorAt (entered leaf :: above)), disk) ∧
        LeafStack tree disk top 0 (entered leaf :: above) ∧
        leavesBehind tree disk 1 above = later

/-- From a keyed slot of an inner node to the first leaf behind it. -/
theorem intoChild_leaf (room : top + 1 ≤ maxBreadcrumbs)
    (stack : LeafStack tree disk top (height + 1) (crumb :: rest))
    (onKey : OnKey disk crumb) :
    ReachesLeaf tree disk top
      (intoChild tree (loadedNode disk crumb.pageId)
        (cursorAt (movedRight (loadedNode disk crumb.pageId) crumb :: rest))
        disk)
      (leavesBehind tree disk (height + 1) (crumb :: rest)) := by
  have shape := stack.shape
  have isInner := shape.2.1
  obtain ⟨_, indexEq, nextPlace⟩ := movedRight_inner onKey isInner
  generalize nextEq : movedRight (loadedNode disk crumb.pageId) crumb =
    next at *
  have samePage : next.pageId = crumb.pageId := by
    rw [← nextEq, movedRight_pageId]
  have bound : next.keyIndex.index ≤ keysOn disk crumb.pageId := by
    have inside := onKey.2
    omega
  obtain ⟨readEq, _, child⟩ := shape.2.2 _ bound
  have nextSlot : OnSlot disk next := by
    rcases nextPlace with onNext | atRight
    · exact Or.inl ⟨onNext.1, Or.inl onNext.2⟩
    · exact Or.inr atRight
  have nextStack : LeafStack tree disk top (height + 1) (next :: rest) :=
    .crumb (samePage ▸ shape) nextSlot stack.above
  have deep := nextStack.length
  rw [List.length_cons] at deep
  obtain ⟨leaf, leafAbove, runEq, leafStack, listEq⟩ :=
    @cursorTraverseSmallest_leaf tree disk top height
      (childPage tree disk crumb.pageId next.keyIndex.index)
      (maxBreadcrumbs + 1) _
      (cursorAt (entered
        (childPage tree disk crumb.pageId next.keyIndex.index) ::
          next :: rest))
      child nextStack room (cursorAt_breadcrumbs _) (by omega)
  have pending : leavesBehind tree disk (height + 1) (crumb :: rest) =
      leaf :: leavesBehind tree disk 1 leafAbove := by
    rw [listEq, leavesBehind, leavesBehind, samePage, ← indexEq,
      leavesFrom_step bound, List.append_assoc]
  rw [pending]
  refine ⟨leafAbove, ?_, leafStack, rfl⟩
  have standsAt : (cursorAt (next :: rest)).currentKeyIndex =
      next.keyIndex := rfl
  unfold intoChild
  rw [if_neg (by rw [isInner]; exact Bool.false_ne_true),
    CursorM.bind_ok CursorM.getCursor_apply, standsAt, readEq,
    CursorM.bind_ok (CursorM.lift_ok (BtM.ofExcept_ok _ disk)),
    CursorM.bind_ok (CursorM.setCursor_apply _),
    CursorM.bind_ok (push_apply (by
      simp only [cursorAt_breadcrumbs, List.length_cons]
      omega))]
  exact runEq

/-- A crumb from which there is no way to the right has no leaf behind it. -/
theorem hasRight_false_iff
    (isInner : (loadedNode disk crumb.pageId).isLeaf = false) :
    hasRight (loadedNode disk crumb.pageId) crumb = false ↔
      keysOn disk crumb.pageId ≤ crumb.keyIndex.index := by
  have keys : keysOn disk crumb.pageId =
      (loadedNode disk crumb.pageId).numKeys := rfl
  unfold hasRight
  rw [isInner, keys]
  simp

/-- The loop goes up as long as there is nothing to the right, wherever the
crumb that it starts from stands. -/
theorem btreeIterLoop_leaf (room : top + 1 ≤ maxBreadcrumbs) :
    ∀ {fuel height : Nat} {crumb : CursorBreadcrumb}
      {rest : List CursorBreadcrumb},
      WellShaped tree disk height crumb.pageId →
      LeafStack tree disk top (height + 1) rest → rest.length < fuel →
      crumb.keyIndex.mode = .limIndex →
      (height = 0 → hasRight (loadedNode disk crumb.pageId) crumb = false) →
      ReachesLeaf tree disk top
        (btreeIterLoop tree fuel (cursorAt (crumb :: rest)) disk)
        (leavesBehind tree disk height (crumb :: rest)) := by
  intro fuel
  induction fuel with
  | zero =>
      intro height crumb rest _ _ enough
      cases enough
  | succ fuel inductionHypothesis =>
      intro height crumb rest shape above enough atIndex ended
      have few : rest.length < maxBreadcrumbs := by
        have deep := above.length
        omega
      have standsAt : (cursorAt (crumb :: rest)).currentPageId =
          crumb.pageId := rfl
      have moved := @moveRight_apply disk (loadedNode disk crumb.pageId) crumb
        rest few
      by_cases right : hasRight (loadedNode disk crumb.pageId) crumb = true
      · obtain ⟨below, rfl⟩ : ∃ below, height = below + 1 := by
          cases height with
          | zero =>
              rw [ended rfl] at right
              cases right
          | succ below => exact ⟨below, rfl⟩
        have inside : crumb.keyIndex.index < keysOn disk crumb.pageId := by
          by_contra beyond
          rw [(hasRight_false_iff shape.2.1).mpr (by omega)] at right
          cases right
        rw [right] at moved
        have runEq : btreeIterLoop tree (fuel + 1) (cursorAt (crumb :: rest))
            disk =
            intoChild tree (loadedNode disk crumb.pageId)
              (cursorAt (movedRight (loadedNode disk crumb.pageId) crumb ::
                rest)) disk := by
          rw [btreeIterLoop, CursorM.bind_ok CursorM.getCursor_apply, standsAt,
            CursorM.bind_ok (CursorM.lift_ok
              (nodercReinitRead_onDisk shape.onDisk)),
            CursorM.bind_ok (CursorM.attempt_of moved)]
          rfl
        rw [runEq]
        exact intoChild_leaf room
          (.crumb shape (Or.inl ⟨atIndex, Or.inl inside⟩) above)
          ⟨atIndex, inside⟩
      · rw [Bool.not_eq_true] at right
        rw [right] at moved
        have nothing : leavesFrom tree disk height crumb.pageId
            (crumb.keyIndex.index + 1) = [] := by
          cases height with
          | zero => rfl
          | succ height =>
              exact leavesFrom_end (by
                have beyond := (hasRight_false_iff shape.2.1).mp right
                omega)
        obtain ⟨higher, lower, same, order, head⟩ := above.dropRight
        have goes : ∀ {crumb : CursorBreadcrumb}
            {rest : List CursorBreadcrumb}, crumb.pageId ≠ 0 →
              atRightChildOfPage (cursorAt (crumb :: rest)) =
                (crumb.keyIndex.mode == .rightChild) := by
          intro crumb rest present
          have onPage : (crumb.pageId != 0) = true := bne_iff_ne.mpr present
          change ((crumb.keyIndex.mode == .rightChild) &&
            (crumb.pageId != 0)) = _
          rw [onPage, Bool.and_true]
        have popped := @popWhile_apply disk atRightChildOfPage rfl goes
          (maxBreadcrumbs + 1)
          (movedRight (loadedNode disk crumb.pageId) crumb) rest
          (Nat.lt_succ_of_lt few) above.pages
        have called : btreeIterLoop tree (fuel + 1)
            (cursorAt (crumb :: rest)) disk =
            (do
              let cursor ← CursorM.getCursor
              if cursor.currentPageId != 0 then btreeIterLoop tree fuel
              else pure () : CursorM Unit)
              (cursorAt (rest.dropWhile fun below =>
                below.keyIndex.mode == .rightChild)) disk := by
          rw [btreeIterLoop, CursorM.bind_ok CursorM.getCursor_apply, standsAt,
            CursorM.bind_ok (CursorM.lift_ok
              (nodercReinitRead_onDisk shape.onDisk)),
            CursorM.bind_ok (CursorM.attempt_of moved)]
          simp only [Bool.false_eq_true, if_false]
          rw [CursorM.bind_ok popped]
        have shorter : (rest.dropWhile fun below =>
            below.keyIndex.mode == .rightChild).length ≤ rest.length :=
          (List.dropWhile_sublist _).length_le
        rw [leavesBehind, nothing, List.nil_append, same, called]
        generalize rest.dropWhile (fun below =>
          below.keyIndex.mode == .rightChild) = left at *
        cases left with
        | nil => exact ⟨_, rfl⟩
        | cons next deeper =>
            have present : ((cursorAt (next :: deeper)).currentPageId != 0) =
                true := bne_iff_ne.mpr lower.shape.onDisk.1
            rw [CursorM.bind_ok CursorM.getCursor_apply, if_pos present]
            rw [List.length_cons] at shorter
            exact inductionHypothesis lower.shape lower.above (by omega)
              (head next rfl) (fun impossible => by omega)

/-! ## The walk of a table tree -/

/-- A cursor on a slot of a leaf. -/
structure InLeaf (tree : BTree) (disk : Disk) (top leaf index : Nat)
    (later : List Nat) (cursor : Cursor) : Prop where
  place : ∃ above, cursor = cursorAt (⟨⟨.limIndex, index⟩, leaf⟩ :: above) ∧
    LeafStack tree disk top 0 (⟨⟨.limIndex, index⟩, leaf⟩ :: above) ∧
    leavesBehind tree disk 1 above = later

variable {leaf : Nat} {later : List Nat} {cursor : Cursor}

/-- A call goes to the first slot of the next leaf, or reports the end. -/
def EntersNext (tree : BTree) (disk : Disk) (top : Nat)
    (outcome : Except Stop (Except BTreeE Unit × Cursor) × Disk) :
    List Nat → Prop
  | [] => ∃ last, outcome = (.ok (.error .errIterDone, last), disk)
  | leaf :: later => ∃ cursor, outcome = (.ok (.ok (), cursor), disk) ∧
      InLeaf tree disk top leaf 0 later cursor

theorem InLeaf.shape (inLeaf : InLeaf tree disk top leaf index later cursor) :
    WellShaped tree disk 0 leaf := by
  obtain ⟨above, _, stack, _⟩ := inLeaf.place
  exact stack.shape

theorem InLeaf.position
    (inLeaf : InLeaf tree disk top leaf index later cursor) :
    cursor.position = (leaf, ⟨.limIndex, index⟩) := by
  obtain ⟨above, cursorEq, _, _⟩ := inLeaf.place
  rw [cursorEq]
  rfl

theorem leaf_asserted (isTable : tree.type = .table)
    {above : List CursorBreadcrumb} (present : OnDisk disk leaf) :
    cursorIterNext tree (cursorAt (⟨⟨.limIndex, index⟩, leaf⟩ :: above)) disk =
      orIterDone (btreeIterLoop tree (maxBreadcrumbs + 1))
        (cursorAt (⟨⟨.limIndex, index⟩, leaf⟩ :: above)) disk := by
  have asserted := @assertOnKey_apply disk
    (cursorAt (⟨⟨.limIndex, index⟩, leaf⟩ :: above)) present.1
    (fun same => by cases same)
  unfold cursorIterNext
  rw [isTable]
  unfold btreeIterNext
  exact CursorM.bind_ok asserted

/-- The next key of the same leaf. -/
theorem InLeaf.next (isTable : tree.type = .table)
    (room : top + 1 ≤ maxBreadcrumbs)
    (inLeaf : InLeaf tree disk top leaf index later cursor)
    (more : index + 1 < keysOn disk leaf) :
    ∃ next, cursorIterNext tree cursor disk = (.ok (.ok (), next), disk) ∧
      InLeaf tree disk top leaf (index + 1) later next := by
  obtain ⟨above, rfl, stack, behindEq⟩ := inLeaf.place
  have shape := stack.shape
  have keys : keysOn disk leaf = (loadedNode disk leaf).numKeys := rfl
  have moved := @moveRight_apply disk (loadedNode disk leaf)
    ⟨⟨.limIndex, index⟩, leaf⟩ above (stack.few room)
  have right : hasRight (loadedNode disk leaf) ⟨⟨.limIndex, index⟩, leaf⟩ =
      true := by
    unfold hasRight
    rw [keys] at more
    simp only [Bool.and_eq_true, decide_eq_true_eq, Bool.not_eq_true',
      Bool.and_eq_false_iff, beq_eq_false_iff_ne]
    exact ⟨by omega, Or.inl (by omega)⟩
  have nextEq : movedRight (loadedNode disk leaf) ⟨⟨.limIndex, index⟩, leaf⟩ =
      ⟨⟨.limIndex, index + 1⟩, leaf⟩ := by
    unfold movedRight
    rw [keys] at more
    simp only
    rw [if_pos (by omega), if_neg (by omega)]
  rw [right, nextEq] at moved
  refine ⟨cursorAt (⟨⟨.limIndex, index + 1⟩, leaf⟩ :: above), ?_,
    above, rfl, .crumb shape (Or.inl ⟨rfl, Or.inl more⟩) stack.above, behindEq⟩
  rw [leaf_asserted isTable shape.onDisk]
  refine orIterDone_of ?_
  have standsAt : (cursorAt (⟨⟨.limIndex, index⟩, leaf⟩ ::
      above)).currentPageId = leaf := rfl
  rw [btreeIterLoop, CursorM.bind_ok CursorM.getCursor_apply, standsAt,
    CursorM.bind_ok (CursorM.lift_ok
      (nodercReinitRead_onDisk shape.onDisk)),
    CursorM.bind_ok (CursorM.attempt_of moved)]
  unfold intoChild
  simp only [if_true]
  rw [if_pos shape.2]
  rfl

/-- From a crumb in a leaf with no key behind it to the next leaf. -/
theorem leaf_leave (isTable : tree.type = .table)
    (room : top + 1 ≤ maxBreadcrumbs) {above : List CursorBreadcrumb}
    (shape : WellShaped tree disk 0 leaf)
    (stack : LeafStack tree disk top 1 above)
    (last : keysOn disk leaf ≤ index + 1) :
    EntersNext tree disk top
      (cursorIterNext tree (cursorAt (⟨⟨.limIndex, index⟩, leaf⟩ :: above))
        disk) (leavesBehind tree disk 1 above) := by
  have noRight : hasRight (loadedNode disk leaf)
      ⟨⟨.limIndex, index⟩, leaf⟩ = false := by
    have keys : keysOn disk leaf = (loadedNode disk leaf).numKeys := rfl
    unfold hasRight
    rw [shape.2]
    rw [keys] at last
    simp only [Bool.and_true, Bool.and_eq_false_iff, decide_eq_false_iff_not,
      Bool.not_eq_false', beq_iff_eq]
    omega
  have deep := stack.length
  have reached := @btreeIterLoop_leaf tree disk top room (maxBreadcrumbs + 1) 0
    ⟨⟨.limIndex, index⟩, leaf⟩ above shape stack (by omega) rfl
    (fun _ => noRight)
  rw [leavesBehind] at reached
  change ReachesLeaf tree disk top _ (leavesBehind tree disk 1 above) at reached
  rw [leaf_asserted isTable shape.onDisk]
  generalize leavesBehind tree disk 1 above = pending at reached ⊢
  cases pending with
  | nil =>
      obtain ⟨result, called⟩ := reached
      exact ⟨_, orIterDone_done called⟩
  | cons next later =>
      obtain ⟨nextAbove, called, nextStack, behindEq⟩ := reached
      exact ⟨_, orIterDone_of called, nextAbove, rfl, nextStack, behindEq⟩

/-- From the last key of a leaf, or from a leaf without keys, to the next
leaf. -/
theorem InLeaf.leave (isTable : tree.type = .table)
    (room : top + 1 ≤ maxBreadcrumbs)
    (inLeaf : InLeaf tree disk top leaf index later cursor)
    (last : keysOn disk leaf ≤ index + 1) :
    EntersNext tree disk top (cursorIterNext tree cursor disk) later := by
  obtain ⟨above, rfl, stack, rfl⟩ := inLeaf.place
  exact leaf_leave isTable room stack.shape stack.above last

/-- A walk begins in the first leaf. -/
theorem cursorIterBegin_leaf
    (whole : WellShaped tree disk top tree.rootPageId)
    (room : top + 1 ≤ maxBreadcrumbs) :
    ∃ leaf later cursor,
      cursorIterBegin tree (cursorCreate tree) disk =
        (.ok (.ok (), cursor), disk) ∧
      InLeaf tree disk top leaf 0 later cursor ∧
      leaf :: later = leavesBelow tree disk top tree.rootPageId := by
  obtain ⟨leaf, above, runEq, stack, listEq⟩ :=
    @cursorTraverseSmallest_leaf tree disk top top tree.rootPageId
      (maxBreadcrumbs + 1) [] (cursorCreate tree) whole .empty room rfl
      (by omega)
  rw [leavesBehind, List.append_nil] at listEq
  exact ⟨leaf, _, _, runEq, ⟨above, rfl, stack, rfl⟩, listEq⟩

end Stacks

end BtreeDb
