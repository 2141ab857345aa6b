import BtreeDb.Tree.Placed

/-!
# Going to a sibling

`cursor_sibling` moves a cursor to the node beside its own, and
`bta_check_sibling` looks at what it moves to.  The check first takes two
crumbs off the stack, the node's own and its parent's, so the move starts from
the grandparent: what is looked at is the grandparent's sibling.
-/

namespace BtreeDb

inductive CursorSibling where
  | left
  | right
  deriving DecidableEq, Repr

/-- The place of the sibling's slot in the parent. -/
def siblingIndex (sibling : CursorSibling) (node : BTreeNode)
    (index : ChildListIndex) : Option ChildListIndex :=
  match sibling with
  | .left =>
      if index.index = 0 then none else some ⟨.limIndex, index.index - 1⟩
  | .right =>
      if index.index + 1 = node.numKeys ∧ node.rightChild = 0 ∨
          index.mode ≠ .limIndex then
        none
      else if index.index + 1 = node.numKeys then
        some ⟨.rightChild, node.numKeys⟩
      else
        some ⟨.limIndex, index.index + 1⟩

/-- `cursor_sibling`. -/
def cursorSibling (tree : BTree) (sibling : CursorSibling) : CursorM Unit := do
  if (← CursorM.getCursor).breadcrumbs.length < 2 then
    CursorM.fail .errCursorNoParent
  else
    -- pop the child
    match ← cursorPopN 2 with
    | [child, parent] =>
        let node ← CursorM.lift (nodercReinitRead parent.pageId)
        match siblingIndex sibling node parent.keyIndex with
        | none =>
            cursorRestore [child, parent]
            CursorM.fail .errCursorNoSibling
        | some slot =>
            let cursor ← CursorM.getCursor
            CursorM.setCursor { cursor with
              currentPageId := parent.pageId
              currentKeyIndex := slot }
            push
            let page ← CursorM.lift
              (BtM.ofExcept (readCellPage tree node slot.index))
            -- point to the first element of the sibling
            let cursor ← CursorM.getCursor
            CursorM.setCursor { cursor with
              currentPageId := page
              currentKeyIndex := ⟨.limIndex, 0⟩ }
            push
    | _ => CursorM.fail .errCursorNoParent

/-- `cursor_read_parent`. -/
def cursorReadParent : CursorM BTreeNode := do
  let crumb ← pop
  let cursor ← CursorM.getCursor
  let node ← CursorM.lift (nodercReinitRead cursor.currentPageId)
  pushCrumb crumb
  pure node

/-- `cursor_read_current`. -/
def cursorReadCurrent : CursorM BTreeNode := do
  let cursor ← CursorM.getCursor
  CursorM.lift (nodercReinitRead cursor.currentPageId)

/-- `cursor_parent_index`, of a cursor that has a parent. -/
def cursorParentIndex : CursorM ChildListIndex := do
  let child ← pop
  let crumb ← peek
  pushCrumb child
  pure crumb.keyIndex

/-- `bta_check_sibling`. -/
def btaCheckSibling (tree : BTree) (sibling : CursorSibling) :
    CursorM Unit := do
  let crumbs ← cursorPopN 2
  let check ← CursorM.attempt do
    cursorSibling tree sibling
    let cursor ← CursorM.getCursor
    let node ← CursorM.lift (nodercReinitRead cursor.currentPageId)
    if node.numKeys ≤ tree.underflow then
      CursorM.fail .errNodeNotEnoughSpace
    else
      pure ()
  cursorRestore crumbs
  CursorM.ofResult check

inductive RebalanceMode where
  | rotateRight
  | rotateLeft
  | mergeRight
  | mergeLeft
  deriving DecidableEq, Repr

/-- The result codes under which the search for a sibling goes on. -/
def noUsableSibling (code : BTreeE) : Bool :=
  code == .errCursorNoSibling || code == .errNodeNotEnoughSpace

/-- `bta_decide_rebalance_mode`: its result code and `out_mode`, which it does
not always set. -/
def btaDecideRebalanceMode (tree : BTree) :
    CursorM (Except BTreeE Unit × Option RebalanceMode) := do
  match ← CursorM.attempt (btaCheckSibling tree .right) with
  | .ok () => pure (.ok (), some .rotateLeft)
  | .error rightCode =>
      if !noUsableSibling rightCode then
        pure (.error rightCode, none)
      else
        match ← CursorM.attempt (btaCheckSibling tree .left) with
        | .ok () => pure (.ok (), some .rotateRight)
        | .error leftCode =>
            if !noUsableSibling leftCode then
              pure (.error leftCode, none)
            else do
              CursorM.lift (BtM.assert (leftCode != .errCursorNoSibling ||
                rightCode != .errCursorNoSibling))
              -- there is a left sibling; merge with it
              if leftCode != .errCursorNoSibling then
                pure (.error leftCode, some .mergeLeft)
              else
                pure (.error leftCode, some .mergeRight)

/-! ## Reading around a cursor -/

section Reading

variable {tree : BTree} {disk : Disk} {child parent : CursorBreadcrumb}
variable {rest : List CursorBreadcrumb}

theorem cursorReadCurrent_apply (present : OnDisk disk child.pageId) :
    cursorReadCurrent (cursorAt (child :: rest)) disk =
      (.ok (.ok (loadedNode disk child.pageId), cursorAt (child :: rest)),
        disk) := by
  have loaded := nodercReinitRead_onDisk present
  unfold cursorReadCurrent
  rw [CursorM.bind_ok CursorM.getCursor_apply]
  exact CursorM.lift_ok loaded

theorem cursorReadParent_apply (room : rest.length + 2 ≤ maxBreadcrumbs)
    (present : OnDisk disk parent.pageId) :
    cursorReadParent (cursorAt (child :: parent :: rest)) disk =
      (.ok (.ok (loadedNode disk parent.pageId),
        cursorAt (child :: parent :: rest)), disk) := by
  have loaded := nodercReinitRead_onDisk present
  have standsAt : (cursorAt (parent :: rest)).currentPageId = parent.pageId :=
    rfl
  unfold cursorReadParent
  rw [CursorM.bind_ok (pop_apply rfl),
    CursorM.bind_ok CursorM.getCursor_apply, standsAt,
    CursorM.bind_ok (CursorM.lift_ok loaded),
    CursorM.bind_ok (pushCrumb_apply (by
      rw [cursorAt_breadcrumbs, List.length_cons]
      omega))]
  rfl

theorem cursorParentIndex_apply (room : rest.length + 2 ≤ maxBreadcrumbs) :
    cursorParentIndex (cursorAt (child :: parent :: rest)) disk =
      (.ok (.ok parent.keyIndex, cursorAt (child :: parent :: rest)),
        disk) := by
  have peeked : peek (cursorAt (parent :: rest)) disk =
      (.ok (.ok parent, cursorAt (parent :: rest)), disk) :=
    CursorM.move_ok rfl
  unfold cursorParentIndex
  rw [CursorM.bind_ok (pop_apply rfl), CursorM.bind_ok peeked,
    CursorM.bind_ok (pushCrumb_apply (by
      rw [cursorAt_breadcrumbs, List.length_cons]
      omega))]
  rfl

end Reading

/-! ## The moves -/

section Moves

variable {tree : BTree} {disk : Disk} {sibling : CursorSibling}
variable {child parent : CursorBreadcrumb} {rest : List CursorBreadcrumb}

theorem siblingIndex_right {node : BTreeNode} {index : ChildListIndex}
    (atIndex : index.mode = .limIndex) (hasRight : node.rightChild ≠ 0) :
    ∃ mode, siblingIndex .right node index =
      some ⟨mode, index.index + 1⟩ := by
  unfold siblingIndex
  simp only
  rw [if_neg (by
    rintro (⟨_, noRight⟩ | notIndex)
    · exact hasRight noRight
    · exact notIndex atIndex)]
  by_cases last : index.index + 1 = node.numKeys
  · rw [if_pos last, last]
    exact ⟨_, rfl⟩
  · rw [if_neg last]
    exact ⟨_, rfl⟩

/-- The stack of a cursor that has moved beside its node. -/
def besideStack (tree : BTree) (disk : Disk) (parent : CursorBreadcrumb)
    (slot : ChildListIndex) (rest : List CursorBreadcrumb) :
    List CursorBreadcrumb :=
  ⟨⟨.limIndex, 0⟩, childPage tree disk parent.pageId slot.index⟩ ::
    ⟨slot, parent.pageId⟩ :: rest

theorem cursorPopN_two (first second : CursorBreadcrumb) :
    cursorPopN 2 (cursorAt (first :: second :: rest)) disk =
      (.ok (.ok [first, second], cursorAt rest), disk) := by
  have stack : (cursorAt (first :: second :: rest)).breadcrumbs =
      [first, second] ++ rest := rfl
  exact cursorPopN_apply stack rfl

theorem cursorSibling_none (room : rest.length + 2 ≤ maxBreadcrumbs)
    (present : OnDisk disk parent.pageId)
    (noSibling : siblingIndex sibling (loadedNode disk parent.pageId)
      parent.keyIndex = none) :
    cursorSibling tree sibling (cursorAt (child :: parent :: rest)) disk =
      (.ok (.error .errCursorNoSibling, cursorAt (child :: parent :: rest)),
        disk) := by
  unfold cursorSibling
  rw [CursorM.bind_ok CursorM.getCursor_apply, cursorAt_breadcrumbs,
    if_neg (by simp), CursorM.bind_ok (cursorPopN_two child parent)]
  simp only
  rw [CursorM.bind_ok
    (CursorM.lift_ok (nodercReinitRead_onDisk present)), noSibling]
  simp only
  rw [CursorM.bind_ok (cursorRestore_apply
    (by simp only [List.length_cons, List.length_nil]; omega))]
  rfl

theorem cursorSibling_some {slot : ChildListIndex}
    (room : rest.length + 2 ≤ maxBreadcrumbs)
    (present : OnDisk disk parent.pageId)
    (isSibling : siblingIndex sibling (loadedNode disk parent.pageId)
      parent.keyIndex = some slot)
    (readEq : readCellPage tree (loadedNode disk parent.pageId) slot.index =
      .ok (childPage tree disk parent.pageId slot.index)) :
    cursorSibling tree sibling (cursorAt (child :: parent :: rest)) disk =
      (.ok (.ok (), cursorAt (besideStack tree disk parent slot rest)),
        disk) := by
  unfold cursorSibling
  rw [CursorM.bind_ok CursorM.getCursor_apply, cursorAt_breadcrumbs,
    if_neg (by simp), CursorM.bind_ok (cursorPopN_two child parent)]
  simp only
  rw [CursorM.bind_ok
    (CursorM.lift_ok (nodercReinitRead_onDisk present)), isSibling]
  simp only
  rw [CursorM.bind_ok CursorM.getCursor_apply,
    CursorM.bind_ok (CursorM.setCursor_apply _),
    CursorM.bind_ok (push_apply (by
      simp only [cursorAt_breadcrumbs]
      omega)), readEq,
    CursorM.bind_ok (CursorM.lift_ok (BtM.ofExcept_ok _ disk)),
    CursorM.bind_ok CursorM.getCursor_apply,
    CursorM.bind_ok (CursorM.setCursor_apply _),
    push_apply (by
      simp only [cursorAt_breadcrumbs, List.length_cons]
      omega)]
  simp only [cursorAt_breadcrumbs]
  rfl

/-- To the right, as far as the slot there can be read. -/
theorem cursorSibling_right_read {index page : Nat}
    (room : rest.length + 2 ≤ maxBreadcrumbs)
    (present : OnDisk disk parent.pageId)
    (placed : parent.keyIndex = ⟨.limIndex, index⟩)
    (readEq : readCellPage tree (loadedNode disk parent.pageId) (index + 1) =
      .ok page) (numbered : page ≠ 0) :
    ∃ mode, cursorSibling tree .right (cursorAt (child :: parent :: rest)) disk =
      (.ok (.ok (), cursorAt (⟨⟨.limIndex, 0⟩, page⟩ ::
        ⟨⟨mode, index + 1⟩, parent.pageId⟩ :: rest)), disk) := by
  have pageEq : childPage tree disk parent.pageId (index + 1) = page := by
    unfold childPage
    rw [readEq]
  have isSibling : ∃ mode, siblingIndex .right (loadedNode disk parent.pageId)
      parent.keyIndex = some ⟨mode, index + 1⟩ := by
    rw [placed]
    unfold siblingIndex
    by_cases last : index + 1 = (loadedNode disk parent.pageId).numKeys
    · have rightEq : (loadedNode disk parent.pageId).rightChild = page := by
        unfold readCellPage at readEq
        rw [if_pos (Nat.le_of_eq last.symm)] at readEq
        exact Except.ok.inj readEq
      refine ⟨.rightChild, ?_⟩
      simp only [last, rightEq, numbered, and_false, ne_eq, not_true_eq_false,
        or_self, if_false, if_true]
    · refine ⟨.limIndex, ?_⟩
      simp only [last, false_and, ne_eq, not_true_eq_false, or_self, if_false]
  obtain ⟨mode, slot⟩ := isSibling
  have moved := @cursorSibling_some tree disk .right child parent rest
    ⟨mode, index + 1⟩ room present slot (by rw [pageEq]; exact readEq)
  unfold besideStack at moved
  rw [pageEq] at moved
  exact ⟨mode, moved⟩

/-- To the left, as far as the slot there can be read. -/
theorem cursorSibling_left_read {index page : Nat}
    (room : rest.length + 2 ≤ maxBreadcrumbs)
    (present : OnDisk disk parent.pageId)
    (placed : parent.keyIndex.index = index + 1)
    (readEq : readCellPage tree (loadedNode disk parent.pageId) index =
      .ok page) :
    cursorSibling tree .left (cursorAt (child :: parent :: rest)) disk =
      (.ok (.ok (), cursorAt (⟨⟨.limIndex, 0⟩, page⟩ ::
        ⟨⟨.limIndex, index⟩, parent.pageId⟩ :: rest)), disk) := by
  have pageEq : childPage tree disk parent.pageId index = page := by
    unfold childPage
    rw [readEq]
  have isSibling : siblingIndex .left (loadedNode disk parent.pageId)
      parent.keyIndex = some ⟨.limIndex, index⟩ := by
    unfold siblingIndex
    simp only [placed, Nat.succ_ne_zero, if_false, Nat.add_sub_cancel]
  have moved := @cursorSibling_some tree disk .left child parent rest
    ⟨.limIndex, index⟩ room present isSibling (by rw [pageEq]; exact readEq)
  unfold besideStack at moved
  rw [pageEq] at moved
  exact moved

/-- To the right of a child that is not the last one. -/
theorem cursorSibling_right {height index : Nat}
    (room : rest.length + 2 ≤ maxBreadcrumbs)
    (shape : WellShaped tree disk (height + 1) parent.pageId)
    (placed : parent.keyIndex = ⟨.limIndex, index⟩) :
    ∃ mode, cursorSibling tree .right (cursorAt (child :: parent :: rest)) disk =
      (.ok (.ok (), cursorAt
        (⟨⟨.limIndex, 0⟩, childPage tree disk parent.pageId (index + 1)⟩ ::
          ⟨⟨mode, index + 1⟩, parent.pageId⟩ :: rest)), disk) := by
  obtain ⟨readEq, _, below⟩ := shape.child (index + 1)
  exact cursorSibling_right_read room shape.onDisk placed readEq below.onDisk.1

/-- To the left of a child that is not the first one. -/
theorem cursorSibling_left {height index : Nat}
    (room : rest.length + 2 ≤ maxBreadcrumbs)
    (shape : WellShaped tree disk (height + 1) parent.pageId)
    (placed : parent.keyIndex.index = index + 1) :
    cursorSibling tree .left (cursorAt (child :: parent :: rest)) disk =
      (.ok (.ok (), cursorAt
        (⟨⟨.limIndex, 0⟩, childPage tree disk parent.pageId index⟩ ::
          ⟨⟨.limIndex, index⟩, parent.pageId⟩ :: rest)), disk) :=
  cursorSibling_left_read room shape.onDisk placed (shape.child index).1

theorem cursorSibling_right_none (room : rest.length + 2 ≤ maxBreadcrumbs)
    (present : OnDisk disk parent.pageId)
    (last : parent.keyIndex.mode ≠ .limIndex) :
    cursorSibling tree .right (cursorAt (child :: parent :: rest)) disk =
      (.ok (.error .errCursorNoSibling, cursorAt (child :: parent :: rest)),
        disk) :=
  cursorSibling_none room present (if_pos (Or.inr last))

theorem cursorSibling_left_none (room : rest.length + 2 ≤ maxBreadcrumbs)
    (present : OnDisk disk parent.pageId) (first : parent.keyIndex.index = 0) :
    cursorSibling tree .left (cursorAt (child :: parent :: rest)) disk =
      (.ok (.error .errCursorNoSibling, cursorAt (child :: parent :: rest)),
        disk) :=
  cursorSibling_none room present (if_pos first)

section Cases

variable {height index : Nat} (room : rest.length + 2 ≤ maxBreadcrumbs)
  (shape : WellShaped tree disk (height + 1) parent.pageId)
  (bound : index ≤ keysOn disk parent.pageId)
  (placed : parent.keyIndex =
    initKeylistindexFromIndex (loadedNode disk parent.pageId) index)

include room shape placed

/-- The cursor of a child goes to the right, or the child is the last one. -/
theorem cursorSibling_right_cases :
    cursorSibling tree .right (cursorAt (child :: parent :: rest)) disk =
        (.ok (.error .errCursorNoSibling, cursorAt (child :: parent :: rest)),
          disk) ∨
      index < keysOn disk parent.pageId ∧
        parent.keyIndex = ⟨.limIndex, index⟩ ∧
        ∃ mode,
          cursorSibling tree .right (cursorAt (child :: parent :: rest)) disk =
            (.ok (.ok (), cursorAt
              (⟨⟨.limIndex, 0⟩, childPage tree disk parent.pageId
                (index + 1)⟩ :: ⟨⟨mode, index + 1⟩, parent.pageId⟩ :: rest)),
              disk) := by
  by_cases inside : index < keysOn disk parent.pageId
  · right
    have keyIndexEq : parent.keyIndex = ⟨.limIndex, index⟩ := by
      rw [placed]
      exact if_pos inside
    exact ⟨inside, keyIndexEq, cursorSibling_right room shape keyIndexEq⟩
  · left
    apply cursorSibling_right_none room shape.onDisk
    rw [placed]
    exact fun atIndex =>
      inside (initKeylistindexFromIndex_mode_iff.mp atIndex)

include bound in
/-- The cursor of a child goes to the left, or the child is the first one. -/
theorem cursorSibling_left_cases :
    cursorSibling tree .left (cursorAt (child :: parent :: rest)) disk =
        (.ok (.error .errCursorNoSibling, cursorAt (child :: parent :: rest)),
          disk) ∨
      ∃ separator, index = separator + 1 ∧
        cursorSibling tree .left (cursorAt (child :: parent :: rest)) disk =
          (.ok (.ok (), cursorAt
            (⟨⟨.limIndex, 0⟩, childPage tree disk parent.pageId separator⟩ ::
              ⟨⟨.limIndex, separator⟩, parent.pageId⟩ :: rest)), disk) := by
  have indexEq := initKeylistindexFromIndex_index bound
  rw [← placed] at indexEq
  cases index with
  | zero => exact Or.inl (cursorSibling_left_none room shape.onDisk indexEq)
  | succ separator =>
      exact Or.inr ⟨separator, rfl, cursorSibling_left room shape indexEq⟩

end Cases

variable (own above child parent : CursorBreadcrumb)

theorem btaCheckSibling_noParent {lowest : CursorBreadcrumb} :
    btaCheckSibling tree sibling (cursorAt [own, above, lowest]) disk =
      (.ok (.error .errCursorNoParent, cursorAt [own, above, lowest]),
        disk) := by
  unfold btaCheckSibling
  have tooShort : cursorSibling tree sibling (cursorAt [lowest]) disk =
      (.ok (.error .errCursorNoParent, cursorAt [lowest]), disk) := rfl
  rw [CursorM.bind_ok (cursorPopN_two own above),
    CursorM.bind_ok (CursorM.attempt_of (CursorM.bind_error tooShort)),
    CursorM.bind_ok (cursorRestore_apply (by
      simp only [List.length_cons, List.length_nil]
      decide))]
  rfl

theorem btaCheckSibling_none (room : rest.length + 4 ≤ maxBreadcrumbs)
    (present : OnDisk disk parent.pageId)
    (noSibling : siblingIndex sibling (loadedNode disk parent.pageId)
      parent.keyIndex = none) :
    btaCheckSibling tree sibling
        (cursorAt (own :: above :: child :: parent :: rest)) disk =
      (.ok (.error .errCursorNoSibling,
        cursorAt (own :: above :: child :: parent :: rest)), disk) := by
  unfold btaCheckSibling
  rw [CursorM.bind_ok (cursorPopN_two own above),
    CursorM.bind_ok (CursorM.attempt_of (CursorM.bind_error
      (cursorSibling_none (by omega) present noSibling))),
    CursorM.bind_ok (cursorRestore_apply
      (by simp only [List.length_cons, List.length_nil]; omega))]
  rfl

/-- What the check says of a page. -/
def checkResult (tree : BTree) (disk : Disk) (page : Nat) :
    Except BTreeE Unit :=
  if keysOn disk page ≤ tree.underflow then .error .errNodeNotEnoughSpace
  else .ok ()

theorem btaCheckSibling_some {slot : ChildListIndex}
    (room : rest.length + 4 ≤ maxBreadcrumbs)
    (present : OnDisk disk parent.pageId)
    (isSibling : siblingIndex sibling (loadedNode disk parent.pageId)
      parent.keyIndex = some slot)
    (readEq : readCellPage tree (loadedNode disk parent.pageId) slot.index =
      .ok (childPage tree disk parent.pageId slot.index))
    (beside : OnDisk disk (childPage tree disk parent.pageId slot.index)) :
    btaCheckSibling tree sibling
        (cursorAt (own :: above :: child :: parent :: rest)) disk =
      (.ok (checkResult tree disk
          (childPage tree disk parent.pageId slot.index),
        cursorAt (own :: above :: besideStack tree disk parent slot rest)),
        disk) := by
  have standsAt : (cursorAt (besideStack tree disk parent slot
      rest)).currentPageId = childPage tree disk parent.pageId slot.index := rfl
  have looked : (do
      cursorSibling tree sibling
      let cursor ← CursorM.getCursor
      let node ← CursorM.lift (nodercReinitRead cursor.currentPageId)
      if node.numKeys ≤ tree.underflow then
        CursorM.fail .errNodeNotEnoughSpace
      else
        pure () : CursorM Unit) (cursorAt (child :: parent :: rest)) disk =
      (.ok (checkResult tree disk
          (childPage tree disk parent.pageId slot.index),
        cursorAt (besideStack tree disk parent slot rest)), disk) := by
    rw [CursorM.bind_ok
        (cursorSibling_some (by omega) present isSibling readEq),
      CursorM.bind_ok CursorM.getCursor_apply, standsAt,
      CursorM.bind_ok (CursorM.lift_ok (nodercReinitRead_onDisk beside))]
    unfold checkResult keysOn
    split <;> rfl
  unfold btaCheckSibling
  rw [CursorM.bind_ok (cursorPopN_two own above),
    CursorM.bind_ok (CursorM.attempt_of looked),
    CursorM.bind_ok (cursorRestore_apply (by
      simp only [besideStack, List.length_cons, List.length_nil]
      omega))]
  rfl

end Moves

end BtreeDb
