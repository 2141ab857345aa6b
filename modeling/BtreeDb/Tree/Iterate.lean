import BtreeDb.Pager.Cache
import BtreeDb.Tree.Placed

/-!
# Iterating over a tree

`cursor_iter_begin` and `cursor_iter_next`.  In a table tree only the leaves
have records, so the cursor goes on until it stands in a leaf again; in an
index tree it stops at the keys of the inner nodes too.
-/

namespace BtreeDb

/-! ## The functions of the cursor -/

/-- The crumb that `move_right` puts in place of the last one. -/
def movedRight (node : BTreeNode) (crumb : CursorBreadcrumb) :
    CursorBreadcrumb :=
  let next := crumb.keyIndex.index + 1
  if crumb.keyIndex.index < node.numKeys then
    if node.numKeys = next then
      { crumb with
        keyIndex := ⟨if node.isLeaf then .limEnd else .rightChild, next⟩ }
    else
      { crumb with keyIndex := ⟨crumb.keyIndex.mode, next⟩ }
  else crumb

/-- There is something to the right of a crumb. -/
def hasRight (node : BTreeNode) (crumb : CursorBreadcrumb) : Bool :=
  crumb.keyIndex.index < node.numKeys &&
    !(crumb.keyIndex.index + 1 == node.numKeys && node.isLeaf)

/-- `move_right`. -/
def moveRight (node : BTreeNode) : CursorM Unit := do
  let crumb ← pop
  let _ ← CursorM.attempt (pushCrumb (movedRight node crumb))
  if hasRight node crumb then pure ()
  else CursorM.fail .errCursorNoSibling

/-- `move_to_begin`. -/
def moveToBegin (node : BTreeNode) (cursor : Cursor) : Cursor :=
  { cursor with
    currentKeyIndex := ⟨.limIndex, 0⟩
    currentPageId := node.pageNumber }

/-- `move_to_end`: past the last key of an inner node, on the last key of a
leaf. -/
def moveToEnd (node : BTreeNode) (cursor : Cursor) : Cursor :=
  { cursor with
    currentKeyIndex :=
      if node.isLeaf then ⟨.limIndex, u32Pred node.numKeys⟩
      else ⟨.rightChild, node.numKeys⟩
    currentPageId := node.pageNumber }

/-- The loop of `cursor_traverse_by_mover`.  Every turn but the last pushes a
crumb, so the stack bounds the turns. -/
def traverseByMoverLoop (tree : BTree) (move : BTreeNode → Cursor → Cursor) :
    Nat → CursorM Unit
  | 0 => fun _ => BtM.stop .diverges
  | fuel + 1 => do
      let crumb ← peek
      let node ← CursorM.lift (nodercReinitRead crumb.pageId)
      let cursor ← CursorM.getCursor
      let cursor := move node cursor
      CursorM.setCursor cursor
      if node.isLeaf then
        pure ()
      else
        let page ← CursorM.lift (BtM.ofExcept
          (readCellPage tree node cursor.currentKeyIndex.index))
        CursorM.setCursor { cursor with currentPageId := page }
        push
        traverseByMoverLoop tree move fuel

/-- `cursor_traverse_smallest`. -/
def cursorTraverseSmallest (tree : BTree) : CursorM Unit :=
  traverseByMoverLoop tree moveToBegin (maxBreadcrumbs + 1)

/-- `cursor_traverse_largest`. -/
def cursorTraverseLargest (tree : BTree) : CursorM Unit :=
  traverseByMoverLoop tree moveToEnd (maxBreadcrumbs + 1)

def cursorIterBegin (tree : BTree) : CursorM Unit :=
  cursorTraverseSmallest tree

/-- Pop crumbs, at least one, while the cursor stands as `goesOn` says. -/
def popWhile (goesOn : Cursor → Bool) : Nat → CursorM Unit
  | 0 => fun _ => BtM.stop .diverges
  | fuel + 1 => do
      let _ ← pop
      let cursor ← CursorM.getCursor
      if goesOn cursor then popWhile goesOn fuel else pure ()

/-- The condition of the inner loop of `btree_iter_next`. -/
def atRightChildOfPage (cursor : Cursor) : Bool :=
  cursor.currentKeyIndex.mode == .rightChild && cursor.currentPageId != 0

/-- The condition of the loop of `ibtree_iter_next`. -/
def atRightChild (cursor : Cursor) : Bool :=
  cursor.currentKeyIndex.mode == .rightChild

/-- After a move to the right in an inner node: down to the smallest key
there. -/
def intoChild (tree : BTree) (node : BTreeNode) : CursorM Unit := do
  if node.isLeaf then
    pure ()
  else
    let cursor ← CursorM.getCursor
    let page ← CursorM.lift (BtM.ofExcept
      (readCellPage tree node cursor.currentKeyIndex.index))
    CursorM.setCursor { cursor with
      currentPageId := page
      currentKeyIndex := ⟨.limIndex, 0⟩ }
    push
    cursorTraverseSmallest tree

/-- The end of both functions: an empty stack means that the walk is over. -/
def orIterDone (call : CursorM Unit) : CursorM Unit := do
  let result ← CursorM.attempt call
  let cursor ← CursorM.getCursor
  if cursor.breadcrumbs.isEmpty then CursorM.fail .errIterDone
  else CursorM.ofResult result

/-- The assertions at the start of both functions. -/
def assertOnKey : CursorM Unit := do
  let cursor ← CursorM.getCursor
  CursorM.lift (BtM.assert (cursor.currentPageId != 0))
  CursorM.lift (BtM.assert (cursor.currentKeyIndex.mode != .rightChild))

/-- The outer loop of `btree_iter_next`; every turn pops a crumb. -/
def btreeIterLoop (tree : BTree) : Nat → CursorM Unit
  | 0 => fun _ => BtM.stop .diverges
  | fuel + 1 => do
      let cursor ← CursorM.getCursor
      let node ← CursorM.lift (nodercReinitRead cursor.currentPageId)
      match ← CursorM.attempt (moveRight node) with
      | .ok () => intoChild tree node
      | .error _ =>
          popWhile atRightChildOfPage (maxBreadcrumbs + 1)
          let cursor ← CursorM.getCursor
          if cursor.currentPageId != 0 then btreeIterLoop tree fuel
          else pure ()

/-- `btree_iter_next`. -/
def btreeIterNext (tree : BTree) : CursorM Unit := do
  assertOnKey
  orIterDone (btreeIterLoop tree (maxBreadcrumbs + 1))

/-- `ibtree_iter_next`. -/
def ibtreeIterNext (tree : BTree) : CursorM Unit := do
  assertOnKey
  orIterDone do
    let cursor ← CursorM.getCursor
    let node ← CursorM.lift (nodercReinitRead cursor.currentPageId)
    match ← CursorM.attempt (moveRight node) with
    | .ok () => intoChild tree node
    | .error _ => popWhile atRightChild (maxBreadcrumbs + 1)

def cursorIterNext (tree : BTree) : CursorM Unit :=
  match tree.type with
  | .index => ibtreeIterNext tree
  | .table => btreeIterNext tree

/-! ## A whole walk -/

abbrev Position := Nat × ChildListIndex

def Cursor.position (cursor : Cursor) : Position :=
  (cursor.currentPageId, cursor.currentKeyIndex)

/-- Call `cursor_iter_next` until it does not return `BTREE_OK`: the positions
after the calls that did, and the last result. -/
def walkOn (tree : BTree) : Nat → Cursor → BtM (List Position × BTreeE)
  | 0, _ => BtM.stop .diverges
  | fuel + 1, cursor => do
      match ← cursorIterNext tree cursor with
      | (.ok (), later) =>
          let (positions, code) ← walkOn tree fuel later
          pure (later.position :: positions, code)
      | (.error code, _) => pure ([], code)

/-- `cursor_iter_begin` on a fresh cursor and then all of the walk. -/
def cursorWalk (tree : BTree) (fuel : Nat) : BtM (List Position × BTreeE) := do
  match ← cursorIterBegin tree (cursorCreate tree) with
  | (.ok (), cursor) =>
      let (positions, code) ← walkOn tree fuel cursor
      pure (cursor.position :: positions, code)
  | (.error code, _) => pure ([], code)

/-! ## One step at a time -/

section Rules

variable {tree : BTree} {disk : Disk} {node : BTreeNode}
variable {crumb : CursorBreadcrumb} {rest : List CursorBreadcrumb}

theorem peek_apply {cursor : Cursor}
    (stack : cursor.breadcrumbs = crumb :: rest) :
    peek cursor disk = (.ok (.ok crumb, cursor), disk) := by
  refine CursorM.move_ok ?_
  unfold cursorPeek
  rw [stack]
  rfl

theorem moveRight_apply (room : rest.length < maxBreadcrumbs) :
    moveRight node (cursorAt (crumb :: rest)) disk =
      (.ok (if hasRight node crumb then .ok ()
          else .error .errCursorNoSibling,
        cursorAt (movedRight node crumb :: rest)), disk) := by
  unfold moveRight
  rw [CursorM.bind_ok (pop_apply rfl),
    CursorM.bind_ok (CursorM.attempt_of (pushCrumb_apply
      (by rw [cursorAt_breadcrumbs]; exact room))), cursorAt_breadcrumbs]
  split <;> rfl

/-- Popping goes on over the crumbs at right children. -/
theorem popWhile_apply {goesOn : Cursor → Bool}
    (stops : goesOn (cursorAt []) = false)
    (goes : ∀ {crumb rest}, crumb.pageId ≠ 0 →
      goesOn (cursorAt (crumb :: rest)) =
        (crumb.keyIndex.mode == .rightChild)) :
    ∀ {fuel : Nat} {crumb : CursorBreadcrumb} {rest : List CursorBreadcrumb},
      rest.length < fuel → (∀ below ∈ rest, below.pageId ≠ 0) →
        popWhile goesOn fuel (cursorAt (crumb :: rest)) disk =
          (.ok (.ok (), cursorAt (rest.dropWhile fun below =>
            below.keyIndex.mode == .rightChild)), disk) := by
  intro fuel
  induction fuel with
  | zero =>
      intro crumb rest enough
      cases enough
  | succ fuel inductionHypothesis =>
      intro crumb rest enough pages
      rw [popWhile, CursorM.bind_ok (pop_apply rfl),
        CursorM.bind_ok CursorM.getCursor_apply]
      cases rest with
      | nil =>
          rw [stops]
          rfl
      | cons below lower =>
          rw [goes (pages below List.mem_cons_self), List.dropWhile_cons]
          by_cases atRight : (below.keyIndex.mode == .rightChild) = true
          · rw [if_pos atRight, if_pos atRight]
            refine inductionHypothesis ?_ ?_
            · rw [List.length_cons] at enough
              omega
            · intro deeper member
              exact pages deeper (List.mem_cons_of_mem _ member)
          · rw [if_neg atRight, if_neg atRight]
            rfl

theorem assertOnKey_apply {cursor : Cursor} (onPage : cursor.currentPageId ≠ 0)
    (onKey : cursor.currentKeyIndex.mode ≠ .rightChild) :
    assertOnKey cursor disk = (.ok (.ok (), cursor), disk) := by
  unfold assertOnKey
  rw [CursorM.bind_ok CursorM.getCursor_apply,
    CursorM.bind_ok (CursorM.lift_ok
      (BtM.assert_of (bne_iff_ne.mpr onPage) disk)),
    CursorM.lift_ok (BtM.assert_of (bne_iff_ne.mpr onKey) disk)]

/-- A call that leaves crumbs returns its own result. -/
theorem orIterDone_of {call : CursorM Unit} {cursor : Cursor}
    {result : Except BTreeE Unit}
    (called : call cursor disk = (.ok (result, cursorAt (crumb :: rest)), disk)) :
    orIterDone call cursor disk =
      (.ok (result, cursorAt (crumb :: rest)), disk) := by
  unfold orIterDone
  rw [CursorM.bind_ok (CursorM.attempt_of called),
    CursorM.bind_ok CursorM.getCursor_apply]
  rfl

theorem orIterDone_done {call : CursorM Unit} {cursor : Cursor}
    {result : Except BTreeE Unit}
    (called : call cursor disk = (.ok (result, cursorAt []), disk)) :
    orIterDone call cursor disk =
      (.ok (.error .errIterDone, cursorAt []), disk) := by
  unfold orIterDone
  rw [CursorM.bind_ok (CursorM.attempt_of called),
    CursorM.bind_ok CursorM.getCursor_apply]
  rfl

end Rules

end BtreeDb
