import BtreeDb.Tree.Crumbs

/-!
# Moves beside a node

`cursor_sibling` takes the place of its node from the crumb of the parent, an
index with a mode, and writes that crumb anew.  For a cursor below the root
whose crumbs form a path, the crumb moves by one slot, and the move in the
other direction takes it back.  A refused move puts the crumbs back, and the
cursor on the last of them: an index that the cursor has moved to inside its
node is lost.
-/

namespace BtreeDb

/-! ## Slots -/

/-- The slot of a child: a keyed slot, or the right child after the last
key. -/
def childSlot (node : BTreeNode) (index : Nat) : ChildListIndex :=
  if index < node.numKeys then ⟨.limIndex, index⟩
  else ⟨.rightChild, node.numKeys⟩

def CursorSibling.opposite : CursorSibling → CursorSibling
  | .left => .right
  | .right => .left

/-- The place beside a place among the children of a node with `keys` keys. -/
def indexBeside (sibling : CursorSibling) (keys index : Nat) : Option Nat :=
  match sibling with
  | .left => if index = 0 then none else some (index - 1)
  | .right => if index = keys then none else some (index + 1)

section Slots

variable {node : BTreeNode} {sibling : CursorSibling}
variable {keys index next : Nat}

theorem childSlot_of_lt (inside : index < node.numKeys) :
    childSlot node index = ⟨.limIndex, index⟩ :=
  if_pos inside

theorem childSlot_last :
    childSlot node node.numKeys = ⟨.rightChild, node.numKeys⟩ :=
  if_neg (Nat.lt_irrefl _)

theorem childSlot_index (bound : index ≤ node.numKeys) :
    (childSlot node index).index = index := by
  by_cases inside : index < node.numKeys
  · rw [childSlot_of_lt inside]
  · have last : index = node.numKeys := by omega
    rw [last, childSlot_last]

/-- The slots of `btu_init_keylistindex_from_index` in an inner node. -/
theorem initKeylistindexFromIndex_inner (inner : node.isLeaf = false) :
    initKeylistindexFromIndex node index = childSlot node index := by
  unfold initKeylistindexFromIndex childSlot
  rw [inner]
  rfl

theorem indexBeside_le (beside : indexBeside sibling keys index = some next)
    (bound : index ≤ keys) : next ≤ keys := by
  unfold indexBeside at beside
  cases sibling with
  | left =>
      simp only at beside
      split at beside
      · cases beside
      · have same := Option.some.inj beside
        omega
  | right =>
      simp only at beside
      split at beside
      · cases beside
      · have same := Option.some.inj beside
        omega

/-- One place on and one back. -/
theorem indexBeside_opposite
    (beside : indexBeside sibling keys index = some next)
    (bound : index ≤ keys) :
    indexBeside sibling.opposite keys next = some index := by
  unfold indexBeside at beside
  cases sibling with
  | left =>
      simp only at beside
      by_cases first : index = 0
      · rw [if_pos first] at beside
        cases beside
      · rw [if_neg first] at beside
        have same := Option.some.inj beside
        have inside : next ≠ keys := by omega
        have back : next + 1 = index := by omega
        simp only [indexBeside, CursorSibling.opposite, if_neg inside, back]
  | right =>
      simp only at beside
      by_cases last : index = keys
      · rw [if_pos last] at beside
        cases beside
      · rw [if_neg last] at beside
        have same := Option.some.inj beside
        have notFirst : next ≠ 0 := by omega
        have back : next - 1 = index := by omega
        simp only [indexBeside, CursorSibling.opposite, if_neg notFirst, back]

/-- The index and the mode that `cursor_sibling` writes are those of the slot
one place on. -/
theorem siblingIndex_childSlot (bound : index ≤ node.numKeys)
    (hasRight : node.rightChild ≠ 0) :
    siblingIndex sibling node (childSlot node index) =
      (indexBeside sibling node.numKeys index).map (childSlot node) := by
  cases sibling with
  | left =>
      simp only [siblingIndex, indexBeside, childSlot_index bound]
      by_cases first : index = 0
      · rw [if_pos first, if_pos first]
        rfl
      · rw [if_neg first, if_neg first, Option.map_some,
          childSlot_of_lt (by omega)]
  | right =>
      simp only [siblingIndex, indexBeside]
      by_cases last : index = node.numKeys
      · rw [last, childSlot_last, if_pos rfl,
          if_pos (Or.inr fun same => by cases same)]
        rfl
      · have inside : index < node.numKeys := by omega
        rw [childSlot_of_lt inside, if_neg last, Option.map_some,
          if_neg (by
            rintro (⟨_, noRight⟩ | notIndex)
            · exact hasRight noRight
            · exact notIndex rfl)]
        by_cases lastKey : index + 1 = node.numKeys
        · rw [if_pos lastKey, lastKey, childSlot_last]
        · rw [if_neg lastKey, childSlot_of_lt (by omega)]

end Slots

/-! ## Paths of crumbs -/

/-- The crumbs, the last one first, form a path: each one names the slot that
the next one is the child of, from the root on.  The crumb of `cursor_create`
may stand below the one that a descent left for the root. -/
inductive CrumbPath (tree : BTree) (disk : Disk) :
    List CursorBreadcrumb → Prop
  | root (keyIndex : ChildListIndex) :
      CrumbPath tree disk [⟨keyIndex, tree.rootPageId⟩]
  | created (keyIndex createdIndex : ChildListIndex) :
      CrumbPath tree disk
        [⟨keyIndex, tree.rootPageId⟩, ⟨createdIndex, tree.rootPageId⟩]
  | child {index page child : Nat} {rest : List CursorBreadcrumb}
      (keyIndex : ChildListIndex)
      (above : CrumbPath tree disk
        (⟨childSlot (loadedNode disk page) index, page⟩ :: rest))
      (inner : (loadedNode disk page).isLeaf = false)
      (bound : index ≤ keysOn disk page)
      (reads : readCellPage tree (loadedNode disk page) index = .ok child) :
      CrumbPath tree disk
        (⟨keyIndex, child⟩ ::
          ⟨childSlot (loadedNode disk page) index, page⟩ :: rest)

/-- A cursor on a node below the root whose crumbs form a path.  The index in
the node is not part of the path. -/
structure StandsBelowRoot (tree : BTree) (disk : Disk) (cursor : Cursor) :
    Prop where
  path : CrumbPath tree disk cursor.breadcrumbs
  few : cursor.breadcrumbs.length ≤ maxBreadcrumbs
  here : cursor.breadcrumbs.head?.map CursorBreadcrumb.pageId =
    some cursor.currentPageId
  notRoot : cursor.currentPageId ≠ tree.rootPageId

section Paths

variable {tree : BTree} {disk : Disk} {top height : Nat}
variable {crumb : CursorBreadcrumb} {rest : List CursorBreadcrumb}

/-- A page at the end of a path is the root of a subtree. -/
theorem CrumbPath.wellShaped {crumbs : List CursorBreadcrumb}
    (path : CrumbPath tree disk crumbs)
    (whole : WellShaped tree disk top tree.rootPageId) :
    ∀ {crumb : CursorBreadcrumb} {rest : List CursorBreadcrumb},
      crumbs = crumb :: rest →
      ∃ height, WellShaped tree disk height crumb.pageId := by
  induction path with
  | root keyIndex =>
      intro crumb rest same
      cases same
      exact ⟨top, whole⟩
  | created keyIndex createdIndex =>
      intro crumb rest same
      cases same
      exact ⟨top, whole⟩
  | @child index page child deeper keyIndex above inner bound reads
      inductionHypothesis =>
      intro crumb rest same
      cases same
      obtain ⟨height, shape⟩ := inductionHypothesis rfl
      cases height with
      | zero =>
          have isLeaf := shape.2
          rw [inner] at isLeaf
          cases isLeaf
      | succ height =>
          obtain ⟨readEq, _, below⟩ := shape.2.2 index bound
          rw [reads] at readEq
          rw [← Except.ok.inj readEq] at below
          exact ⟨height, below⟩

/-- The slot of the last crumb is not part of the path. -/
theorem CrumbPath.setIndex {page : Nat} {keyIndex : ChildListIndex}
    (path : CrumbPath tree disk (⟨keyIndex, page⟩ :: rest))
    (other : ChildListIndex) : CrumbPath tree disk (⟨other, page⟩ :: rest) := by
  cases path with
  | root => exact .root other
  | created _ createdIndex => exact .created other createdIndex
  | child _ above inner bound reads => exact .child other above inner bound reads

/-- The parent of a node that a cursor stands on, and the node's place in
it. -/
structure ChildOf (tree : BTree) (disk : Disk) (cursor : Cursor)
    (child parent : CursorBreadcrumb) (rest : List CursorBreadcrumb)
    (index : Nat) : Prop where
  stack : cursor.breadcrumbs = child :: parent :: rest
  here : cursor.currentPageId = child.pageId
  bound : index ≤ keysOn disk parent.pageId
  slot : parent.keyIndex = childSlot (loadedNode disk parent.pageId) index
  reads : child.pageId = childPage tree disk parent.pageId index

theorem StandsBelowRoot.childOf {cursor : Cursor}
    (stands : StandsBelowRoot tree disk cursor)
    (whole : WellShaped tree disk top tree.rootPageId) :
    ∃ child parent rest index height,
      ChildOf tree disk cursor child parent rest index ∧
        CrumbPath tree disk (parent :: rest) ∧
        WellShaped tree disk (height + 1) parent.pageId := by
  obtain ⟨path, _, here, notRoot⟩ := stands
  generalize stack : cursor.breadcrumbs = crumbs at path here
  cases path with
  | root keyIndex => exact absurd (Option.some.inj here).symm notRoot
  | created keyIndex createdIndex =>
      exact absurd (Option.some.inj here).symm notRoot
  | @child index page child rest keyIndex above inner bound reads =>
      obtain ⟨height, shape⟩ := above.wellShaped whole rfl
      cases height with
      | zero =>
          have isLeaf := shape.2
          rw [inner] at isLeaf
          cases isLeaf
      | succ height =>
          have childEq : childPage tree disk page index = child := by
            unfold childPage
            rw [reads]
          exact ⟨_, _, rest, index, height,
            ⟨stack, (Option.some.inj here).symm, bound, rfl, childEq.symm⟩,
            above, shape⟩

/-- A descent by keys leaves a path. -/
theorem WayDown.crumbPath {page : Nat} {crumbs : List CursorBreadcrumb}
    (way : WayDown tree disk top height page crumbs)
    (whole : WellShaped tree disk top tree.rootPageId) :
    ∀ keyIndex : ChildListIndex,
      CrumbPath tree disk (⟨keyIndex, page⟩ :: (crumbs ++ [rootCrumb tree])) := by
  induction way with
  | root => exact fun keyIndex => .created keyIndex ⟨.limIndex, 0⟩
  | @child height page index crumbs above bound inductionHypothesis =>
      intro keyIndex
      obtain ⟨_, inner, children⟩ := above.shape whole
      obtain ⟨readEq, _, _⟩ := children index bound
      have upper := inductionHypothesis
        (initKeylistindexFromIndex (loadedNode disk page) index)
      rw [initKeylistindexFromIndex_inner inner] at upper ⊢
      exact .child keyIndex upper inner bound readEq

theorem cursorTraverseToEx_standsBelowRoot {after : Disk}
    {searchKeys : BTreeNode → BtM (Bool × Nat)} {found : Bool} {cursor : Cursor}
    (searches : SearchesKeys searchKeys)
    (whole : WellShaped tree disk top tree.rootPageId)
    (traversed : cursorTraverseToEx tree searchKeys (cursorCreate tree) disk =
      (.ok (found, cursor), after))
    (notRoot : cursor.currentPageId ≠ tree.rootPageId) :
    StandsBelowRoot tree disk cursor := by
  have few : (cursorCreate tree).breadcrumbs.length ≤ maxBreadcrumbs :=
    (by decide : 1 ≤ maxBreadcrumbs)
  obtain ⟨_, last, crumbs, placed, _⟩ :=
    traverse_placed searches whole .root rfl rfl few traversed
  obtain ⟨height, way⟩ := placed.way
  have stack := congrArg Cursor.breadcrumbs placed.cursorEq
  have atPage := congrArg Cursor.currentPageId placed.cursorEq
  have room := placed.room
  rw [cursorAt_breadcrumbs] at stack
  refine ⟨?_, ?_, ?_, notRoot⟩
  · rw [stack]
    exact way.crumbPath whole _
  · rw [stack, List.length_cons, List.length_append, List.length_singleton]
    omega
  · rw [stack, atPage]
    rfl

end Paths

/-! ## One move -/

section Move

variable {tree : BTree} {disk : Disk} {sibling : CursorSibling}
variable {cursor : Cursor} {child parent : CursorBreadcrumb}
variable {rest : List CursorBreadcrumb} {height index next : Nat}

/-- Where the cursor stands in its node does not matter. -/
theorem cursorSibling_of_breadcrumbs
    (stack : cursor.breadcrumbs = child :: parent :: rest) :
    cursorSibling tree sibling cursor disk =
      cursorSibling tree sibling (cursorAt (child :: parent :: rest)) disk := by
  have popped : cursorPopN 2 cursor disk =
      cursorPopN 2 (cursorAt (child :: parent :: rest)) disk := by
    rw [cursorPopN, CursorM.bind_ok (pop_apply stack),
      CursorM.bind_ok (pop_apply (cursorAt_breadcrumbs _))]
  unfold cursorSibling
  rw [CursorM.bind_ok CursorM.getCursor_apply,
    CursorM.bind_ok CursorM.getCursor_apply, cursorAt_breadcrumbs, stack,
    if_neg (by simp)]
  rw [CursorM.bind_ok (popped.trans (cursorPopN_two child parent)),
    CursorM.bind_ok (cursorPopN_two child parent)]

/-- With fewer than two crumbs the cursor stays as it is. -/
theorem cursorSibling_noParent (short : cursor.breadcrumbs.length < 2) :
    cursorSibling tree sibling cursor disk =
      (.ok (.error .errCursorNoParent, cursor), disk) := by
  unfold cursorSibling
  rw [CursorM.bind_ok CursorM.getCursor_apply, if_pos short]
  rfl

section Slot

variable (shape : WellShaped tree disk (height + 1) parent.pageId)
  (bound : index ≤ keysOn disk parent.pageId)
  (placed : parent.keyIndex = childSlot (loadedNode disk parent.pageId) index)

include shape bound placed

theorem siblingIndex_placed (sibling : CursorSibling) :
    siblingIndex sibling (loadedNode disk parent.pageId) parent.keyIndex =
      (indexBeside sibling (keysOn disk parent.pageId) index).map
        (childSlot (loadedNode disk parent.pageId)) := by
  rw [placed]
  exact siblingIndex_childSlot bound shape.rightChild_ne

theorem cursorSibling_refused (room : rest.length + 2 ≤ maxBreadcrumbs)
    (refused : indexBeside sibling (keysOn disk parent.pageId) index = none) :
    cursorSibling tree sibling (cursorAt (child :: parent :: rest)) disk =
      (.ok (.error .errCursorNoSibling, cursorAt (child :: parent :: rest)),
        disk) := by
  apply cursorSibling_none room shape.onDisk
  rw [siblingIndex_placed shape bound placed, refused]
  rfl

theorem cursorSibling_moved (room : rest.length + 2 ≤ maxBreadcrumbs)
    (beside : indexBeside sibling (keysOn disk parent.pageId) index =
      some next) :
    cursorSibling tree sibling (cursorAt (child :: parent :: rest)) disk =
      (.ok (.ok (), cursorAt
        (⟨⟨.limIndex, 0⟩, childPage tree disk parent.pageId next⟩ ::
          ⟨childSlot (loadedNode disk parent.pageId) next, parent.pageId⟩ ::
            rest)), disk) := by
  have slotEq := childSlot_index (indexBeside_le beside bound)
  have isSibling := siblingIndex_placed shape bound placed sibling
  rw [beside, Option.map_some] at isSibling
  have moved := @cursorSibling_some tree disk sibling child parent rest _ room
    shape.onDisk isSibling (shape.child _).1
  unfold besideStack at moved
  rw [slotEq] at moved
  exact moved

end Slot

end Move

/-! ## Every move -/

/-- What `cursor_sibling` does with a cursor on the child `index` of its
parent. -/
structure MovesBeside (tree : BTree) (disk : Disk) (cursor : Cursor)
    (child parent : CursorBreadcrumb) (rest : List CursorBreadcrumb)
    (index : Nat) : Prop where
  right_iff : (∃ later after, cursorSibling tree .right cursor disk =
      (.ok (.ok (), later), after)) ↔ index ≠ keysOn disk parent.pageId
  left_iff : (∃ later after, cursorSibling tree .left cursor disk =
      (.ok (.ok (), later), after)) ↔ index ≠ 0
  moved : ∀ sibling later after,
    cursorSibling tree sibling cursor disk = (.ok (.ok (), later), after) →
      after = disk ∧
        ∃ next, indexBeside sibling (keysOn disk parent.pageId) index =
            some next ∧
          later = cursorAt
            (⟨⟨.limIndex, 0⟩, childPage tree disk parent.pageId next⟩ ::
              ⟨childSlot (loadedNode disk parent.pageId) next,
                parent.pageId⟩ :: rest) ∧
          CrumbPath tree disk later.breadcrumbs
  back : ∀ sibling later after,
    cursorSibling tree sibling cursor disk = (.ok (.ok (), later), after) →
      cursorSibling tree sibling.opposite later after =
        (.ok (.ok (), cursorAt
          (⟨⟨.limIndex, 0⟩, child.pageId⟩ :: parent :: rest)), disk)
  failed : ∀ sibling,
    (¬ ∃ later after, cursorSibling tree sibling cursor disk =
      (.ok (.ok (), later), after)) →
      cursorSibling tree sibling cursor disk =
        (.ok (.error .errCursorNoSibling,
          { cursor with currentKeyIndex := child.keyIndex }), disk)

section Moves

variable {tree : BTree} {disk : Disk} {cursor : Cursor}
variable {child parent : CursorBreadcrumb} {rest : List CursorBreadcrumb}
variable {height index : Nat}

/-- A cursor moves where there is a place beside its own. -/
theorem ChildOf.succeeds_iff
    (childOf : ChildOf tree disk cursor child parent rest index)
    (shape : WellShaped tree disk (height + 1) parent.pageId)
    (room : rest.length + 2 ≤ maxBreadcrumbs) (sibling : CursorSibling) :
    (∃ later after, cursorSibling tree sibling cursor disk =
        (.ok (.ok (), later), after)) ↔
      indexBeside sibling (keysOn disk parent.pageId) index ≠ none := by
  rw [cursorSibling_of_breadcrumbs childOf.stack]
  constructor
  · rintro ⟨later, after, moved⟩ refused
    rw [cursorSibling_refused shape childOf.bound childOf.slot room refused]
      at moved
    cases moved
  · intro some
    obtain ⟨next, beside⟩ := Option.ne_none_iff_exists'.mp some
    exact ⟨_, _,
      cursorSibling_moved shape childOf.bound childOf.slot room beside⟩

theorem ChildOf.lands
    (childOf : ChildOf tree disk cursor child parent rest index)
    (shape : WellShaped tree disk (height + 1) parent.pageId)
    (room : rest.length + 2 ≤ maxBreadcrumbs) {sibling : CursorSibling}
    {later : Cursor} {after : Disk}
    (moved : cursorSibling tree sibling cursor disk =
      (.ok (.ok (), later), after)) :
    after = disk ∧
      ∃ next, indexBeside sibling (keysOn disk parent.pageId) index =
          some next ∧
        later = cursorAt
          (⟨⟨.limIndex, 0⟩, childPage tree disk parent.pageId next⟩ ::
            ⟨childSlot (loadedNode disk parent.pageId) next, parent.pageId⟩ ::
              rest) := by
  have some := (childOf.succeeds_iff shape room sibling).mp ⟨later, after, moved⟩
  obtain ⟨next, beside⟩ := Option.ne_none_iff_exists'.mp some
  rw [cursorSibling_of_breadcrumbs childOf.stack,
    cursorSibling_moved shape childOf.bound childOf.slot room beside] at moved
  cases moved
  exact ⟨rfl, next, beside, rfl⟩

/-- The move in the other direction goes back. -/
theorem ChildOf.back
    (childOf : ChildOf tree disk cursor child parent rest index)
    (shape : WellShaped tree disk (height + 1) parent.pageId)
    (room : rest.length + 2 ≤ maxBreadcrumbs) {sibling : CursorSibling}
    {later : Cursor} {after : Disk}
    (moved : cursorSibling tree sibling cursor disk =
      (.ok (.ok (), later), after)) :
    cursorSibling tree sibling.opposite later after =
      (.ok (.ok (), cursorAt
        (⟨⟨.limIndex, 0⟩, child.pageId⟩ :: parent :: rest)), disk) := by
  obtain ⟨rfl, next, beside, rfl⟩ := childOf.lands shape room moved
  have opposite := indexBeside_opposite beside childOf.bound
  have nextBound := indexBeside_le beside childOf.bound
  rw [@cursorSibling_moved tree after sibling.opposite _
    ⟨childSlot (loadedNode after parent.pageId) next, parent.pageId⟩ rest height
    next index shape nextBound rfl room opposite, ← childOf.reads,
    ← childOf.slot]

theorem ChildOf.movesBeside
    (childOf : ChildOf tree disk cursor child parent rest index)
    (path : CrumbPath tree disk (parent :: rest))
    (shape : WellShaped tree disk (height + 1) parent.pageId)
    (room : rest.length + 2 ≤ maxBreadcrumbs) :
    MovesBeside tree disk cursor child parent rest index where
  right_iff := by
    rw [childOf.succeeds_iff shape room]
    simp only [indexBeside, ne_eq, ite_eq_left_iff, reduceCtorEq, imp_false,
      Decidable.not_not]
  left_iff := by
    rw [childOf.succeeds_iff shape room]
    simp only [indexBeside, ne_eq, ite_eq_left_iff, reduceCtorEq, imp_false,
      Decidable.not_not]
  moved := by
    intro sibling later after moved
    obtain ⟨same, next, beside, laterEq⟩ := childOf.lands shape room moved
    refine ⟨same, next, beside, laterEq, ?_⟩
    rw [laterEq, cursorAt_breadcrumbs]
    exact .child ⟨.limIndex, 0⟩ (path.setIndex _) shape.2.1
      (indexBeside_le beside childOf.bound) (shape.child next).1
  back := fun _ _ _ moved => childOf.back shape room moved
  failed := by
    intro sibling fails
    have refused : indexBeside sibling (keysOn disk parent.pageId) index =
        none := by
      by_contra some
      exact fails ((childOf.succeeds_iff shape room sibling).mpr some)
    have standsAt : cursorAt (child :: parent :: rest) =
        { cursor with currentKeyIndex := child.keyIndex } := by
      obtain ⟨page, keyIndex, crumbs⟩ := cursor
      have stack := childOf.stack
      have here := childOf.here
      simp only at stack here
      rw [stack, here]
      rfl
    rw [cursorSibling_of_breadcrumbs childOf.stack,
      cursorSibling_refused shape childOf.bound childOf.slot room refused,
      standsAt]

end Moves

/-- Moves beside a node are exact: they succeed where there is a child beside
the cursor's own and go back; a refused move leaves the crumbs and the page,
and the cursor at the index of its last crumb. -/
theorem cursorSibling_exact {tree : BTree} {disk : Disk} {height : Nat}
    (valid : ValidTree tree disk height) :
    (∀ cursor, StandsBelowRoot tree disk cursor →
      ∃ child parent rest index,
        ChildOf tree disk cursor child parent rest index ∧
          MovesBeside tree disk cursor child parent rest index) ∧
    ∀ cursor sibling, cursor.breadcrumbs.length < 2 →
      cursorSibling tree sibling cursor disk =
        (.ok (.error .errCursorNoParent, cursor), disk) := by
  constructor
  · intro cursor stands
    obtain ⟨child, parent, rest, index, height, childOf, path, shape⟩ :=
      stands.childOf valid.wellShaped
    have few := stands.few
    rw [childOf.stack, List.length_cons, List.length_cons] at few
    exact ⟨child, parent, rest, index, childOf,
      childOf.movesBeside path shape few⟩
  · intro cursor sibling short
    exact cursorSibling_noParent short

/-- A root with three leaves, two records in the first one. -/
def threeChildren : Disk :=
  diskOfNodes 216
    [(false, 4, [(1, Bytes.le32 2), (2, Bytes.le32 3)]),
      (true, 0, [(0, [10]), (1, [11])]), (true, 0, [(2, [12])]),
      (true, 0, [(3, [13])])]

/-- The cursor on the leaf in the middle. -/
def middleCursor : Cursor :=
  cursorAt [⟨⟨.limIndex, 0⟩, 3⟩, ⟨⟨.limIndex, 1⟩, 1⟩, rootCrumb deepTree]

/-- The cursor on the first record. -/
def firstCursor : Cursor :=
  cursorAt [⟨⟨.limIndex, 0⟩, 2⟩, ⟨⟨.limIndex, 0⟩, 1⟩, rootCrumb deepTree]

/-- The same crumbs, with the cursor on the last record of the leaf. -/
def lastInLeafCursor : Cursor :=
  { firstCursor with currentKeyIndex := ⟨.limIndex, 1⟩ }

theorem threeChildren_checked :
    (checkTable threeChildren [] 1 1).isSome = true ∧
      cursorTraverseToEx deepTree (nodeSearchKeys (btreeCompareCell 2))
        (cursorCreate deepTree) threeChildren =
          (.ok (true, middleCursor), threeChildren) ∧
      cursorTraverseToEx deepTree (nodeSearchKeys (btreeCompareCell 0))
        (cursorCreate deepTree) threeChildren =
          (.ok (true, firstCursor), threeChildren) ∧
      cursorTraverseLargest deepTree firstCursor threeChildren =
        (.ok (.ok (), lastInLeafCursor), threeChildren) ∧
      cursorSibling deepTree .left lastInLeafCursor threeChildren =
        (.ok (.error .errCursorNoSibling, firstCursor), threeChildren) := by
  decide +kernel

theorem threeChildren_valid : ValidTree deepTree threeChildren 1 := by
  obtain ⟨⟨pages, flat⟩, checkEq⟩ :=
    Option.isSome_iff_exists.mp threeChildren_checked.1
  exact .table rfl (checkTable_sound checkEq)

theorem middleCursor_moves : ∃ child parent rest index,
    ChildOf deepTree threeChildren middleCursor child parent rest index ∧
      MovesBeside deepTree threeChildren middleCursor child parent rest
        index := by
  have stands := cursorTraverseToEx_standsBelowRoot
    (searchesKeys_nodeSearchKeys (btreeCompareCell 2))
    threeChildren_valid.wellShaped threeChildren_checked.2.1 (by decide)
  exact (cursorSibling_exact threeChildren_valid).1 middleCursor stands

/-- `cursor_traverse_to` and, from the leaf that it finds,
`cursor_traverse_largest` leave a path of crumbs with the cursor further on in
the leaf.  A refused move puts the cursor back on the index of its crumb. -/
theorem refused_move_loses_index :
    ValidTree deepTree threeChildren 1 ∧
      cursorTraverseToEx deepTree (nodeSearchKeys (btreeCompareCell 0))
        (cursorCreate deepTree) threeChildren =
          (.ok (true, firstCursor), threeChildren) ∧
      cursorTraverseLargest deepTree firstCursor threeChildren =
        (.ok (.ok (), lastInLeafCursor), threeChildren) ∧
      StandsBelowRoot deepTree threeChildren lastInLeafCursor ∧
      cursorSibling deepTree .left lastInLeafCursor threeChildren =
        (.ok (.error .errCursorNoSibling, firstCursor), threeChildren) ∧
      firstCursor.position ≠ lastInLeafCursor.position := by
  obtain ⟨_, _, found, largest, refused⟩ := threeChildren_checked
  have first := cursorTraverseToEx_standsBelowRoot
    (searchesKeys_nodeSearchKeys (btreeCompareCell 0))
    threeChildren_valid.wellShaped found (by decide)
  exact ⟨threeChildren_valid, found, largest,
    ⟨first.path, first.few, first.here, first.notRoot⟩, refused, by decide⟩

end BtreeDb
