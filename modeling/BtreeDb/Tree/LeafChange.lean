import BtreeDb.Tree.LeafWalk

/-!
# A change of one leaf

A call that writes no page but a leaf leaves the ways through the tree as they
are: the inner nodes have the same keys and children, and the stack of a cursor
says the same about the leaves still to come.
-/

namespace BtreeDb

/-- What is loaded from a page with the same contents is the same node, but
for its metadata. -/
theorem loadedNode_congr {disk after : Disk} {page : Nat}
    (present : OnDisk disk page)
    (same : after.buffer? page = disk.buffer? page) :
    ∃ metaBytes, loadedNode after page =
      { loadedNode disk page with metaBytes := metaBytes } := by
  have found : (disk.page? page).isSome := page?_isSome_iff.mpr present
  obtain ⟨image, imageEq⟩ := Option.isSome_iff_exists.mp found
  unfold Disk.buffer? at same
  rw [imageEq] at same
  obtain ⟨other, otherEq, bufferEq⟩ := Option.map_eq_some_iff.mp same
  refine ⟨other.metaBytes, ?_⟩
  unfold loadedNode
  rw [otherEq, imageEq]
  simp only [bufferEq]
  rfl

/-- A call has changed at most one page, which is a leaf before and after. -/
structure LeafChanged (disk after : Disk) (leaf : Nat) : Prop where
  maxPage : after.maxPage = disk.maxPage
  wasLeaf : (loadedNode disk leaf).isLeaf = true
  isLeaf : (loadedNode after leaf).isLeaf = true
  kept : ∀ page, page ≠ leaf → after.buffer? page = disk.buffer? page

section Change

variable {tree : BTree} {disk after : Disk} {leaf page top : Nat}
variable (changed : LeafChanged disk after leaf)

include changed

theorem LeafChanged.onDisk (present : OnDisk disk page) : OnDisk after page :=
  ⟨present.1, by rw [changed.maxPage]; exact present.2⟩

/-- An inner node is none of the changed pages. -/
theorem LeafChanged.inner (present : OnDisk disk page)
    (isInner : (loadedNode disk page).isLeaf = false) :
    ∃ metaBytes, loadedNode after page =
      { loadedNode disk page with metaBytes := metaBytes } := by
  refine loadedNode_congr present (changed.kept page ?_)
  intro same
  rw [same, changed.wasLeaf] at isInner
  cases isInner

theorem LeafChanged.keysOn_eq (present : OnDisk disk page)
    (isInner : (loadedNode disk page).isLeaf = false) :
    keysOn after page = keysOn disk page := by
  obtain ⟨metaBytes, loadedEq⟩ := changed.inner present isInner
  unfold keysOn BTreeNode.numKeys
  rw [loadedEq]

theorem LeafChanged.readCellPage_eq (present : OnDisk disk page)
    (isInner : (loadedNode disk page).isLeaf = false) (index : Nat) :
    readCellPage tree (loadedNode after page) index =
      readCellPage tree (loadedNode disk page) index := by
  obtain ⟨metaBytes, loadedEq⟩ := changed.inner present isInner
  rw [loadedEq]
  rfl

theorem LeafChanged.childPage_eq (present : OnDisk disk page)
    (isInner : (loadedNode disk page).isLeaf = false) (index : Nat) :
    childPage tree after page index = childPage tree disk page index := by
  unfold childPage
  rw [changed.readCellPage_eq present isInner]

/-- The tree keeps its shape. -/
theorem LeafChanged.wellShaped : ∀ {height page : Nat},
    WellShaped tree disk height page → WellShaped tree after height page := by
  intro height
  induction height with
  | zero =>
      intro page shape
      refine ⟨changed.onDisk shape.1, ?_⟩
      by_cases same : page = leaf
      · rw [same]
        exact changed.isLeaf
      · obtain ⟨metaBytes, loadedEq⟩ :=
          loadedNode_congr shape.1 (changed.kept page same)
        rw [loadedEq]
        exact shape.2
  | succ height inductionHypothesis =>
      intro page shape
      obtain ⟨present, isInner, children⟩ := shape
      obtain ⟨metaBytes, loadedEq⟩ := changed.inner present isInner
      refine ⟨changed.onDisk present, ?_, ?_⟩
      · rw [loadedEq]
        exact isInner
      · intro index bound
        rw [changed.keysOn_eq present isInner] at bound
        obtain ⟨readEq, notSelf, child⟩ := children index bound
        rw [changed.readCellPage_eq present isInner,
          changed.childPage_eq present isInner]
        exact ⟨readEq, notSelf, inductionHypothesis child⟩

/-- The leaves are the same pages. -/
theorem LeafChanged.leavesBelow_eq : ∀ {height page : Nat},
    WellShaped tree disk height page →
      leavesBelow tree after height page = leavesBelow tree disk height page := by
  intro height
  induction height with
  | zero =>
      intro page _
      rfl
  | succ height inductionHypothesis =>
      intro page shape
      unfold leavesBelow
      rw [changed.keysOn_eq shape.1 shape.2.1]
      refine List.flatMap_congr fun index _ => ?_
      obtain ⟨_, _, child⟩ := shape.child index
      rw [changed.childPage_eq shape.1 shape.2.1, inductionHypothesis child]

theorem LeafChanged.leavesFrom_eq {height index : Nat}
    (shape : WellShaped tree disk height page) :
    leavesFrom tree after height page index =
      leavesFrom tree disk height page index := by
  cases height with
  | zero => rfl
  | succ height =>
      unfold leavesFrom
      dsimp only
      rw [changed.keysOn_eq shape.1 shape.2.1]
      refine List.flatMap_congr fun child _ => ?_
      obtain ⟨_, _, below⟩ := shape.child child
      rw [changed.childPage_eq shape.1 shape.2.1, changed.leavesBelow_eq below]

/-- The crumbs of inner nodes stand as they stood. -/
theorem LeafChanged.stack {height : Nat} {rest : List CursorBreadcrumb}
    (stack : LeafStack tree disk top height rest) (isInner : 0 < height) :
    LeafStack tree after top height rest := by
  induction stack with
  | empty => exact .empty
  | @crumb height crumb rest shape place _ inductionHypothesis =>
      obtain ⟨below, rfl⟩ : ∃ below, height = below + 1 :=
        ⟨height - 1, by omega⟩
      refine .crumb (changed.wellShaped shape) ?_
        (inductionHypothesis (Nat.succ_pos _))
      unfold OnSlot OnRightChild at place ⊢
      rw [changed.keysOn_eq shape.1 shape.2.1]
      exact place

theorem LeafChanged.leavesBehind_eq {height : Nat}
    {rest : List CursorBreadcrumb}
    (stack : LeafStack tree disk top height rest) :
    leavesBehind tree after height rest = leavesBehind tree disk height rest := by
  induction stack with
  | empty => rfl
  | crumb shape _ _ inductionHypothesis =>
      unfold leavesBehind
      rw [changed.leavesFrom_eq shape, inductionHypothesis]

end Change

end BtreeDb
