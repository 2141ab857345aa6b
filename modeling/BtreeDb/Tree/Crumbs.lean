import BtreeDb.Tree.Iterate
import BtreeDb.Tree.Rebalance

/-!
# The breadcrumbs as a path

Rotation, merge and deletion take the parent of a node and the place of the
node in it from the crumbs.  A crumb of `cursor_traverse_to_ex` is a page with
the slot that the descent took in it.  `cursor_traverse_by_mover` moves first
and pushes afterwards: there a crumb is a page with the slot taken in the page
above, which is a path only where all these slots are the first one.
-/

namespace BtreeDb

open PagedTree

/-! ## Paths -/

/-- The slot of a crumb refers to the page of the next one. -/
structure LeadsTo (tree : BTree) (disk : Disk)
    (upper lower : CursorBreadcrumb) : Prop where
  index_le : upper.keyIndex.index ≤ keysOn disk upper.pageId
  reads : readCellPage tree (loadedNode disk upper.pageId)
    upper.keyIndex.index = .ok lower.pageId
  mode_iff : upper.keyIndex.mode = .rightChild ↔
    upper.keyIndex.index = keysOn disk upper.pageId

/-- The crumbs, the last one first, without the one of `cursor_create` where
the next one repeats its page. -/
def ownCrumbs (crumbs : List CursorBreadcrumb) : List CursorBreadcrumb :=
  match crumbs.reverse with
  | created :: next :: rest =>
      if next.pageId = created.pageId then (next :: rest).reverse else crumbs
  | _ => crumbs

/-- The crumbs lead from the root to the node where the descent stopped. -/
structure IsPath (tree : BTree) (disk : Disk) (found : Bool)
    (cursor : Cursor) : Prop where
  steps : (ownCrumbs cursor.breadcrumbs).IsChain
    fun lower upper => LeadsTo tree disk upper lower
  top : cursor.breadcrumbs.head?.map CursorBreadcrumb.pageId =
    some cursor.currentPageId
  stopped : (loadedNode disk cursor.currentPageId).isLeaf = true ∨
    tree.type = .index ∧ found = true

theorem ownCrumbs_append (front : List CursorBreadcrumb)
    (next created : CursorBreadcrumb) :
    ownCrumbs (front ++ [next, created]) =
      if next.pageId = created.pageId then front ++ [next]
      else front ++ [next, created] := by
  have reversed : (front ++ [next, created]).reverse =
      created :: next :: front.reverse := by
    simp
  unfold ownCrumbs
  rw [reversed]
  simp only [List.reverse_cons, List.reverse_reverse]

/-! ## A descent by keys -/

section Descent

variable {tree : BTree} {disk : Disk} {top height page : Nat}
variable {crumbs : List CursorBreadcrumb}

/-- The slot of a crumb on the way down. -/
theorem leadsTo_of_bound {index : Nat} {lower : CursorBreadcrumb}
    (shape : WellShaped tree disk (height + 1) page)
    (bound : index ≤ keysOn disk page)
    (child : lower.pageId = childPage tree disk page index) :
    LeadsTo tree disk
      ⟨initKeylistindexFromIndex (loadedNode disk page) index, page⟩ lower := by
  have keys : keysOn disk page = (loadedNode disk page).numKeys := rfl
  obtain ⟨readEq, _, _⟩ := shape.2.2 index bound
  rw [← child] at readEq
  unfold initKeylistindexFromIndex
  by_cases inside : index < (loadedNode disk page).numKeys
  · rw [if_pos inside]
    refine ⟨bound, readEq, ?_⟩
    simp only
    constructor
    · intro same
      cases same
    · intro same
      omega
  · have atEnd : index = (loadedNode disk page).numKeys := by omega
    rw [if_neg inside, shape.2.1]
    rw [atEnd] at readEq
    exact ⟨Nat.le_refl _, readEq, ⟨fun _ => rfl, fun _ => rfl⟩⟩

theorem WayDown.isChain (way : WayDown tree disk top height page crumbs)
    (whole : WellShaped tree disk top tree.rootPageId)
    (keyIndex : ChildListIndex) :
    (⟨keyIndex, page⟩ :: crumbs).IsChain
      fun lower upper => LeadsTo tree disk upper lower := by
  induction way generalizing keyIndex with
  | root => exact List.IsChain.singleton _
  | child above bound inductionHypothesis =>
      apply List.isChain_cons_cons.mpr
      exact ⟨leadsTo_of_bound (above.shape whole) bound rfl,
        inductionHypothesis _⟩

/-- The way down starts at the root. -/
theorem WayDown.ownCrumbs_eq (way : WayDown tree disk top height page crumbs) :
    ∀ (lower : List CursorBreadcrumb) (keyIndex : ChildListIndex),
      ownCrumbs (lower ++ (⟨keyIndex, page⟩ :: (crumbs ++ [rootCrumb tree]))) =
        lower ++ (⟨keyIndex, page⟩ :: crumbs) := by
  induction way with
  | root =>
      intro lower keyIndex
      have same := ownCrumbs_append lower ⟨keyIndex, tree.rootPageId⟩
        (rootCrumb tree)
      have repeats : tree.rootPageId = (rootCrumb tree).pageId := rfl
      rw [if_pos repeats] at same
      exact same
  | @child height page index crumbs above bound inductionHypothesis =>
      intro lower keyIndex
      have same := inductionHypothesis
        (lower ++ [⟨keyIndex, childPage tree disk page index⟩])
        (initKeylistindexFromIndex (loadedNode disk page) index)
      rw [List.append_assoc, List.append_assoc] at same
      exact same

theorem cursorTraverseToEx_isPath {after : Disk}
    {searchKeys : BTreeNode → BtM (Bool × Nat)} {found : Bool} {cursor : Cursor}
    (searches : SearchesKeys searchKeys)
    (whole : WellShaped tree disk top tree.rootPageId)
    (traversed : cursorTraverseToEx tree searchKeys (cursorCreate tree) disk =
      (.ok (found, cursor), after)) : IsPath tree disk found cursor := by
  have few : (cursorCreate tree).breadcrumbs.length ≤ maxBreadcrumbs :=
    (by decide : 1 ≤ maxBreadcrumbs)
  obtain ⟨_, last, crumbs, placed, stopped⟩ :=
    traverse_placed searches whole .root rfl rfl few traversed
  obtain ⟨height, way⟩ := placed.way
  have cursorEq := placed.cursorEq
  have stack := congrArg Cursor.breadcrumbs cursorEq
  have atPage := congrArg Cursor.currentPageId cursorEq
  rw [cursorAt_breadcrumbs] at stack
  have own := way.ownCrumbs_eq [] cursor.currentKeyIndex
  rw [List.nil_append, List.nil_append] at own
  refine ⟨?_, ?_, ?_⟩
  · rw [stack, own]
    exact way.isChain whole _
  · rw [stack, atPage]
    rfl
  · rw [atPage]
    exact stopped

end Descent

/-! ## A descent by a mover -/

/-- A mover that puts the cursor on a slot of the node. -/
def moveBy (slot : BTreeNode → ChildListIndex) (node : BTreeNode)
    (cursor : Cursor) : Cursor :=
  { cursor with
    currentKeyIndex := slot node
    currentPageId := node.pageNumber }

def firstSlot (_ : BTreeNode) : ChildListIndex := ⟨.limIndex, 0⟩

def lastSlot (node : BTreeNode) : ChildListIndex :=
  if node.isLeaf then ⟨.limIndex, u32Pred node.numKeys⟩
  else ⟨.rightChild, node.numKeys⟩

theorem moveToBegin_eq : moveToBegin = moveBy firstSlot := rfl

theorem moveToEnd_eq : moveToEnd = moveBy lastSlot := rfl

section Movers

variable (tree : BTree) (disk : Disk) (slot : BTreeNode → ChildListIndex)

/-- The child that a mover goes on to. -/
def slotChild (page : Nat) : Nat :=
  childPage tree disk page (slot (loadedNode disk page)).index

/-- The crumbs over a stack on the way down that a mover takes. -/
def moverCrumbs : Nat → Nat → List CursorBreadcrumb → List CursorBreadcrumb
  | 0, _, stack => stack
  | height + 1, page, stack =>
      moverCrumbs height (slotChild tree disk slot page)
        (⟨slot (loadedNode disk page), slotChild tree disk slot page⟩ :: stack)

/-- The leaf at the end of the way. -/
def moverLeaf : Nat → Nat → Nat
  | 0, page => page
  | height + 1, page => moverLeaf height (slotChild tree disk slot page)

/-- The inner nodes on the way. -/
def moverInner : Nat → Nat → List Nat
  | 0, _ => []
  | height + 1, page =>
      page :: moverInner height (slotChild tree disk slot page)

variable {tree disk slot}

theorem loadedNode_pageNumber (page : Nat) :
    (loadedNode disk page).pageNumber = page := by
  unfold loadedNode
  split <;> rfl

theorem moverCrumbs_starts : ∀ (height page : Nat)
    (stack : List CursorBreadcrumb),
      ∃ front, moverCrumbs tree disk slot height page stack = front ++ stack := by
  intro height
  induction height with
  | zero =>
      intro page stack
      exact ⟨[], rfl⟩
  | succ height inductionHypothesis =>
      intro page stack
      obtain ⟨front, frontEq⟩ := inductionHypothesis
        (slotChild tree disk slot page)
        (⟨slot (loadedNode disk page), slotChild tree disk slot page⟩ :: stack)
      refine ⟨front ++ [⟨slot (loadedNode disk page),
        slotChild tree disk slot page⟩], ?_⟩
      rw [moverCrumbs, frontEq, List.append_assoc]
      rfl

/-- The last crumb is on the leaf. -/
theorem moverCrumbs_head : ∀ (height page : Nat) {crumb : CursorBreadcrumb}
    (rest : List CursorBreadcrumb), crumb.pageId = page →
      (moverCrumbs tree disk slot height page (crumb :: rest)).head?.map
        CursorBreadcrumb.pageId = some (moverLeaf tree disk slot height page) := by
  intro height
  induction height with
  | zero =>
      intro page crumb rest here
      rw [moverCrumbs, moverLeaf, ← here]
      rfl
  | succ height inductionHypothesis =>
      intro page crumb rest _
      rw [moverCrumbs, moverLeaf]
      exact inductionHypothesis _ _ rfl

theorem WellShaped.moverLeaf : ∀ {height page : Nat},
    WellShaped tree disk height page →
      (loadedNode disk (moverLeaf tree disk slot height page)).isLeaf = true := by
  intro height
  induction height with
  | zero => exact fun shape => shape.2
  | succ height inductionHypothesis =>
      exact fun shape => inductionHypothesis (shape.child _).2.2

/-- The run of the loop, as long as the stack has room for the way. -/
theorem traverseByMover_run : ∀ {height page fuel : Nat}
    {crumb : CursorBreadcrumb} {rest : List CursorBreadcrumb} {cursor : Cursor},
    WellShaped tree disk height page →
    cursor.breadcrumbs = crumb :: rest → crumb.pageId = page →
    rest.length + 1 + height ≤ maxBreadcrumbs → height < fuel →
      ∃ keyIndex,
        traverseByMoverLoop tree (moveBy slot) fuel cursor disk =
          (.ok (.ok (), ⟨moverLeaf tree disk slot height page, keyIndex,
            moverCrumbs tree disk slot height page (crumb :: rest)⟩), disk) := by
  intro height
  induction height with
  | zero =>
      intro page fuel crumb rest cursor shape stack here _ enough
      obtain ⟨turns, rfl⟩ := Nat.exists_eq_succ_of_ne_zero
        (Nat.pos_iff_ne_zero.mp enough)
      refine ⟨slot (loadedNode disk page), ?_⟩
      rw [traverseByMoverLoop, CursorM.bind_ok (peek_apply stack), here,
        CursorM.bind_ok (CursorM.lift_ok
          (nodercReinitRead_onDisk shape.onDisk)),
        CursorM.bind_ok CursorM.getCursor_apply,
        CursorM.bind_ok (CursorM.setCursor_apply _), if_pos shape.2]
      unfold moveBy moverLeaf moverCrumbs
      rw [stack, loadedNode_pageNumber]
      rfl
  | succ height inductionHypothesis =>
      intro page fuel crumb rest cursor shape stack here room enough
      obtain ⟨turns, rfl⟩ := Nat.exists_eq_succ_of_ne_zero
        (Nat.pos_iff_ne_zero.mp (Nat.zero_lt_of_lt enough))
      obtain ⟨readEq, _, below⟩ :=
        shape.child (slot (loadedNode disk page)).index
      have isInner : ¬ (loadedNode disk page).isLeaf = true := by
        rw [shape.2.1]
        exact Bool.false_ne_true
      obtain ⟨keyIndex, runEq⟩ := @inductionHypothesis
        (slotChild tree disk slot page) turns
        ⟨slot (loadedNode disk page), slotChild tree disk slot page⟩
        (crumb :: rest) (cursorAt
          (⟨slot (loadedNode disk page), slotChild tree disk slot page⟩ ::
            crumb :: rest)) below rfl rfl
        (by rw [List.length_cons]; omega) (Nat.lt_of_succ_lt_succ enough)
      refine ⟨keyIndex, ?_⟩
      rw [traverseByMoverLoop, CursorM.bind_ok (peek_apply stack), here,
        CursorM.bind_ok (CursorM.lift_ok
          (nodercReinitRead_onDisk shape.onDisk)),
        CursorM.bind_ok CursorM.getCursor_apply,
        CursorM.bind_ok (CursorM.setCursor_apply _), if_neg isInner]
      unfold moveBy
      simp only
      rw [readEq, CursorM.bind_ok (CursorM.lift_ok (BtM.ofExcept_ok _ disk)),
        CursorM.bind_ok (CursorM.setCursor_apply _), stack,
        CursorM.bind_ok (push_apply (by
          simp only [List.length_cons]
          omega))]
      exact runEq

/-- What a traversal by a mover leaves of a fresh cursor. -/
theorem traverseByMover_fresh {top : Nat} {cursor : Cursor} {after : Disk}
    (whole : WellShaped tree disk top tree.rootPageId) (low : top ≤ 7)
    (traversed : traverseByMoverLoop tree (moveBy slot) (maxBreadcrumbs + 1)
      (cursorCreate tree) disk = (.ok (.ok (), cursor), after)) :
    cursor.currentPageId = moverLeaf tree disk slot top tree.rootPageId ∧
      cursor.breadcrumbs = moverCrumbs tree disk slot top tree.rootPageId
        [rootCrumb tree] := by
  obtain ⟨keyIndex, runEq⟩ := @traverseByMover_run tree disk slot top
    tree.rootPageId (maxBreadcrumbs + 1) (rootCrumb tree) []
    (cursorCreate tree) whole rfl rfl
    (by unfold maxBreadcrumbs; simp only [List.length_nil]; omega)
    (by unfold maxBreadcrumbs; omega)
  rw [runEq] at traversed
  have same := (Prod.mk.inj (Except.ok.inj (Prod.mk.inj traversed).1)).2
  rw [← same]
  exact ⟨rfl, rfl⟩

/-- No crumb is left out: the page below the root is not the root. -/
theorem ownCrumbs_moverCrumbs {top : Nat}
    (whole : WellShaped tree disk top tree.rootPageId) :
    ownCrumbs (moverCrumbs tree disk slot top tree.rootPageId
        [rootCrumb tree]) =
      moverCrumbs tree disk slot top tree.rootPageId [rootCrumb tree] := by
  cases top with
  | zero => rfl
  | succ height =>
      obtain ⟨front, frontEq⟩ := @moverCrumbs_starts tree disk slot height
        (slotChild tree disk slot tree.rootPageId)
        [⟨slot (loadedNode disk tree.rootPageId),
          slotChild tree disk slot tree.rootPageId⟩, rootCrumb tree]
      rw [moverCrumbs, frontEq, ownCrumbs_append]
      exact if_neg (whole.child _).2.1

/-- A traversal by a mover leaves a path where its crumbs are a chain. -/
theorem isPath_mover_iff {top : Nat} {cursor : Cursor} {after : Disk}
    (whole : WellShaped tree disk top tree.rootPageId) (low : top ≤ 7)
    (traversed : traverseByMoverLoop tree (moveBy slot) (maxBreadcrumbs + 1)
      (cursorCreate tree) disk = (.ok (.ok (), cursor), after)) :
    IsPath tree disk false cursor ↔
      (moverCrumbs tree disk slot top tree.rootPageId
        [rootCrumb tree]).IsChain
          fun lower upper => LeadsTo tree disk upper lower := by
  obtain ⟨atLeaf, stack⟩ := traverseByMover_fresh whole low traversed
  constructor
  · intro path
    have steps := path.steps
    rw [stack, ownCrumbs_moverCrumbs whole] at steps
    exact steps
  · intro chain
    refine ⟨?_, ?_, Or.inl ?_⟩
    · rw [stack, ownCrumbs_moverCrumbs whole]
      exact chain
    · rw [stack, atLeaf]
      exact moverCrumbs_head _ _ _ rfl
    · rw [atLeaf]
      exact whole.moverLeaf

/-! ## To the smallest key -/

/-- The first slot refers to the first child, and stands for the right child
only in a node without keys. -/
theorem leadsTo_first_iff {height page : Nat} {lower : CursorBreadcrumb}
    (shape : WellShaped tree disk (height + 1) page)
    (child : lower.pageId = childPage tree disk page 0) :
    LeadsTo tree disk ⟨⟨.limIndex, 0⟩, page⟩ lower ↔ keysOn disk page ≠ 0 := by
  constructor
  · intro leads empty
    have mode := leads.mode_iff.mpr empty.symm
    cases mode
  · intro keys
    obtain ⟨readEq, _, _⟩ := shape.2.2 0 (Nat.zero_le _)
    rw [← child] at readEq
    refine ⟨Nat.zero_le _, readEq, ?_⟩
    constructor
    · intro same
      cases same
    · intro same
      exact absurd same.symm keys

theorem firstSlot_isChain_iff : ∀ {height page : Nat}
    {rest : List CursorBreadcrumb}, WellShaped tree disk height page →
      ((moverCrumbs tree disk firstSlot height page
          (⟨⟨.limIndex, 0⟩, page⟩ :: rest)).IsChain
            (fun lower upper => LeadsTo tree disk upper lower) ↔
        (⟨⟨.limIndex, 0⟩, page⟩ :: rest : List CursorBreadcrumb).IsChain
            (fun lower upper => LeadsTo tree disk upper lower) ∧
          ∀ inner ∈ moverInner tree disk firstSlot height page,
            keysOn disk inner ≠ 0) := by
  intro height
  induction height with
  | zero =>
      intro page rest _
      rw [moverCrumbs, moverInner]
      simp
  | succ height inductionHypothesis =>
      intro page rest shape
      have below := (shape.child 0).2.2
      have first := @inductionHypothesis (slotChild tree disk firstSlot page)
        (⟨⟨.limIndex, 0⟩, page⟩ :: rest) below
      have leads := @leadsTo_first_iff tree disk height page
        ⟨⟨.limIndex, 0⟩, slotChild tree disk firstSlot page⟩ shape rfl
      rw [moverCrumbs, moverInner, List.forall_mem_cons]
      refine first.trans ?_
      rw [List.isChain_cons_cons, leads]
      constructor
      · rintro ⟨⟨keys, chain⟩, others⟩
        exact ⟨chain, keys, others⟩
      · rintro ⟨chain, keys, others⟩
        exact ⟨⟨keys, chain⟩, others⟩

theorem cursorTraverseSmallest_isPath_iff {top : Nat} {cursor : Cursor}
    {after : Disk} (whole : WellShaped tree disk top tree.rootPageId)
    (low : top ≤ 7)
    (traversed : cursorTraverseSmallest tree (cursorCreate tree) disk =
      (.ok (.ok (), cursor), after)) :
    IsPath tree disk false cursor ↔
      ∀ inner ∈ moverInner tree disk firstSlot top tree.rootPageId,
        keysOn disk inner ≠ 0 := by
  rw [isPath_mover_iff whole low traversed]
  refine (firstSlot_isChain_iff whole).trans ?_
  simp

/-! ## To the largest key -/

theorem cursorTraverseLargest_isPath_iff {top : Nat} {cursor : Cursor}
    {after : Disk} (whole : WellShaped tree disk top tree.rootPageId)
    (apart : ∀ {height}, top = height + 1 → keysOn disk tree.rootPageId ≠ 0 →
      childPage tree disk tree.rootPageId 0 ≠
        childPage tree disk tree.rootPageId (keysOn disk tree.rootPageId))
    (low : top ≤ 7)
    (traversed : cursorTraverseLargest tree (cursorCreate tree) disk =
      (.ok (.ok (), cursor), after)) :
    IsPath tree disk false cursor ↔ top = 0 := by
  have moves : traverseByMoverLoop tree (moveBy lastSlot) (maxBreadcrumbs + 1)
      (cursorCreate tree) disk = (.ok (.ok (), cursor), after) := traversed
  rw [isPath_mover_iff whole low moves]
  cases top with
  | zero => exact ⟨fun _ => rfl, fun _ => List.IsChain.singleton _⟩
  | succ height =>
      refine ⟨fun chain => ?_, fun impossible => by cases impossible⟩
      obtain ⟨front, frontEq⟩ := @moverCrumbs_starts tree disk lastSlot height
        (slotChild tree disk lastSlot tree.rootPageId)
        [⟨lastSlot (loadedNode disk tree.rootPageId),
          slotChild tree disk lastSlot tree.rootPageId⟩, rootCrumb tree]
      rw [moverCrumbs, frontEq] at chain
      have leads := (List.isChain_cons_cons.mp
        (List.isChain_append.mp chain).2.1).1
      have keys : keysOn disk tree.rootPageId ≠ 0 := by
        intro empty
        have mode := leads.mode_iff.mpr empty.symm
        cases mode
      have slotEq : lastSlot (loadedNode disk tree.rootPageId) =
          ⟨.rightChild, keysOn disk tree.rootPageId⟩ := by
        unfold lastSlot
        rw [whole.2.1]
        rfl
      have childEq : slotChild tree disk lastSlot tree.rootPageId =
          childPage tree disk tree.rootPageId
            (keysOn disk tree.rootPageId) := by
        unfold slotChild
        rw [slotEq]
      have firstRead := (whole.2.2 0 (Nat.zero_le _)).1
      have sameRead := leads.reads
      have slotZero : (rootCrumb tree).keyIndex.index = 0 := rfl
      have atRoot : (rootCrumb tree).pageId = tree.rootPageId := rfl
      rw [slotZero, atRoot, firstRead] at sameRead
      exact absurd ((Except.ok.inj sameRead).trans childEq) (apart rfl keys)

end Movers

/-! ## Valid trees -/

theorem children_apart {γ : Type} {holds : Nat → PNode γ → Prop}
    {tree : BTree} {disk : Disk} {height page : Nat} {pages : List Nat}
    {flat : List γ}
    (reads : ∀ page content, holds page content →
      ReadsAs tree disk page content)
    (treeAt : TreeAt holds (height + 1) page pages flat)
    (distinct : pages.Nodup) (keys : keysOn disk page ≠ 0) :
    childPage tree disk page 0 ≠
      childPage tree disk page (keysOn disk page) := by
  obtain ⟨kids, seps, here, lengths, kidsDistinct, _⟩ := treeAt.kid
  obtain ⟨_, count, childReads⟩ := (reads page _ here).inner kids seps rfl
  have child : ∀ index (inside : index < kids.length),
      childPage tree disk page index = kids[index] := by
    intro index inside
    unfold childPage
    rw [childReads index _ (List.getElem?_eq_getElem inside)]
  rw [child 0 (by omega), child (keysOn disk page) (by omega)]
  intro same
  have indexes := (kidsDistinct distinct).getElem_inj_iff.mp same
  exact keys indexes.symm

theorem ValidTree.children_apart {tree : BTree} {disk : Disk} {height : Nat}
    (valid : ValidTree tree disk (height + 1))
    (keys : keysOn disk tree.rootPageId ≠ 0) :
    childPage tree disk tree.rootPageId 0 ≠
      childPage tree disk tree.rootPageId (keysOn disk tree.rootPageId) := by
  cases valid with
  | table isTable valid =>
      exact BtreeDb.children_apart (TableHolds.readsAs isTable valid.store)
        valid.tree (List.nodup_append.mp valid.apart).1 keys
  | index isIndex valid =>
      exact BtreeDb.children_apart (IndexHolds.readsAs isIndex valid.store)
        valid.tree (List.nodup_append.mp valid.apart).1 keys

/-- Which of the three descents leave a path: `cursor_traverse_to_ex` always,
`cursor_traverse_smallest` where every inner node on its way has a key, and
`cursor_traverse_largest` in a tree that is a single leaf. -/
theorem crumbs_isPath_iff {tree : BTree} {disk : Disk} {height : Nat}
    (valid : ValidTree tree disk height) (low : height ≤ 7) :
    (∀ compareCell found cursor after,
      cursorTraverseToEx tree (nodeSearchKeys compareCell) (cursorCreate tree)
          disk = (.ok (found, cursor), after) →
        IsPath tree disk found cursor) ∧
    (∀ cursor after,
      cursorTraverseSmallest tree (cursorCreate tree) disk =
          (.ok (.ok (), cursor), after) →
        (IsPath tree disk false cursor ↔
          ∀ inner ∈ moverInner tree disk firstSlot height tree.rootPageId,
            keysOn disk inner ≠ 0)) ∧
    ∀ cursor after,
      cursorTraverseLargest tree (cursorCreate tree) disk =
          (.ok (.ok (), cursor), after) →
        (IsPath tree disk false cursor ↔ height = 0) := by
  have whole := valid.wellShaped
  refine ⟨?_, ?_, ?_⟩
  · intro compareCell found cursor after traversed
    exact cursorTraverseToEx_isPath (searchesKeys_nodeSearchKeys compareCell)
      whole traversed
  · intro cursor after traversed
    exact cursorTraverseSmallest_isPath_iff whole low traversed
  · intro cursor after traversed
    refine cursorTraverseLargest_isPath_iff whole ?_ low traversed
    rintro height rfl keys
    exact valid.children_apart keys

/-- The cursor on the last record of a root with two leaves. -/
def lastLeafCursor : Cursor :=
  ⟨3, ⟨.limIndex, 0⟩, [⟨⟨.rightChild, 1⟩, 3⟩, ⟨⟨.limIndex, 0⟩, 1⟩]⟩

theorem twoLeaves_checked : (checkTable twoLeaves [] 1 1).isSome = true ∧
    cursorTraverseLargest deepTree (cursorCreate deepTree) twoLeaves =
      (.ok (.ok (), lastLeafCursor), twoLeaves) := by
  decide +kernel

theorem twoLeaves_valid : ValidTree deepTree twoLeaves 1 := by
  obtain ⟨⟨pages, flat⟩, checkEq⟩ :=
    Option.isSome_iff_exists.mp twoLeaves_checked.1
  exact .table rfl (checkTable_sound checkEq)

/-- `cursor_traverse_largest` goes to the right child of the root, and the
crumb of the root is at its first slot. -/
theorem largest_crumbs_no_path :
    ValidTree deepTree twoLeaves 1 ∧
      cursorTraverseLargest deepTree (cursorCreate deepTree) twoLeaves =
        (.ok (.ok (), lastLeafCursor), twoLeaves) ∧
      ¬ IsPath deepTree twoLeaves false lastLeafCursor := by
  refine ⟨twoLeaves_valid, twoLeaves_checked.2, fun path => ?_⟩
  have isLeaf := (cursorTraverseLargest_isPath_iff twoLeaves_valid.wellShaped
    (fun same keys => by
      cases same
      exact twoLeaves_valid.children_apart keys) (by decide)
    twoLeaves_checked.2).mp path
  cases isLeaf

/-- The same tree, by the general statement. -/
theorem twoLeaves_largest_isPath_iff :
    IsPath deepTree twoLeaves false lastLeafCursor ↔ (1 : Nat) = 0 :=
  (crumbs_isPath_iff twoLeaves_valid (by decide)).2.2 _ _ twoLeaves_checked.2

end BtreeDb
