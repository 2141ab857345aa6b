import BtreeDb.Tree.Check
import BtreeDb.Tree.Iterate

/-!
# The walk is the in-order walk

`inOrder` lists the positions of the records of a tree from the left to the
right.  A stack of crumbs determines what is still to come (`behind`), and one
`cursor_iter_next` takes the first position off that list.
-/

namespace BtreeDb

open PagedTree

/-! ## The positions of a tree -/

/-- The key at an index of an inner node, which is a record in index trees
only. -/
def ownPosition (tree : BTree) (page index : Nat) : List Position :=
  match tree.type with
  | .table => []
  | .index => [(page, ⟨.limIndex, index⟩)]

/-- The positions of the children from an index on, so many keys of the node
being left, with the keys between them. -/
def slotsFrom (own below : Nat → List Position) : Nat → Nat → List Position
  | 0, index => below index
  | count + 1, index =>
      below index ++ (own index ++ slotsFrom own below count (index + 1))

/-- The keys of a leaf from an index on. -/
def leafFrom (page : Nat) (count index : Nat) : List Position :=
  (List.range' index count).map fun key => (page, ⟨.limIndex, key⟩)

/-- The positions of the records below a page, in order. -/
def inOrder (tree : BTree) (disk : Disk) : Nat → Nat → List Position
  | 0, page => leafFrom page (keysOn disk page) 0
  | height + 1, page =>
      slotsFrom (ownPosition tree page)
        (fun index => inOrder tree disk height (childPage tree disk page index))
        (keysOn disk page) 0

/-- The positions below a page behind the key at an index. -/
def behindKey (tree : BTree) (disk : Disk) : Nat → Nat → Nat → List Position
  | 0, page, index => leafFrom page (keysOn disk page - (index + 1)) (index + 1)
  | height + 1, page, index =>
      slotsFrom (ownPosition tree page)
        (fun child => inOrder tree disk height (childPage tree disk page child))
        (keysOn disk page - (index + 1)) (index + 1)

/-- What comes after the subtrees that the crumbs of inner nodes, the first of
them at the given height, stand in. -/
def behind (tree : BTree) (disk : Disk) :
    Nat → List CursorBreadcrumb → List Position
  | _, [] => []
  | height, crumb :: rest =>
      (if crumb.keyIndex.index < keysOn disk crumb.pageId then
        ownPosition tree crumb.pageId crumb.keyIndex.index ++
          behindKey tree disk height crumb.pageId crumb.keyIndex.index
      else []) ++ behind tree disk (height + 1) rest

/-- What comes after the key that the last crumb stands on. -/
def remaining (tree : BTree) (disk : Disk) (height : Nat)
    (crumb : CursorBreadcrumb) (rest : List CursorBreadcrumb) :
    List Position :=
  behindKey tree disk height crumb.pageId crumb.keyIndex.index ++
    behind tree disk (height + 1) rest

def CursorBreadcrumb.position (crumb : CursorBreadcrumb) : Position :=
  (crumb.pageId, crumb.keyIndex)

theorem leafFrom_succ (page count index : Nat) :
    leafFrom page (count + 1) index =
      (page, ⟨.limIndex, index⟩) :: leafFrom page count (index + 1) := by
  unfold leafFrom
  rw [List.range'_succ, List.map_cons]

theorem behindKey_leaf (tree : BTree) (disk : Disk) (page index : Nat) :
    behindKey tree disk 0 page index =
      leafFrom page (keysOn disk page - (index + 1)) (index + 1) := rfl

/-! ## Stacks -/

/-- Every node of the tree has a key. -/
def EveryNodeKeyed (tree : BTree) (disk : Disk) : Nat → Nat → Prop
  | 0, page => 0 < keysOn disk page
  | height + 1, page =>
      0 < keysOn disk page ∧
      ∀ index, index ≤ keysOn disk page →
        EveryNodeKeyed tree disk height (childPage tree disk page index)

theorem EveryNodeKeyed.pos {tree : BTree} {disk : Disk} {height page : Nat}
    (keyed : EveryNodeKeyed tree disk height page) : 0 < keysOn disk page := by
  cases height with
  | zero => exact keyed
  | succ height => exact keyed.1

/-- A crumb stands on a key, or on the right child. -/
def OnKey (disk : Disk) (crumb : CursorBreadcrumb) : Prop :=
  crumb.keyIndex.mode = .limIndex ∧
    crumb.keyIndex.index < keysOn disk crumb.pageId

def OnRightChild (disk : Disk) (crumb : CursorBreadcrumb) : Prop :=
  crumb.keyIndex.mode = .rightChild ∧
    crumb.keyIndex.index = keysOn disk crumb.pageId

/-- The subtree of a crumb. -/
structure Subtree (tree : BTree) (disk : Disk) (height page : Nat) : Prop where
  shape : WellShaped tree disk height page
  keyed : EveryNodeKeyed tree disk height page

theorem Subtree.child {tree : BTree} {disk : Disk} {height page index : Nat}
    (subtree : Subtree tree disk (height + 1) page)
    (bound : index ≤ keysOn disk page) :
    readCellPage tree (loadedNode disk page) index =
        .ok (childPage tree disk page index) ∧
      Subtree tree disk height (childPage tree disk page index) := by
  obtain ⟨readEq, _, below⟩ := subtree.shape.2.2 index bound
  exact ⟨readEq, below, subtree.keyed.2 index bound⟩

/-- The crumbs of the nodes above a subtree, the nearest one at the given
height, up to the root at height `top`. -/
inductive StackAt (tree : BTree) (disk : Disk) (top : Nat) :
    Nat → List CursorBreadcrumb → Prop
  | empty : StackAt tree disk top (top + 1) []
  | crumb {height : Nat} {crumb : CursorBreadcrumb}
      {rest : List CursorBreadcrumb}
      (subtree : Subtree tree disk height crumb.pageId)
      (place : OnKey disk crumb ∨ OnRightChild disk crumb)
      (above : StackAt tree disk top (height + 1) rest) :
      StackAt tree disk top height (crumb :: rest)

section Stacks

variable {tree : BTree} {disk : Disk} {top height : Nat}
variable {rest : List CursorBreadcrumb}

theorem StackAt.length (stack : StackAt tree disk top height rest) :
    rest.length + height = top + 1 := by
  induction stack with
  | empty => simp
  | crumb subtree place above inductionHypothesis =>
      rw [List.length_cons]
      omega

theorem StackAt.pages (stack : StackAt tree disk top height rest) :
    ∀ crumb ∈ rest, crumb.pageId ≠ 0 := by
  induction stack with
  | empty => simp
  | crumb subtree place above inductionHypothesis =>
      intro crumb member
      rcases List.mem_cons.mp member with rfl | deeper
      · exact subtree.shape.onDisk.1
      · exact inductionHypothesis crumb deeper

/-- Over crumbs at right children nothing is left behind. -/
theorem StackAt.dropRight (stack : StackAt tree disk top height rest) :
    ∃ higher, StackAt tree disk top higher
        (rest.dropWhile fun below => below.keyIndex.mode == .rightChild) ∧
      behind tree disk height rest =
        behind tree disk higher
          (rest.dropWhile fun below => below.keyIndex.mode == .rightChild) ∧
      height ≤ higher ∧
      ∀ crumb ∈ (rest.dropWhile fun below =>
          below.keyIndex.mode == .rightChild).head?, OnKey disk crumb := by
  induction stack with
  | empty => exact ⟨_, .empty, rfl, Nat.le_refl _, by simp⟩
  | @crumb height crumb rest subtree place above inductionHypothesis =>
      rw [List.dropWhile_cons]
      rcases place with onKey | ⟨atRight, atEnd⟩
      · have stays : (crumb.keyIndex.mode == .rightChild) = false := by
          rw [onKey.1]
          rfl
        simp only [stays, Bool.false_eq_true, if_false]
        refine ⟨height, .crumb subtree (Or.inl onKey) above, rfl,
          Nat.le_refl _, ?_⟩
        intro crumb isHead
        rw [← Option.some.inj isHead]
        exact onKey
      · obtain ⟨higher, lower, same, order, head⟩ := inductionHypothesis
        have goes : (crumb.keyIndex.mode == .rightChild) = true := by
          rw [atRight]
          rfl
        simp only [goes, if_true]
        refine ⟨higher, lower, ?_, by omega, head⟩
        rw [behind, if_neg (by omega), List.nil_append, same]

/-- Going down to the smallest key of a subtree. -/
theorem cursorTraverseSmallest_run :
    ∀ {height page fuel : Nat} {rest : List CursorBreadcrumb} {cursor : Cursor},
      Subtree tree disk height page →
      StackAt tree disk top (height + 1) rest → top + 1 ≤ maxBreadcrumbs →
      cursor.breadcrumbs = ⟨⟨.limIndex, 0⟩, page⟩ :: rest → height < fuel →
      ∃ leaf above,
        traverseByMoverLoop tree moveToBegin fuel cursor disk =
          (.ok (.ok (), cursorAt (leaf :: above)), disk) ∧
        StackAt tree disk top 0 (leaf :: above) ∧ OnKey disk leaf ∧
        leaf.position :: remaining tree disk 0 leaf above =
          inOrder tree disk height page ++ behind tree disk (height + 1) rest := by
  intro height
  induction height with
  | zero =>
      intro page fuel rest cursor subtree stack room crumbs enough
      obtain ⟨turns, rfl⟩ := Nat.exists_eq_succ_of_ne_zero
        (Nat.pos_iff_ne_zero.mp enough)
      have shape := subtree.shape
      have keys := subtree.keyed.pos
      have onKey : OnKey disk ⟨⟨.limIndex, 0⟩, page⟩ := ⟨rfl, keys⟩
      have loadedPage : (loadedNode disk page).pageNumber = page := by
        unfold loadedNode
        split <;> rfl
      refine ⟨⟨⟨.limIndex, 0⟩, page⟩, rest, ?_,
        .crumb subtree (Or.inl onKey) stack, onKey, ?_⟩
      · rw [traverseByMoverLoop, CursorM.bind_ok (peek_apply crumbs),
          CursorM.bind_ok (CursorM.lift_ok
            (nodercReinitRead_onDisk shape.onDisk)),
          CursorM.bind_ok CursorM.getCursor_apply,
          CursorM.bind_ok (CursorM.setCursor_apply _), if_pos shape.2]
        unfold moveToBegin
        rw [crumbs, loadedPage]
        rfl
      · unfold remaining behindKey inOrder CursorBreadcrumb.position
        simp only
        obtain ⟨count, countEq⟩ := Nat.exists_eq_succ_of_ne_zero
          (Nat.pos_iff_ne_zero.mp keys)
        rw [countEq, leafFrom_succ]
        rfl
  | succ height inductionHypothesis =>
      intro page fuel rest cursor subtree stack room crumbs enough
      obtain ⟨turns, rfl⟩ := Nat.exists_eq_succ_of_ne_zero
        (Nat.pos_iff_ne_zero.mp (Nat.zero_lt_of_lt enough))
      have shape := subtree.shape
      have keys := subtree.keyed.pos
      have onKey : OnKey disk ⟨⟨.limIndex, 0⟩, page⟩ := ⟨rfl, keys⟩
      obtain ⟨readEq, child⟩ := subtree.child (Nat.zero_le _)
      have own : StackAt tree disk top (height + 1)
          (⟨⟨.limIndex, 0⟩, page⟩ :: rest) :=
        .crumb subtree (Or.inl onKey) stack
      have deep := own.length
      rw [List.length_cons] at deep
      obtain ⟨leaf, above, runEq, leafStack, leafKey, listEq⟩ :=
        @inductionHypothesis _ _ _ (cursorAt
          (⟨⟨.limIndex, 0⟩, childPage tree disk page 0⟩ ::
            ⟨⟨.limIndex, 0⟩, page⟩ :: rest)) child own room rfl
          (Nat.lt_of_succ_lt_succ enough)
      refine ⟨leaf, above, ?_, leafStack, leafKey, ?_⟩
      · have isInner : ¬ (loadedNode disk page).isLeaf = true := by
          rw [shape.2.1]
          exact Bool.false_ne_true
        rw [traverseByMoverLoop, CursorM.bind_ok (peek_apply crumbs),
          CursorM.bind_ok (CursorM.lift_ok
            (nodercReinitRead_onDisk shape.onDisk)),
          CursorM.bind_ok CursorM.getCursor_apply,
          CursorM.bind_ok (CursorM.setCursor_apply _), if_neg isInner]
        unfold moveToBegin
        simp only
        rw [readEq, CursorM.bind_ok (CursorM.lift_ok (BtM.ofExcept_ok _ disk)),
          CursorM.bind_ok (CursorM.setCursor_apply _), crumbs,
          CursorM.bind_ok (push_apply (by
            simp only [List.length_cons]
            omega))]
        exact runEq
      · rw [listEq, behind, if_pos keys, inOrder]
        unfold behindKey
        simp only
        obtain ⟨count, countEq⟩ := Nat.exists_eq_succ_of_ne_zero
          (Nat.pos_iff_ne_zero.mp keys)
        rw [countEq, slotsFrom]
        simp only [Nat.succ_eq_add_one, Nat.add_sub_cancel, Nat.zero_add,
          List.append_assoc]

theorem slotsFrom_eq_behindKey {page index : Nat}
    (bound : index ≤ keysOn disk page) :
    slotsFrom (ownPosition tree page)
        (fun child => inOrder tree disk height (childPage tree disk page child))
        (keysOn disk page - index) index =
      inOrder tree disk height (childPage tree disk page index) ++
        (if index < keysOn disk page then
          ownPosition tree page index ++
            behindKey tree disk (height + 1) page index
        else []) := by
  by_cases inside : index < keysOn disk page
  · have countEq : keysOn disk page - index =
        keysOn disk page - (index + 1) + 1 := by omega
    rw [countEq, slotsFrom, if_pos inside]
    rfl
  · have noneLeft : keysOn disk page - index = 0 := by omega
    rw [noneLeft, slotsFrom, if_neg inside, List.append_nil]

variable {crumb : CursorBreadcrumb}

/-! ## One step -/

theorem movedRight_pageId (node : BTreeNode) :
    (movedRight node crumb).pageId = crumb.pageId := by
  unfold movedRight
  dsimp only
  split
  · split <;> rfl
  · rfl

/-- In an inner node there is always something to the right of a key. -/
theorem movedRight_inner (onKey : OnKey disk crumb)
    (isInner : (loadedNode disk crumb.pageId).isLeaf = false) :
    hasRight (loadedNode disk crumb.pageId) crumb = true ∧
      (movedRight (loadedNode disk crumb.pageId) crumb).keyIndex.index =
        crumb.keyIndex.index + 1 ∧
      (OnKey disk (movedRight (loadedNode disk crumb.pageId) crumb) ∨
        OnRightChild disk
          (movedRight (loadedNode disk crumb.pageId) crumb)) := by
  obtain ⟨atIndex, inside⟩ := onKey
  unfold keysOn at inside
  refine ⟨?_, ?_, ?_⟩
  · unfold hasRight
    simp [inside, isInner]
  · unfold movedRight
    rw [if_pos inside]
    split <;> rfl
  · unfold OnKey OnRightChild keysOn
    rw [movedRight_pageId]
    unfold movedRight
    rw [if_pos inside]
    by_cases last : (loadedNode disk crumb.pageId).numKeys =
        crumb.keyIndex.index + 1
    · rw [if_pos last]
      refine Or.inr ⟨?_, last.symm⟩
      simp only [isInner, Bool.false_eq_true, if_false]
    · rw [if_neg last]
      refine Or.inl ⟨atIndex, ?_⟩
      simp only
      omega

/-- From a key of an inner node to the next leaf. -/
theorem intoChild_run (room : top + 1 ≤ maxBreadcrumbs)
    (stack : StackAt tree disk top (height + 1) (crumb :: rest))
    (onKey : OnKey disk crumb) :
    ∃ leaf above,
      intoChild tree (loadedNode disk crumb.pageId)
          (cursorAt (movedRight (loadedNode disk crumb.pageId) crumb :: rest))
          disk =
        (.ok (.ok (), cursorAt (leaf :: above)), disk) ∧
      StackAt tree disk top 0 (leaf :: above) ∧ OnKey disk leaf ∧
      leaf.position :: remaining tree disk 0 leaf above =
        remaining tree disk (height + 1) crumb rest := by
  cases stack with
  | crumb subtree place above =>
      have isInner := subtree.shape.2.1
      obtain ⟨_, indexEq, nextPlace⟩ := movedRight_inner onKey isInner
      generalize nextEq : movedRight (loadedNode disk crumb.pageId) crumb =
        next at *
      have samePage : next.pageId = crumb.pageId := by
        rw [← nextEq, movedRight_pageId]
      have bound : next.keyIndex.index ≤ keysOn disk crumb.pageId := by
        have inside := onKey.2
        omega
      obtain ⟨readEq, child⟩ := subtree.child bound
      have nextStack : StackAt tree disk top (height + 1) (next :: rest) :=
        .crumb (samePage ▸ subtree) nextPlace above
      have deep := nextStack.length
      rw [List.length_cons] at deep
      obtain ⟨leaf, leafAbove, runEq, leafStack, leafKey, listEq⟩ :=
        @cursorTraverseSmallest_run tree disk top height
          (childPage tree disk crumb.pageId next.keyIndex.index)
          (maxBreadcrumbs + 1) _
          (cursorAt (⟨⟨.limIndex, 0⟩,
            childPage tree disk crumb.pageId next.keyIndex.index⟩ ::
              next :: rest))
          child nextStack room rfl (by omega)
      refine ⟨leaf, leafAbove, ?_, leafStack, leafKey, ?_⟩
      · have standsAt : (cursorAt (next :: rest)).currentKeyIndex =
            next.keyIndex := rfl
        unfold intoChild
        rw [if_neg (by rw [isInner]; exact Bool.false_ne_true),
          CursorM.bind_ok CursorM.getCursor_apply, standsAt, readEq,
          CursorM.bind_ok (CursorM.lift_ok (BtM.ofExcept_ok _ disk)),
          CursorM.bind_ok (CursorM.setCursor_apply _),
          CursorM.bind_ok (push_apply (by
            simp only [cursorAt_breadcrumbs, List.length_cons]
            omega))]
        exact runEq
      · have fromNext : behindKey tree disk (height + 1) crumb.pageId
            crumb.keyIndex.index =
            slotsFrom (ownPosition tree crumb.pageId)
              (fun child => inOrder tree disk height
                (childPage tree disk crumb.pageId child))
              (keysOn disk crumb.pageId - next.keyIndex.index)
              next.keyIndex.index := by
          rw [behindKey, indexEq]
        rw [listEq, behind, samePage]
        unfold remaining
        rw [fromNext, slotsFrom_eq_behindKey bound]
        simp only [List.append_assoc]

/-- A cursor on a record, with the list of the positions still to come. -/
structure OnRecord (tree : BTree) (disk : Disk) (top : Nat)
    (cursor : Cursor) (later : List Position) : Prop where
  place : ∃ height crumb rest, cursor = cursorAt (crumb :: rest) ∧
    StackAt tree disk top height (crumb :: rest) ∧ OnKey disk crumb ∧
    (tree.type = .table → height = 0) ∧
    remaining tree disk height crumb rest = later

/-- A call takes the first of the positions still to come. -/
def TakesNext (tree : BTree) (disk : Disk) (top : Nat)
    (outcome : Except Stop (Except BTreeE Unit × Cursor) × Disk) :
    List Position → Prop
  | [] => ∃ later, outcome = (.ok (.error .errIterDone, later), disk)
  | position :: later => ∃ cursor, outcome = (.ok (.ok (), cursor), disk) ∧
      cursor.position = position ∧ OnRecord tree disk top cursor later

/-- The next key of the same leaf. -/
theorem leaf_hasRight
    (stack : StackAt tree disk top 0 (crumb :: rest)) (onKey : OnKey disk crumb)
    (more : crumb.keyIndex.index + 1 < keysOn disk crumb.pageId) :
    hasRight (loadedNode disk crumb.pageId) crumb = true ∧
      (cursorAt (movedRight (loadedNode disk crumb.pageId) crumb ::
          rest)).position ::
        remaining tree disk 0
          (movedRight (loadedNode disk crumb.pageId) crumb) rest =
        remaining tree disk 0 crumb rest ∧
      OnRecord tree disk top
        (cursorAt (movedRight (loadedNode disk crumb.pageId) crumb :: rest))
        (remaining tree disk 0
          (movedRight (loadedNode disk crumb.pageId) crumb) rest) := by
  obtain ⟨atIndex, inside⟩ := onKey
  have movedEq : movedRight (loadedNode disk crumb.pageId) crumb =
      ⟨⟨.limIndex, crumb.keyIndex.index + 1⟩, crumb.pageId⟩ := by
    unfold movedRight
    unfold keysOn at inside more
    dsimp only
    rw [if_pos inside, if_neg (by omega), atIndex]
  rw [movedEq]
  refine ⟨?_, ?_, ?_⟩
  · unfold hasRight
    unfold keysOn at inside more
    have notLast : crumb.keyIndex.index + 1 ≠
        (loadedNode disk crumb.pageId).numKeys := by omega
    simp [inside, notLast]
  · have countEq : keysOn disk crumb.pageId - (crumb.keyIndex.index + 1) =
        keysOn disk crumb.pageId - (crumb.keyIndex.index + 1 + 1) + 1 := by
      omega
    unfold remaining
    rw [behindKey_leaf, behindKey_leaf, countEq, leafFrom_succ]
    rfl
  · cases stack with
    | crumb subtree place above =>
        exact ⟨0, _, rest, rfl, .crumb subtree (Or.inl ⟨rfl, more⟩) above,
          ⟨rfl, more⟩, fun _ => rfl, rfl⟩

/-- At the last key of a leaf. -/
theorem leaf_ends (stack : StackAt tree disk top 0 (crumb :: rest))
    (onKey : OnKey disk crumb)
    (last : ¬ crumb.keyIndex.index + 1 < keysOn disk crumb.pageId) :
    hasRight (loadedNode disk crumb.pageId) crumb = false ∧
      remaining tree disk 0 crumb rest = behind tree disk 1 rest := by
  obtain ⟨_, inside⟩ := onKey
  have countEq : crumb.keyIndex.index + 1 = keysOn disk crumb.pageId := by
    omega
  cases stack with
  | crumb subtree place above =>
      refine ⟨?_, ?_⟩
      · unfold hasRight
        unfold keysOn at countEq
        simp [countEq, subtree.shape.2]
      · unfold remaining
        rw [behindKey_leaf, ← countEq, Nat.sub_self]
        rfl

theorem StackAt.few (stack : StackAt tree disk top height (crumb :: rest))
    (room : top + 1 ≤ maxBreadcrumbs) : rest.length < maxBreadcrumbs := by
  have lengths := stack.length
  rw [List.length_cons] at lengths
  omega

theorem StackAt.above (stack : StackAt tree disk top height (crumb :: rest)) :
    StackAt tree disk top (height + 1) rest := by
  cases stack with
  | crumb subtree place above => exact above

theorem StackAt.subtree
    (stack : StackAt tree disk top height (crumb :: rest)) :
    Subtree tree disk height crumb.pageId := by
  cases stack with
  | crumb subtree place above => exact subtree

/-- The walk of an index tree. -/
theorem ibtreeIterNext_takes (isIndex : tree.type = .index)
    (room : top + 1 ≤ maxBreadcrumbs)
    (stack : StackAt tree disk top height (crumb :: rest))
    (onKey : OnKey disk crumb) :
    TakesNext tree disk top
      (ibtreeIterNext tree (cursorAt (crumb :: rest)) disk)
      (remaining tree disk height crumb rest) := by
  have onDisk := stack.subtree.shape.onDisk
  have asserted := @assertOnKey_apply disk (cursorAt (crumb :: rest)) onDisk.1
    (by
      intro atRight
      have atIndex := onKey.1.symm.trans atRight
      cases atIndex)
  have standsAt : (cursorAt (crumb :: rest)).currentPageId = crumb.pageId := rfl
  have moved := @moveRight_apply disk (loadedNode disk crumb.pageId) crumb rest
    (stack.few room)
  unfold ibtreeIterNext
  rw [CursorM.bind_ok asserted]
  cases height with
  | succ height =>
      obtain ⟨leaf, above, runEq, leafStack, leafKey, listEq⟩ :=
        intoChild_run room stack onKey
      have isInner := stack.subtree.shape.2.1
      rw [(movedRight_inner onKey isInner).1] at moved
      rw [← listEq]
      refine ⟨cursorAt (leaf :: above), ?_, rfl,
        ⟨0, leaf, above, rfl, leafStack, leafKey, fun _ => rfl, rfl⟩⟩
      refine orIterDone_of ?_
      rw [CursorM.bind_ok CursorM.getCursor_apply, standsAt,
        CursorM.bind_ok (CursorM.lift_ok (nodercReinitRead_onDisk onDisk)),
        CursorM.bind_ok (CursorM.attempt_of moved)]
      exact runEq
  | zero =>
      have isLeaf := stack.subtree.shape.2
      by_cases more : crumb.keyIndex.index + 1 < keysOn disk crumb.pageId
      · obtain ⟨right, listEq, onRecord⟩ := leaf_hasRight stack onKey more
        rw [right] at moved
        rw [← listEq]
        refine ⟨_, orIterDone_of ?_, rfl, onRecord⟩
        rw [CursorM.bind_ok CursorM.getCursor_apply, standsAt,
          CursorM.bind_ok (CursorM.lift_ok (nodercReinitRead_onDisk onDisk)),
          CursorM.bind_ok (CursorM.attempt_of moved)]
        unfold intoChild
        simp only [if_true]
        rw [if_pos isLeaf]
        rfl
      · obtain ⟨noRight, listEq⟩ := leaf_ends stack onKey more
        rw [noRight] at moved
        obtain ⟨higher, lower, same, order, head⟩ := stack.above.dropRight
        have popped := @popWhile_apply disk atRightChild rfl
          (fun _ => rfl) (maxBreadcrumbs + 1)
          (movedRight (loadedNode disk crumb.pageId) crumb) rest
          (Nat.lt_succ_of_lt (stack.few room)) stack.above.pages
        rw [listEq, same]
        generalize rest.dropWhile (fun below =>
          below.keyIndex.mode == .rightChild) = left at *
        cases left with
        | nil =>
            refine ⟨_, @orIterDone_done disk _ _ (.ok ()) ?_⟩
            rw [CursorM.bind_ok CursorM.getCursor_apply, standsAt,
              CursorM.bind_ok (CursorM.lift_ok (nodercReinitRead_onDisk onDisk)),
              CursorM.bind_ok (CursorM.attempt_of moved)]
            exact popped
        | cons next deeper =>
            have nextKey := head next rfl
            rw [behind, if_pos nextKey.2]
            have own : ownPosition tree next.pageId next.keyIndex.index =
                [next.position] := by
              unfold ownPosition CursorBreadcrumb.position
              rw [isIndex, ← nextKey.1]
            rw [own]
            refine ⟨_, orIterDone_of ?_, rfl,
              ⟨higher, next, deeper, rfl, lower, nextKey,
                (fun isTable => by rw [isIndex] at isTable; cases isTable),
                rfl⟩⟩
            rw [CursorM.bind_ok CursorM.getCursor_apply, standsAt,
              CursorM.bind_ok (CursorM.lift_ok (nodercReinitRead_onDisk onDisk)),
              CursorM.bind_ok (CursorM.attempt_of moved)]
            exact popped

/-- The turn of the loop that starts at a key of an inner node. -/
theorem btreeIterLoop_inner (room : top + 1 ≤ maxBreadcrumbs)
    (stack : StackAt tree disk top (height + 1) (crumb :: rest))
    (onKey : OnKey disk crumb) (fuel : Nat) :
    ∃ leaf above,
      btreeIterLoop tree (fuel + 1) (cursorAt (crumb :: rest)) disk =
        (.ok (.ok (), cursorAt (leaf :: above)), disk) ∧
      StackAt tree disk top 0 (leaf :: above) ∧ OnKey disk leaf ∧
      leaf.position :: remaining tree disk 0 leaf above =
        remaining tree disk (height + 1) crumb rest := by
  obtain ⟨leaf, above, runEq, leafStack, leafKey, listEq⟩ :=
    intoChild_run room stack onKey
  have onDisk := stack.subtree.shape.onDisk
  have standsAt : (cursorAt (crumb :: rest)).currentPageId = crumb.pageId := rfl
  have moved := @moveRight_apply disk (loadedNode disk crumb.pageId) crumb rest
    (stack.few room)
  rw [(movedRight_inner onKey stack.subtree.shape.2.1).1] at moved
  refine ⟨leaf, above, ?_, leafStack, leafKey, listEq⟩
  rw [btreeIterLoop, CursorM.bind_ok CursorM.getCursor_apply, standsAt,
    CursorM.bind_ok (CursorM.lift_ok (nodercReinitRead_onDisk onDisk)),
    CursorM.bind_ok (CursorM.attempt_of moved)]
  exact runEq

/-- The walk of a table tree. -/
theorem btreeIterNext_takes (isTable : tree.type = .table)
    (room : top + 1 ≤ maxBreadcrumbs)
    (stack : StackAt tree disk top 0 (crumb :: rest))
    (onKey : OnKey disk crumb) :
    TakesNext tree disk top
      (btreeIterNext tree (cursorAt (crumb :: rest)) disk)
      (remaining tree disk 0 crumb rest) := by
  have onDisk := stack.subtree.shape.onDisk
  have asserted := @assertOnKey_apply disk (cursorAt (crumb :: rest)) onDisk.1
    (by
      intro atRight
      have atIndex := onKey.1.symm.trans atRight
      cases atIndex)
  have standsAt : (cursorAt (crumb :: rest)).currentPageId = crumb.pageId := rfl
  have moved := @moveRight_apply disk (loadedNode disk crumb.pageId) crumb rest
    (stack.few room)
  have isLeaf := stack.subtree.shape.2
  unfold btreeIterNext
  rw [CursorM.bind_ok asserted]
  by_cases more : crumb.keyIndex.index + 1 < keysOn disk crumb.pageId
  · obtain ⟨right, listEq, onRecord⟩ := leaf_hasRight stack onKey more
    rw [right] at moved
    rw [← listEq]
    refine ⟨_, orIterDone_of ?_, rfl, onRecord⟩
    rw [btreeIterLoop, CursorM.bind_ok CursorM.getCursor_apply, standsAt,
      CursorM.bind_ok (CursorM.lift_ok (nodercReinitRead_onDisk onDisk)),
      CursorM.bind_ok (CursorM.attempt_of moved)]
    unfold intoChild
    simp only [if_true]
    rw [if_pos isLeaf]
    rfl
  · obtain ⟨noRight, listEq⟩ := leaf_ends stack onKey more
    rw [noRight] at moved
    obtain ⟨higher, lower, same, order, head⟩ := stack.above.dropRight
    have goes : ∀ {crumb : CursorBreadcrumb} {rest : List CursorBreadcrumb},
        crumb.pageId ≠ 0 → atRightChildOfPage (cursorAt (crumb :: rest)) =
          (crumb.keyIndex.mode == .rightChild) := by
      intro crumb rest present
      have onPage : (crumb.pageId != 0) = true := bne_iff_ne.mpr present
      change ((crumb.keyIndex.mode == .rightChild) && (crumb.pageId != 0)) = _
      rw [onPage, Bool.and_true]
    have popped := @popWhile_apply disk atRightChildOfPage rfl goes
      (maxBreadcrumbs + 1)
      (movedRight (loadedNode disk crumb.pageId) crumb) rest
      (Nat.lt_succ_of_lt (stack.few room)) stack.above.pages
    have called : btreeIterLoop tree (maxBreadcrumbs + 1)
        (cursorAt (crumb :: rest)) disk =
        (do
          let cursor ← CursorM.getCursor
          if cursor.currentPageId != 0 then btreeIterLoop tree maxBreadcrumbs
          else pure () : CursorM Unit)
          (cursorAt (rest.dropWhile fun below =>
            below.keyIndex.mode == .rightChild)) disk := by
      rw [btreeIterLoop, CursorM.bind_ok CursorM.getCursor_apply, standsAt,
        CursorM.bind_ok (CursorM.lift_ok (nodercReinitRead_onDisk onDisk)),
        CursorM.bind_ok (CursorM.attempt_of moved)]
      simp only [Bool.false_eq_true, if_false]
      rw [CursorM.bind_ok popped]
    rw [listEq, same]
    generalize rest.dropWhile (fun below =>
      below.keyIndex.mode == .rightChild) = left at *
    cases left with
    | nil => exact ⟨_, orIterDone_done called⟩
    | cons next deeper =>
        have nextKey := head next rfl
        obtain ⟨below, rfl⟩ : ∃ below, higher = below + 1 :=
          ⟨higher - 1, by omega⟩
        obtain ⟨leaf, above, runEq, leafStack, leafKey, leafEq⟩ :=
          btreeIterLoop_inner room lower nextKey 7
        have own : ownPosition tree next.pageId next.keyIndex.index = [] := by
          unfold ownPosition
          rw [isTable]
        rw [behind, if_pos nextKey.2, own, List.nil_append]
        unfold remaining at leafEq
        rw [← leafEq]
        refine ⟨cursorAt (leaf :: above), orIterDone_of ?_, rfl,
          ⟨0, leaf, above, rfl, leafStack, leafKey, fun _ => rfl, rfl⟩⟩
        have present : ((cursorAt (next :: deeper)).currentPageId != 0) =
            true := bne_iff_ne.mpr lower.subtree.shape.onDisk.1
        rw [called, CursorM.bind_ok CursorM.getCursor_apply, if_pos present]
        exact runEq

/-- One call of `cursor_iter_next` takes the next position. -/
theorem cursorIterNext_takes {cursor : Cursor} {later : List Position}
    (room : top + 1 ≤ maxBreadcrumbs)
    (onRecord : OnRecord tree disk top cursor later) :
    TakesNext tree disk top (cursorIterNext tree cursor disk) later := by
  obtain ⟨height, crumb, rest, rfl, stack, onKey, inLeaf, rfl⟩ :=
    onRecord.place
  unfold cursorIterNext
  cases kind : tree.type with
  | index => exact ibtreeIterNext_takes kind room stack onKey
  | table =>
      have atLeaf := inLeaf kind
      subst atLeaf
      exact btreeIterNext_takes kind room stack onKey

/-! ## The whole walk -/

theorem walkOn_takes (room : top + 1 ≤ maxBreadcrumbs) :
    ∀ {later : List Position} {cursor : Cursor} {fuel : Nat},
      OnRecord tree disk top cursor later → later.length < fuel →
        walkOn tree fuel cursor disk = (.ok (later, .errIterDone), disk) := by
  intro later
  induction later with
  | nil =>
      intro cursor fuel onRecord enough
      obtain ⟨turns, rfl⟩ := Nat.exists_eq_succ_of_ne_zero
        (Nat.pos_iff_ne_zero.mp enough)
      obtain ⟨last, stepEq⟩ := cursorIterNext_takes room onRecord
      rw [walkOn, BtM.bind_ok stepEq]
      rfl
  | cons position later inductionHypothesis =>
      intro cursor fuel onRecord enough
      obtain ⟨turns, rfl⟩ := Nat.exists_eq_succ_of_ne_zero
        (Nat.pos_iff_ne_zero.mp (Nat.zero_lt_of_lt enough))
      obtain ⟨next, stepEq, positionEq, nextRecord⟩ :=
        cursorIterNext_takes room onRecord
      rw [walkOn, BtM.bind_ok stepEq]
      simp only
      rw [BtM.bind_ok (inductionHypothesis nextRecord
        (Nat.lt_of_succ_lt_succ enough)), positionEq]
      rfl

/-- A walk that stops at the given positions and then reports the end. -/
def WalksThrough (tree : BTree) (disk : Disk) (positions : List Position) :
    Prop :=
  ∀ fuel, positions.length ≤ fuel →
    cursorWalk tree fuel disk = (.ok (positions, .errIterDone), disk)

theorem walksThrough_inOrder
    (subtree : Subtree tree disk top tree.rootPageId)
    (room : top + 1 ≤ maxBreadcrumbs) :
    WalksThrough tree disk (inOrder tree disk top tree.rootPageId) := by
  intro fuel enough
  obtain ⟨leaf, above, runEq, leafStack, leafKey, listEq⟩ :=
    @cursorTraverseSmallest_run tree disk top top tree.rootPageId
      (maxBreadcrumbs + 1) [] (cursorCreate tree) subtree .empty room rfl
      (by omega)
  rw [behind, List.append_nil] at listEq
  rw [← listEq] at enough ⊢
  unfold cursorWalk cursorIterBegin cursorTraverseSmallest
  rw [BtM.bind_ok runEq]
  simp only
  rw [BtM.bind_ok (walkOn_takes room
    ⟨0, leaf, above, rfl, leafStack, leafKey, fun _ => rfl, rfl⟩ enough)]
  rfl

end Stacks

end BtreeDb
