import BtreeDb.Lib.ListEdit
import BtreeDb.Lib.PagedLeaf

/-!
# Rows of subtrees

The children of an inner node with the separators between them.  A row is cut
at a separator and two rows are joined around one: that is what becomes of the
children of two siblings when children go from one to the other, or when the
siblings become one node.  `Siblings` are two neighbours below an inner node,
with what it takes to put others in their place.
-/

namespace PagedTree

variable {γ : Type} {holds after : Nat → PNode γ → Prop}

/-- Subtrees of one height: the pages they start at, the separators between
them, the pages they take, and their items in order. -/
inductive Row (holds : Nat → PNode γ → Prop) (height : Nat) :
    List Nat → List γ → List Nat → List γ → Prop
  | single {kid : Nat} {own : List Nat} {flat : List γ}
      (tree : TreeAt holds height kid own flat) :
      Row holds height [kid] [] own flat
  | cons {kid : Nat} {own : List Nat} {part : List γ} {sep : γ}
      {kids : List Nat} {seps : List γ} {pages whole : List Nat}
      {flat : List γ} (tree : TreeAt holds height kid own part)
      (rest : Row holds height kids seps pages flat)
      (wholeEq : whole.Perm (own ++ pages)) :
      Row holds height (kid :: kids) (sep :: seps) whole (part ++ sep :: flat)

theorem Row.mono {height : Nat} {kids pages : List Nat} {seps flat : List γ}
    (row : Row holds height kids seps pages flat) :
    (∀ own ∈ pages, ∀ node, holds own node → after own node) →
      Row after height kids seps pages flat := by
  induction row with
  | single tree =>
      intro kept
      exact .single (tree.mono kept)
  | cons tree rest wholeEq inductionHypothesis =>
      intro kept
      apply Row.cons _ _ wholeEq
      · apply tree.mono
        intro page member
        exact kept page (wholeEq.mem_iff.mpr (List.mem_append_left _ member))
      · apply inductionHypothesis
        intro page member
        exact kept page (wholeEq.mem_iff.mpr (List.mem_append_right _ member))

theorem Row.perm {height : Nat} {kids pages others : List Nat}
    {seps flat : List γ} (row : Row holds height kids seps pages flat)
    (same : others.Perm pages) : Row holds height kids seps others flat := by
  cases row with
  | single tree => exact .single (tree.perm same)
  | cons tree rest wholeEq => exact .cons tree rest (same.trans wholeEq)

theorem Row.lengths {height : Nat} {kids pages : List Nat}
    {seps flat : List γ} (row : Row holds height kids seps pages flat) :
    kids.length = seps.length + 1 := by
  induction row with
  | single tree => rfl
  | cons tree rest wholeEq inductionHypothesis =>
      rw [List.length_cons, List.length_cons, inductionHypothesis]

/-- A row of one subtree. -/
theorem Row.tree_of_single {height kid : Nat} {pages : List Nat}
    {flat : List γ} (row : Row holds height [kid] [] pages flat) :
    TreeAt holds height kid pages flat := by
  cases row with
  | single tree => exact tree

/-- Two rows around a separator. -/
theorem Row.append {height : Nat} {kids kids' pages pages' : List Nat}
    {seps seps' flat flat' : List γ}
    (left : Row holds height kids seps pages flat) (sep : γ)
    (right : Row holds height kids' seps' pages' flat') :
    Row holds height (kids ++ kids') (seps ++ sep :: seps') (pages ++ pages')
      (flat ++ sep :: flat') := by
  induction left with
  | single tree => exact .cons tree right (List.Perm.refl _)
  | @cons kid own part sep' kids seps pages whole flat tree rest wholeEq
      inductionHypothesis =>
      rw [List.append_assoc]
      apply Row.cons tree inductionHypothesis
      rw [← List.append_assoc]
      exact wholeEq.append_right _

/-- A row is cut at a separator. -/
theorem Row.cut {height : Nat} :
    ∀ {kids kids' pages : List Nat} {seps seps' flat : List γ} {sep : γ},
      kids.length = seps.length + 1 →
      Row holds height (kids ++ kids') (seps ++ sep :: seps') pages flat →
      ∃ front back early late,
        Row holds height kids seps front early ∧
        Row holds height kids' seps' back late ∧
        pages.Perm (front ++ back) ∧ flat = early ++ sep :: late
  | [], _, _, _, _, _, _, lengths, _ => absurd lengths (Nat.succ_ne_zero _).symm
  | [kid], kids', pages, [], seps', flat, sep, _, row => by
      cases row with
      | cons tree rest wholeEq =>
          exact ⟨_, _, _, _, .single tree, rest, wholeEq, rfl⟩
  | [kid], _, _, _ :: _, _, _, _, lengths, _ =>
      absurd lengths (by simp)
  | kid :: next :: kids, _, _, [], _, _, _, lengths, _ =>
      absurd lengths (by simp)
  | kid :: next :: kids, kids', pages, sep' :: seps, seps', flat, sep, lengths,
      row => by
      cases row with
      | cons tree rest wholeEq =>
          have shorter : (next :: kids).length = seps.length + 1 := by
            simpa using lengths
          obtain ⟨front, back, early, late, frontRow, backRow, pagesEq, flatEq⟩ :=
            Row.cut shorter rest
          refine ⟨_, back, _, late, .cons tree frontRow (List.Perm.refl _),
            backRow, ?_, ?_⟩
          · rw [List.append_assoc]
            exact wholeEq.trans (pagesEq.append_left _)
          · rw [flatEq, List.append_assoc, List.cons_append]

/-! ## The row of a node -/

theorem row_of_parts {height : Nat} : ∀ (first : Part γ)
    (rest : List (γ × Part γ)),
      TreeAt holds height first.kid first.pages first.flat →
      (∀ entry ∈ rest,
        TreeAt holds height entry.2.kid entry.2.pages entry.2.flat) →
      Row holds height (first.kid :: rightKids rest) (rest.map Prod.fst)
        (first.pages ++ rightPages rest) (first.flat ++ rightFlat rest)
  | first, [], firstTree, _ => by
      have row := Row.single firstTree
      simpa [rightKids, rightPages, rightFlat] using row
  | first, (sep, next) :: rest, firstTree, restTrees => by
      have later := row_of_parts next rest (restTrees _ List.mem_cons_self)
        fun entry member => restTrees entry (List.mem_cons_of_mem _ member)
      have row : Row holds height _ (sep :: _) _ _ :=
        Row.cons firstTree later (List.Perm.refl _)
      simpa [rightKids, rightPages, rightFlat] using row

theorem Row.parts {height : Nat} {kids pages : List Nat} {seps flat : List γ}
    (row : Row holds height kids seps pages flat) :
    ∃ (first : Part γ) (rest : List (γ × Part γ)),
      kids = first.kid :: rightKids rest ∧ seps = rest.map Prod.fst ∧
      TreeAt holds height first.kid first.pages first.flat ∧
      (∀ entry ∈ rest,
        TreeAt holds height entry.2.kid entry.2.pages entry.2.flat) ∧
      pages.Perm (first.pages ++ rightPages rest) ∧
      flat = first.flat ++ rightFlat rest := by
  induction row with
  | @single kid own flat tree =>
      exact ⟨⟨kid, own, flat⟩, [], rfl, rfl, tree, by simp, by
        simp [rightPages], by simp [rightFlat]⟩
  | @cons kid own part sep kids seps pages whole flat tree rest wholeEq
      inductionHypothesis =>
      obtain ⟨first, others, kidsEq, sepsEq, firstTree, otherTrees, pagesEq,
        flatEq⟩ := inductionHypothesis
      refine ⟨⟨kid, own, part⟩, (sep, first) :: others, ?_, ?_, tree, ?_, ?_, ?_⟩
      · rw [kidsEq]
        rfl
      · rw [sepsEq]
        rfl
      · intro entry member
        rcases List.mem_cons.mp member with rfl | later
        · exact firstTree
        · exact otherTrees entry later
      · apply wholeEq.trans
        rw [rightPages, List.flatMap_cons]
        exact pagesEq.append_left _
      · rw [flatEq]
        simp only [rightFlat, List.flatMap_cons, List.cons_append]

/-- The children of an inner node. -/
theorem TreeAt.row {height page : Nat} {pages : List Nat} {flat : List γ}
    (tree : TreeAt holds (height + 1) page pages flat) :
    ∃ kids seps own, holds page (.inner kids seps) ∧
      Row holds height kids seps own flat ∧ pages.Perm (page :: own) := by
  obtain ⟨first, rest, here, firstTree, restTrees, pagesEq, flatEq⟩ := tree
  refine ⟨_, _, _, here, ?_, pagesEq⟩
  rw [flatEq]
  exact row_of_parts first rest firstTree restTrees

/-- An inner node above a row. -/
theorem Row.tree {height page : Nat} {kids own pages : List Nat}
    {seps flat : List γ} (row : Row holds height kids seps own flat)
    (here : holds page (.inner kids seps)) (pagesEq : pages.Perm (page :: own)) :
    TreeAt holds (height + 1) page pages flat := by
  obtain ⟨first, rest, kidsEq, sepsEq, firstTree, restTrees, ownEq, flatEq⟩ :=
    row.parts
  rw [kidsEq, sepsEq] at here
  exact ⟨first, rest, here, firstTree, restTrees,
    pagesEq.trans (ownEq.cons page), flatEq⟩

/-! ## Two neighbours -/

/-- Two neighbours among the children of an inner node: the separator between
them, the pages of the other children, and the items before and behind. -/
structure Siblings (holds : Nat → PNode γ → Prop) (height : Nat)
    (kids : List Nat) (seps : List γ) (index : Nat) (left right : Part γ)
    (sep : γ) (outside : List Nat) (before behind : List γ) : Prop where
  leftTree : TreeAt holds height left.kid left.pages left.flat
  rightTree : TreeAt holds height right.kid right.pages right.flat
  leftKid : kids[index]? = some left.kid
  rightKid : kids[index + 1]? = some right.kid
  between : seps[index]? = some sep
  around : ∃ (front : List (Part γ × γ)) (back : List (γ × Part γ)),
    front.length = index ∧
    kids = leftKids front ++ left.kid :: right.kid :: rightKids back ∧
    seps = front.map Prod.snd ++ sep :: back.map Prod.fst ∧
    before = leftFlat front ∧ behind = rightFlat back ∧
    outside = leftPages front ++ rightPages back ∧
    (∀ entry ∈ front,
      TreeAt holds height entry.1.kid entry.1.pages entry.1.flat) ∧
    ∀ entry ∈ back,
      TreeAt holds height entry.2.kid entry.2.pages entry.2.flat

/-- The neighbours on the two sides of a separator. -/
theorem TreeAt.siblings {height page : Nat} {pages : List Nat} {flat : List γ}
    (tree : TreeAt holds (height + 1) page pages flat) :
    ∃ kids seps, holds page (.inner kids seps) ∧
      kids.length = seps.length + 1 ∧
      ∀ index, index < seps.length →
        ∃ left right sep outside before behind,
          Siblings holds height kids seps index left right sep outside before
            behind ∧
          pages.Perm (page :: (outside ++ (left.pages ++ right.pages))) ∧
          flat = before ++ (left.flat ++ sep :: (right.flat ++ behind)) := by
  obtain ⟨seps, kids, here, lengths, _, children⟩ := tree.focus
  refine ⟨kids, seps, here, lengths, ?_⟩
  intro index inside
  obtain ⟨front, left, back, frontLength, kidsEq, sepsEq, flatEq, pagesEq,
    frontTrees, leftTree, backTrees⟩ := children index (Nat.le_of_lt inside)
  cases back with
  | nil =>
      rw [sepsEq, List.map_nil, List.append_nil, List.length_map,
        frontLength] at inside
      exact absurd inside (Nat.lt_irrefl index)
  | cons entry back =>
      obtain ⟨sep, right⟩ := entry
      have kidsLength : (leftKids front).length = index := by
        rw [leftKids, List.length_map, frontLength]
      have sepsLength : (front.map Prod.snd).length = index := by
        rw [List.length_map, frontLength]
      refine ⟨left, right, sep, _, _, _, ⟨leftTree,
        backTrees _ List.mem_cons_self, ?_, ?_, ?_, front, back, frontLength,
        kidsEq, sepsEq, rfl, rfl, rfl, frontTrees,
        fun entry member => backTrees entry (List.mem_cons_of_mem _ member)⟩,
        ?_, ?_⟩
      · rw [kidsEq, List.getElem?_append_right (Nat.le_of_eq kidsLength),
          kidsLength, Nat.sub_self]
        rfl
      · rw [kidsEq, List.getElem?_append_right (by omega), kidsLength,
          Nat.add_sub_cancel_left]
        rfl
      · rw [sepsEq, List.getElem?_append_right (Nat.le_of_eq sepsLength),
          sepsLength, Nat.sub_self]
        rfl
      · apply pagesEq.trans
        apply List.Perm.cons
        apply List.perm_iff_count.mpr
        intro some
        simp only [rightPages, List.flatMap_cons, List.count_append]
        omega
      · rw [flatEq]
        simp only [rightFlat, List.flatMap_cons, List.cons_append]

section Exchange

variable {height page index : Nat} {kids : List Nat} {seps : List γ}
variable {left right : Part γ} {sep : γ} {outside : List Nat}
variable {before behind : List γ}
  (siblings : Siblings holds height kids seps index left right sep outside
    before behind)
  (kept : ∀ own ∈ outside, ∀ node, holds own node → after own node)

include siblings kept

/-- Two other subtrees, with another separator between them, on the same
pages. -/
theorem Siblings.exchange {left' right' : Part γ} {sep' : γ}
    (here : after page (.inner kids (seps.set index sep')))
    (leftSame : left'.kid = left.kid) (rightSame : right'.kid = right.kid)
    (leftTree : TreeAt after height left'.kid left'.pages left'.flat)
    (rightTree : TreeAt after height right'.kid right'.pages right'.flat) :
    TreeAt after (height + 1) page
      (page :: (outside ++ (left'.pages ++ right'.pages)))
      (before ++ (left'.flat ++ sep' :: (right'.flat ++ behind))) := by
  obtain ⟨front, back, frontLength, kidsEq, sepsEq, beforeEq, behindEq,
    outsideEq, frontTrees, backTrees⟩ := siblings.around
  have sepsLength : (front.map Prod.snd).length = index := by
    rw [List.length_map, frontLength]
  rw [kidsEq, sepsEq, List.set_append_right _ _ (Nat.le_of_eq sepsLength),
    sepsLength, Nat.sub_self, List.set_cons_zero, ← leftSame,
    ← rightSame] at here
  have whole := @TreeAt.unfocus γ after height page
    (page :: (outside ++ (left'.pages ++ right'.pages))) front left'
    ((sep', right') :: back) here ?_ leftTree ?_ ?_
  · rw [beforeEq, behindEq]
    simpa only [rightFlat, List.flatMap_cons, List.cons_append] using whole
  · intro entry member
    apply (frontTrees entry member).mono
    intro own ownMember
    apply kept
    rw [outsideEq]
    exact List.mem_append_left _ (List.mem_flatMap.mpr ⟨entry, member, ownMember⟩)
  · intro entry member
    rcases List.mem_cons.mp member with rfl | later
    · exact rightTree
    · apply (backTrees entry later).mono
      intro own ownMember
      apply kept
      rw [outsideEq]
      exact List.mem_append_right _
        (List.mem_flatMap.mpr ⟨entry, later, ownMember⟩)
  · rw [outsideEq]
    apply List.Perm.cons
    apply List.perm_iff_count.mpr
    intro some
    simp only [rightPages, List.flatMap_cons, List.count_append]
    omega

/-- One subtree, on the right page, in the place of both. -/
theorem Siblings.join (both : Part γ)
    (here : after page (.inner (kids.eraseIdx index) (seps.eraseIdx index)))
    (same : both.kid = right.kid)
    (tree : TreeAt after height both.kid both.pages both.flat) :
    TreeAt after (height + 1) page (page :: (outside ++ both.pages))
      (before ++ (both.flat ++ behind)) := by
  obtain ⟨front, back, frontLength, kidsEq, sepsEq, beforeEq, behindEq,
    outsideEq, frontTrees, backTrees⟩ := siblings.around
  have kidsLength : (leftKids front).length = index := by
    rw [leftKids, List.length_map, frontLength]
  have sepsLength : (front.map Prod.snd).length = index := by
    rw [List.length_map, frontLength]
  rw [kidsEq, sepsEq, ← kidsLength, ListEdit.eraseIdx_append_length, kidsLength,
    ← sepsLength, ListEdit.eraseIdx_append_length, ← same] at here
  have whole := @TreeAt.unfocus γ after height page
    (page :: (outside ++ both.pages)) front both back here ?_ tree ?_ ?_
  · rw [beforeEq, behindEq]
    exact whole
  · intro entry member
    apply (frontTrees entry member).mono
    intro own ownMember
    apply kept
    rw [outsideEq]
    exact List.mem_append_left _ (List.mem_flatMap.mpr ⟨entry, member, ownMember⟩)
  · intro entry member
    apply (backTrees entry member).mono
    intro own ownMember
    apply kept
    rw [outsideEq]
    exact List.mem_append_right _
      (List.mem_flatMap.mpr ⟨entry, member, ownMember⟩)
  · rw [outsideEq]
    apply List.Perm.cons
    apply List.perm_iff_count.mpr
    intro some
    simp only [List.count_append]
    omega

end Exchange

/-! ## From one neighbour to the other -/

/-- The last item of the left node becomes the separator, the separator the
first item of the right node, and the last child of the left node its first
child. -/
inductive PassesRight : PNode γ → γ → PNode γ → PNode γ → γ → PNode γ → Prop
  | leaf (items others : List γ) (item sep : γ) :
      PassesRight (.leaf (items ++ [item])) sep (.leaf others)
        (.leaf items) item (.leaf (sep :: others))
  | inner (kids kids' : List Nat) (kid : Nat) (seps seps' : List γ)
      (item sep : γ) :
      PassesRight (.inner (kids ++ [kid]) (seps ++ [item])) sep
        (.inner kids' seps') (.inner kids seps) item
        (.inner (kid :: kids') (sep :: seps'))

theorem TreeAt.height_zero (functional : Functional holds)
    {height page : Nat} {pages : List Nat} {flat items : List γ}
    (tree : TreeAt holds height page pages flat)
    (here : holds page (.leaf items)) :
    height = 0 ∧ pages = [page] ∧ flat = items := by
  cases height with
  | zero =>
      exact ⟨rfl, tree.2, PNode.leaf.inj (functional _ _ _ tree.1 here)⟩
  | succ height =>
      obtain ⟨first, rest, inner, _⟩ := tree
      cases functional _ _ _ inner here

theorem TreeAt.row_of (functional : Functional holds) {height page : Nat}
    {pages kids : List Nat} {flat seps : List γ}
    (tree : TreeAt holds height page pages flat)
    (here : holds page (.inner kids seps)) :
    ∃ below own, height = below + 1 ∧ Row holds below kids seps own flat ∧
      pages.Perm (page :: own) := by
  cases height with
  | zero => cases functional _ _ _ tree.1 here
  | succ height =>
      obtain ⟨others, items, own, inner, row, pagesEq⟩ := tree.row
      obtain ⟨rfl, rfl⟩ := PNode.inner.inj (functional _ _ _ inner here)
      exact ⟨height, own, rfl, row, pagesEq⟩

/-- The pages below two nodes are neither of them. -/
theorem below_apart {left right : Nat} {pages pages' own own' : List Nat}
    (distinct : (pages ++ pages').Nodup) (leftEq : pages.Perm (left :: own))
    (rightEq : pages'.Perm (right :: own')) :
    ∀ page ∈ own ++ own', page ≠ left ∧ page ≠ right ∧
      page ∈ pages ++ pages' := by
  have together : (pages ++ pages').Perm
      (left :: right :: (own ++ own')) := by
    apply (leftEq.append rightEq).trans
    apply List.perm_iff_count.mpr
    intro some
    simp only [List.count_append, List.count_cons]
    omega
  have apart := together.nodup_iff.mp distinct
  rw [List.nodup_cons, List.nodup_cons] at apart
  intro page member
  refine ⟨?_, ?_, ?_⟩
  · rintro rfl
    exact apart.1 (List.mem_cons_of_mem _ member)
  · rintro rfl
    exact apart.2.1 member
  · apply together.mem_iff.mpr
    exact List.mem_cons_of_mem _ (List.mem_cons_of_mem _ member)

/-- What two nodes and the separator between them are changed into, with the
same items in order below. -/
structure Repartition (after : Nat → PNode γ → Prop) (height : Nat)
    (left right : Part γ) (flat : List γ) (sep : γ) (left' right' : Part γ) :
    Prop where
  leftKid : left'.kid = left.kid
  rightKid : right'.kid = right.kid
  leftTree : TreeAt after height left'.kid left'.pages left'.flat
  rightTree : TreeAt after height right'.kid right'.pages right'.flat
  pages : (left'.pages ++ right'.pages).Perm (left.pages ++ right.pages)
  flat : left'.flat ++ sep :: right'.flat = flat

section Passing

variable {height : Nat} {left right : Part γ} {sep sep' : γ}
variable {leftNode rightNode leftNode' rightNode' : PNode γ}
  (functional : Functional holds)
  (leftTree : TreeAt holds height left.kid left.pages left.flat)
  (rightTree : TreeAt holds height right.kid right.pages right.flat)
  (distinct : (left.pages ++ right.pages).Nodup)
  (leftHere : holds left.kid leftNode) (rightHere : holds right.kid rightNode)
  (leftAfter : after left.kid leftNode')
  (rightAfter : after right.kid rightNode')
  (kept : ∀ own ∈ left.pages ++ right.pages, own ≠ left.kid →
    own ≠ right.kid → ∀ node, holds own node → after own node)

include functional leftTree rightTree distinct leftHere rightHere leftAfter
  rightAfter kept

theorem PassesRight.repartition
    (passes : PassesRight leftNode sep rightNode leftNode' sep' rightNode') :
    ∃ left' right', Repartition after height left right
      (left.flat ++ sep :: right.flat) sep' left' right' := by
  cases passes with
  | leaf items others =>
      obtain ⟨rfl, leftPages, leftFlat⟩ :=
        leftTree.height_zero functional leftHere
      obtain ⟨_, rightPages, rightFlat⟩ :=
        rightTree.height_zero functional rightHere
      refine ⟨⟨left.kid, [left.kid], items⟩,
        ⟨right.kid, [right.kid], sep :: others⟩, rfl, rfl, ⟨leftAfter, rfl⟩,
        ⟨rightAfter, rfl⟩, ?_, ?_⟩
      · rw [leftPages, rightPages]
      · rw [leftFlat, rightFlat, List.append_assoc, List.singleton_append]
  | inner kids kids' kid seps seps' =>
      obtain ⟨below, own, rfl, leftRow, leftEq⟩ :=
        leftTree.row_of functional leftHere
      obtain ⟨_, own', sameHeight, rightRow, rightEq⟩ :=
        rightTree.row_of functional rightHere
      cases Nat.succ.inj sameHeight
      have apart := below_apart distinct leftEq rightEq
      have leftAfterRow := leftRow.mono fun page member => by
        have beside := apart page (List.mem_append_left _ member)
        exact kept page beside.2.2 beside.1 beside.2.1
      have rightAfterRow := rightRow.mono fun page member => by
        have beside := apart page (List.mem_append_right _ member)
        exact kept page beside.2.2 beside.1 beside.2.1
      have lengths := leftRow.lengths
      rw [List.length_append, List.length_append, List.length_singleton,
        List.length_singleton] at lengths
      obtain ⟨front, back, early, late, frontRow, backRow, ownEq, flatEq⟩ :=
        leftAfterRow.cut (Nat.succ.inj lengths)
      have moved : Row after below _ (sep :: _) _ _ :=
        Row.cons backRow.tree_of_single rightAfterRow (List.Perm.refl _)
      refine ⟨⟨left.kid, left.kid :: front, early⟩,
        ⟨right.kid, right.kid :: (back ++ own'), late ++ sep :: right.flat⟩,
        rfl, rfl, frontRow.tree leftAfter (List.Perm.refl _),
        moved.tree rightAfter (List.Perm.refl _), ?_, ?_⟩
      · apply List.Perm.trans _ (leftEq.append rightEq).symm
        apply List.perm_iff_count.mpr
        intro some
        have count := List.perm_iff_count.mp ownEq some
        simp only [List.count_append, List.count_cons] at count ⊢
        omega
      · rw [flatEq]
        simp only [List.append_assoc, List.cons_append]

/-- The same the other way round. -/
theorem PassesRight.repartition_back
    (passes : PassesRight leftNode' sep' rightNode' leftNode sep rightNode) :
    ∃ left' right', Repartition after height left right
      (left.flat ++ sep :: right.flat) sep' left' right' := by
  cases passes with
  | leaf items others =>
      obtain ⟨rfl, leftPages, leftFlat⟩ :=
        leftTree.height_zero functional leftHere
      obtain ⟨_, rightPages, rightFlat⟩ :=
        rightTree.height_zero functional rightHere
      refine ⟨⟨left.kid, [left.kid], items ++ [sep]⟩,
        ⟨right.kid, [right.kid], others⟩, rfl, rfl, ⟨leftAfter, rfl⟩,
        ⟨rightAfter, rfl⟩, ?_, ?_⟩
      · rw [leftPages, rightPages]
      · rw [leftFlat, rightFlat, List.append_assoc, List.singleton_append]
  | inner kids kids' kid seps seps' =>
      obtain ⟨below, own, rfl, leftRow, leftEq⟩ :=
        leftTree.row_of functional leftHere
      obtain ⟨_, own', sameHeight, rightRow, rightEq⟩ :=
        rightTree.row_of functional rightHere
      cases Nat.succ.inj sameHeight
      have apart := below_apart distinct leftEq rightEq
      have leftAfterRow := leftRow.mono fun page member => by
        have beside := apart page (List.mem_append_left _ member)
        exact kept page beside.2.2 beside.1 beside.2.1
      have rightAfterRow := rightRow.mono fun page member => by
        have beside := apart page (List.mem_append_right _ member)
        exact kept page beside.2.2 beside.1 beside.2.1
      have lengths : [kid].length = ([] : List γ).length + 1 := rfl
      obtain ⟨front, back, early, late, frontRow, backRow, ownEq, flatEq⟩ :=
        Row.cut lengths rightAfterRow
      have moved := leftAfterRow.append sep frontRow
      refine ⟨⟨left.kid, left.kid :: (own ++ front), left.flat ++ sep :: early⟩,
        ⟨right.kid, right.kid :: back, late⟩, rfl, rfl,
        moved.tree leftAfter (List.Perm.refl _),
        backRow.tree rightAfter (List.Perm.refl _), ?_, ?_⟩
      · apply List.Perm.trans _ (leftEq.append rightEq).symm
        apply List.perm_iff_count.mpr
        intro some
        have count := List.perm_iff_count.mp ownEq some
        simp only [List.count_append, List.count_cons] at count ⊢
        omega
      · rw [flatEq]
        simp only [List.append_assoc, List.cons_append]

end Passing

/-- Two inner nodes joined around their separator, on the right one's page. -/
theorem TreeAt.joined (functional : Functional holds) {height : Nat}
    {left right : Part γ} {sep : γ} {kids kids' : List Nat}
    {seps seps' : List γ}
    (leftTree : TreeAt holds height left.kid left.pages left.flat)
    (rightTree : TreeAt holds height right.kid right.pages right.flat)
    (distinct : (left.pages ++ right.pages).Nodup)
    (leftHere : holds left.kid (.inner kids seps))
    (rightHere : holds right.kid (.inner kids' seps'))
    (rightAfter : after right.kid
      (.inner (kids ++ kids') (seps ++ sep :: seps')))
    (kept : ∀ own ∈ left.pages ++ right.pages, own ≠ left.kid →
      own ≠ right.kid → ∀ node, holds own node → after own node) :
    ∃ pages, TreeAt after height right.kid pages
        (left.flat ++ sep :: right.flat) ∧
      (left.kid :: pages).Perm (left.pages ++ right.pages) := by
  obtain ⟨below, own, rfl, leftRow, leftEq⟩ :=
    leftTree.row_of functional leftHere
  obtain ⟨_, own', sameHeight, rightRow, rightEq⟩ :=
    rightTree.row_of functional rightHere
  cases Nat.succ.inj sameHeight
  have apart := below_apart distinct leftEq rightEq
  have leftAfterRow := leftRow.mono fun page member => by
    have beside := apart page (List.mem_append_left _ member)
    exact kept page beside.2.2 beside.1 beside.2.1
  have rightAfterRow := rightRow.mono fun page member => by
    have beside := apart page (List.mem_append_right _ member)
    exact kept page beside.2.2 beside.1 beside.2.1
  have moved := leftAfterRow.append sep rightAfterRow
  refine ⟨right.kid :: (own ++ own'),
    moved.tree rightAfter (List.Perm.refl _), ?_⟩
  apply List.Perm.trans _ (leftEq.append rightEq).symm
  apply List.perm_iff_count.mpr
  intro some
  simp only [List.count_append, List.count_cons]
  omega

/-! ## Neighbours in their place -/

/-- What is around two neighbours: the pages outside the subtree of their
parent and those of its other children, and the items before and behind. -/
structure Frame (γ : Type) where
  outside : List Nat
  others : List Nat
  before : List γ
  early : List γ
  late : List γ
  behind : List γ

/-- The pages below a parent. -/
def Frame.below (frame : Frame γ) (parent : Nat) (middle : List Nat) :
    List Nat :=
  parent :: (frame.others ++ middle)

def Frame.pages (frame : Frame γ) (parent : Nat) (middle : List Nat) :
    List Nat :=
  frame.outside ++ frame.below parent middle

/-- The items below a parent. -/
def Frame.part (frame : Frame γ) (middle : List γ) : List γ :=
  frame.early ++ (middle ++ frame.late)

def Frame.whole (frame : Frame γ) (middle : List γ) : List γ :=
  frame.before ++ (frame.part middle ++ frame.behind)

theorem Frame.whole_sublist (frame : Frame γ) {middle flat : List γ}
    (part : flat.Sublist middle) :
    (frame.whole flat).Sublist (frame.whole middle) := by
  unfold Frame.whole Frame.part
  have own := (List.Sublist.refl frame.early).append
    (part.append (List.Sublist.refl frame.late))
  exact (List.Sublist.refl _).append (own.append (List.Sublist.refl _))

theorem Frame.pages_cons_perm (frame : Frame γ) {parent page : Nat}
    {middle own : List Nat} (same : (page :: own).Perm middle) :
    (page :: frame.pages parent own).Perm (frame.pages parent middle) := by
  apply List.perm_iff_count.mpr
  intro some
  have counts := List.perm_iff_count.mp same some
  unfold Frame.pages Frame.below
  simp only [List.count_append, List.count_cons] at counts ⊢
  omega

/-- Two neighbours in a tree. -/
structure Neighbours (holds : Nat → PNode γ → Prop)
    (top root height parent index : Nat) (kids : List Nat) (seps : List γ)
    (left right : Part γ) (sep : γ) (frame : Frame γ) : Prop where
  parentHere : holds parent (.inner kids seps)
  siblings : Siblings holds height kids seps index left right sep frame.others
    frame.early frame.late
  path : ∃ steps, Path holds top root (height + 1) parent steps frame.outside
    frame.before frame.behind

theorem Path.neighbours {top root height parent : Nat} {steps : List Step}
    {outside own : List Nat} {before behind part : List γ}
    (path : Path holds top root (height + 1) parent steps outside before behind)
    (tree : TreeAt holds (height + 1) parent own part) :
    ∃ kids seps, holds parent (.inner kids seps) ∧
      kids.length = seps.length + 1 ∧
      ∀ index, index < seps.length →
        ∃ left right sep others early late,
          Neighbours holds top root height parent index kids seps left right sep
            ⟨outside, others, before, early, late, behind⟩ ∧
          own.Perm (parent :: (others ++ (left.pages ++ right.pages))) ∧
          part = early ++ ((left.flat ++ sep :: right.flat) ++ late) := by
  obtain ⟨kids, seps, here, lengths, inside⟩ := tree.siblings
  refine ⟨kids, seps, here, lengths, ?_⟩
  intro index bound
  obtain ⟨left, right, sep, others, early, late, siblings, pagesEq, flatEq⟩ :=
    inside index bound
  refine ⟨left, right, sep, others, early, late,
    ⟨here, siblings, steps, path⟩, pagesEq, ?_⟩
  rw [flatEq, List.append_assoc, List.cons_append]

section Replace

variable {top root height parent index : Nat} {kids : List Nat}
variable {seps : List γ} {left right : Part γ} {sep : γ} {frame : Frame γ}
  (neighbours : Neighbours holds top root height parent index kids seps left
    right sep frame)
  (kept : ∀ own ∈ frame.outside ++ frame.others, ∀ node, holds own node →
    after own node)

include neighbours kept

/-- A subtree below the parent makes a whole tree. -/
theorem Neighbours.plug {middle : List Nat} {flat : List γ}
    (tree : TreeAt after (height + 1) parent (frame.below parent middle)
      (frame.part flat)) :
    TreeAt after top root (frame.pages parent middle) (frame.whole flat) := by
  obtain ⟨steps, path⟩ := neighbours.path
  have pathAfter := path.mono fun own member =>
    kept own (List.mem_append_left _ member)
  exact pathAfter.plug tree

/-- Other subtrees on the same pages. -/
theorem Neighbours.exchange {sep' : γ} {flat : List γ} {left' right' : Part γ}
    (here : after parent (.inner kids (seps.set index sep')))
    (parts : Repartition after height left right flat sep' left' right') :
    TreeAt after (height + 1) parent
      (frame.below parent (left.pages ++ right.pages)) (frame.part flat) := by
  have keptOthers : ∀ own ∈ frame.others, ∀ node, holds own node →
      after own node :=
    fun own member => kept own (List.mem_append_right _ member)
  have tree := neighbours.siblings.exchange keptOthers here parts.leftKid
    parts.rightKid parts.leftTree parts.rightTree
  have flatEq := parts.flat
  have same : frame.part flat = frame.early ++ (left'.flat ++ sep' ::
      (right'.flat ++ frame.late)) := by
    unfold Frame.part
    rw [← flatEq, List.append_assoc, List.cons_append]
  rw [same]
  apply tree.perm
  exact (parts.pages.symm.append_left frame.others).cons parent

/-- One subtree, on the right page, in the place of both. -/
theorem Neighbours.join {own : List Nat} {flat : List γ}
    (here : after parent
      (.inner (kids.eraseIdx index) (seps.eraseIdx index)))
    (tree : TreeAt after height right.kid own flat) :
    TreeAt after (height + 1) parent (frame.below parent own)
      (frame.part flat) := by
  have keptOthers : ∀ own ∈ frame.others, ∀ node, holds own node →
      after own node :=
    fun own member => kept own (List.mem_append_right _ member)
  exact neighbours.siblings.join keptOthers ⟨right.kid, own, flat⟩ here rfl tree

omit kept in
/-- The subtree as it is. -/
theorem Neighbours.subtree :
    TreeAt holds (height + 1) parent
      (frame.below parent (left.pages ++ right.pages))
      (frame.part (left.flat ++ sep :: right.flat)) := by
  have same : seps.set index sep = seps := by
    apply List.ext_getElem?
    intro place
    rw [List.getElem?_set]
    split
    · rename_i here
      rw [← here, neighbours.siblings.between]
      split
      · rfl
      · rename_i outside
        have bound := List.getElem?_eq_some_iff.mp neighbours.siblings.between
        exact absurd bound.1 outside
    · rfl
  have parts : Repartition holds height left right
      (left.flat ++ sep :: right.flat) sep left right :=
    ⟨rfl, rfl, neighbours.siblings.leftTree, neighbours.siblings.rightTree,
      List.Perm.refl _, rfl⟩
  apply neighbours.exchange (fun _ _ _ holdsHere => holdsHere) _ parts
  rw [same]
  exact neighbours.parentHere

end Replace

end PagedTree
