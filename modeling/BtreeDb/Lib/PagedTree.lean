import Mathlib.Data.List.Perm.Basic
import Mathlib.Data.List.Basic
import Mathlib.Tactic.Common

/-!
# Search trees stored in pages

A page holds a leaf with its items, or an inner node with child pages and the
items that separate them.  `TreeAt` reads a tree of a given height from a page
on: the pages it takes and its items in order, separators included.  `Path`
reads the surroundings of a subtree, so that a subtree can be replaced where
it is (`Path.plug`).  Everything depends on the contents of the pages named
only (`TreeAt.mono`, `Path.mono`).
-/

namespace PagedTree

/-- The contents of a page. -/
inductive PNode (γ : Type) where
  | leaf (items : List γ)
  | inner (kids : List Nat) (seps : List γ)

/-- A subtree: the page it starts at, the pages it takes, its items. -/
structure Part (γ : Type) where
  kid : Nat
  pages : List Nat
  flat : List γ

variable {γ : Type}

/-- Subtrees, each after its separator. -/
def rightFlat (rest : List (γ × Part γ)) : List γ :=
  rest.flatMap fun entry => entry.1 :: entry.2.flat

/-- Subtrees, each before its separator. -/
def leftFlat (front : List (Part γ × γ)) : List γ :=
  front.flatMap fun entry => entry.1.flat ++ [entry.2]

def rightPages (rest : List (γ × Part γ)) : List Nat :=
  rest.flatMap fun entry => entry.2.pages

def leftPages (front : List (Part γ × γ)) : List Nat :=
  front.flatMap fun entry => entry.1.pages

def rightKids (rest : List (γ × Part γ)) : List Nat :=
  rest.map fun entry => entry.2.kid

def leftKids (front : List (Part γ × γ)) : List Nat :=
  front.map fun entry => entry.1.kid

/-- The tree of the given height at a page. -/
def TreeAt (holds : Nat → PNode γ → Prop) :
    Nat → Nat → List Nat → List γ → Prop
  | 0, page, pages, flat => holds page (.leaf flat) ∧ pages = [page]
  | height + 1, page, pages, flat =>
      ∃ (first : Part γ) (rest : List (γ × Part γ)),
        holds page (.inner (first.kid :: rightKids rest)
          (rest.map Prod.fst)) ∧
        TreeAt holds height first.kid first.pages first.flat ∧
        (∀ entry ∈ rest,
          TreeAt holds height entry.2.kid entry.2.pages entry.2.flat) ∧
        pages.Perm (page :: (first.pages ++ rightPages rest)) ∧
        flat = first.flat ++ rightFlat rest

variable {holds after : Nat → PNode γ → Prop}

/-- A tree depends on its own pages only. -/
theorem TreeAt.mono : ∀ {height page : Nat} {pages : List Nat} {flat : List γ},
    TreeAt holds height page pages flat →
      (∀ own ∈ pages, ∀ node, holds own node → after own node) →
      TreeAt after height page pages flat
  | 0, page, pages, flat, ⟨here, pagesEq⟩, kept =>
      ⟨kept page (by simp [pagesEq]) _ here, pagesEq⟩
  | height + 1, page, pages, flat,
      ⟨first, rest, here, firstTree, restTrees, pagesEq, flatEq⟩, kept => by
      refine ⟨first, rest, kept page ?_ _ here, ?_, ?_, pagesEq, flatEq⟩
      · exact pagesEq.mem_iff.mpr List.mem_cons_self
      · refine firstTree.mono ?_
        intro own member
        exact kept own (pagesEq.mem_iff.mpr (by simp [member]))
      · intro entry entryMember
        refine (restTrees entry entryMember).mono ?_
        intro own member
        refine kept own (pagesEq.mem_iff.mpr ?_)
        refine List.mem_cons_of_mem _ (List.mem_append_right _ ?_)
        exact List.mem_flatMap.mpr ⟨entry, entryMember, member⟩

theorem TreeAt.root_mem {height page : Nat} {pages : List Nat} {flat : List γ}
    (tree : TreeAt holds height page pages flat) : page ∈ pages := by
  cases height with
  | zero =>
      rw [tree.2]
      exact List.mem_singleton_self _
  | succ height =>
      obtain ⟨first, rest, _, _, _, pagesEq, _⟩ := tree
      exact pagesEq.mem_iff.mpr List.mem_cons_self

theorem TreeAt.perm {height page : Nat} {pages others : List Nat}
    {flat : List γ} (tree : TreeAt holds height page pages flat)
    (same : others.Perm pages) : TreeAt holds height page others flat := by
  cases height with
  | zero =>
      obtain ⟨here, rfl⟩ := tree
      exact ⟨here, List.perm_singleton.mp same⟩
  | succ height =>
      obtain ⟨first, rest, here, firstTree, restTrees, pagesEq, flatEq⟩ := tree
      exact ⟨first, rest, here, firstTree, restTrees, same.trans pagesEq,
        flatEq⟩

/-! ## Children at a position -/

/-- The children of a node around one of them. -/
structure Focus (first : Part γ) (rest : List (γ × Part γ)) (index : Nat)
    (front : List (Part γ × γ)) (mid : Part γ) (back : List (γ × Part γ)) :
    Prop where
  front_length : front.length = index
  kids : first.kid :: rightKids rest =
    leftKids front ++ mid.kid :: rightKids back
  seps : rest.map Prod.fst = front.map Prod.snd ++ back.map Prod.fst
  flat : first.flat ++ rightFlat rest =
    leftFlat front ++ (mid.flat ++ rightFlat back)
  pages : (first.pages ++ rightPages rest) =
    (leftPages front ++ (mid.pages ++ rightPages back))
  parts : ∀ property : Part γ → Prop, property first →
    (∀ entry ∈ rest, property entry.2) →
      (∀ entry ∈ front, property entry.1) ∧ property mid ∧
        ∀ entry ∈ back, property entry.2

theorem Focus.first (first : Part γ) (rest : List (γ × Part γ)) :
    Focus first rest 0 [] first rest where
  front_length := rfl
  kids := rfl
  seps := rfl
  flat := rfl
  pages := rfl
  parts := fun _ firstHolds restHold => ⟨by simp, firstHolds, restHold⟩

theorem Focus.cons {first next : Part γ} {sep : γ}
    {rest back : List (γ × Part γ)} {front : List (Part γ × γ)}
    {mid : Part γ} {index : Nat}
    (focus : Focus next rest index front mid back) :
    Focus first ((sep, next) :: rest) (index + 1) ((first, sep) :: front) mid
      back := by
  refine ⟨?_, ?_, ?_, ?_, ?_, ?_⟩
  · rw [List.length_cons, focus.front_length]
  · have kids := focus.kids
    simp only [rightKids, leftKids, List.map_cons, List.cons_append] at *
    rw [kids]
  · rw [List.map_cons, focus.seps]
    rfl
  · have flat := focus.flat
    simp only [rightFlat, leftFlat, List.flatMap_cons] at *
    simp only [List.cons_append, List.append_assoc, flat, List.nil_append]
  · have pages := focus.pages
    simp only [rightPages, leftPages, List.flatMap_cons] at *
    simp only [List.append_assoc, pages]
  · intro property firstHolds restHold
    have inner := focus.parts property (restHold _ List.mem_cons_self)
      fun entry member => restHold entry (List.mem_cons_of_mem _ member)
    refine ⟨?_, inner.2⟩
    intro entry member
    rcases List.mem_cons.mp member with rfl | later
    · exact firstHolds
    · exact inner.1 entry later

theorem focus_exists : ∀ (first : Part γ) (rest : List (γ × Part γ))
    (index : Nat), index ≤ rest.length →
      ∃ front mid back, Focus first rest index front mid back
  | first, rest, 0, _ => ⟨[], first, rest, .first first rest⟩
  | first, [], index + 1, bound => by simp at bound
  | first, (sep, next) :: rest, index + 1, bound => by
      obtain ⟨front, mid, back, focus⟩ :=
        focus_exists next rest index (by simpa using bound)
      exact ⟨_, mid, back, focus.cons⟩

/-- Children given around one of them make a node. -/
theorem unfocus : ∀ (front : List (Part γ × γ)) (mid : Part γ)
    (back : List (γ × Part γ)),
      ∃ first rest, Focus first rest front.length front mid back ∧
        ∀ property : Part γ → Prop, (∀ entry ∈ front, property entry.1) →
          property mid → (∀ entry ∈ back, property entry.2) →
            property first ∧ ∀ entry ∈ rest, property entry.2
  | [], mid, back =>
      ⟨mid, back, .first mid back,
        fun _ _ midHolds backHold => ⟨midHolds, backHold⟩⟩
  | (part, sep) :: front, mid, back => by
      obtain ⟨first, rest, focus, parts⟩ := unfocus front mid back
      refine ⟨part, (sep, first) :: rest, focus.cons, ?_⟩
      intro property frontHolds midHolds backHold
      have inner := parts property
        (fun entry member => frontHolds entry (List.mem_cons_of_mem _ member))
        midHolds backHold
      refine ⟨frontHolds _ List.mem_cons_self, ?_⟩
      intro entry member
      rcases List.mem_cons.mp member with rfl | later
      · exact inner.1
      · exact inner.2 entry later

theorem seps_sublist : ∀ rest : List (γ × Part γ),
    (rest.map Prod.fst).Sublist (rightFlat rest)
  | [] => List.Sublist.refl _
  | entry :: rest => by
      rw [List.map_cons, rightFlat, List.flatMap_cons, List.cons_append]
      exact ((seps_sublist rest).trans
        (List.sublist_append_right _ _)).cons_cons entry.1

/-- A tree around one of its children. -/
theorem TreeAt.focus {height page : Nat} {pages : List Nat} {flat : List γ}
    (tree : TreeAt holds (height + 1) page pages flat) :
    ∃ seps : List γ, ∃ kids : List Nat, holds page (.inner kids seps) ∧
      kids.length = seps.length + 1 ∧ seps.Sublist flat ∧
      ∀ index, index ≤ seps.length →
        ∃ (front : List (Part γ × γ)) (mid : Part γ)
            (back : List (γ × Part γ)),
          front.length = index ∧
          kids = leftKids front ++ mid.kid :: rightKids back ∧
          seps = front.map Prod.snd ++ back.map Prod.fst ∧
          flat = leftFlat front ++ (mid.flat ++ rightFlat back) ∧
          pages.Perm
            (page :: (leftPages front ++ (mid.pages ++ rightPages back))) ∧
          (∀ entry ∈ front,
            TreeAt holds height entry.1.kid entry.1.pages entry.1.flat) ∧
          TreeAt holds height mid.kid mid.pages mid.flat ∧
          ∀ entry ∈ back,
            TreeAt holds height entry.2.kid entry.2.pages entry.2.flat := by
  obtain ⟨first, rest, here, firstTree, restTrees, pagesEq, flatEq⟩ := tree
  refine ⟨_, _, here, by simp [rightKids], ?_, ?_⟩
  · rw [flatEq]
    exact (seps_sublist rest).trans (List.sublist_append_right _ _)
  intro index bound
  obtain ⟨front, mid, back, focus⟩ :=
    focus_exists first rest index (by simpa using bound)
  have parts := focus.parts
    (fun part => TreeAt holds height part.kid part.pages part.flat)
    firstTree restTrees
  refine ⟨front, mid, back, focus.front_length, focus.kids, focus.seps,
    flatEq.trans focus.flat, ?_, parts.1, parts.2.1, parts.2.2⟩
  rw [← focus.pages]
  exact pagesEq

/-- A tree from a page and the children around one of them. -/
theorem TreeAt.unfocus {height page : Nat} {pages : List Nat}
    {front : List (Part γ × γ)} (mid : Part γ) {back : List (γ × Part γ)}
    (here : holds page (.inner (leftKids front ++ mid.kid :: rightKids back)
      (front.map Prod.snd ++ back.map Prod.fst)))
    (frontTrees : ∀ entry ∈ front,
      TreeAt holds height entry.1.kid entry.1.pages entry.1.flat)
    (midTree : TreeAt holds height mid.kid mid.pages mid.flat)
    (backTrees : ∀ entry ∈ back,
      TreeAt holds height entry.2.kid entry.2.pages entry.2.flat)
    (pagesEq : pages.Perm
      (page :: (leftPages front ++ (mid.pages ++ rightPages back)))) :
    TreeAt holds (height + 1) page pages
      (leftFlat front ++ (mid.flat ++ rightFlat back)) := by
  obtain ⟨first, rest, focus, parts⟩ := PagedTree.unfocus front mid back
  have trees := parts
    (fun part => TreeAt holds height part.kid part.pages part.flat)
    frontTrees midTree backTrees
  refine ⟨first, rest, ?_, trees.1, trees.2, ?_, focus.flat.symm⟩
  · rw [focus.kids, focus.seps]
    exact here
  · rw [focus.pages]
    exact pagesEq

/-! ## One child -/

/-- A child of a node is a tree on some of the node's pages. -/
structure KidOf (holds : Nat → PNode γ → Prop) (height page : Nat)
    (pages : List Nat) (kid : Nat) (own : List Nat) (part : List γ) : Prop where
  tree : TreeAt holds height kid own part
  within : ∀ some ∈ own, some ∈ pages
  distinct : pages.Nodup → own.Nodup ∧ page ∉ own

theorem TreeAt.kid {height page : Nat} {pages : List Nat} {flat : List γ}
    (tree : TreeAt holds (height + 1) page pages flat) :
    ∃ kids seps, holds page (.inner kids seps) ∧
      kids.length = seps.length + 1 ∧ (pages.Nodup → kids.Nodup) ∧
      ∀ (index kid : Nat), kids[index]? = some kid →
        ∃ own part, KidOf holds height page pages kid own part := by
  obtain ⟨first, rest, here, firstTree, restTrees, pagesEq, _⟩ := tree
  refine ⟨_, _, here, by simp [rightKids], ?_, ?_⟩
  · intro distinct
    have inner := (List.nodup_cons.mp (pagesEq.nodup_iff.mp distinct)).2
    have parts := List.nodup_append.mp inner
    have restDistinct := List.pairwise_flatMap.mp parts.2.1
    refine List.nodup_cons.mpr ⟨?_, ?_⟩
    · intro member
      obtain ⟨entry, entryMember, same⟩ := List.mem_map.mp member
      have later : first.kid ∈ rightPages rest :=
        List.mem_flatMap.mpr ⟨entry, entryMember,
          same ▸ (restTrees entry entryMember).root_mem⟩
      exact parts.2.2 _ firstTree.root_mem _ later rfl
    · unfold rightKids List.Nodup
      rw [List.pairwise_map]
      refine restDistinct.2.imp_of_mem ?_
      intro left right leftMember rightMember apart
      exact apart _ (restTrees left leftMember).root_mem _
        (restTrees right rightMember).root_mem
  · intro index kid kidHere
    cases index with
    | zero =>
        have kidEq : first.kid = kid := Option.some.inj kidHere
        subst kidEq
        refine ⟨first.pages, first.flat, firstTree, ?_, ?_⟩
        · intro some member
          exact pagesEq.mem_iff.mpr
            (List.mem_cons_of_mem _ (List.mem_append_left _ member))
        · intro distinct
          have spread := List.nodup_cons.mp (pagesEq.nodup_iff.mp distinct)
          exact ⟨(List.nodup_append.mp spread.2).1,
            fun member => spread.1 (List.mem_append_left _ member)⟩
    | succ index =>
        rw [List.getElem?_cons_succ, rightKids, List.getElem?_map] at kidHere
        obtain ⟨entry, entryHere, rfl⟩ := Option.map_eq_some_iff.mp kidHere
        have entryMember := List.mem_of_getElem? entryHere
        have inside : ∀ some ∈ entry.2.pages, some ∈ rightPages rest :=
          fun some member => List.mem_flatMap.mpr ⟨entry, entryMember, member⟩
        refine ⟨entry.2.pages, entry.2.flat, restTrees entry entryMember, ?_, ?_⟩
        · intro some member
          exact pagesEq.mem_iff.mpr (List.mem_cons_of_mem _
            (List.mem_append_right _ (inside some member)))
        · intro distinct
          have spread := List.nodup_cons.mp (pagesEq.nodup_iff.mp distinct)
          have parts := List.nodup_append.mp spread.2
          exact ⟨(List.pairwise_flatMap.mp parts.2.1).1 entry entryMember,
            fun member => spread.1
              (List.mem_append_right _ (inside page member))⟩

/-! ## The surroundings of a subtree -/

/-- A step down: the page of the inner node and the index of the child. -/
structure Step where
  page : Nat
  index : Nat
  deriving DecidableEq, Repr

/-- From the root of a tree of height `top` down to the page `hole` at height
`height`: the steps, innermost first, the pages outside the subtree at
`hole`, and the items before and after it. -/
inductive Path (holds : Nat → PNode γ → Prop) (top root : Nat) :
    Nat → Nat → List Step → List Nat → List γ → List γ → Prop
  | here : Path holds top root top root [] [] [] []
  | down {height page hole : Nat} {steps : List Step}
      {pages outside : List Nat} {before behind : List γ}
      {front : List (Part γ × γ)} {back : List (γ × Part γ)}
      (above : Path holds top root (height + 1) page steps pages before behind)
      (node : holds page (.inner (leftKids front ++ hole :: rightKids back)
        (front.map Prod.snd ++ back.map Prod.fst)))
      (frontTrees : ∀ entry ∈ front,
        TreeAt holds height entry.1.kid entry.1.pages entry.1.flat)
      (backTrees : ∀ entry ∈ back,
        TreeAt holds height entry.2.kid entry.2.pages entry.2.flat)
      (outsideEq : outside.Perm
        (page :: (leftPages front ++ rightPages back) ++ pages)) :
      Path holds top root height hole (⟨page, front.length⟩ :: steps) outside
        (before ++ leftFlat front) (rightFlat back ++ behind)

theorem Path.mono {top root height hole : Nat} {steps : List Step}
    {outside : List Nat} {before behind : List γ}
    (path : Path holds top root height hole steps outside before behind) :
    (∀ own ∈ outside, ∀ node, holds own node → after own node) →
      Path after top root height hole steps outside before behind := by
  induction path with
  | here =>
      intro _
      exact .here
  | @down height page hole steps pages outside before behind front back above
      node frontTrees backTrees outsideEq inductionHypothesis =>
      intro kept
      have keptIn : ∀ own, own ∈ page ::
          (leftPages front ++ rightPages back) ++ pages →
            ∀ node, holds own node → after own node :=
        fun own member => kept own (outsideEq.mem_iff.mpr member)
      refine .down (inductionHypothesis ?_) (keptIn page (by simp) _ node)
        ?_ ?_ outsideEq
      · intro own member
        exact keptIn own (List.mem_append_right _ member)
      · intro entry entryMember
        refine (frontTrees entry entryMember).mono ?_
        intro own member
        refine keptIn own (List.mem_append_left _ (List.mem_cons_of_mem _ ?_))
        exact List.mem_append_left _
          (List.mem_flatMap.mpr ⟨entry, entryMember, member⟩)
      · intro entry entryMember
        refine (backTrees entry entryMember).mono ?_
        intro own member
        refine keptIn own (List.mem_append_left _ (List.mem_cons_of_mem _ ?_))
        exact List.mem_append_right _
          (List.mem_flatMap.mpr ⟨entry, entryMember, member⟩)

/-- A subtree in its place. -/
theorem Path.plug {top root height hole : Nat} {steps : List Step}
    {outside : List Nat} {before behind : List γ}
    (path : Path holds top root height hole steps outside before behind) :
    ∀ {pages : List Nat} {flat : List γ},
      TreeAt holds height hole pages flat →
        TreeAt holds top root (outside ++ pages)
          (before ++ (flat ++ behind)) := by
  induction path with
  | here =>
      intro pages flat tree
      simpa using tree
  | @down height page hole steps pages outside before behind front back above
      node frontTrees backTrees outsideEq inductionHypothesis =>
      intro own flat tree
      have whole := inductionHypothesis
        (TreeAt.unfocus ⟨hole, own, flat⟩ node frontTrees tree backTrees
          (List.Perm.refl _))
      simp only [List.append_assoc] at whole ⊢
      refine whole.perm (List.perm_iff_count.mpr ?_)
      intro some
      have count := List.perm_iff_count.mp outsideEq some
      simp only [List.count_append, List.count_cons] at count ⊢
      omega

/-- The root is above a subtree, unless the subtree is the whole tree. -/
theorem Path.root_above {top root height hole : Nat} {steps : List Step}
    {outside : List Nat} {before behind : List γ}
    (path : Path holds top root height hole steps outside before behind) :
    hole = root ∨ root ∈ outside := by
  induction path with
  | here => exact Or.inl rfl
  | down above node frontTrees backTrees outsideEq inductionHypothesis =>
      right
      rw [outsideEq.mem_iff]
      rcases inductionHypothesis with isRoot | further
      · rw [isRoot]
        exact List.mem_append_left _ List.mem_cons_self
      · exact List.mem_append_right _ further

/-- In an ordered tree every item in front of a child is at most a separator
in front of it. -/
theorem leftFlat_le {related : γ → γ → Prop} {front : List (Part γ × γ)}
    (ordered : (leftFlat front).Pairwise related) :
    ∀ item ∈ leftFlat front,
      ∃ sep ∈ front.map Prod.snd, item = sep ∨ related item sep := by
  intro item member
  obtain ⟨entry, entryMember, itemMember⟩ := List.mem_flatMap.mp member
  refine ⟨entry.2, List.mem_map_of_mem entryMember, ?_⟩
  have part := (List.pairwise_flatMap.mp ordered).1 entry entryMember
  rcases List.mem_append.mp itemMember with inside | last
  · exact Or.inr ((List.pairwise_append.mp part).2.2 item inside entry.2
      (List.mem_singleton_self _))
  · exact Or.inl (List.mem_singleton.mp last)

/-- Every item behind a child is at least a separator behind it. -/
theorem rightFlat_ge {related : γ → γ → Prop} {back : List (γ × Part γ)}
    (ordered : (rightFlat back).Pairwise related) :
    ∀ item ∈ rightFlat back,
      ∃ sep ∈ back.map Prod.fst, item = sep ∨ related sep item := by
  intro item member
  obtain ⟨entry, entryMember, itemMember⟩ := List.mem_flatMap.mp member
  refine ⟨entry.1, List.mem_map_of_mem entryMember, ?_⟩
  have part := (List.pairwise_flatMap.mp ordered).1 entry entryMember
  rcases List.mem_cons.mp itemMember with first | inside
  · exact Or.inl first
  · exact Or.inr ((List.pairwise_cons.mp part).1 item inside)

/-- Going down one level. -/
theorem Path.step {top root height page : Nat} {steps : List Step}
    {outside pages : List Nat} {before behind flat : List γ}
    (path : Path holds top root (height + 1) page steps outside before behind)
    (tree : TreeAt holds (height + 1) page pages flat) :
    ∃ seps : List γ, ∃ kids : List Nat, holds page (.inner kids seps) ∧
      kids.length = seps.length + 1 ∧ seps.Sublist flat ∧
      ∀ index, index ≤ seps.length →
        ∃ hole holePages holeFlat holeOutside front back,
          kids[index]? = some hole ∧
          TreeAt holds height hole holePages holeFlat ∧
          Path holds top root height hole (⟨page, index⟩ :: steps) holeOutside
            (before ++ front) (back ++ behind) ∧
          flat = front ++ (holeFlat ++ back) ∧
          (holeOutside ++ holePages).Perm (outside ++ pages) ∧
          (∀ related : γ → γ → Prop, flat.Pairwise related →
            (∀ item ∈ front, ∃ sep ∈ seps.take index,
              item = sep ∨ related item sep) ∧
            ∀ item ∈ back, ∃ sep ∈ seps.drop index,
              item = sep ∨ related sep item) := by
  obtain ⟨seps, kids, here, lengths, sublist, children⟩ := tree.focus
  refine ⟨seps, kids, here, lengths, sublist, ?_⟩
  intro index bound
  obtain ⟨front, mid, back, frontLength, kidsEq, sepsEq, flatEq, pagesEq,
    frontTrees, midTree, backTrees⟩ := children index bound
  rw [kidsEq, sepsEq] at here
  have down : Path holds top root height mid.kid
      (⟨page, front.length⟩ :: steps)
      (page :: (leftPages front ++ rightPages back) ++ outside)
      (before ++ leftFlat front) (rightFlat back ++ behind) :=
    .down path here frontTrees backTrees (List.Perm.refl _)
  rw [frontLength] at down
  have sepsFront : (front.map Prod.snd).length = index := by
    rw [List.length_map, frontLength]
  refine ⟨mid.kid, mid.pages, mid.flat, _, _, _, ?_, midTree, down, flatEq, ?_,
    ?_⟩
  · rw [kidsEq, List.getElem?_append_right (by simp [leftKids, frontLength])]
    simp [leftKids, frontLength]
  · refine List.perm_iff_count.mpr ?_
    intro some
    have count := List.perm_iff_count.mp pagesEq some
    simp only [List.count_append, List.count_cons] at count ⊢
    omega
  · intro related ordered
    rw [flatEq] at ordered
    have parts := List.pairwise_append.mp ordered
    rw [sepsEq, List.take_left' sepsFront, List.drop_left' sepsFront]
    exact ⟨leftFlat_le parts.1,
      rightFlat_ge (List.pairwise_append.mp parts.2.1).2.1⟩

/-! ## Reading a tree -/

section Reading

variable {content? : Nat → Option (PNode γ)}

/-- Read children with the reader of the height below. -/
def readParts (read : Nat → Option (List Nat × List γ)) :
    List (γ × Nat) → Option (List (γ × Part γ))
  | [] => some []
  | (sep, kid) :: later => do
      let (pages, flat) ← read kid
      let parts ← readParts read later
      some ((sep, ⟨kid, pages, flat⟩) :: parts)

/-- Read the tree of a height below a page: its pages and its items. -/
def readTree (content? : Nat → Option (PNode γ)) :
    Nat → Nat → Option (List Nat × List γ)
  | 0, page =>
      match content? page with
      | some (.leaf items) => some ([page], items)
      | _ => none
  | height + 1, page =>
      match content? page with
      | some (.inner (kid :: kids) seps) =>
          if kids.length = seps.length then do
            let (pages, flat) ← readTree content? height kid
            let parts ← readParts (readTree content? height) (seps.zip kids)
            some (page :: (pages ++ rightPages parts), flat ++ rightFlat parts)
          else none
      | _ => none

theorem readParts_sound {read : Nat → Option (List Nat × List γ)}
    {reads : Nat → List Nat → List γ → Prop}
    (sound : ∀ {kid pages flat}, read kid = some (pages, flat) →
      reads kid pages flat) :
    ∀ {slots : List (γ × Nat)} {parts : List (γ × Part γ)},
      readParts read slots = some parts →
        parts.map Prod.fst = slots.map Prod.fst ∧
          rightKids parts = slots.map Prod.snd ∧
          ∀ entry ∈ parts, reads entry.2.kid entry.2.pages entry.2.flat
  | [], parts, outcome => by
      rw [← Option.some.inj outcome]
      exact ⟨rfl, rfl, by simp⟩
  | (sep, kid) :: later, parts, outcome => by
      unfold readParts at outcome
      obtain ⟨⟨pages, flat⟩, kidEq, outcome⟩ :=
        Option.bind_eq_some_iff.mp outcome
      obtain ⟨rest, restEq, outcome⟩ := Option.bind_eq_some_iff.mp outcome
      have inner := readParts_sound sound restEq
      rw [← Option.some.inj outcome]
      refine ⟨?_, ?_, ?_⟩
      · rw [List.map_cons, List.map_cons, inner.1]
      · unfold rightKids at inner ⊢
        rw [List.map_cons, List.map_cons, inner.2.1]
      · intro entry member
        rcases List.mem_cons.mp member with rfl | deeper
        · exact sound kidEq
        · exact inner.2.2 entry deeper

/-- What can be read is there. -/
theorem readTree_sound {holds : Nat → PNode γ → Prop}
    (sound : ∀ {page content}, content? page = some content →
      holds page content) :
    ∀ {height page : Nat} {pages : List Nat} {flat : List γ},
      readTree content? height page = some (pages, flat) →
        TreeAt holds height page pages flat := by
  intro height
  induction height with
  | zero =>
      intro page pages flat outcome
      unfold readTree at outcome
      cases here : content? page with
      | none =>
          rw [here] at outcome
          cases outcome
      | some content =>
          rw [here] at outcome
          cases content with
          | inner kids seps => cases outcome
          | leaf items =>
              obtain ⟨pagesEq, flatEq⟩ := Prod.mk.inj (Option.some.inj outcome)
              subst pagesEq flatEq
              exact ⟨sound here, rfl⟩
  | succ height inductionHypothesis =>
      intro page pages flat outcome
      unfold readTree at outcome
      cases here : content? page with
      | none =>
          rw [here] at outcome
          cases outcome
      | some content =>
          rw [here] at outcome
          cases content with
          | leaf items => cases outcome
          | inner kids seps =>
              cases kids with
              | nil => cases outcome
              | cons kid kids =>
                  simp only at outcome
                  split at outcome
                  · rename_i lengths
                    obtain ⟨⟨firstPages, firstFlat⟩, firstEq, outcome⟩ :=
                      Option.bind_eq_some_iff.mp outcome
                    obtain ⟨parts, partsEq, outcome⟩ :=
                      Option.bind_eq_some_iff.mp outcome
                    obtain ⟨pagesEq, flatEq⟩ :=
                      Prod.mk.inj (Option.some.inj outcome)
                    have read := readParts_sound inductionHypothesis partsEq
                    have sepsEq : (seps.zip kids).map Prod.fst = seps :=
                      List.map_fst_zip (Nat.le_of_eq lengths.symm)
                    have kidsEq : (seps.zip kids).map Prod.snd = kids :=
                      List.map_snd_zip (Nat.le_of_eq lengths)
                    refine ⟨⟨kid, firstPages, firstFlat⟩, parts, ?_,
                      inductionHypothesis firstEq, read.2.2, ?_, flatEq.symm⟩
                    · rw [read.1, read.2.1, sepsEq, kidsEq]
                      exact sound here
                    · rw [← pagesEq]
                  · cases outcome

end Reading

end PagedTree
