import BtreeDb.Lib.ListEdit
import BtreeDb.Lib.PagedLeaf

/-!
# Items lost from a tree

Every page of a tree has its place there (`Path.toPage`).  When the node on a
page loses items, or a child and the separator behind it, and all other pages
stay as they are, then a tree that is read afterwards weighs less
(`TreeAt.lighter`), whatever its items weigh.
-/

namespace PagedTree

variable {γ : Type} {holds after : Nat → PNode γ → Prop}

/-- The way to a page of a subtree. -/
theorem Path.toPage {top root own : Nat} :
    ∀ {height page : Nat} {steps : List Step} {outside pages : List Nat}
      {before behind flat : List γ},
      Path holds top root height page steps outside before behind →
      TreeAt holds height page pages flat → own ∈ pages →
      ∃ low ownSteps ownOutside ownBefore ownBehind ownPages part,
        Path holds top root low own ownSteps ownOutside ownBefore ownBehind ∧
        TreeAt holds low own ownPages part ∧
        before ++ (flat ++ behind) = ownBefore ++ (part ++ ownBehind) ∧
        (ownOutside ++ ownPages).Perm (outside ++ pages)
  | 0, page, steps, outside, pages, before, behind, flat, path,
      ⟨onPage, pagesEq⟩, member => by
      rw [pagesEq, List.mem_singleton] at member
      subst member
      exact ⟨0, steps, outside, before, behind, pages, flat, path,
        ⟨onPage, pagesEq⟩, rfl, List.Perm.refl _⟩
  | height + 1, page, steps, outside, pages, before, behind, flat, path,
      ⟨first, rest, onPage, firstTree, restTrees, pagesEq, flatEq⟩, member => by
      rcases List.mem_cons.mp (pagesEq.mem_iff.mp member) with rfl | below
      · exact ⟨height + 1, steps, outside, before, behind, pages, flat, path,
          ⟨first, rest, onPage, firstTree, restTrees, pagesEq, flatEq⟩, rfl,
          List.Perm.refl _⟩
      · obtain ⟨index, front, mid, back, focus, inMid⟩ :=
          focus_of_page first rest below
        have trees := focus.parts
          (fun part => TreeAt holds height part.kid part.pages part.flat)
          firstTree restTrees
        rw [focus.kids, focus.seps] at onPage
        have down : Path holds top root height mid.kid
            (⟨page, front.length⟩ :: steps)
            (page :: (leftPages front ++ rightPages back) ++ outside)
            (before ++ leftFlat front) (rightFlat back ++ behind) :=
          .down path onPage trees.1 trees.2.2 (List.Perm.refl _)
        obtain ⟨low, ownSteps, ownOutside, ownBefore, ownBehind, ownPages, part,
          ownPath, ownTree, ownEq, ownPagesEq⟩ := down.toPage trees.2.1 inMid
        refine ⟨low, ownSteps, ownOutside, ownBefore, ownBehind, ownPages, part,
          ownPath, ownTree, ?_, ?_⟩
        · rw [← ownEq, flatEq, focus.flat]
          simp only [List.append_assoc]
        · refine ownPagesEq.trans (List.perm_iff_count.mpr ?_)
          intro some
          have count := List.perm_iff_count.mp pagesEq some
          rw [focus.pages] at count
          simp only [List.count_append, List.count_cons] at count ⊢
          omega

/-! ## Weights -/

/-- What items weigh together. -/
def total (weight : γ → Nat) (items : List γ) : Nat :=
  (items.map weight).sum

theorem total_append (weight : γ → Nat) (front back : List γ) :
    total weight (front ++ back) = total weight front + total weight back := by
  unfold total
  rw [List.map_append, List.sum_append]

theorem total_rightFlat (weight : γ → Nat) : ∀ rest : List (γ × Part γ),
    total weight (rightFlat rest) =
      ((rest.map Prod.snd).map fun part => total weight part.flat).sum +
        total weight (rest.map Prod.fst)
  | [] => rfl
  | (sep, part) :: rest => by
      have below := total_rightFlat weight rest
      have cut : rightFlat ((sep, part) :: rest) =
          (sep :: part.flat) ++ rightFlat rest := rfl
      rw [cut, total_append, below]
      simp only [total, List.map_cons, List.sum_cons]
      omega

/-- A node over its children. -/
theorem TreeAt.parts (weight : γ → Nat) {height page : Nat} {pages : List Nat}
    {flat : List γ} (tree : TreeAt holds (height + 1) page pages flat) :
    ∃ (parts : List (Part γ)) (seps : List γ),
      holds page (.inner (parts.map Part.kid) seps) ∧
      (∀ part ∈ parts, TreeAt holds height part.kid part.pages part.flat) ∧
      pages.Perm (page :: parts.flatMap Part.pages) ∧
      total weight flat =
        (parts.map fun part => total weight part.flat).sum +
          total weight seps := by
  obtain ⟨first, rest, onPage, firstTree, restTrees, pagesEq, flatEq⟩ := tree
  refine ⟨first :: rest.map Prod.snd, rest.map Prod.fst, ?_, ?_, ?_, ?_⟩
  · rw [List.map_cons, List.map_map]
    exact onPage
  · intro part member
    rcases List.mem_cons.mp member with rfl | inRest
    · exact firstTree
    · obtain ⟨entry, entryMember, rfl⟩ := List.mem_map.mp inRest
      exact restTrees entry entryMember
  · rw [List.flatMap_cons, List.flatMap_map]
    exact pagesEq
  · rw [flatEq, total_append, total_rightFlat, List.map_cons, List.sum_cons]
    omega

/-- Children on pages with the same contents have the same items. -/
theorem flats_agree {height low : Nat} : ∀ {parts others : List (Part γ)},
    AgreesOn holds after (parts.flatMap Part.pages) →
    (∀ part ∈ parts, TreeAt holds height part.kid part.pages part.flat) →
    (∀ part ∈ others, TreeAt after low part.kid part.pages part.flat) →
    others.map Part.kid = parts.map Part.kid →
      others.map Part.flat = parts.map Part.flat
  | [], [], _, _, _, _ => rfl
  | [], _ :: _, _, _, _, same => by cases same
  | _ :: _, [], _, _, _, same => by cases same
  | part :: parts, other :: others, agrees, trees, otherTrees, same => by
      obtain ⟨kidEq, kids⟩ := List.cons.inj same
      rw [List.flatMap_cons] at agrees
      have otherTree := otherTrees other List.mem_cons_self
      rw [kidEq] at otherTree
      have here := (TreeAt.agree
        (agrees.subset fun own member => List.mem_append_left _ member)
        (trees part List.mem_cons_self) otherTree).2
      have later := flats_agree
        (agrees.subset fun own member => List.mem_append_right _ member)
        (fun part member => trees part (List.mem_cons_of_mem _ member))
        (fun other member => otherTrees other (List.mem_cons_of_mem _ member))
        kids
      rw [List.map_cons, List.map_cons, here, later]

/-! ## Losses -/

/-- A leaf loses items, or an inner node a child and items. -/
inductive Loses (weight : γ → Nat) : PNode γ → PNode γ → Prop
  | leaf {items left : List γ}
      (lighter : total weight left < total weight items) :
      Loses weight (.leaf items) (.leaf left)
  | inner {kids : List Nat} {seps left : List γ} (index : Nat)
      (lighter : total weight left < total weight seps) :
      Loses weight (.inner kids seps) (.inner (kids.eraseIdx index) left)

variable {weight : γ → Nat} {content content' : PNode γ}

/-- A subtree whose first node loses something. -/
theorem TreeAt.loses (functional : Functional holds)
    (functionalAfter : Functional after) {height low page : Nat}
    {pages others : List Nat} {flat flat' : List γ}
    (tree : TreeAt holds height page pages flat) (distinct : pages.Nodup)
    (here : holds page content) (there : after page content')
    (loses : Loses weight content content')
    (agrees : ∀ own ∈ pages, own ≠ page → AgreesOn holds after [own])
    (later : TreeAt after low page others flat') :
    total weight flat' < total weight flat := by
  cases loses with
  | @leaf items left lighter =>
      cases height with
      | succ height =>
          obtain ⟨_, _, inner, _⟩ := tree
          cases functional _ _ _ here inner
      | zero =>
          cases low with
          | succ low =>
              obtain ⟨_, _, inner, _⟩ := later
              cases functionalAfter _ _ _ there inner
          | zero =>
              rw [← PNode.leaf.inj (functional _ _ _ here tree.1),
                ← PNode.leaf.inj (functionalAfter _ _ _ there later.1)]
              exact lighter
  | @inner kids seps left index lighter =>
      cases height with
      | zero => cases functional _ _ _ here tree.1
      | succ height =>
          cases low with
          | zero => cases functionalAfter _ _ _ there later.1
          | succ low =>
              obtain ⟨parts, seps', onPage, trees, pagesEq, flatEq⟩ :=
                tree.parts weight
              obtain ⟨parts', left', onPage', trees', _, flatEq'⟩ :=
                later.parts weight
              obtain ⟨kidsEq, sepsEq⟩ :=
                PNode.inner.inj (functional _ _ _ here onPage)
              obtain ⟨kidsEq', leftEq⟩ :=
                PNode.inner.inj (functionalAfter _ _ _ there onPage')
              have apart := (List.nodup_cons.mp
                (pagesEq.nodup_iff.mp distinct)).1
              have agreesBelow :
                  AgreesOn holds after (parts.flatMap Part.pages) := by
                intro own member
                exact agrees own (pagesEq.mem_iff.mpr
                  (List.mem_cons_of_mem _ member)) (fun same =>
                    apart (same ▸ member)) own (List.mem_singleton_self own)
              have flats := @flats_agree γ holds after height low
                (parts.eraseIdx index) parts'
                (agreesBelow.subset fun own member => by
                  obtain ⟨part, partMember, inPart⟩ := List.mem_flatMap.mp member
                  exact List.mem_flatMap.mpr
                    ⟨part, List.mem_of_mem_eraseIdx partMember, inPart⟩)
                (fun part member =>
                  trees part (List.mem_of_mem_eraseIdx member))
                trees' (by rw [← kidsEq', kidsEq, List.eraseIdx_map])
              have weights := congrArg (fun flats : List (List γ) =>
                (flats.map (total weight)).sum) flats
              simp only [List.map_map] at weights
              have fewer := ListEdit.sum_map_sublist
                (fun part : Part γ => total weight part.flat)
                (List.eraseIdx_sublist parts index)
              rw [flatEq, flatEq', ← sepsEq, ← leftEq]
              have sameSum : (parts'.map fun part =>
                  total weight part.flat).sum =
                  ((parts.eraseIdx index).map fun part =>
                    total weight part.flat).sum := weights
              omega

/-- A tree in which a node loses something, while the other pages stay. -/
theorem TreeAt.lighter (functional : Functional holds)
    (functionalAfter : Functional after) {top high root page : Nat}
    {pages others : List Nat} {flat flat' : List γ}
    (tree : TreeAt holds top root pages flat) (distinct : pages.Nodup)
    (member : page ∈ pages) (here : holds page content)
    (there : after page content') (loses : Loses weight content content')
    (agrees : ∀ own ∈ pages, own ≠ page → AgreesOn holds after [own])
    (later : TreeAt after high root others flat') :
    total weight flat' < total weight flat := by
  obtain ⟨low, steps, outside, before, behind, ownPages, part, path, ownTree,
    flatEq, pagesEq⟩ := Path.toPage .here tree member
  simp only [List.nil_append, List.append_nil] at flatEq pagesEq
  have parts := List.nodup_append.mp (pagesEq.nodup_iff.mpr distinct)
  have agreesOutside : AgreesOn holds after outside := by
    intro own ownMember
    refine agrees own (pagesEq.mem_iff.mp (List.mem_append_left _ ownMember))
      ?_ own (List.mem_singleton_self own)
    intro same
    exact parts.2.2 own ownMember page ownTree.root_mem same
  obtain ⟨below, own, part', _, laterTree, laterEq⟩ :=
    path.agree agreesOutside later
  have less := ownTree.loses functional functionalAfter parts.2.1 here there
    loses (fun own ownMember =>
      agrees own (pagesEq.mem_iff.mp (List.mem_append_right _ ownMember)))
    laterTree
  rw [flatEq, laterEq]
  simp only [total_append]
  omega

end PagedTree
