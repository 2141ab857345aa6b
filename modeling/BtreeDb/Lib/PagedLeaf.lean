import BtreeDb.Lib.PagedTree

/-!
# Leaves in their places

When a page has one content, every leaf page of a tree has its place in the
tree: a path leads to it, and its items are at one place of the tree's items
(`TreeAt.leafPath`, `Path.leaf_within`).  Two trees with the same contents
around a place differ only there (`Path.agree`).
-/

namespace PagedTree

variable {γ : Type} {holds after : Nat → PNode γ → Prop}

/-- What two readings of a page have in common. -/
def AgreesOn (holds after : Nat → PNode γ → Prop) (pages : List Nat) : Prop :=
  ∀ page ∈ pages, ∀ left right, holds page left → after page right →
    left = right

/-- Every page has at most one content. -/
def Functional (holds : Nat → PNode γ → Prop) : Prop :=
  ∀ page left right, holds page left → holds page right → left = right

theorem AgreesOn.subset {pages others : List Nat}
    (agrees : AgreesOn holds after pages)
    (within : ∀ page ∈ others, page ∈ pages) : AgreesOn holds after others :=
  fun page member => agrees page (within page member)

/-! ## A page among the children -/

/-- The child that takes a page. -/
theorem focus_of_page {page : Nat} : ∀ (first : Part γ)
    (rest : List (γ × Part γ)), page ∈ first.pages ++ rightPages rest →
      ∃ index front mid back, Focus first rest index front mid back ∧
        page ∈ mid.pages
  | first, [], member => by
      refine ⟨0, [], first, [], .first first [], ?_⟩
      simpa [rightPages] using member
  | first, (sep, next) :: rest, member => by
      by_cases inFirst : page ∈ first.pages
      · exact ⟨0, [], first, _, .first first _, inFirst⟩
      · have later : page ∈ next.pages ++ rightPages rest := by
          rcases List.mem_append.mp member with here | inRest
          · exact absurd here inFirst
          · simpa only [rightPages, List.flatMap_cons] using inRest
        obtain ⟨index, front, mid, back, focus, inMid⟩ :=
          focus_of_page next rest later
        exact ⟨index + 1, _, mid, back, focus.cons, inMid⟩

/-! ## The place of a leaf -/

/-- Every page of a tree has a content. -/
theorem TreeAt.holds_of_mem : ∀ {height page own : Nat} {pages : List Nat}
    {flat : List γ}, TreeAt holds height page pages flat → own ∈ pages →
      ∃ content, holds own content
  | 0, page, own, pages, flat, ⟨here, pagesEq⟩, member => by
      rw [pagesEq, List.mem_singleton] at member
      rw [member]
      exact ⟨_, here⟩
  | height + 1, page, own, pages, flat,
      ⟨first, rest, here, firstTree, restTrees, pagesEq, _⟩, member => by
      rcases List.mem_cons.mp (pagesEq.mem_iff.mp member) with rfl | below
      · exact ⟨_, here⟩
      · rcases List.mem_append.mp below with inFirst | inRest
        · exact firstTree.holds_of_mem inFirst
        · obtain ⟨entry, entryMember, inEntry⟩ := List.mem_flatMap.mp inRest
          exact (restTrees entry entryMember).holds_of_mem inEntry

/-- The items of a leaf are items of its tree. -/
theorem TreeAt.leaf_within (functional : Functional holds) :
    ∀ {height page : Nat} {pages : List Nat} {flat : List γ} {leaf : Nat}
      {items : List γ}, TreeAt holds height page pages flat → leaf ∈ pages →
      holds leaf (.leaf items) → ∀ item ∈ items, item ∈ flat
  | 0, page, pages, flat, leaf, items, ⟨here, pagesEq⟩, member, leafHere,
      item, itemMember => by
      rw [pagesEq, List.mem_singleton] at member
      subst member
      rw [PNode.leaf.inj (functional _ _ _ here leafHere)]
      exact itemMember
  | height + 1, page, pages, flat, leaf, items,
      ⟨first, rest, here, firstTree, restTrees, pagesEq, flatEq⟩, member,
      leafHere, item, itemMember => by
      rw [flatEq]
      rcases List.mem_cons.mp (pagesEq.mem_iff.mp member) with rfl | below
      · cases functional _ _ _ here leafHere
      · rcases List.mem_append.mp below with inFirst | inRest
        · exact List.mem_append_left _
            (firstTree.leaf_within functional inFirst leafHere item itemMember)
        · obtain ⟨entry, entryMember, inEntry⟩ := List.mem_flatMap.mp inRest
          refine List.mem_append_right _
            (List.mem_flatMap.mpr ⟨entry, entryMember, ?_⟩)
          exact List.mem_cons_of_mem _ ((restTrees entry entryMember).leaf_within
            functional inEntry leafHere item itemMember)

/-- The items of a leaf outside a place are before it or behind it. -/
theorem Path.leaf_within (functional : Functional holds)
    {top root height hole leaf : Nat} {steps : List Step} {outside : List Nat}
    {before behind items : List γ}
    (path : Path holds top root height hole steps outside before behind) :
    leaf ∈ outside → holds leaf (.leaf items) →
      ∀ item ∈ items, item ∈ before ++ behind := by
  induction path with
  | here =>
      intro member
      cases member
  | @down height page hole steps pages outside before behind front back above
      node frontTrees backTrees outsideEq inductionHypothesis =>
      intro member leafHere item itemMember
      simp only [List.mem_append]
      rcases List.mem_append.mp (outsideEq.mem_iff.mp member) with near | far
      · rcases List.mem_cons.mp near with rfl | beside
        · cases functional _ _ _ node leafHere
        · rcases List.mem_append.mp beside with inFront | inBack
          · obtain ⟨entry, entryMember, own⟩ := List.mem_flatMap.mp inFront
            refine Or.inl (Or.inr
              (List.mem_flatMap.mpr ⟨entry, entryMember, ?_⟩))
            exact List.mem_append_left _ ((frontTrees entry entryMember).leaf_within
              functional own leafHere item itemMember)
          · obtain ⟨entry, entryMember, own⟩ := List.mem_flatMap.mp inBack
            refine Or.inr (Or.inl
              (List.mem_flatMap.mpr ⟨entry, entryMember, ?_⟩))
            exact List.mem_cons_of_mem _ ((backTrees entry entryMember).leaf_within
              functional own leafHere item itemMember)
      · have found := inductionHypothesis far leafHere item itemMember
        rcases List.mem_append.mp found with inFront | inBack
        · exact Or.inl (Or.inl inFront)
        · exact Or.inr (Or.inr inBack)

/-- The way to a leaf page of a subtree. -/
theorem Path.toLeaf (functional : Functional holds) {top root : Nat} :
    ∀ {height page : Nat} {steps : List Step} {outside pages : List Nat}
      {before behind flat items : List γ} {leaf : Nat},
      Path holds top root height page steps outside before behind →
      TreeAt holds height page pages flat → leaf ∈ pages →
      holds leaf (.leaf items) →
      ∃ leafSteps leafOutside leafBefore leafBehind,
        Path holds top root 0 leaf leafSteps leafOutside leafBefore
          leafBehind ∧
        before ++ (flat ++ behind) = leafBefore ++ (items ++ leafBehind) ∧
        (leafOutside ++ [leaf]).Perm (outside ++ pages)
  | 0, page, steps, outside, pages, before, behind, flat, items, leaf, path,
      ⟨onPage, pagesEq⟩, member, leafHere => by
      rw [pagesEq, List.mem_singleton] at member
      subst member pagesEq
      rw [PNode.leaf.inj (functional _ _ _ onPage leafHere)]
      exact ⟨steps, outside, before, behind, path, rfl, List.Perm.refl _⟩
  | height + 1, page, steps, outside, pages, before, behind, flat, items, leaf,
      path, ⟨first, rest, onPage, firstTree, restTrees, pagesEq, flatEq⟩, member,
      leafHere => by
      rcases List.mem_cons.mp (pagesEq.mem_iff.mp member) with rfl | below
      · cases functional _ _ _ onPage leafHere
      obtain ⟨index, front, mid, back, focus, inMid⟩ :=
        focus_of_page first rest below
      have trees := focus.parts
        (fun part => TreeAt holds height part.kid part.pages part.flat)
        firstTree restTrees
      rw [focus.kids, focus.seps] at onPage
      have down : Path holds top root height mid.kid
          (⟨page, front.length⟩ :: steps)
          (page :: (leftPages front ++ rightPages back) ++ outside)
          (before ++ leftFlat front) (rightFlat back ++ behind) :=
        .down path onPage trees.1 trees.2.2 (List.Perm.refl _)
      obtain ⟨leafSteps, leafOutside, leafBefore, leafBehind, leafPath, leafEq,
        leafPages⟩ := down.toLeaf functional trees.2.1 inMid leafHere
      refine ⟨leafSteps, leafOutside, leafBefore, leafBehind, leafPath, ?_, ?_⟩
      · rw [← leafEq, flatEq, focus.flat]
        simp only [List.append_assoc]
      · refine leafPages.trans (List.perm_iff_count.mpr ?_)
        intro some
        have count := List.perm_iff_count.mp pagesEq some
        rw [focus.pages] at count
        simp only [List.count_append, List.count_cons] at count ⊢
        omega

/-- Two leaves with a common item are one, when the items are distinct. -/
theorem Path.leaf_unique (functional : Functional holds) {top root : Nat}
    {steps : List Step} {outside : List Nat} {before behind items others : List γ}
    {leaf other : Nat} {item : γ}
    (path : Path holds top root 0 leaf steps outside before behind)
    (distinct : (before ++ (items ++ behind)).Nodup) (member : item ∈ items)
    (otherMember : other ∈ outside ++ [leaf])
    (otherHolds : holds other (.leaf others)) (common : item ∈ others) :
    other = leaf := by
  rcases List.mem_append.mp otherMember with beside | here
  · exfalso
    have parts := List.nodup_append.mp distinct
    rcases List.mem_append.mp
        (path.leaf_within functional beside otherHolds item common) with
      inFront | inBack
    · exact parts.2.2 item inFront item (List.mem_append_left _ member) rfl
    · exact (List.nodup_append.mp parts.2.1).2.2 item member item inBack rfl
  · exact List.mem_singleton.mp here

/-! ## The place between two kinds of items -/

theorem Path.height_le {top root height hole : Nat} {steps : List Step}
    {outside : List Nat} {before behind : List γ}
    (path : Path holds top root height hole steps outside before behind) :
    height ≤ top := by
  induction path with
  | here => exact Nat.le_refl top
  | down _ _ _ _ _ inductionHypothesis =>
      exact Nat.le_of_succ_le inductionHypothesis

theorem Path.length {top root height hole : Nat} {steps : List Step}
    {outside : List Nat} {before behind : List γ}
    (path : Path holds top root height hole steps outside before behind) :
    steps.length + height = top := by
  induction path with
  | here => exact Nat.zero_add top
  | down _ _ _ _ _ inductionHypothesis =>
      rw [List.length_cons]
      omega

/-- A way down that ends at the root is empty. -/
theorem Path.at_root {top root height hole : Nat} {steps : List Step}
    {outside : List Nat} {before behind : List γ}
    (path : Path holds top root height hole steps outside before behind)
    (isRoot : hole = root) (apart : hole ∉ outside) :
    height = top ∧ outside = [] ∧ before = [] ∧ behind = [] := by
  cases path with
  | here => exact ⟨rfl, rfl, rfl, rfl⟩
  | down above node frontTrees backTrees outsideEq =>
      refine absurd (outsideEq.mem_iff.mpr ?_) apart
      rw [isRoot]
      rcases above.root_above with rfl | inside
      · exact List.mem_append_left _ List.mem_cons_self
      · exact List.mem_append_right _ inside

/-- A list is cut in one way where its items stop to be low. -/
theorem cut_unique {low : γ → Prop} {front back front' back' : List γ}
    (same : front ++ back = front' ++ back')
    (frontLow : ∀ item ∈ front, low item) (backHigh : ∀ item ∈ back, ¬ low item)
    (frontLow' : ∀ item ∈ front', low item)
    (backHigh' : ∀ item ∈ back', ¬ low item) : front' = front := by
  rcases List.append_eq_append_iff.mp same with
    ⟨middle, frontEq, backEq⟩ | ⟨middle, frontEq, backEq⟩
  · cases middle with
    | nil => rw [frontEq, List.append_nil]
    | cons item middle =>
        refine absurd (frontLow' item ?_) (backHigh item ?_)
        · rw [frontEq]
          exact List.mem_append_right _ List.mem_cons_self
        · rw [backEq]
          exact List.mem_append_left _ List.mem_cons_self
  · cases middle with
    | nil => rw [frontEq, List.append_nil]
    | cons item middle =>
        refine absurd (frontLow item ?_) (backHigh' item ?_)
        · rw [frontEq]
          exact List.mem_append_right _ List.mem_cons_self
        · rw [backEq]
          exact List.mem_append_left _ List.mem_cons_self

theorem mem_leftFlat {front : List (Part γ × γ)} {sep : γ}
    (member : sep ∈ front.map Prod.snd) : sep ∈ leftFlat front := by
  obtain ⟨entry, entryMember, rfl⟩ := List.mem_map.mp member
  exact List.mem_flatMap.mpr ⟨entry, entryMember,
    List.mem_append_right _ (List.mem_singleton_self _)⟩

theorem mem_rightFlat {back : List (γ × Part γ)} {sep : γ}
    (member : sep ∈ back.map Prod.fst) : sep ∈ rightFlat back := by
  obtain ⟨entry, entryMember, rfl⟩ := List.mem_map.mp member
  exact List.mem_flatMap.mpr ⟨entry, entryMember, List.mem_cons_self⟩

/-- Two ways down that leave the low items in front and the others behind end
at one page. -/
theorem Path.hole_unique (functional : Functional holds) (low : γ → Prop)
    {top root height hole : Nat} {steps : List Step} {outside : List Nat}
    {before behind : List γ}
    (path : Path holds top root height hole steps outside before behind) :
    ∀ {other : Nat} {steps' : List Step} {outside' : List Nat}
      {before' behind' : List γ},
      Path holds top root height other steps' outside' before' behind' →
      (∀ item ∈ before, low item) → (∀ item ∈ behind, ¬ low item) →
      (∀ item ∈ before', low item) → (∀ item ∈ behind', ¬ low item) →
        other = hole := by
  induction path with
  | here =>
      intro other _ _ _ _ path' _ _ _ _
      cases path' with
      | here => rfl
      | down above => exact absurd above.height_le (Nat.not_succ_le_self _)
  | @down height page hole steps pages outside before behind front back above
      node frontTrees backTrees outsideEq inductionHypothesis =>
      intro other _ _ _ _ path' beforeLow behindHigh beforeLow' behindHigh'
      cases path' with
      | here => exact absurd above.height_le (Nat.not_succ_le_self _)
      | @down _ page' _ steps' pages' _ before' behind' front' back' above'
          node' =>
          have pageEq := inductionHypothesis above'
            (fun item member => beforeLow item (List.mem_append_left _ member))
            (fun item member =>
              behindHigh item (List.mem_append_right _ member))
            (fun item member =>
              beforeLow' item (List.mem_append_left _ member))
            (fun item member =>
              behindHigh' item (List.mem_append_right _ member))
          rw [pageEq] at node'
          obtain ⟨kidsEq, sepsEq⟩ :=
            PNode.inner.inj (functional page _ _ node node')
          have frontEq := cut_unique sepsEq
            (fun sep member => beforeLow sep
              (List.mem_append_right _ (mem_leftFlat member)))
            (fun sep member => behindHigh sep
              (List.mem_append_left _ (mem_rightFlat member)))
            (fun sep member => beforeLow' sep
              (List.mem_append_right _ (mem_leftFlat member)))
            (fun sep member => behindHigh' sep
              (List.mem_append_left _ (mem_rightFlat member)))
          have lengths := congrArg List.length frontEq
          rw [List.length_map, List.length_map] at lengths
          have kidsSame := List.append_inj kidsEq (by
            rw [leftKids, leftKids, List.length_map, List.length_map, lengths])
          exact (List.cons.inj kidsSame.2).1.symm

/-! ## Two trees around a place -/

theorem rightFlat_agree {height low : Nat}
    (same : ∀ {page : Nat} {pages others : List Nat} {flat flat' : List γ},
      AgreesOn holds after pages → TreeAt holds height page pages flat →
      TreeAt after low page others flat' → flat' = flat) :
    ∀ {rest rest' : List (γ × Part γ)},
      AgreesOn holds after (rightPages rest) →
      (∀ entry ∈ rest,
        TreeAt holds height entry.2.kid entry.2.pages entry.2.flat) →
      (∀ entry ∈ rest',
        TreeAt after low entry.2.kid entry.2.pages entry.2.flat) →
      rightKids rest' = rightKids rest →
      rest'.map Prod.fst = rest.map Prod.fst → rightFlat rest' = rightFlat rest
  | [], [], _, _, _, _, _ => rfl
  | [], entry :: rest', _, _, _, kids, _ => by cases kids
  | entry :: rest, [], _, _, _, kids, _ => by cases kids
  | (sep, part) :: rest, (sep', part') :: rest', agrees, trees, trees', kids,
      seps => by
      obtain ⟨kidEq, laterKids⟩ := List.cons.inj kids
      obtain ⟨sepEq, laterSeps⟩ := List.cons.inj seps
      simp only at kidEq sepEq
      subst sepEq
      unfold rightPages at agrees
      rw [List.flatMap_cons] at agrees
      have partTree := trees' _ List.mem_cons_self
      simp only [kidEq] at partTree
      have flatEq := same
        (agrees.subset fun page member => List.mem_append_left _ member)
        (trees _ List.mem_cons_self) partTree
      have restEq := rightFlat_agree same
        (agrees.subset fun page member => List.mem_append_right _ member)
        (fun entry member => trees entry (List.mem_cons_of_mem _ member))
        (fun entry member => trees' entry (List.mem_cons_of_mem _ member))
        laterKids laterSeps
      unfold rightFlat at restEq ⊢
      rw [List.flatMap_cons, List.flatMap_cons, restEq]
      simp only [flatEq]

theorem TreeAt.agree : ∀ {height low page : Nat} {pages others : List Nat}
    {flat flat' : List γ}, AgreesOn holds after pages →
      TreeAt holds height page pages flat →
      TreeAt after low page others flat' → low = height ∧ flat' = flat
  | 0, 0, page, pages, others, flat, flat', agrees, ⟨here, pagesEq⟩,
      ⟨here', _⟩ =>
      ⟨rfl, (PNode.leaf.inj
        (agrees page (by simp [pagesEq]) _ _ here here')).symm⟩
  | 0, low + 1, page, pages, others, flat, flat', agrees, ⟨here, pagesEq⟩,
      ⟨_, _, here', _⟩ => by
      cases agrees page (by simp [pagesEq]) _ _ here here'
  | height + 1, 0, page, pages, others, flat, flat', agrees,
      ⟨_, _, here, _, _, pagesEq, _⟩, ⟨here', _⟩ => by
      cases agrees page (pagesEq.mem_iff.mpr List.mem_cons_self) _ _ here here'
  | height + 1, low + 1, page, pages, others, flat, flat', agrees,
      ⟨first, rest, here, firstTree, restTrees, pagesEq, flatEq⟩,
      ⟨first', rest', here', firstTree', restTrees', _, flatEq'⟩ => by
      have agreesBelow : AgreesOn holds after (first.pages ++ rightPages rest) :=
        agrees.subset fun own member =>
          pagesEq.mem_iff.mpr (List.mem_cons_of_mem _ member)
      obtain ⟨kids, seps⟩ := PNode.inner.inj
        (agrees page (pagesEq.mem_iff.mpr List.mem_cons_self) _ _ here here')
      obtain ⟨kidEq, kids⟩ := List.cons.inj kids
      rw [← kidEq] at firstTree'
      obtain ⟨levels, firstEq⟩ := TreeAt.agree
        (agreesBelow.subset fun own member => List.mem_append_left _ member)
        firstTree firstTree'
      have restEq := rightFlat_agree
        (fun agrees tree tree' => (TreeAt.agree agrees tree tree').2)
        (agreesBelow.subset fun own member => List.mem_append_right _ member)
        restTrees restTrees' kids.symm seps.symm
      refine ⟨congrArg Nat.succ levels, ?_⟩
      rw [flatEq, flatEq', firstEq, restEq]

theorem leftFlat_agree {height low : Nat} : ∀ {front front' : List (Part γ × γ)},
    AgreesOn holds after (leftPages front) →
    (∀ entry ∈ front,
      TreeAt holds height entry.1.kid entry.1.pages entry.1.flat) →
    (∀ entry ∈ front',
      TreeAt after low entry.1.kid entry.1.pages entry.1.flat) →
    leftKids front' = leftKids front →
    front'.map Prod.snd = front.map Prod.snd → leftFlat front' = leftFlat front
  | [], [], _, _, _, _, _ => rfl
  | [], entry :: front', _, _, _, kids, _ => by cases kids
  | entry :: front, [], _, _, _, kids, _ => by cases kids
  | (part, sep) :: front, (part', sep') :: front', agrees, trees, trees', kids,
      seps => by
      obtain ⟨kidEq, laterKids⟩ := List.cons.inj kids
      obtain ⟨sepEq, laterSeps⟩ := List.cons.inj seps
      simp only at kidEq sepEq
      subst sepEq
      unfold leftPages at agrees
      rw [List.flatMap_cons] at agrees
      have partTree := trees' _ List.mem_cons_self
      simp only [kidEq] at partTree
      have flatEq := (TreeAt.agree
        (agrees.subset fun page member => List.mem_append_left _ member)
        (trees _ List.mem_cons_self) partTree).2
      have restEq := leftFlat_agree
        (agrees.subset fun page member => List.mem_append_right _ member)
        (fun entry member => trees entry (List.mem_cons_of_mem _ member))
        (fun entry member => trees' entry (List.mem_cons_of_mem _ member))
        laterKids laterSeps
      unfold leftFlat at restEq ⊢
      rw [List.flatMap_cons, List.flatMap_cons, restEq]
      simp only [flatEq]

/-- A tree with the same contents outside a place has the same items before
and behind it. -/
theorem Path.agree {top root height hole : Nat} {steps : List Step}
    {outside : List Nat} {before behind : List γ}
    (path : Path holds top root height hole steps outside before behind) :
    ∀ {high : Nat} {pages : List Nat} {flat : List γ},
      AgreesOn holds after outside → TreeAt after high root pages flat →
      ∃ low own part, high + height = top + low ∧
        TreeAt after low hole own part ∧ flat = before ++ (part ++ behind) := by
  induction path with
  | here =>
      intro high pages flat _ tree
      exact ⟨high, pages, flat, Nat.add_comm _ _, tree, by simp⟩
  | @down height page hole steps pages outside before behind front back above
      node frontTrees backTrees outsideEq inductionHypothesis =>
      intro high others flat agrees tree
      have agreesIn : AgreesOn holds after
          (page :: (leftPages front ++ rightPages back) ++ pages) :=
        agrees.subset fun own member => outsideEq.mem_iff.mpr member
      obtain ⟨low, own, part, levels, partTree, flatEq⟩ := inductionHypothesis
        (agreesIn.subset fun own member => List.mem_append_right _ member) tree
      cases low with
      | zero => cases agreesIn page (by simp) _ _ node partTree.1
      | succ low =>
      obtain ⟨seps, kids, here, lengths, _, children⟩ := partTree.focus
      obtain ⟨kidsEq, sepsEq⟩ := PNode.inner.inj
        (agreesIn page (by simp) _ _ node here)
      obtain ⟨front', mid, back', frontLength, kidsEq', sepsEq', partEq, _,
        frontTrees', midTree, backTrees'⟩ := children front.length (by
          rw [← sepsEq, List.length_append, List.length_map]
          exact Nat.le_add_right _ _)
      have kidsSame := List.append_inj (kidsEq'.symm.trans kidsEq.symm) (by
        rw [leftKids, leftKids, List.length_map, List.length_map, frontLength])
      have sepsSame := List.append_inj (sepsEq'.symm.trans sepsEq.symm) (by
        rw [List.length_map, List.length_map, frontLength])
      obtain ⟨midEq, backKids⟩ := List.cons.inj kidsSame.2
      rw [midEq] at midTree
      have frontEq := leftFlat_agree
        (agreesIn.subset fun own member => List.mem_append_left _
          (List.mem_cons_of_mem _ (List.mem_append_left _ member)))
        frontTrees frontTrees' kidsSame.1 sepsSame.1
      have backEq := rightFlat_agree
        (fun agrees tree tree' => (TreeAt.agree agrees tree tree').2)
        (agreesIn.subset fun own member => List.mem_append_left _
          (List.mem_cons_of_mem _ (List.mem_append_right _ member)))
        backTrees backTrees' backKids sepsSame.2
      refine ⟨low, mid.pages, mid.flat, by omega, midTree, ?_⟩
      rw [flatEq, partEq, frontEq, backEq]
      simp only [List.append_assoc]

end PagedTree
