import BtreeDb.Lib.PagedRow

/-!
# Nodes that take an item in

`Under` is what is below a node with given contents, wherever they are kept: a
node on its page makes a tree of it (`Under.tree`).  Contents that are cut at a
separator have the two parts under the two halves (`Under.cut`), and two halves
around their separator have the whole under them again (`Under.pair`).  `Intake`
is a node that is to take an item in, with the page left of it as its child.
-/

namespace PagedTree

variable {γ : Type} {holds after : Nat → PNode γ → Prop}

/-- The pages below a node with the given contents, and the items of the whole
subtree. -/
def Under (holds : Nat → PNode γ → Prop) (height : Nat) :
    PNode γ → List Nat → List γ → Prop
  | .leaf items, own, flat => height = 0 ∧ own = [] ∧ flat = items
  | .inner kids seps, own, flat =>
      ∃ below, height = below + 1 ∧ Row holds below kids seps own flat

section Under

variable {height page : Nat} {content : PNode γ} {own pages : List Nat}
variable {flat : List γ}

theorem Under.mono (under : Under holds height content own flat)
    (kept : ∀ page ∈ own, ∀ node, holds page node → after page node) :
    Under after height content own flat := by
  cases content with
  | leaf items => exact under
  | inner kids seps =>
      obtain ⟨below, heightEq, row⟩ := under
      exact ⟨below, heightEq, row.mono kept⟩

theorem Under.perm {others : List Nat}
    (under : Under holds height content own flat) (same : others.Perm own) :
    Under holds height content others flat := by
  cases content with
  | leaf items =>
      obtain ⟨heightEq, none, flatEq⟩ := under
      rw [none] at same
      exact ⟨heightEq, same.eq_nil, flatEq⟩
  | inner kids seps =>
      obtain ⟨below, heightEq, row⟩ := under
      exact ⟨below, heightEq, row.perm same⟩

/-- A page with the contents makes a tree. -/
theorem Under.tree (under : Under holds height content own flat)
    (here : holds page content) (pagesEq : pages.Perm (page :: own)) :
    TreeAt holds height page pages flat := by
  cases content with
  | leaf items =>
      obtain ⟨heightEq, none, flatEq⟩ := under
      rw [none] at pagesEq
      rw [heightEq, flatEq]
      exact ⟨here, List.perm_singleton.mp pagesEq⟩
  | inner kids seps =>
      obtain ⟨below, heightEq, row⟩ := under
      rw [heightEq]
      exact row.tree here pagesEq

/-- Every tree is one of these. -/
theorem TreeAt.under (tree : TreeAt holds height page pages flat) :
    ∃ content own, holds page content ∧
      Under holds height content own flat ∧ pages.Perm (page :: own) := by
  cases height with
  | zero =>
      obtain ⟨here, pagesEq⟩ := tree
      exact ⟨.leaf flat, [], here, ⟨rfl, rfl, rfl⟩, by rw [pagesEq]⟩
  | succ height =>
      obtain ⟨kids, seps, own, here, row, pagesEq⟩ := tree.row
      exact ⟨.inner kids seps, own, here, ⟨height, rfl, row⟩, pagesEq⟩

end Under

/-! ## Cutting contents -/

/-- Contents are cut at a separator. -/
inductive Cuts : PNode γ → γ → PNode γ → PNode γ → Prop
  | leaf (items : List γ) (sep : γ) (others : List γ) :
      Cuts (.leaf (items ++ sep :: others)) sep (.leaf items) (.leaf others)
  | inner (kids kids' : List Nat) (seps : List γ) (sep : γ) (seps' : List γ)
      (lengths : kids.length = seps.length + 1) :
      Cuts (.inner (kids ++ kids') (seps ++ sep :: seps')) sep
        (.inner kids seps) (.inner kids' seps')

/-- What is under contents is under their parts. -/
theorem Under.cut {height : Nat} {whole left right : PNode γ} {sep : γ}
    {own : List Nat} {flat : List γ} (cuts : Cuts whole sep left right)
    (under : Under holds height whole own flat) :
    ∃ front back early late,
      Under holds height left front early ∧
      Under holds height right back late ∧
      own.Perm (front ++ back) ∧ flat = early ++ sep :: late := by
  cases cuts with
  | leaf items sep others =>
      obtain ⟨heightEq, none, flatEq⟩ := under
      exact ⟨[], [], items, others, ⟨heightEq, rfl, rfl⟩,
        ⟨heightEq, rfl, rfl⟩, by rw [none]; rfl, flatEq⟩
  | inner kids kids' seps sep seps' lengths =>
      obtain ⟨below, heightEq, row⟩ := under
      obtain ⟨front, back, early, late, leftRow, rightRow, pagesEq, flatEq⟩ :=
        Row.cut lengths row
      exact ⟨front, back, early, late, ⟨below, heightEq, leftRow⟩,
        ⟨below, heightEq, rightRow⟩, pagesEq, flatEq⟩

/-- Two subtrees under a node with one separator. -/
theorem Under.pair {height : Nat} {left right : Part γ} {sep : γ}
    (leftTree : TreeAt holds height left.kid left.pages left.flat)
    (rightTree : TreeAt holds height right.kid right.pages right.flat) :
    Under holds (height + 1) (.inner [left.kid, right.kid] [sep])
      (left.pages ++ right.pages) (left.flat ++ sep :: right.flat) :=
  ⟨height, rfl, (Row.single leftTree).append sep (.single rightTree)⟩

/-! ## The children around one of them -/

theorem frontSeps_sublist : ∀ front : List (Part γ × γ),
    (front.map Prod.snd).Sublist (leftFlat front)
  | [] => List.Sublist.refl _
  | entry :: front => by
      rw [List.map_cons, leftFlat, List.flatMap_cons, List.append_assoc,
        List.singleton_append]
      exact (((frontSeps_sublist front).cons_cons entry.2).trans
        (List.sublist_append_right _ _))

section Around

variable {height : Nat} {front : List (Part γ × γ)} {back : List (γ × Part γ)}
  (frontTrees : ∀ entry ∈ front,
    TreeAt holds height entry.1.kid entry.1.pages entry.1.flat)
  (backTrees : ∀ entry ∈ back,
    TreeAt holds height entry.2.kid entry.2.pages entry.2.flat)

include frontTrees backTrees

theorem row_of_focus (mid : Part γ)
    (midTree : TreeAt holds height mid.kid mid.pages mid.flat) :
    Row holds height (leftKids front ++ mid.kid :: rightKids back)
      (front.map Prod.snd ++ back.map Prod.fst)
      (leftPages front ++ (mid.pages ++ rightPages back))
      (leftFlat front ++ (mid.flat ++ rightFlat back)) := by
  obtain ⟨first, rest, focus, parts⟩ := unfocus front mid back
  obtain ⟨firstTree, restTrees⟩ := parts
    (fun part => TreeAt holds height part.kid part.pages part.flat)
    frontTrees midTree backTrees
  have row := row_of_parts first rest firstTree restTrees
  rw [focus.kids, focus.seps, focus.pages, focus.flat] at row
  exact row

/-- Two subtrees around a new separator in the place of the right one. -/
theorem row_of_split (left right : Part γ) (sep : γ)
    (leftTree : TreeAt holds height left.kid left.pages left.flat)
    (rightTree : TreeAt holds height right.kid right.pages right.flat) :
    Row holds height
      ((leftKids front ++ right.kid :: rightKids back).insertIdx front.length
        left.kid)
      ((front.map Prod.snd ++ back.map Prod.fst).insertIdx front.length sep)
      (leftPages front ++ (left.pages ++ (right.pages ++ rightPages back)))
      (leftFlat front ++ left.flat ++
        sep :: (right.flat ++ rightFlat back)) := by
  have grownTrees : ∀ entry ∈ front ++ [(left, sep)],
      TreeAt holds height entry.1.kid entry.1.pages entry.1.flat := by
    intro entry member
    rcases List.mem_append.mp member with inFront | isNew
    · exact frontTrees entry inFront
    · rw [List.mem_singleton.mp isNew]
      exact leftTree
  have row := row_of_focus grownTrees backTrees right rightTree
  have kidsEq : (leftKids front ++ right.kid :: rightKids back).insertIdx
      front.length left.kid =
        leftKids (front ++ [(left, sep)]) ++ right.kid :: rightKids back := by
    have lengthEq : front.length = (leftKids front).length :=
      (List.length_map _).symm
    rw [lengthEq, ListEdit.insertIdx_append_length]
    simp [leftKids]
  have sepsEq : (front.map Prod.snd ++ back.map Prod.fst).insertIdx
      front.length sep =
        (front ++ [(left, sep)]).map Prod.snd ++ back.map Prod.fst := by
    have lengthEq : front.length = (front.map Prod.snd).length :=
      (List.length_map _).symm
    rw [lengthEq, ListEdit.insertIdx_append_length]
    simp
  rw [kidsEq, sepsEq]
  simpa [leftPages, leftFlat] using row

end Around

/-! ## Taking an item in -/

/-- Contents with an item more, and in an inner node with a child left of
it. -/
def PNode.insert (kid : Nat) (item : γ) (index : Nat) : PNode γ → PNode γ
  | .leaf items => .leaf (items.insertIdx index item)
  | .inner kids seps =>
      .inner (kids.insertIdx index kid) (seps.insertIdx index item)

/-- A node that is to take an item in: the pages and the items below it
without the item and its child, and with them. -/
structure Intake (holds : Nat → PNode γ → Prop) (height : Nat)
    (content : PNode γ) (kid index : Nat) (own grown : List Nat)
    (rest early late : List γ) : Prop where
  bare : Under holds height content own rest
  filled : ∀ item, Under holds height (content.insert kid item index) grown
    (early ++ item :: late)
  within : ∀ page ∈ own, page ∈ grown

/-- A leaf takes any item in. -/
theorem Intake.leaf {items : List γ} (kid : Nat) {index : Nat}
    (inside : index ≤ items.length) :
    Intake holds 0 (.leaf items) kid index [] [] items (items.take index)
      (items.drop index) where
  bare := ⟨rfl, rfl, rfl⟩
  filled := by
    intro item
    refine ⟨rfl, rfl, ?_⟩
    have split := ListEdit.insertIdx_append_length (items.take index)
      (items.drop index) item
    rw [List.take_append_drop, List.length_take, Nat.min_eq_left inside]
      at split
    exact split.symm
  within := fun _ member => member

/-- An inner node takes in the separator of two subtrees, of which it has the
right one already. -/
theorem Intake.inner {height : Nat} {front : List (Part γ × γ)}
    {back : List (γ × Part γ)} {left right : Part γ}
    (frontTrees : ∀ entry ∈ front,
      TreeAt holds height entry.1.kid entry.1.pages entry.1.flat)
    (backTrees : ∀ entry ∈ back,
      TreeAt holds height entry.2.kid entry.2.pages entry.2.flat)
    (leftTree : TreeAt holds height left.kid left.pages left.flat)
    (rightTree : TreeAt holds height right.kid right.pages right.flat) :
    Intake holds (height + 1)
      (.inner (leftKids front ++ right.kid :: rightKids back)
        (front.map Prod.snd ++ back.map Prod.fst))
      left.kid front.length
      (leftPages front ++ (right.pages ++ rightPages back))
      (leftPages front ++ (left.pages ++ (right.pages ++ rightPages back)))
      (leftFlat front ++ (right.flat ++ rightFlat back))
      (leftFlat front ++ left.flat) (right.flat ++ rightFlat back) where
  bare := ⟨height, rfl, row_of_focus frontTrees backTrees right rightTree⟩
  filled item := ⟨height, rfl, row_of_split frontTrees backTrees left right
    item leftTree rightTree⟩
  within := by
    intro page member
    rcases List.mem_append.mp member with inFront | later
    · exact List.mem_append_left _ inFront
    · exact List.mem_append_right _ (List.mem_append_right _ later)

theorem Intake.mono {height kid index : Nat} {content : PNode γ}
    {own grown : List Nat} {rest early late : List γ}
    (intake : Intake holds height content kid index own grown rest early late)
    (kept : ∀ page ∈ grown, ∀ node, holds page node → after page node) :
    Intake after height content kid index own grown rest early late where
  bare := intake.bare.mono fun page member =>
    kept page (intake.within page member)
  filled item := (intake.filled item).mono kept
  within := intake.within

end PagedTree
