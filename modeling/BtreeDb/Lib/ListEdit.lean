import Mathlib.Data.List.InsertIdx
import Mathlib.Tactic.Ring

/-!
# Inserting into and erasing from lists by position

Both edits cut the list at the position, so facts about them reduce to facts
about `take` and `drop`.
-/

namespace ListEdit

variable {α β : Type}

theorem insertIdx_eq_append :
    ∀ {items : List α} {index : Nat} {item : α}, index ≤ items.length →
      items.insertIdx index item =
        items.take index ++ item :: items.drop index
  | _, 0, _, _ => by simp
  | [], index + 1, _, bound => by simp at bound
  | head :: tail, index + 1, item, bound => by
      rw [List.insertIdx_succ_cons,
        insertIdx_eq_append (by simpa using bound)]
      simp

theorem eraseIdx_eq_append (items : List α) (index : Nat) :
    items.eraseIdx index = items.take index ++ items.drop (index + 1) :=
  List.eraseIdx_eq_take_drop_succ items index

theorem insertIdx_append_length (front back : List α) (item : α) :
    (front ++ back).insertIdx front.length item = front ++ item :: back := by
  rw [insertIdx_eq_append (by simp)]
  simp

theorem eraseIdx_append_length (front back : List α) (item : α) :
    (front ++ item :: back).eraseIdx front.length = front ++ back := by
  rw [eraseIdx_eq_append]
  simp

theorem mem_insertIdx_iff {items : List α} {index : Nat} {item other : α}
    (bound : index ≤ items.length) :
    other ∈ items.insertIdx index item ↔ other = item ∨ other ∈ items := by
  rw [insertIdx_eq_append bound]
  simp only [List.mem_append, List.mem_cons]
  constructor
  · rintro (front | same | back)
    · exact Or.inr (List.mem_of_mem_take front)
    · exact Or.inl same
    · exact Or.inr (List.mem_of_mem_drop back)
  · rintro (same | member)
    · exact Or.inr (Or.inl same)
    · rw [← List.take_append_drop index items] at member
      rcases List.mem_append.mp member with front | back
      · exact Or.inl front
      · exact Or.inr (Or.inr back)

/-- Inserting where everything before is related to the new item and the new
item is related to everything after keeps a list pairwise related. -/
theorem pairwise_insertIdx {related : α → α → Prop} {items : List α}
    {index : Nat} {item : α} (bound : index ≤ items.length)
    (ordered : items.Pairwise related)
    (before : ∀ other ∈ items.take index, related other item)
    (after : ∀ other ∈ items.drop index, related item other) :
    (items.insertIdx index item).Pairwise related := by
  rw [insertIdx_eq_append bound]
  rw [← List.take_append_drop index items, List.pairwise_append] at ordered
  rw [List.pairwise_append, List.pairwise_cons]
  refine ⟨ordered.1, ⟨after, ordered.2.1⟩, ?_⟩
  intro left leftMember right rightMember
  rcases List.mem_cons.mp rightMember with rfl | later
  · exact before left leftMember
  · exact ordered.2.2 left leftMember right later

/-- Other items in the middle, none of them before or behind all old ones. -/
theorem pairwise_replace {related : α → α → Prop}
    (transitive : ∀ {left middle right}, related left middle →
      related middle right → related left right)
    {front middle middle' back : List α}
    (ordered : (front ++ (middle ++ back)).Pairwise related)
    (ordered' : middle'.Pairwise related)
    (between : ∀ item ∈ middle', ∃ low ∈ middle, ∃ high ∈ middle,
      (low = item ∨ related low item) ∧ (item = high ∨ related item high)) :
    (front ++ (middle' ++ back)).Pairwise related := by
  have outer := List.pairwise_append.mp ordered
  have inner := List.pairwise_append.mp outer.2.1
  rw [List.pairwise_append, List.pairwise_append]
  refine ⟨outer.1, ⟨ordered', inner.2.1, ?_⟩, ?_⟩
  · intro item member later laterMember
    obtain ⟨_, _, high, highMember, _, upper⟩ := between item member
    have beyond := inner.2.2 high highMember later laterMember
    rcases upper with rfl | below
    · exact beyond
    · exact transitive below beyond
  · intro early earlyMember item member
    rcases List.mem_append.mp member with inMiddle | inBack
    · obtain ⟨low, lowMember, _, _, lower, _⟩ := between item inMiddle
      have below := outer.2.2 early earlyMember low
        (List.mem_append_left _ lowMember)
      rcases lower with rfl | above
      · exact below
      · exact transitive below above
    · exact outer.2.2 early earlyMember item (List.mem_append_right _ inBack)

theorem sum_map_insertIdx (weight : α → Nat) {items : List α} {index : Nat}
    {item : α} (bound : index ≤ items.length) :
    ((items.insertIdx index item).map weight).sum =
      (items.map weight).sum + weight item := by
  have whole := congrArg (fun list => (list.map weight).sum)
    (List.take_append_drop index items)
  simp only [List.map_append, List.sum_append] at whole
  rw [insertIdx_eq_append bound]
  simp only [List.map_append, List.map_cons, List.sum_append, List.sum_cons]
  omega

theorem sum_map_eraseIdx (weight : α → Nat) {items : List α} {index : Nat}
    {item : α} (here : items[index]? = some item) :
    ((items.eraseIdx index).map weight).sum + weight item =
      (items.map weight).sum := by
  obtain ⟨bound, rfl⟩ := List.getElem?_eq_some_iff.mp here
  have whole := congrArg (fun list => (list.map weight).sum)
    (List.take_append_drop index items)
  rw [List.drop_eq_getElem_cons bound] at whole
  simp only [List.map_append, List.map_cons, List.sum_append,
    List.sum_cons] at whole
  rw [eraseIdx_eq_append]
  simp only [List.map_append, List.sum_append]
  omega

theorem sum_map_sublist (weight : α → Nat) {items others : List α}
    (sublist : items.Sublist others) :
    (items.map weight).sum ≤ (others.map weight).sum := by
  induction sublist with
  | slnil => exact Nat.le_refl _
  | cons item _ inductionHypothesis =>
      rw [List.map_cons, List.sum_cons]
      omega
  | cons_cons item _ inductionHypothesis =>
      rw [List.map_cons, List.map_cons, List.sum_cons, List.sum_cons]
      omega

/-- Another item that maps to the same. -/
theorem map_set_of_eq {f : α → β} {xs : List α} {index : Nat} {x y : α}
    (here : xs[index]? = some y) (same : f x = f y) :
    (xs.set index x).map f = xs.map f := by
  have bound := (List.getElem?_eq_some_iff.mp here).1
  refine List.ext_getElem? fun other => ?_
  rw [List.getElem?_map, List.getElem?_map, List.getElem?_set]
  by_cases atIndex : index = other
  · subst atIndex
    rw [if_pos rfl, if_pos bound, here, Option.map_some, Option.map_some, same]
  · rw [if_neg atIndex]

/-- A change of one item that a function carries over. -/
theorem map_modify {change : α → α} {image : α → β} {changed : β → β}
    (carries : ∀ item, image (change item) = changed (image item))
    (items : List α) (index : Nat) :
    (items.modify index change).map image =
      (items.map image).modify index changed := by
  apply List.ext_getElem?
  intro place
  rw [List.getElem?_map, List.getElem?_modify, List.getElem?_modify,
    List.getElem?_map]
  cases items[place]? with
  | none => rfl
  | some item =>
      by_cases same : index = place
      · simp only [if_pos same, Option.map_eq_map, Option.map_some, carries]
      · simp only [if_neg same, Option.map_eq_map, Option.map_some]

/-- A change of one item that a function does not see. -/
theorem map_modify_same {change : α → α} {image : α → β}
    (same : ∀ item, image (change item) = image item)
    (items : List α) (index : Nat) :
    (items.modify index change).map image = items.map image := by
  rw [@map_modify α β change image id same, List.modify_id]

end ListEdit
