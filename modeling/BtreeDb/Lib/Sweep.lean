import Mathlib.Data.List.Chain
import Mathlib.Data.List.Forall2
import Mathlib.Data.List.Nodup

/-!
# Taking out what a loop comes to

A loop goes from place to place through a list and takes out what it chooses.
What is behind the taken one moves into its place, and the loop, which goes on
to the next place, passes over it.
-/

namespace BtreeDb.Sweep

variable {α : Type*} (chosen : α → Bool)

/-- What is left of a list. -/
def sweep : List α → List α
  | [] => []
  | [last] => if chosen last then [] else [last]
  | first :: second :: rest =>
      if chosen first then second :: sweep rest
      else first :: sweep (second :: rest)

/-- What the loop takes out. -/
def taken : List α → List α
  | [] => []
  | [last] => if chosen last then [last] else []
  | first :: second :: rest =>
      if chosen first then first :: taken rest
      else taken (second :: rest)

/-- What the loop comes to. -/
def visited : List α → List α
  | [] => []
  | [last] => [last]
  | first :: second :: rest =>
      if chosen first then first :: visited rest
      else first :: visited (second :: rest)

variable {chosen}

theorem visited_cons_of_chosen {first : α} {rest : List α}
    (isChosen : chosen first = true) :
    visited chosen (first :: rest) = first :: visited chosen rest.tail := by
  cases rest with
  | nil => rfl
  | cons second rest => rw [visited, if_pos isChosen, List.tail_cons]

theorem visited_cons_of_not {first : α} {rest : List α}
    (notChosen : ¬ chosen first = true) :
    visited chosen (first :: rest) = first :: visited chosen rest := by
  cases rest with
  | nil => rfl
  | cons second rest => rw [visited, if_neg notChosen]

/-- Where nothing is taken out the loop comes to everything. -/
theorem visited_eq_self : ∀ {list : List α},
    (∀ value ∈ list, chosen value = false) → visited chosen list = list
  | [], _ => rfl
  | [_], _ => rfl
  | first :: second :: rest, nothing => by
      obtain ⟨firstNot, later⟩ := List.forall_mem_cons.mp nothing
      rw [visited_cons_of_not (by rw [firstNot]; exact Bool.false_ne_true),
        visited_eq_self later]

theorem sweep_eq_self : ∀ {list : List α},
    (∀ value ∈ list, chosen value = false) → sweep chosen list = list
  | [], _ => rfl
  | [last], nothing => by
      unfold sweep
      rw [nothing last List.mem_cons_self]
      rfl
  | first :: second :: rest, nothing => by
      obtain ⟨firstNot, later⟩ := List.forall_mem_cons.mp nothing
      unfold sweep
      rw [firstNot, if_neg Bool.false_ne_true, sweep_eq_self later]

theorem taken_sublist : ∀ list : List α, (taken chosen list).Sublist list
  | [] => List.Sublist.refl _
  | [last] => by
      unfold taken
      split
      · exact List.Sublist.refl _
      · exact List.nil_sublist _
  | first :: second :: rest => by
      unfold taken
      split
      · exact ((taken_sublist rest).cons second).cons_cons first
      · exact (taken_sublist (second :: rest)).cons first

/-- Then the loop comes to everything and leaves everything. -/
theorem flatMap_visited_eq_flatten {lists : List (List α)}
    (nothing : ∀ value ∈ lists.flatten, chosen value = false) :
    lists.flatMap (visited chosen) = lists.flatten := by
  induction lists with
  | nil => rfl
  | cons head rest inductionHypothesis =>
      rw [List.flatten_cons, List.forall_mem_append] at nothing
      rw [List.flatMap_cons, List.flatten_cons, visited_eq_self nothing.1,
        inductionHypothesis nothing.2]

/-- What is taken out is what the loop comes to and chooses. -/
theorem filter_visited : ∀ list : List α,
    (visited chosen list).filter chosen = taken chosen list
  | [] => rfl
  | [last] => by
      unfold visited taken
      split <;> simp [*]
  | first :: second :: rest => by
      unfold visited taken
      split
      next isChosen =>
        rw [List.filter_cons_of_pos isChosen, filter_visited rest]
      next notChosen =>
        rw [List.filter_cons_of_neg notChosen, filter_visited (second :: rest)]

theorem visited_sublist : ∀ list : List α, (visited chosen list).Sublist list
  | [] => List.Sublist.refl _
  | [last] => List.Sublist.refl _
  | first :: second :: rest => by
      unfold visited
      split
      · exact ((visited_sublist rest).cons second).cons_cons first
      · exact (visited_sublist (second :: rest)).cons_cons first

theorem flatMap_filter_visited (lists : List (List α)) :
    (lists.flatMap (visited chosen)).filter chosen =
      lists.flatMap (taken chosen) := by
  induction lists with
  | nil => rfl
  | cons head rest inductionHypothesis =>
      rw [List.flatMap_cons, List.filter_append, filter_visited,
        inductionHypothesis, List.flatMap_cons]

section Keys

variable {κ : Type*} [DecidableEq κ] {key : α → κ}

/-- The list without what the loop takes out. -/
theorem filter_taken : ∀ {list : List α}, (list.map key).Nodup →
    list.filter (fun value => key value ∉ (taken chosen list).map key) =
      sweep chosen list
  | [], _ => rfl
  | [last], _ => by
      unfold taken sweep
      split <;> simp
  | first :: second :: rest, distinct => by
      have within : ∀ {other : List α} {value : α},
          key value ∉ other.map key →
            key value ∉ (taken chosen other).map key :=
        fun outside member =>
          outside (((taken_sublist _).map key).subset member)
      rw [List.map_cons] at distinct
      obtain ⟨firstOut, tailDistinct⟩ := List.nodup_cons.mp distinct
      have tail := filter_taken tailDistinct
      rw [List.map_cons] at tailDistinct firstOut
      obtain ⟨secondOut, restDistinct⟩ := List.nodup_cons.mp tailDistinct
      have differs : key second ≠ key first := by
        intro same
        exact firstOut (List.mem_cons.mpr (Or.inl same.symm))
      unfold taken sweep
      split
      next isChosen =>
        rw [List.map_cons, List.filter_cons_of_neg (by simp),
          List.filter_cons_of_pos (by
            simp only [List.mem_cons, not_or, decide_eq_true_eq]
            exact ⟨differs, within secondOut⟩),
          ← filter_taken restDistinct]
        refine congrArg (second :: ·) (List.filter_congr fun value member => ?_)
        have apart : key value ≠ key first := by
          intro same
          refine firstOut (List.mem_cons_of_mem _ ?_)
          exact same ▸ List.mem_map_of_mem member
        simp [apart]
      next notChosen =>
        rw [List.filter_cons_of_pos (by
            simp only [decide_eq_true_eq]
            refine within ?_
            rw [List.map_cons]
            exact firstOut), tail]

/-- The same for a list of lists, each gone through by itself. -/
theorem filter_taken_flatten {lists : List (List α)}
    (distinct : (lists.flatten.map key).Nodup) :
    lists.flatten.filter
        (fun value => key value ∉
          (lists.flatMap (taken chosen)).map key) =
      lists.flatMap (sweep chosen) := by
  have within : ∀ other : List (List α),
      (other.flatMap (taken chosen)).Sublist other.flatten := by
    intro other
    induction other with
    | nil => exact List.Sublist.refl _
    | cons head rest inductionHypothesis =>
        rw [List.flatMap_cons, List.flatten_cons]
        exact (taken_sublist head).append inductionHypothesis
  induction lists with
  | nil => rfl
  | cons head rest inductionHypothesis =>
      rw [List.flatten_cons, List.map_append] at distinct
      obtain ⟨ofHead, ofRest, apart⟩ := List.nodup_append.mp distinct
      rw [List.flatten_cons, List.filter_append, List.flatMap_cons,
        List.flatMap_cons, ← filter_taken ofHead, ← inductionHypothesis ofRest]
      congr 1
      · refine List.filter_congr fun value member => ?_
        have outside : key value ∉ (rest.flatMap (taken chosen)).map key :=
          fun inRest => apart _ (List.mem_map_of_mem member) _
            (((within rest).map key).subset inRest) rfl
        simp only [List.map_append, List.mem_append, not_or, outside,
          not_false_eq_true, and_true]
      · refine List.filter_congr fun value member => ?_
        have outside : key value ∉ (taken chosen head).map key :=
          fun inHead => apart _ (((taken_sublist head).map key).subset inHead)
            _ (List.mem_map_of_mem member) rfl
        simp only [List.map_append, List.mem_append, not_or, outside,
          not_false_eq_true, true_and]

end Keys

/-- Everything chosen is taken out exactly where no two neighbours are
chosen. -/
theorem sweep_eq_filter_iff : ∀ {list : List α},
    sweep chosen list = list.filter (fun value => !chosen value) ↔
      list.IsChain fun left right => ¬ (chosen left ∧ chosen right)
  | [] => by simp [sweep]
  | [last] => by
      unfold sweep
      split <;> simp [*]
  | first :: second :: rest => by
      unfold sweep
      rw [List.isChain_cons_cons]
      split
      next isChosen =>
        rw [List.filter_cons_of_neg (by simp [isChosen])]
        by_cases both : chosen second = true
        · simp only [isChosen, both, and_self, not_true, false_and, iff_false]
          rw [List.filter_cons_of_neg (by simp [both])]
          intro same
          have member : second ∈ rest.filter fun value => !chosen value :=
            same ▸ List.mem_cons_self
          have kept := (List.mem_filter.mp member).2
          rw [both] at kept
          cases kept
        · rw [List.filter_cons_of_pos (by simp [both]), List.cons.injEq,
            sweep_eq_filter_iff]
          cases rest with
          | nil => simp [both]
          | cons third rest =>
              rw [List.isChain_cons_cons]
              simp [both]
      next notChosen =>
        rw [List.filter_cons_of_pos (by simp [notChosen]), List.cons.injEq,
          sweep_eq_filter_iff]
        simp [notChosen]

/-- What is not chosen is never taken out. -/
theorem filter_sublist_sweep : ∀ list : List α,
    (list.filter fun value => !chosen value).Sublist (sweep chosen list)
  | [] => List.Sublist.refl _
  | [last] => by
      unfold sweep
      split <;> simp [*]
  | first :: second :: rest => by
      unfold sweep
      split
      next isChosen =>
        rw [List.filter_cons_of_neg (by simp [isChosen])]
        by_cases both : chosen second = true
        · rw [List.filter_cons_of_neg (by simp [both])]
          exact (filter_sublist_sweep rest).cons second
        · rw [List.filter_cons_of_pos (by simp [both])]
          exact (filter_sublist_sweep rest).cons_cons second
      next notChosen =>
        rw [List.filter_cons_of_pos (by simp [notChosen])]
        exact (filter_sublist_sweep (second :: rest)).cons_cons first

/-- Everything chosen in any of the lists is taken out exactly where no two
neighbours of one list are chosen. -/
theorem flatMap_sweep_eq_filter_iff {lists : List (List α)} :
    lists.flatMap (sweep chosen) =
        lists.flatten.filter (fun value => !chosen value) ↔
      ∀ list ∈ lists,
        list.IsChain fun left right => ¬ (chosen left ∧ chosen right) := by
  have least : ∀ other : List (List α),
      (other.flatten.filter fun value => !chosen value).length ≤
        (other.flatMap (sweep chosen)).length := by
    intro other
    induction other with
    | nil => exact Nat.le_refl _
    | cons head rest inductionHypothesis =>
        rw [List.flatten_cons, List.filter_append, List.flatMap_cons,
          List.length_append, List.length_append]
        exact Nat.add_le_add (filter_sublist_sweep head).length_le
          inductionHypothesis
  induction lists with
  | nil => simp
  | cons head rest inductionHypothesis =>
      rw [List.flatMap_cons, List.flatten_cons, List.filter_append,
        List.forall_mem_cons]
      refine Iff.trans ?_ (and_congr sweep_eq_filter_iff inductionHypothesis)
      constructor
      · intro same
        have lengths := congrArg List.length same
        rw [List.length_append, List.length_append] at lengths
        have ofHead := (@filter_sublist_sweep α chosen head).length_le
        have ofRest := least rest
        exact List.append_inj same (by omega)
      · rintro ⟨sameHead, sameRest⟩
        rw [sameHead, sameRest]

/-! ## Two lists side by side -/

section Sides

variable {β : Type*} {related : α → β → Prop} {picked : β → Bool}
variable (agree : ∀ left right, related left right →
  chosen left = picked right)

include agree

/-- Lists whose elements correspond, with the same ones chosen, correspond in
what is left. -/
theorem forall₂_sweep : ∀ {lefts : List α} {rights : List β},
    List.Forall₂ related lefts rights →
      List.Forall₂ related (sweep chosen lefts) (sweep picked rights)
  | [], _, .nil => .nil
  | [left], _, .cons same .nil => by
      unfold sweep
      rw [agree _ _ same]
      split
      · exact .nil
      · exact .cons same .nil
  | first :: second :: rest, _, .cons same (.cons next others) => by
      unfold sweep
      rw [agree _ _ same]
      split
      · exact .cons next (forall₂_sweep others)
      · exact .cons same (forall₂_sweep (.cons next others))

theorem forall₂_visited : ∀ {lefts : List α} {rights : List β},
    List.Forall₂ related lefts rights →
      List.Forall₂ related (visited chosen lefts) (visited picked rights)
  | [], _, .nil => .nil
  | [left], _, .cons same .nil => .cons same .nil
  | first :: second :: rest, _, .cons same (.cons next others) => by
      unfold visited
      rw [agree _ _ same]
      split
      · exact .cons same (forall₂_visited others)
      · exact .cons same (forall₂_visited (.cons next others))

end Sides

/-! ## A loop that may end early -/

section Early

variable {ε ρ : Type*} (say : α → Except ε ρ)

/-- What a loop over the list says, and how it ends: at the first element that
it can say nothing of. -/
def said : List α → List ρ × Except ε Unit
  | [] => ([], .ok ())
  | first :: rest =>
      match say first with
      | .error reason => ([], .error reason)
      | .ok value => (value :: (said rest).1, (said rest).2)

/-- The elements before that one. -/
def reached : List α → List α
  | [] => []
  | first :: rest =>
      match say first with
      | .error _ => []
      | .ok _ => first :: reached rest

variable {say} {first : α} {list rest : List α} {value : ρ} {reason : ε}

theorem said_cons_ok (here : say first = .ok value) :
    said say (first :: rest) = (value :: (said say rest).1, (said say rest).2) := by
  rw [said, here]

theorem said_cons_error (here : say first = .error reason) :
    said say (first :: rest) = ([], .error reason) := by
  rw [said, here]

theorem reached_cons_ok (here : say first = .ok value) :
    reached say (first :: rest) = first :: reached say rest := by
  rw [reached, here]

theorem reached_cons_error (here : say first = .error reason) :
    reached say (first :: rest) = [] := by
  rw [reached, here]

/-- A loop that can say something everywhere. -/
theorem said_of_ok {answer : α → ρ}
    (always : ∀ value ∈ list, say value = .ok (answer value)) :
    said say list = (list.map answer, .ok ()) ∧ reached say list = list := by
  induction list with
  | nil => exact ⟨rfl, rfl⟩
  | cons first rest inductionHypothesis =>
      obtain ⟨here, later⟩ := List.forall_mem_cons.mp always
      obtain ⟨saidRest, reachedRest⟩ := inductionHypothesis later
      rw [said_cons_ok here, reached_cons_ok here, saidRest, reachedRest]
      exact ⟨rfl, rfl⟩

end Early

end BtreeDb.Sweep
