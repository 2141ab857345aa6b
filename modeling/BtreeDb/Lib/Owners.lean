import Mathlib.Data.List.Forall2
import Mathlib.Data.List.Nodup
import Mathlib.Data.List.Perm.Basic
import Mathlib.Tactic.Common

/-!
# Owners

Several owners have things, no two of them the same thing, and other things are
free.  An owner gives things up and takes free or fresh ones; the others have
what they had.
-/

namespace Owners

variable {α : Type*}

/-- Nothing is owned twice, or both owned and free. -/
def Separate (owned : List (List α)) (free : List α) : Prop :=
  (owned.flatten ++ free).Nodup

/-- One owner and what is free, seen from the other owners. -/
theorem separate_cut {front back : List (List α)} {own free : List α} :
    Separate (front ++ own :: back) free ↔
      ((front.flatten ++ back.flatten) ++ (own ++ free)).Nodup := by
  unfold Separate
  refine List.Perm.nodup_iff ?_
  rw [List.flatten_append, List.flatten_cons, List.append_assoc,
    List.append_assoc, List.append_assoc]
  refine List.Perm.append_left _ ?_
  rw [← List.append_assoc, ← List.append_assoc]
  exact List.perm_append_comm.append_right free

variable {owned : List (List α)} {own later free left : List α} {index : Nat}

theorem Separate.cut (separate : Separate owned free)
    (here : owned[index]? = some own) :
    ((owned.take index).flatten ++ (owned.drop (index + 1)).flatten ++
      (own ++ free)).Nodup := by
  obtain ⟨inside, ownEq⟩ := List.getElem?_eq_some_iff.mp here
  rw [← separate_cut, ← ownEq, ← List.drop_eq_getElem_cons inside,
    List.take_append_drop]
  exact separate

/-- What an owner has then and what is free then was its own, free or fresh
before, so that nothing is taken from another owner. -/
theorem Separate.exchange {fresh : α → Prop} (separate : Separate owned free)
    (here : owned[index]? = some own) (distinct : (later ++ left).Nodup)
    (source : ∀ thing ∈ later ++ left,
      thing ∈ own ∨ thing ∈ free ∨ fresh thing)
    (old : ∀ thing ∈ owned.flatten, ¬ fresh thing) :
    Separate (owned.set index later) left := by
  have inside := (List.getElem?_eq_some_iff.mp here).1
  obtain ⟨others, _, differ⟩ := List.nodup_append.mp (separate.cut here)
  rw [List.set_eq_take_append_cons_drop, if_pos inside, separate_cut,
    List.nodup_append]
  refine ⟨others, distinct, ?_⟩
  rintro thing inOthers _ inLater rfl
  rcases source thing inLater with inOwn | inFree | isFresh
  · exact differ thing inOthers thing (List.mem_append_left _ inOwn) rfl
  · exact differ thing inOthers thing (List.mem_append_right _ inFree) rfl
  · refine old thing ?_ isFresh
    have whole := List.take_append_drop index owned
    rw [List.drop_eq_getElem_cons inside] at whole
    rw [← whole, List.flatten_append, List.flatten_cons]
    rcases List.mem_append.mp inOthers with inFront | inBack
    · exact List.mem_append_left _ inFront
    · exact List.mem_append_right _ (List.mem_append_right _ inBack)

/-- What one owner has is not another's. -/
theorem Separate.others {place : Nat} {other : List α} (separate : Separate owned free)
    (here : owned[index]? = some own) (there : owned[place]? = some other)
    (differs : place ≠ index) : ∀ thing ∈ other, thing ∉ own := by
  intro thing inOther inOwn
  obtain ⟨_, _, differ⟩ := List.nodup_append.mp (separate.cut here)
  refine differ thing ?_ thing (List.mem_append_left _ inOwn) rfl
  rw [← List.flatten_append, List.mem_flatten]
  refine ⟨other, ?_, inOther⟩
  rw [← List.eraseIdx_eq_take_drop_succ]
  exact List.mem_eraseIdx_iff_getElem?.mpr ⟨place, differs, there⟩

/-- One more owner of fresh things. -/
theorem Separate.join {fresh : α → Prop} (separate : Separate owned free)
    (distinct : (later ++ left).Nodup)
    (source : ∀ thing ∈ later ++ left, thing ∈ free ∨ fresh thing)
    (old : ∀ thing ∈ owned.flatten, ¬ fresh thing) :
    Separate (owned ++ [later]) left := by
  obtain ⟨others, _, differ⟩ := List.nodup_append.mp separate
  unfold Separate
  rw [List.flatten_append, List.flatten_singleton, List.append_assoc,
    List.nodup_append]
  refine ⟨others, distinct, ?_⟩
  rintro thing inOwned _ inLater rfl
  rcases source thing inLater with inFree | isFresh
  · exact differ thing inOwned thing inFree rfl
  · exact old thing inOwned isFresh

/-! ## Who owns what -/

variable {β : Type*} {before after : β → List α → Prop}
variable {owners : List β} {owner : β}

theorem owns_getElem (owns : List.Forall₂ before owners owned)
    (here : owners[index]? = some owner) :
    ∃ own, owned[index]? = some own ∧ before owner own := by
  obtain ⟨lengths, each⟩ := List.forall₂_iff_get.mp owns
  obtain ⟨inside, ownerEq⟩ := List.getElem?_eq_some_iff.mp here
  have ownInside : index < owned.length := lengths ▸ inside
  refine ⟨owned[index], List.getElem?_eq_getElem _, ?_⟩
  rw [← ownerEq]
  exact each index inside ownInside

/-- One owner has something else, and the others have what they had. -/
theorem owns_set {changed : β} (owns : List.Forall₂ before owners owned)
    (now : after changed later)
    (others : ∀ place other theirs, owners[place]? = some other →
      owned[place]? = some theirs → place ≠ index → before other theirs →
        after other theirs) :
    List.Forall₂ after (owners.set index changed) (owned.set index later) := by
  obtain ⟨lengths, each⟩ := List.forall₂_iff_get.mp owns
  refine List.forall₂_iff_get.mpr ⟨?_, ?_⟩
  · rw [List.length_set, List.length_set, lengths]
  · intro place insideOwners insideOwned
    rw [List.length_set] at insideOwners insideOwned
    simp only [List.get_eq_getElem, List.getElem_set]
    by_cases same : index = place
    · rw [if_pos same, if_pos same]
      exact now
    · rw [if_neg same, if_neg same]
      exact others place _ _ (List.getElem?_eq_getElem insideOwners)
        (List.getElem?_eq_getElem insideOwned) (Ne.symm same)
        (each place insideOwners insideOwned)

end Owners
