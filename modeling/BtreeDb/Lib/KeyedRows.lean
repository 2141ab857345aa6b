import Mathlib.Data.List.Forall2
import Mathlib.Data.List.Nodup
import BtreeDb.Lib.ListEdit

/-!
# Lists of rows

Looking up a row by its key where the keys are distinct, and edits at one place
of two lists whose items belong together.
-/

namespace KeyedRows

open ListEdit

section Lookup

variable {α κ : Type} [DecidableEq κ] {key : α → κ} {rows : List α} {row : α}
variable {sought : κ}

theorem find_eq_some_iff (distinct : (rows.map key).Nodup) :
    rows.find? (fun row => key row = sought) = some row ↔
      row ∈ rows ∧ key row = sought := by
  constructor
  · intro found
    have matched := List.find?_some found
    exact ⟨List.mem_of_find?_eq_some found, by simpa using matched⟩
  · rintro ⟨member, keyEq⟩
    cases found : rows.find? fun row => key row = sought with
    | none =>
        have differs := List.find?_eq_none.mp found row member
        simp only [keyEq, decide_true, not_true_eq_false] at differs
    | some other =>
        have matched := List.find?_some found
        have otherEq : key other = sought := by simpa using matched
        rw [List.inj_on_of_nodup_map distinct
          (List.mem_of_find?_eq_some found) member (otherEq.trans keyEq.symm)]

theorem find_eq_none_iff :
    rows.find? (fun row => key row = sought) = none ↔
      ∀ row ∈ rows, key row ≠ sought := by
  rw [List.find?_eq_none]
  simp only [decide_eq_true_eq, ne_eq]

end Lookup

section Beside

variable {α β : Type} {related : α → β → Prop}
variable {left : List α} {right : List β} {first : α} {second : β}

theorem forall₂_insertIdx {index : Nat}
    (each : List.Forall₂ related left right) (new : related first second)
    (bound : index ≤ left.length) :
    List.Forall₂ related (left.insertIdx index first)
      (right.insertIdx index second) := by
  have boundRight : index ≤ right.length := each.length_eq ▸ bound
  rw [insertIdx_eq_append bound, insertIdx_eq_append boundRight]
  exact List.rel_append (List.forall₂_take index each)
    (.cons new (List.forall₂_drop index each))

theorem forall₂_set (each : List.Forall₂ related left right)
    (new : related first second) (index : Nat) :
    List.Forall₂ related (left.set index first) (right.set index second) := by
  rw [List.set_eq_take_append_cons_drop, List.set_eq_take_append_cons_drop,
    ← each.length_eq]
  by_cases inside : index < left.length
  · rw [if_pos inside, if_pos inside]
    exact List.rel_append (List.forall₂_take index each)
      (.cons new (List.forall₂_drop (index + 1) each))
  · rw [if_neg inside, if_neg inside]
    exact each

end Beside

end KeyedRows
