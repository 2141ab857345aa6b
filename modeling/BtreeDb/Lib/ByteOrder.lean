import BtreeDb.Lib.Bytes

/-!
# The order of byte strings

`memcmp` on two buffers of one length says how they compare; nothing but the
sign of its result is known.  Byte strings are compared byte by byte, a proper
prefix being smaller, and the comparison of two strings whose first parts have
one length is that of the parts, then that of the rests.
-/

namespace Bytes

/-- `memcmp` with its count: the sign of the result is all that C promises. -/
structure Memcmp where
  run : List UInt8 → List UInt8 → Int
  neg_iff : ∀ {left right : List UInt8}, left.length = right.length →
    (run left right < 0 ↔ compare left right = .lt)
  zero_iff : ∀ {left right : List UInt8}, left.length = right.length →
    (run left right = 0 ↔ compare left right = .eq)

/-- An ordering as `-1`, `0` or `1`. -/
def signOf : Ordering → Int
  | .lt => -1
  | .eq => 0
  | .gt => 1

@[simp]
theorem signOf_eq_zero {order : Ordering} : signOf order = 0 ↔ order = .eq := by
  cases order <;> decide

@[simp]
theorem signOf_lt_zero {order : Ordering} : signOf order < 0 ↔ order = .lt := by
  cases order <;> decide

/-- A `memcmp` that gives the sign itself. -/
def signMemcmp : Memcmp where
  run left right := signOf (compare left right)
  neg_iff _ := signOf_lt_zero
  zero_iff _ := signOf_eq_zero

/-- The result of `memcmp`, brought to `-1`, `0` or `1`. -/
theorem Memcmp.sign_eq (memcmp : Memcmp) {left right : List UInt8}
    (same : left.length = right.length) (apart : memcmp.run left right ≠ 0) :
    (if memcmp.run left right < 0 then -1 else 1) =
      signOf (compare left right) := by
  have negative := memcmp.neg_iff same
  have zero := memcmp.zero_iff same
  cases order : compare left right with
  | lt =>
      rw [if_pos (negative.mpr order)]
      rfl
  | eq => exact absurd (zero.mpr order) apart
  | gt =>
      rw [if_neg (fun less => by simp [negative.mp less] at order)]
      rfl

/-- A `memcmp` that gives `-1`, `0` or `1`. -/
def Memcmp.Exact (memcmp : Memcmp) : Prop :=
  ∀ {left right : List UInt8}, left.length = right.length →
    memcmp.run left right = signOf (compare left right)

theorem signMemcmp_exact : signMemcmp.Exact := fun _ => rfl

section Parts

variable {α : Type} [Ord α]

/-- Strings are compared by first parts of one length, then by the rests. -/
theorem compare_append : ∀ {left right : List α} (leftRest rightRest : List α),
    left.length = right.length →
      compare (left ++ leftRest) (right ++ rightRest) =
        (compare left right).then (compare leftRest rightRest)
  | [], [], _, _, _ => rfl
  | first :: left, second :: right, leftRest, rightRest, same => by
      have rest := compare_append leftRest rightRest (Nat.succ.inj same)
      rw [List.cons_append, List.cons_append, List.compare_cons_cons,
        List.compare_cons_cons, rest, Ordering.then_assoc]

theorem compare_append_apart {left right leftRest rightRest : List α}
    (same : left.length = right.length) (apart : compare left right ≠ .eq) :
    compare (left ++ leftRest) (right ++ rightRest) = compare left right := by
  rw [compare_append leftRest rightRest same]
  cases order : compare left right with
  | lt => rfl
  | eq => exact absurd order apart
  | gt => rfl

theorem compare_append_same [Std.ReflOrd α] (front : List α)
    {leftRest rightRest : List α} :
    compare (front ++ leftRest) (front ++ rightRest) =
      compare leftRest rightRest := by
  rw [compare_append leftRest rightRest rfl, Std.ReflOrd.compare_self]
  rfl

/-! ### Comparing in pieces -/

variable {left right : List α} {done count : Nat}
  (same : left.take done = right.take done)
  (leftEnough : done + count ≤ left.length)
  (rightEnough : done + count ≤ right.length)

omit [Ord α] in
include same in
theorem take_piece_same
    (piece : (left.drop done).take count = (right.drop done).take count) :
    left.take (done + count) = right.take (done + count) := by
  rw [List.take_add, List.take_add, same, piece]

include same leftEnough rightEnough in
/-- A piece that differs behind equal pieces decides the comparison. -/
theorem compare_piece_apart [Std.LawfulEqOrd α]
    (piece : (left.drop done).take count ≠ (right.drop done).take count) :
    compare left right =
      compare ((left.drop done).take count) ((right.drop done).take count) := by
  have leftParts : left = left.take done ++ ((left.drop done).take count ++
      (left.drop done).drop count) := by
    rw [List.take_append_drop, List.take_append_drop]
  have rightParts : right = left.take done ++ ((right.drop done).take count ++
      (right.drop done).drop count) := by
    rw [List.take_append_drop, same, List.take_append_drop]
  have lengths : ((left.drop done).take count).length =
      ((right.drop done).take count).length := by
    rw [List.length_take, List.length_take, List.length_drop,
      List.length_drop]
    omega
  conv => lhs; rw [leftParts, rightParts]
  rw [compare_append_same, compare_append_apart lengths]
  exact fun equal => piece (Std.LawfulEqOrd.eq_of_compare equal)

omit [Ord α] in
/-- A prefix does not differ in a piece. -/
theorem piece_same_of_prefix (isPrefix : left <+: right)
    (leftEnough : done + count ≤ left.length) :
    (left.drop done).take count = (right.drop done).take count := by
  obtain ⟨rest, rfl⟩ := isPrefix
  rw [List.drop_append_of_le_length (by omega),
    List.take_append_of_le_length (by rw [List.length_drop]; omega)]

end Parts

end Bytes
