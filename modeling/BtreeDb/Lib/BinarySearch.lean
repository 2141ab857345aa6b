import Mathlib.Data.List.TakeWhile
import Mathlib.Order.Basic
import Mathlib.Tactic.Common

/-!
# Binary search over an index range

The loop `while left <= right` with `mid = (right - left) / 2 + left`, on the
indices `0 .. count - 1`.  The upper bound is kept exclusive here, so the
variable `high` is the loop's `right + 1`.
-/

namespace BinarySearch

/-- The loop.  `compare index` orders the element at `index` against the key
that is searched.  The fuel is at least the length of the range. -/
def loop (compare : Nat → Ordering) : Nat → Nat → Nat → Bool × Nat
  | 0, low, _ => (false, low)
  | fuel + 1, low, high =>
      if low < high then
        let mid := (high - 1 - low) / 2 + low
        match compare mid with
        | .eq => (true, mid)
        | .lt => loop compare fuel (mid + 1) high
        | .gt => loop compare fuel low mid
      else
        (false, low)

/-- Search the first `count` indices. -/
def search (compare : Nat → Ordering) (count : Nat) : Bool × Nat :=
  loop compare count 0 count

/-- The same loop when a comparison may fail. -/
def loopM {m : Type → Type} [Monad m] (compare : Nat → m Ordering) :
    Nat → Nat → Nat → m (Bool × Nat)
  | 0, low, _ => pure (false, low)
  | fuel + 1, low, high =>
      if low < high then do
        let mid := (high - 1 - low) / 2 + low
        match ← compare mid with
        | .eq => pure (true, mid)
        | .lt => loopM compare fuel (mid + 1) high
        | .gt => loopM compare fuel low mid
      else
        pure (false, low)

def searchM {m : Type → Type} [Monad m] (compare : Nat → m Ordering)
    (count : Nat) : m (Bool × Nat) :=
  loopM compare count 0 count

/-- `position` splits the range: smaller elements before it, no smaller one
from it on, and only the element at `position` itself can be equal. -/
structure Splits (compare : Nat → Ordering) (count position : Nat) : Prop where
  le : position ≤ count
  before : ∀ index, index < position → compare index = .lt
  after : ∀ index, position < index → index < count → compare index = .gt
  here : position < count → compare position ≠ .lt

theorem loop_eq_of_splits {compare : Nat → Ordering} {count position : Nat}
    (splits : Splits compare count position) :
    ∀ fuel low high, high - low ≤ fuel → low ≤ position →
      position ≤ high → high ≤ count →
      (position = high → high < count → compare high = .gt) →
      loop compare fuel low high =
        (decide (position < high ∧ compare position = .eq), position) := by
  intro fuel
  induction fuel with
  | zero =>
      intro low high fuelBound lowBound highBound _ _
      have same : low = position := by omega
      have stop : ¬ position < high := by omega
      simp [loop, same, stop]
  | succ fuel inductionHypothesis =>
      intro low high fuelBound lowBound highBound countBound edge
      rw [loop]
      by_cases running : low < high
      · rw [if_pos running]
        simp only
        generalize midEq : (high - 1 - low) / 2 + low = mid
        have midLow : low ≤ mid := by omega
        have midHigh : mid < high := by omega
        rcases Nat.lt_trichotomy mid position with below | here | above
        · rw [splits.before mid below]
          simp only
          exact inductionHypothesis (mid + 1) high (by omega) (by omega)
            highBound countBound edge
        · subst here
          have notLess := splits.here (by omega)
          cases outcome : compare mid with
          | lt => exact absurd outcome notLess
          | eq => simp [midHigh]
          | gt =>
              simp only
              rw [inductionHypothesis low mid (by omega) midLow
                (Nat.le_refl _) (by omega) (fun _ _ => outcome)]
              simp
        · rw [splits.after mid above (by omega)]
          simp only
          rw [inductionHypothesis low mid (by omega) lowBound
            (by omega) (by omega) (by omega)]
          have inside : position < high := by omega
          simp [above, inside]
      · have same : low = position := by omega
        have stop : ¬ position < high := by omega
        rw [if_neg running]
        simp [same, stop]

/-- A split position is the answer of the search. -/
theorem search_eq_of_splits {compare : Nat → Ordering} {count position : Nat}
    (splits : Splits compare count position) :
    search compare count =
      (decide (position < count ∧ compare position = .eq), position) :=
  loop_eq_of_splits splits count 0 count (by omega) (Nat.zero_le _) splits.le
    (Nat.le_refl _) (by omega)

/-- A split position of the whole range splits the first indices. -/
theorem Splits.first {compare : Nat → Ordering} {count position few : Nat}
    (splits : Splits compare count position) (within : few ≤ count) :
    Splits compare few (min position few) where
  le := Nat.min_le_right _ _
  before := fun index below => splits.before index (by omega)
  after := fun index above bound =>
    splits.after index (by omega) (by omega)
  here := fun bound => by
    have inside : position < few := by omega
    rw [Nat.min_eq_left (Nat.le_of_lt inside)]
    exact splits.here (by omega)

/-- The search stays inside the range, whatever the comparisons are. -/
theorem loop_snd_le (compare : Nat → Ordering) :
    ∀ fuel low high, low ≤ high →
      low ≤ (loop compare fuel low high).2 ∧
        (loop compare fuel low high).2 ≤ high := by
  intro fuel
  induction fuel with
  | zero =>
      intro low high order
      exact ⟨Nat.le_refl _, order⟩
  | succ fuel inductionHypothesis =>
      intro low high order
      rw [loop]
      split
      · rename_i running
        simp only
        split
        · constructor <;> simp only <;> omega
        · have bound := inductionHypothesis
            ((high - 1 - low) / 2 + low + 1) high (by omega)
          omega
        · have bound := inductionHypothesis low
            ((high - 1 - low) / 2 + low) (by omega)
          omega
      · exact ⟨Nat.le_refl _, order⟩

theorem search_snd_le (compare : Nat → Ordering) (count : Nat) :
    (search compare count).2 ≤ count :=
  (loop_snd_le compare count 0 count (Nat.zero_le _)).2

/-- A hit is an index in the range whose element compares equal. -/
theorem loop_found (compare : Nat → Ordering) :
    ∀ fuel low high, (loop compare fuel low high).1 = true →
      (loop compare fuel low high).2 < high ∧
        compare (loop compare fuel low high).2 = .eq := by
  intro fuel
  induction fuel with
  | zero =>
      intro low high found
      simp [loop] at found
  | succ fuel inductionHypothesis =>
      intro low high found
      rw [loop] at found ⊢
      split at found
      · rename_i running
        rw [if_pos running]
        simp only at found ⊢
        split at found
        · rename_i equal
          simp only [equal, and_true]
          omega
        · rename_i less
          exact inductionHypothesis _ _ found
        · rename_i greater
          have bound := inductionHypothesis _ _ found
          exact ⟨by omega, bound.2⟩
      · simp at found

theorem search_found {compare : Nat → Ordering} {count : Nat}
    (found : (search compare count).1 = true) :
    (search compare count).2 < count ∧
      compare (search compare count).2 = .eq :=
  loop_found compare count 0 count found

/-- When no comparison fails, the failing loop is the plain one. -/
theorem loopM_eq_pure {m : Type → Type} [Monad m] [LawfulMonad m]
    {compareM : Nat → m Ordering} {compare : Nat → Ordering} {count : Nat}
    (succeeds : ∀ index, index < count →
      compareM index = pure (compare index)) :
    ∀ fuel low high, high ≤ count →
      loopM compareM fuel low high = pure (loop compare fuel low high) := by
  intro fuel
  induction fuel with
  | zero =>
      intro low high _
      rfl
  | succ fuel inductionHypothesis =>
      intro low high bound
      rw [loopM, loop]
      by_cases running : low < high
      · rw [if_pos running, if_pos running]
        dsimp only
        rw [succeeds _ (by omega), pure_bind]
        cases compare ((high - 1 - low) / 2 + low) with
        | eq => rfl
        | lt => exact inductionHypothesis _ _ bound
        | gt => exact inductionHypothesis _ _ (by omega)
      · rw [if_neg running, if_neg running]

theorem searchM_eq_pure {m : Type → Type} [Monad m] [LawfulMonad m]
    {compareM : Nat → m Ordering} {compare : Nat → Ordering} {count : Nat}
    (succeeds : ∀ index, index < count →
      compareM index = pure (compare index)) :
    searchM compareM count = pure (search compare count) :=
  loopM_eq_pure succeeds count 0 count (Nat.le_refl _)

/-- A failing search stays inside the range too. -/
theorem loopM_snd_le {ε : Type} {compareM : Nat → Except ε Ordering} :
    ∀ {fuel low high : Nat} {found : Bool} {index : Nat}, low ≤ high →
      loopM compareM fuel low high = .ok (found, index) →
      low ≤ index ∧ index ≤ high := by
  intro fuel
  induction fuel with
  | zero =>
      intro low high found index order outcome
      have pairEq := Prod.mk.inj (Except.ok.inj outcome)
      omega
  | succ fuel inductionHypothesis =>
      intro low high found index order outcome
      rw [loopM] at outcome
      by_cases running : low < high
      · rw [if_pos running] at outcome
        dsimp only at outcome
        cases compared : compareM ((high - 1 - low) / 2 + low) with
        | error reason =>
            rw [compared] at outcome
            cases outcome
        | ok order =>
            rw [compared] at outcome
            cases order with
            | eq =>
                have pairEq := Prod.mk.inj (Except.ok.inj outcome)
                omega
            | lt =>
                have bound := inductionHypothesis (by omega) outcome
                omega
            | gt =>
                have bound := inductionHypothesis (by omega) outcome
                omega
      · rw [if_neg running] at outcome
        have pairEq := Prod.mk.inj (Except.ok.inj outcome)
        omega

/-! ## Ordered lists -/

section OrderedList

variable {α : Type}

/-- Compare the element at an index; past the end everything is greater. -/
def compareAt (order : α → Ordering) (items : List α) (index : Nat) :
    Ordering :=
  match items[index]? with
  | some item => order item
  | none => .gt

/-- The number of leading elements that are smaller. -/
def lowerBound (order : α → Ordering) (items : List α) : Nat :=
  (items.takeWhile fun item => order item == .lt).length

theorem lowerBound_le (order : α → Ordering) (items : List α) :
    lowerBound order items ≤ items.length :=
  List.IsPrefix.length_le (List.takeWhile_prefix _)

theorem lowerBound_cons (order : α → Ordering) (head : α) (tail : List α) :
    lowerBound order (head :: tail) =
      if order head = .lt then lowerBound order tail + 1 else 0 := by
  unfold lowerBound
  by_cases less : order head = .lt
  · simp [less]
  · simp [less]

/-- In an ordered list the lower bound splits the index range. -/
theorem splits_lowerBound {order : α → Ordering} :
    ∀ {items : List α},
      items.Pairwise (fun left right =>
        order left = .lt ∨ order right = .gt) →
      Splits (compareAt order items) items.length (lowerBound order items)
  | [], _ =>
      { le := Nat.le_refl _
        before := by simp [lowerBound]
        after := by simp
        here := by simp }
  | head :: tail, ordered => by
      rw [List.pairwise_cons] at ordered
      have tailSplits := splits_lowerBound ordered.2
      rw [lowerBound_cons]
      by_cases less : order head = .lt
      · rw [if_pos less]
        refine ⟨?_, ?_, ?_, ?_⟩
        · simpa using tailSplits.le
        · intro index below
          cases index with
          | zero => simpa [compareAt] using less
          | succ index => exact tailSplits.before index (by omega)
        · intro index above bound
          cases index with
          | zero => omega
          | succ index =>
              exact tailSplits.after index (by omega) (by simpa using bound)
        · intro bound
          exact tailSplits.here (by simpa using bound)
      · rw [if_neg less]
        refine ⟨Nat.zero_le _, by simp, ?_, ?_⟩
        · intro index above bound
          cases index with
          | zero => omega
          | succ index =>
              have inTail : index < tail.length := by simpa using bound
              have later := ordered.1 tail[index] (List.getElem_mem inTail)
              simpa [compareAt, inTail, less] using later
        · intro _
          simpa [compareAt] using less

theorem search_ordered {order : α → Ordering} {items : List α}
    (ordered : items.Pairwise (fun left right =>
      order left = .lt ∨ order right = .gt)) :
    search (compareAt order items) items.length =
      (decide (lowerBound order items < items.length ∧
          compareAt order items (lowerBound order items) = .eq),
        lowerBound order items) :=
  search_eq_of_splits (splits_lowerBound ordered)

/-- An equal element of an ordered list is found. -/
theorem search_present {order : α → Ordering} {items : List α} {index : Nat}
    {item : α}
    (ordered : items.Pairwise (fun left right =>
      order left = .lt ∨ order right = .gt))
    (here : items[index]? = some item) (equal : order item = .eq) :
    search (compareAt order items) items.length = (true, index) := by
  obtain ⟨bound, rfl⟩ := List.getElem?_eq_some_iff.mp here
  have related := List.pairwise_iff_getElem.mp ordered
  have atItem : ∀ other (inside : other < items.length),
      compareAt order items other = order items[other] := by
    intro other inside
    unfold compareAt
    rw [List.getElem?_eq_getElem inside]
  have splits : Splits (compareAt order items) items.length index := by
    refine ⟨Nat.le_of_lt bound, ?_, ?_, ?_⟩
    · intro other below
      rw [atItem other (by omega)]
      rcases related other index (by omega) bound below with less | more
      · exact less
      · rw [equal] at more
        cases more
    · intro other above inside
      rw [atItem other inside]
      rcases related index other bound inside above with less | more
      · rw [equal] at less
        cases less
      · exact more
    · intro _
      rw [atItem index bound, equal]
      exact nofun
  rw [search_eq_of_splits splits, atItem index bound, equal]
  simp [bound]

/-- Cutting an ordered list at the lower bound. -/
theorem take_lowerBound_eq (order : α → Ordering) (items : List α) :
    items.take (lowerBound order items) =
      items.takeWhile fun item => order item == .lt :=
  (List.prefix_iff_eq_take.mp (List.takeWhile_prefix _)).symm

theorem take_lowerBound {order : α → Ordering} {items : List α} {item : α}
    (member : item ∈ items.take (lowerBound order items)) :
    order item = .lt := by
  rw [take_lowerBound_eq] at member
  simpa using List.mem_takeWhile_imp member

theorem drop_lowerBound {order : α → Ordering} {items : List α} {item : α}
    (ordered : items.Pairwise (fun left right =>
      order left = .lt ∨ order right = .gt))
    (member : item ∈ items.drop (lowerBound order items)) :
    order item ≠ .lt := by
  have splits := splits_lowerBound ordered
  obtain ⟨index, bound, rfl⟩ := List.getElem_of_mem member
  rw [List.length_drop] at bound
  rw [List.getElem_drop]
  have inside : lowerBound order items + index < items.length := by omega
  cases index with
  | zero =>
      have bare : lowerBound order items < items.length := by omega
      have here := splits.here bare
      rw [compareAt, List.getElem?_eq_getElem bare] at here
      simpa using here
  | succ index =>
      have later := splits.after (lowerBound order items + (index + 1))
        (by omega) inside
      simp only [compareAt, List.getElem?_eq_getElem inside] at later
      simp [later]

end OrderedList

end BinarySearch
