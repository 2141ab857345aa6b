import BtreeDb.Lib.Bytes
import Mathlib.Data.List.Forall2

/-!
# Reading a byte buffer from the front

A reader takes bytes from the front of a buffer and leaves the rest.
`Decodes` says that it reads back what a writer wrote, whatever follows; the
rules compose it along the reader.
-/

namespace ByteStream

open Bytes

abbrev Reader (ε : Type) : Type → Type := StateT (List UInt8) (Except ε)

section Readers

variable {ε α β : Type}

/-- The next bytes, unless the buffer ends before. -/
def takeBytes (error : ε) (count : Nat) : Reader ε (List UInt8) := fun buffer =>
  if count ≤ buffer.length then
    .ok (buffer.take count, buffer.drop count)
  else .error error

/-- The next little-endian 32-bit word. -/
def word32 (error : ε) : Reader ε Nat := do
  let bytes ← takeBytes error 4
  pure (fromLe bytes)

def stop (error : ε) : Reader ε α :=
  fun _ => .error error

/-- Read once for each item. -/
def readEach (read : α → Reader ε β) : List α → Reader ε (List β)
  | [] => pure []
  | item :: items => do
      let value ← read item
      let values ← readEach read items
      pure (value :: values)

variable {buffer rest : List UInt8} {error : ε}

theorem pure_ok_iff {value result : α} :
    (pure value : Reader ε α) buffer = .ok (result, rest) ↔
      value = result ∧ buffer = rest := by
  constructor
  · intro read
    exact Prod.mk.inj (Except.ok.inj read)
  · rintro ⟨rfl, rfl⟩
    rfl

theorem bind_ok_iff {read : Reader ε α} {cont : α → Reader ε β} {result : β} :
    (read >>= cont) buffer = .ok (result, rest) ↔
      ∃ value mid, read buffer = .ok (value, mid) ∧
        cont value mid = .ok (result, rest) := by
  have unfolded : (read >>= cont) buffer =
      (read buffer >>= fun pair => cont pair.1 pair.2) := rfl
  rw [unfolded]
  cases readEq : read buffer with
  | error other =>
      constructor
      · intro impossible
        cases impossible
      · rintro ⟨_, _, impossible, _⟩
        cases impossible
  | ok pair =>
      constructor
      · intro contEq
        exact ⟨pair.1, pair.2, rfl, contEq⟩
      · rintro ⟨value, mid, pairEq, contEq⟩
        rw [Except.ok.inj pairEq]
        exact contEq

theorem stop_ne_ok {result : α} :
    (stop error : Reader ε α) buffer ≠ .ok (result, rest) :=
  nofun

/-- What holds of every value that is read holds of all of them. -/
theorem readEach_forall₂ {read : α → Reader ε β} {holds : α → β → Prop}
    (each : ∀ item buffer value rest,
      read item buffer = .ok (value, rest) → holds item value)
    {items : List α} {values : List β}
    (readEq : readEach read items buffer = .ok (values, rest)) :
    List.Forall₂ holds items values := by
  induction items generalizing buffer values with
  | nil =>
      obtain ⟨rfl, _⟩ := pure_ok_iff.mp readEq
      exact List.Forall₂.nil
  | cons item items inductionHypothesis =>
      obtain ⟨value, mid, first, later⟩ := bind_ok_iff.mp readEq
      obtain ⟨values, last, others, ended⟩ := bind_ok_iff.mp later
      obtain ⟨rfl, rfl⟩ := pure_ok_iff.mp ended
      exact List.Forall₂.cons (each _ _ _ _ first) (inductionHypothesis others)

end Readers

/-! ## Reading back -/

section Decoding

variable {ε α β : Type} {error : ε}

/-- The reader takes exactly these bytes from the front of any buffer, and
makes the value of them. -/
def Decodes (read : Reader ε α) (bytes : List UInt8) (value : α) : Prop :=
  ∀ rest, read (bytes ++ rest) = .ok (value, rest)

theorem Decodes.pure (value : α) : Decodes (pure value : Reader ε α) [] value :=
  fun _ => rfl

theorem Decodes.bind {read : Reader ε α} {cont : α → Reader ε β}
    {front back : List UInt8} {value : α} {result : β}
    (first : Decodes read front value)
    (second : Decodes (cont value) back result) :
    Decodes (read >>= cont) (front ++ back) result := by
  intro rest
  rw [List.append_assoc]
  exact bind_ok_iff.mpr ⟨value, back ++ rest, first _, second rest⟩

/-- A last step that reads nothing. -/
theorem Decodes.map {read : Reader ε α} {bytes : List UInt8} {value : α}
    {result : α → β} (first : Decodes read bytes value) :
    Decodes (read >>= fun item => Pure.pure (result item)) bytes
      (result value) := by
  intro rest
  exact bind_ok_iff.mpr ⟨value, rest, first rest, rfl⟩

theorem Decodes.takeBytes {bytes : List UInt8} {count : Nat}
    (length : bytes.length = count) :
    Decodes (takeBytes error count) bytes bytes := by
  intro rest
  have room : count ≤ (bytes ++ rest).length := by
    rw [List.length_append]
    omega
  unfold ByteStream.takeBytes
  rw [if_pos room, List.take_left' length, List.drop_left' length]

theorem Decodes.word32 {value : Nat} (bound : value < 2 ^ 32) :
    Decodes (word32 error) (le32 value) value := by
  intro rest
  refine bind_ok_iff.mpr
    ⟨le32 value, rest, Decodes.takeBytes (le32_length value) rest, ?_⟩
  rw [fromLe_le32, Nat.mod_eq_of_lt bound]
  rfl

/-- One item behind the other. -/
theorem Decodes.each {read : α → Reader ε β} {encode : α → List UInt8}
    {decoded : α → β} :
    ∀ {items : List α},
      (∀ item ∈ items, Decodes (read item) (encode item) (decoded item)) →
      Decodes (readEach read items) (items.flatMap encode) (items.map decoded)
  | [], _ => Decodes.pure []
  | item :: items, all => by
      have first := all item List.mem_cons_self
      have others := Decodes.each fun later member =>
        all later (List.mem_cons_of_mem _ member)
      exact first.bind others.map

/-- One item behind the other, read by their places. -/
theorem Decodes.indexed {read : Nat → Reader ε β} {encode : β → List UInt8} :
    ∀ {values : List β} {start : Nat},
      (∀ index value, values[index]? = some value →
        Decodes (read (start + index)) (encode value) value) →
      Decodes (readEach read (List.range' start values.length))
        (values.flatMap encode) values
  | [], _, _ => Decodes.pure []
  | value :: values, start, all => by
      have first := all 0 value rfl
      have others : Decodes (readEach read (List.range' (start + 1) values.length))
          (values.flatMap encode) values := by
        apply Decodes.indexed
        intro index later same
        have behind := all (index + 1) later same
        rwa [← Nat.add_assoc, Nat.add_right_comm] at behind
      rw [List.length_cons, List.range'_succ]
      exact first.bind others.map

end Decoding

/-! ## Writing -/

section Writing

variable {ε α β : Type} {write : α → Except ε β}

theorem except_bind_ok_iff {first : Except ε α} {cont : α → Except ε β}
    {result : β} :
    (first >>= cont) = .ok result ↔
      ∃ value, first = .ok value ∧ cont value = .ok result := by
  cases first with
  | error other =>
      constructor
      · intro impossible
        cases impossible
      · rintro ⟨_, impossible, _⟩
        cases impossible
  | ok value =>
      constructor
      · intro contEq
        exact ⟨value, rfl, contEq⟩
      · rintro ⟨other, same, contEq⟩
        rw [Except.ok.inj same]
        exact contEq

theorem mapM_ok_iff {items : List α} {values : List β} :
    items.mapM write = .ok values ↔
      List.Forall₂ (fun item value => write item = .ok value) items values := by
  induction items generalizing values with
  | nil =>
      constructor
      · intro written
        cases written
        exact List.Forall₂.nil
      · intro none
        cases none
        rfl
  | cons item items inductionHypothesis =>
      rw [List.mapM_cons]
      constructor
      · intro written
        cases first : write item with
        | error other =>
            rw [first] at written
            cases written
        | ok value =>
            rw [first] at written
            cases others : items.mapM write with
            | error other =>
                rw [others] at written
                cases written
            | ok rest =>
                rw [others] at written
                cases written
                exact List.Forall₂.cons first (inductionHypothesis.mp others)
      · intro all
        cases all with
        | cons first others =>
            rw [first, inductionHypothesis.mpr others]
            rfl

theorem mapM_of_ok {encode : α → β} {items : List α}
    (all : ∀ item ∈ items, write item = .ok (encode item)) :
    items.mapM write = .ok (items.map encode) := by
  apply mapM_ok_iff.mpr
  rw [List.forall₂_map_right_iff, List.forall₂_same]
  exact all

theorem mapM_error {items : List α} {error : ε}
    (failed : items.mapM write = .error error) :
    ∃ item ∈ items, write item = .error error := by
  induction items with
  | nil => cases failed
  | cons item items inductionHypothesis =>
      rw [List.mapM_cons] at failed
      cases first : write item with
      | error other =>
          rw [first] at failed
          cases failed
          exact ⟨item, List.mem_cons_self, first⟩
      | ok value =>
          rw [first] at failed
          cases others : items.mapM write with
          | error other =>
              rw [others] at failed
              cases failed
              obtain ⟨later, member, stopped⟩ := inductionHypothesis others
              exact ⟨later, List.mem_cons_of_mem _ member, stopped⟩
          | ok values =>
              rw [others] at failed
              cases failed

end Writing

end ByteStream
