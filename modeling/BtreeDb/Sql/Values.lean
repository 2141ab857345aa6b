import BtreeDb.Lib.ByteStream
import BtreeDb.Sql.Parse
import Mathlib.Data.BitVec

/-!
# SQL values

`sql_value.c`: the value of a literal, and its bytes.  The bytes have neither a
type nor a width; the decoder is told the type.
-/

namespace BtreeDb

open Bytes ByteStream

/-- `enum sql_e` without `SQL_OK`. -/
inductive SqlErr where
  | invalidSql
  | recordMissingPkey
  | badParse
  | badRecord
  | unknown
  | tableDne
  | notFound
  | scanDone
  deriving DecidableEq, Repr

/-- How a call ends without a result: with an error code, at an assertion that
fails, or at an access or a conversion that is out of range. -/
inductive SqlStop where
  | error (code : SqlErr)
  | assertion
  | outOfRange
  deriving DecidableEq, Repr

abbrev SqlM := Except SqlStop

/-- A part of an `SqlM` call that reads a buffer. -/
abbrev SqlReader := Reader SqlStop

/-- `enum sql_value_type_e`. -/
inductive SqlValueType where
  | inval
  | string
  | int
  deriving DecidableEq, Repr

/-- `struct SQLValue`: the number is a `long long`. -/
inductive SqlValue where
  | inval
  | string (text : SqlString)
  | int (num : Int)
  deriving DecidableEq, Repr

/-- `str2int`: the sum is an `int` and wraps around. -/
def str2int (text : SqlString) : BitVec 32 :=
  text.foldl
    (fun ret char => ret * 10 + (BitVec.ofInt 32 char.toInt8.toInt - 48)) 0

/-- `sql_value_acquire_eval`. -/
def sqlValueAcquireEval (literal : SqlLiteralStr) : SqlM SqlValue :=
  match literal.type with
  | .string => .ok (.string literal.value)
  | .int => .ok (.int (str2int literal.value).toInt)
  | .inval => .error .assertion

/-- `sql_value_equals`: values of no type are not equal. -/
def sqlValueEquals : SqlValue → SqlValue → Bool
  | .int left, .int right => left == right
  | .string left, .string right => left == right
  | _, _ => false

/-- What a value adds to `sql_value_array_ser_size`. -/
def sqlValueSerSize : SqlValue → SqlM Nat
  | .string text => .ok (4 + text.length)
  | .int _ => .ok 4
  | .inval => .error .assertion

/-- `sql_value_array_ser_size`: the sum is a `u32`. -/
def sqlValueArraySerSize (values : List SqlValue) : SqlM Nat :=
  values.foldlM (fun size value => do
    let more ← sqlValueSerSize value
    pure ((size + more) % 2 ^ 32)) 0

/-- `sql_value_serialize_int`. -/
def sqlValueSerializeInt (val : Nat) : List UInt8 :=
  le32 val

/-- `sql_string_ser`: the number of bytes is returned as an `int`. -/
def sqlStringSer (text : SqlString) : SqlM (List UInt8) :=
  if 4 + text.length < 2 ^ 31 then .ok (le32 text.length ++ text)
  else .error .outOfRange

/-- `sql_value_serialize_string`. -/
def sqlValueSerializeString (text : SqlString) : SqlM (List UInt8) :=
  sqlStringSer text

/-- `sql_value_serialize`: a number is cut to 32 bits. -/
def sqlValueSerialize : SqlValue → SqlM (List UInt8)
  | .string text => sqlStringSer text
  | .int num => .ok (le32 (num % 2 ^ 32).toNat)
  | .inval => .error .assertion

/-- `sql_string_deser`. -/
def sqlStringDeser : SqlReader SqlString := do
  let len ← word32 .outOfRange
  let text ← takeBytes .outOfRange len
  if 4 + len < 2 ^ 31 then pure text else stop .outOfRange

/-- `sql_value_deserialize_as`: a number is read without a sign. -/
def sqlValueDeserializeAs : SqlValueType → SqlReader SqlValue
  | .string => do
      let text ← sqlStringDeser
      pure (.string text)
  | .int => do
      let num ← word32 .outOfRange
      pure (.int num)
  | .inval => stop .assertion

/-! ## Values with a type -/

/-- The type of the value. -/
def SqlValue.type : SqlValue → SqlValueType
  | .inval => .inval
  | .string _ => .string
  | .int _ => .int

/-- The number of bytes of a value that has a type. -/
def SqlValue.size : SqlValue → Nat
  | .inval => 0
  | .string text => 4 + text.length
  | .int _ => 4

theorem sqlValueEquals_iff {left right : SqlValue} :
    sqlValueEquals left right = true ↔ left = right ∧ left.type ≠ .inval := by
  cases left <;> cases right <;> simp [sqlValueEquals, SqlValue.type]

theorem sqlValueAcquireEval_typed {literal : SqlLiteralStr} {value : SqlValue}
    (evaluated : sqlValueAcquireEval literal = .ok value) :
    value.type ≠ .inval := by
  unfold sqlValueAcquireEval at evaluated
  cases typeEq : literal.type with
  | inval =>
      rw [typeEq] at evaluated
      cases evaluated
  | string =>
      rw [typeEq] at evaluated
      cases evaluated
      simp [SqlValue.type]
  | int =>
      rw [typeEq] at evaluated
      cases evaluated
      simp [SqlValue.type]

/-- The size of an array with types is the sum, as a `u32`. -/
theorem sqlValueArraySerSize_ok {values : List SqlValue}
    (typed : ∀ value ∈ values, value.type ≠ .inval) :
    sqlValueArraySerSize values =
      .ok ((values.map SqlValue.size).sum % 2 ^ 32) := by
  have fromSize : ∀ (values : List SqlValue) (size : Nat),
      (∀ value ∈ values, value.type ≠ .inval) →
      values.foldlM (fun size value => do
        let more ← sqlValueSerSize value
        pure ((size + more) % 2 ^ 32)) (size % 2 ^ 32) =
        (.ok ((size + (values.map SqlValue.size).sum) % 2 ^ 32) : SqlM Nat) := by
    intro values
    induction values with
    | nil =>
        intro size _
        rfl
    | cons value values inductionHypothesis =>
        intro size typed
        have others := inductionHypothesis (size + value.size)
          fun later member => typed later (List.mem_cons_of_mem _ member)
        have sized : sqlValueSerSize value = .ok value.size := by
          have first := typed value List.mem_cons_self
          cases value with
          | inval => exact absurd rfl first
          | string text => rfl
          | int num => rfl
        rw [List.foldlM_cons, sized, List.map_cons, List.sum_cons,
          ← Nat.add_assoc, ← others]
        change List.foldlM _ ((size % 2 ^ 32 + value.size) % 2 ^ 32) _ = _
        rw [Nat.mod_add_mod]
  have whole := fromSize values 0 typed
  rwa [Nat.zero_mod, Nat.zero_add] at whole

theorem sqlValueArraySerSize_stop {values : List SqlValue} {stopped : SqlStop}
    (failed : sqlValueArraySerSize values = .error stopped) :
    ∃ value ∈ values, value.type = .inval := by
  by_contra none
  have typed : ∀ value ∈ values, value.type ≠ .inval := by
    intro value member inval
    exact none ⟨value, member, inval⟩
  rw [sqlValueArraySerSize_ok typed] at failed
  cases failed

theorem sqlStringSer_ok_iff {text : SqlString} {bytes : List UInt8} :
    sqlStringSer text = .ok bytes ↔
      4 + text.length < 2 ^ 31 ∧ bytes = le32 text.length ++ text := by
  unfold sqlStringSer
  split
  · rename_i small
    constructor
    · intro written
      exact ⟨small, (Except.ok.inj written).symm⟩
    · rintro ⟨_, rfl⟩
      rfl
  · rename_i large
    constructor
    · intro impossible
      cases impossible
    · rintro ⟨small, _⟩
      exact absurd small large

/-- A value that is written has its size. -/
theorem sqlValueSerialize_length {value : SqlValue} {bytes : List UInt8}
    (written : sqlValueSerialize value = .ok bytes) :
    bytes.length = value.size := by
  cases value with
  | inval => cases written
  | string text =>
      obtain ⟨_, rfl⟩ := sqlStringSer_ok_iff.mp written
      rw [List.length_append, le32_length]
      rfl
  | int num =>
      cases written
      rfl

/-- A string is read back. -/
theorem sqlStringDeser_decodes {text : SqlString}
    (small : 4 + text.length < 2 ^ 31) :
    Decodes sqlStringDeser (le32 text.length ++ text) text := by
  have ended : Decodes (if 4 + text.length < 2 ^ 31 then pure text
      else stop .outOfRange : SqlReader SqlString) [] text := by
    rw [if_pos small]
    exact Decodes.pure text
  have taken : Decodes (do
      let read ← takeBytes .outOfRange text.length
      if 4 + text.length < 2 ^ 31 then pure read else stop .outOfRange :
        SqlReader SqlString) text text := by
    have both := @Decodes.bind SqlStop _ _ (takeBytes .outOfRange text.length)
      (fun read => if 4 + text.length < 2 ^ 31 then pure read
        else stop .outOfRange) _ _ _ _ (Decodes.takeBytes rfl) ended
    rwa [List.append_nil] at both
  exact (Decodes.word32 (by omega)).bind taken

/-- The value is one of the type that is read back: a number has no sign. -/
def SqlValue.ReadAs (value : SqlValue) (type : SqlValueType) : Prop :=
  match value, type with
  | .string _, .string => True
  | .int num, .int => 0 ≤ num
  | _, _ => False

theorem SqlValue.ReadAs.typed {value : SqlValue} {type : SqlValueType}
    (readAs : value.ReadAs type) : value.type ≠ .inval := by
  cases value <;> cases type <;> first | exact readAs.elim | simp [SqlValue.type]

/-- Of the values that fit in an `int`, those are read back. -/
theorem sqlValueDeserializeAs_decodes {value : SqlValue} {type : SqlValueType}
    {bytes : List UInt8} (written : sqlValueSerialize value = .ok bytes)
    (readAs : value.ReadAs type)
    (inInt : ∀ num, value = .int num → num < 2 ^ 32) :
    Decodes (sqlValueDeserializeAs type) bytes value := by
  cases value with
  | inval => cases written
  | string text =>
      cases type with
      | string =>
          obtain ⟨small, rfl⟩ := sqlStringSer_ok_iff.mp written
          exact (sqlStringDeser_decodes small).map
      | inval => exact readAs.elim
      | int => exact readAs.elim
  | int num =>
      cases type with
      | int =>
          cases written
          have positive : 0 ≤ num := readAs
          have bound := inInt num rfl
          have same : ((num % 2 ^ 32).toNat : Int) = num := by
            rw [Int.emod_eq_of_lt positive bound]
            exact Int.toNat_of_nonneg positive
          have small : (num % 2 ^ 32).toNat < 2 ^ 32 := by omega
          have read : Decodes (sqlValueDeserializeAs .int)
              (le32 (num % 2 ^ 32).toNat) (.int ((num % 2 ^ 32).toNat : Nat)) :=
            (Decodes.word32 small).map
          rwa [same] at read
      | inval => exact readAs.elim
      | string => exact readAs.elim

/-- What is read is a value of the type. -/
theorem sqlValueDeserializeAs_readAs {type : SqlValueType} {value : SqlValue}
    {buffer rest : List UInt8}
    (read : sqlValueDeserializeAs type buffer = .ok (value, rest)) :
    value.ReadAs type := by
  cases type with
  | inval => cases read
  | string =>
      obtain ⟨text, mid, _, ended⟩ := bind_ok_iff.mp read
      obtain ⟨rfl, _⟩ := pure_ok_iff.mp ended
      trivial
  | int =>
      obtain ⟨num, mid, _, ended⟩ := bind_ok_iff.mp read
      obtain ⟨rfl, _⟩ := pure_ok_iff.mp ended
      exact Int.natCast_nonneg num

/-- The bytes of a value that has a type. -/
def SqlValue.bytes : SqlValue → List UInt8
  | .inval => []
  | .string text => le32 text.length ++ text
  | .int num => le32 (num % 2 ^ 32).toNat

theorem sqlValueSerialize_bytes {value : SqlValue} {bytes : List UInt8}
    (written : sqlValueSerialize value = .ok bytes) :
    bytes = value.bytes := by
  cases value with
  | inval => cases written
  | string text => exact (sqlStringSer_ok_iff.mp written).2
  | int num =>
      cases written
      rfl

end BtreeDb
