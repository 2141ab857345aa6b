import BtreeDb.Index.SchemaCompare

/-!
# Records that arrive in windows

A stored record is its header, its columns and what follows them; a key is its
columns only.  Where the comparison in windows comes out right, it gives the
order of the columns; `ComparesInWindows` names the columns and the cuts for
which it does.
-/

namespace BtreeDb

open Bytes

/-! ## Records and keys -/

/-- A column of a schema in the stored record and in the key. -/
structure ComparedColumn where
  definition : IBTLSKeyDef
  stored : List UInt8
  key : List UInt8
  deriving DecidableEq, Repr

/-- The bytes of a value: a `varsize` value has its length in front. -/
def encodeColumn (definition : IBTLSKeyDef) (value : List UInt8) :
    List UInt8 :=
  if definition.type = .varsize then le32 value.length ++ value else value

def storedBytes (columns : List ComparedColumn) : List UInt8 :=
  columns.flatMap fun column => encodeColumn column.definition column.stored

def keyBytes (columns : List ComparedColumn) : List UInt8 :=
  columns.flatMap fun column => encodeColumn column.definition column.key

/-- The values are ones that the definition is for. -/
structure ComparedColumn.Fits (column : ComparedColumn) : Prop where
  typed : column.definition.type ≠ .invalid
  stored_fixed : column.definition.type = .fixed →
    column.stored.length = column.definition.size
  key_fixed : column.definition.type = .fixed →
    column.key.length = column.definition.size

/-- The order of the columns, the first one first. -/
def compareColumns : List ComparedColumn → Ordering
  | [] => .eq
  | column :: rest =>
      (compare column.stored column.key).then (compareColumns rest)

/-- Where a column of the record starts. -/
def columnStart (columns : List ComparedColumn) (keyOffset index : Nat) : Nat :=
  keyOffset + (storedBytes (columns.take index)).length

def EqualBefore (columns : List ComparedColumn) (index : Nat) : Prop :=
  ∀ column ∈ columns.take index, column.stored = column.key

/-- The ends of the windows in the record. -/
def cutsOf : List (List UInt8) → Nat → List Nat
  | [], _ => []
  | window :: rest, start =>
      (start + window.length) :: cutsOf rest (start + window.length)

/-! ## When the comparison is right -/

/-- A column that is compared.  Before the last column it is a `varsize` one,
and not an empty one when it is equal; if it is not equal it differs at a byte,
or it is the last one and goes on behind the key's. -/
structure ColumnCompares (memcmp : Memcmp) (columns : List ComparedColumn)
    (index : Nat) (column : ComparedColumn) : Prop where
  varsize : column.definition.type = .varsize ∨
    index + 1 = columns.length ∧ column.stored = column.key
  nonempty : column.stored = column.key → index + 1 < columns.length →
    column.stored ≠ []
  decides : column.stored ≠ column.key →
    (¬ column.stored <+: column.key ∧ ¬ column.key <+: column.stored ∧
      memcmp.Exact) ∨
    (index + 1 = columns.length ∧ column.key <+: column.stored)

/-- The columns are compared, no window ends between the length of a compared
column and its bytes, and a third column is not begun in the window in which
the two before it ended. -/
structure ComparesInWindows (memcmp : Memcmp) (columns : List ComparedColumn)
    (keyOffset : Nat) (cuts : List Nat) : Prop where
  column : ∀ {index : Nat} {column : ComparedColumn},
    EqualBefore columns index → columns[index]? = some column →
    ColumnCompares memcmp columns index column
  behindLength : ∀ {index : Nat} {column : ComparedColumn},
    EqualBefore columns index → columns[index]? = some column →
    column.definition.type = .varsize →
    columnStart columns keyOffset index + 4 ∈ cuts →
      index + 1 = columns.length ∧ column.key = []
  thirdColumn : ∀ {index : Nat}, EqualBefore columns (index + 2) →
    index + 2 < columns.length →
    ∃ cut ∈ cuts, columnStart columns keyOffset (index + 1) ≤ cut ∧
      cut ≤ columnStart columns keyOffset (index + 2)

/-! ## Columns in the record and in the key -/

section Columns

variable {columns : List ComparedColumn} {index : Nat} {column : ComparedColumn}

theorem storedBytes_append (left right : List ComparedColumn) :
    storedBytes (left ++ right) = storedBytes left ++ storedBytes right :=
  List.flatMap_append

theorem split_at (here : columns[index]? = some column) :
    columns = columns.take index ++ column :: columns.drop (index + 1) := by
  obtain ⟨inside, same⟩ := List.getElem?_eq_some_iff.mp here
  rw [← same, ← List.drop_eq_getElem_cons inside, List.take_append_drop]

/-- The record from a column on. -/
theorem record_drop (header more : List UInt8)
    (here : columns[index]? = some column) :
    (header ++ (storedBytes columns ++ more)).drop
        (columnStart columns header.length index) =
      encodeColumn column.definition column.stored ++
        (storedBytes (columns.drop (index + 1)) ++ more) := by
  have parts : storedBytes columns = storedBytes (columns.take index) ++
      (encodeColumn column.definition column.stored ++
        storedBytes (columns.drop (index + 1))) := by
    conv => lhs; rw [split_at here]
    rw [storedBytes_append]
    rfl
  unfold columnStart
  rw [parts, List.append_assoc, ← List.append_assoc header,
    ← List.length_append, List.drop_left, List.append_assoc]

theorem columnStart_succ (keyOffset : Nat)
    (here : columns[index]? = some column) :
    columnStart columns keyOffset (index + 1) =
      columnStart columns keyOffset index +
        (encodeColumn column.definition column.stored).length := by
  have next : columns.take (index + 1) = columns.take index ++ [column] := by
    rw [List.take_add_one, here]
    rfl
  have single : storedBytes [column] =
      encodeColumn column.definition column.stored :=
    List.append_nil _
  unfold columnStart
  rw [next, storedBytes_append, single, List.length_append]
  omega

theorem EqualBefore.succ (before : EqualBefore columns index)
    (here : columns[index]? = some column)
    (same : column.stored = column.key) : EqualBefore columns (index + 1) := by
  intro other member
  rw [List.take_add_one, here] at member
  rcases List.mem_append.mp member with earlier | last
  · exact before other earlier
  · rw [List.mem_singleton.mp last]
    exact same

theorem compareColumns_append (left right : List ComparedColumn) :
    compareColumns (left ++ right) =
      (compareColumns left).then (compareColumns right) := by
  induction left with
  | nil => rfl
  | cons first rest inductionHypothesis =>
      rw [List.cons_append, compareColumns, inductionHypothesis, compareColumns,
        Ordering.then_assoc]

theorem compareColumns_equal :
    ∀ {columns : List ComparedColumn},
      (∀ column ∈ columns, column.stored = column.key) →
        compareColumns columns = .eq
  | [], _ => rfl
  | first :: rest, same => by
      have restEqual := compareColumns_equal fun column member =>
        same column (List.mem_cons_of_mem _ member)
      rw [compareColumns, same first List.mem_cons_self, restEqual,
        Std.ReflOrd.compare_self]
      rfl

/-- With equal columns before it, a column that differs decides. -/
theorem compareColumns_decided (before : EqualBefore columns index)
    (here : columns[index]? = some column)
    (apart : compare column.stored column.key ≠ .eq) :
    compareColumns columns = compare column.stored column.key := by
  rw [split_at here, compareColumns_append, compareColumns_equal before,
    compareColumns]
  cases order : compare column.stored column.key with
  | eq => exact absurd order apart
  | lt => rfl
  | gt => rfl

theorem compareColumns_last (before : EqualBefore columns index)
    (here : columns[index]? = some column)
    (last : index + 1 = columns.length) :
    compareColumns columns = compare column.stored column.key := by
  have noMore : columns.drop (index + 1) = [] :=
    List.drop_of_length_le (by omega)
  rw [split_at here, compareColumns_append, compareColumns_equal before,
    noMore, compareColumns, compareColumns]
  cases compare column.stored column.key <;> rfl

end Columns

end BtreeDb
