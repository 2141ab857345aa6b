import BtreeDb.Sql.TableDefs

/-!
# Rows

`sql_ibtree.c` writes the values of a record in the order of the table, with
the primary key in front, and reads them with the types of the table.
`sqldb_table_prepare_record` adds the primary key to a record without one.
-/

namespace BtreeDb

open Bytes ByteStream

/-- `struct SQLRecord` with the columns of its schema. -/
structure SqlRecord where
  columns : List SqlString
  values : List SqlValue
  deriving DecidableEq, Repr

/-- `sql_record_schema_indexof`. -/
def sqlRecordSchemaIndexof (schema : List SqlString) (columnName : SqlString) :
    Option Nat :=
  schema.findIdx? fun column => columnName == column

/-- A place of the value array, which is all zeros at first. -/
def SqlRecord.valueAt (record : SqlRecord) (index : Nat) : SqlValue :=
  record.values.getD index .inval

/-- A place of the column array of a table. -/
def SqlTable.column (table : SqlTable) (index : Nat) : SqlTableColumn :=
  table.columns.getD index ⟨[], .inval, false⟩

/-! ## Records of `INSERT` -/

/-- `sql_parsegen_record_schema_from_insert` and
`sql_parsegen_record_from_insert`. -/
def sqlParsegenRecordFromInsert (insert : SqlParsedInsert) : SqlM SqlRecord :=
  if insert.columns.length ≠ insert.values.length then
    .error (.error .invalidSql)
  else do
    let values ← insert.values.mapM sqlValueAcquireEval
    pure { columns := insert.columns, values }

/-- What the sequence table answers for the table: the next number, or the
number that a value is taken for.  Both are an `int`. -/
structure SqldbSeqTbl where
  next : SqlM (BitVec 32)
  set : SqlValue → SqlM (BitVec 32)

/-- `verify_record`. -/
def verifyRecord (table : SqlTable) (record : SqlRecord) : SqlM Unit :=
  if table.columns.any fun column => !column.isPrimaryKey &&
      (sqlRecordSchemaIndexof record.columns column.name).isNone then
    .error (.error .badRecord)
  else .ok ()

/-- `sqldb_table_prepare_record`, with the row id. -/
def sqldbTablePrepareRecord (sequences : SqldbSeqTbl) (table : SqlTable)
    (record : SqlRecord) : SqlM (SqlRecord × BitVec 32) := do
  verifyRecord table record
  match sqlTableFindPrimaryKey table with
  | none => .error .assertion
  | some pkeyInd =>
      let pkeyName := (table.column pkeyInd).name
      match sqlRecordSchemaIndexof record.columns pkeyName with
      | none =>
          let seq ← sequences.next
          pure ({ columns := record.columns ++ [pkeyName]
                  values := record.values ++ [.int seq.toInt] }, seq)
      | some schemaPkeyInd =>
          let seq ← sequences.set (record.valueAt schemaPkeyInd)
          pure (record, seq)

/-! ## Writing and reading -/

/-- `struct SQLSerializedRecord`: the bytes that are written, and the size. -/
structure SqlSerializedRecord where
  buf : List UInt8
  size : Nat
  deriving DecidableEq, Repr

/-- `convert_to_value_type`; no value has the type of its assertion. -/
def convertToValueType : SqlDt → SqlValueType
  | .int => .int
  | .string => .string
  | .inval => .inval

/-- The columns in the order of a row: the loops skip the primary key, which
comes first. -/
def rowColumns (table : SqlTable) (pkeyInd : Nat) : List SqlTableColumn :=
  table.column pkeyInd :: table.columns.eraseIdx pkeyInd

/-- The value of one column; without one the code reads `values[-1]`. -/
def serializeRecordColumn (record : SqlRecord) (column : SqlTableColumn) :
    SqlM (List UInt8) :=
  match sqlRecordSchemaIndexof record.columns column.name with
  | none => .error .outOfRange
  | some recordInd => sqlValueSerialize (record.valueAt recordInd)

/-- `sql_ibtree_serialize_record_acquire`. -/
def sqlIbtreeSerializeRecordAcquire (table : SqlTable) (record : SqlRecord) :
    SqlM SqlSerializedRecord :=
  match sqlTableFindPrimaryKey table with
  | none => .error .assertion
  | some pkeyInd =>
      if record.columns.length ≠ table.columns.length then
        .error (.error .badRecord)
      else if (sqlRecordSchemaIndexof record.columns
          (table.column pkeyInd).name).isNone then
        .error (.error .recordMissingPkey)
      else do
        let size ← sqlValueArraySerSize record.values
        let written ← (rowColumns table pkeyInd).mapM
          (serializeRecordColumn record)
        pure { buf := written.flatten, size }

/-- `sql_ibtree_deserialize_record`. -/
def sqlIbtreeDeserializeRecord (table : SqlTable) : SqlReader SqlRecord :=
  match sqlTableFindPrimaryKey table with
  | none => stop .assertion
  | some pkeyInd => do
      let values ← readEach
        (fun column => sqlValueDeserializeAs (convertToValueType column.type))
        (rowColumns table pkeyInd)
      pure { columns := (rowColumns table pkeyInd).map SqlTableColumn.name
             values }

/-! ## Values by name -/

/-- The value under a column name. -/
def SqlRecord.value (record : SqlRecord) (name : SqlString) : Option SqlValue :=
  (sqlRecordSchemaIndexof record.columns name).map record.valueAt

/-- The columns with their values. -/
def SqlRecord.pairs (record : SqlRecord) : List (SqlString × SqlValue) :=
  record.columns.zip record.values

theorem sqlRecordSchemaIndexof_some {schema : List SqlString} {name : SqlString}
    {index : Nat} (found : sqlRecordSchemaIndexof schema name = some index) :
    schema[index]? = some name := by
  unfold sqlRecordSchemaIndexof at found
  obtain ⟨bound, same, _⟩ := List.findIdx?_eq_some_iff_getElem.mp found
  rw [List.getElem?_eq_getElem bound, ← eq_of_beq same]

theorem sqlRecordSchemaIndexof_isSome {schema : List SqlString}
    {name : SqlString} :
    (sqlRecordSchemaIndexof schema name).isSome ↔ name ∈ schema := by
  unfold sqlRecordSchemaIndexof
  rw [List.findIdx?_isSome, List.any_eq_true]
  constructor
  · rintro ⟨column, member, same⟩
    rwa [eq_of_beq same]
  · intro member
    exact ⟨name, member, beq_self_eq_true name⟩

theorem SqlRecord.value_isSome {record : SqlRecord} {name : SqlString} :
    (record.value name).isSome ↔ name ∈ record.columns := by
  unfold value
  rw [Option.isSome_map]
  exact sqlRecordSchemaIndexof_isSome

/-- The value under a name is one of the columns. -/
theorem SqlRecord.value_mem_pairs {record : SqlRecord} {name : SqlString}
    {value : SqlValue} (lengths : record.columns.length = record.values.length)
    (found : record.value name = some value) : (name, value) ∈ record.pairs := by
  obtain ⟨index, indexEq, rfl⟩ := Option.map_eq_some_iff.mp found
  have nameEq := sqlRecordSchemaIndexof_some indexEq
  obtain ⟨bound, same⟩ := List.getElem?_eq_some_iff.mp nameEq
  apply List.mem_iff_getElem?.mpr
  refine ⟨index, ?_⟩
  unfold pairs valueAt
  rw [List.getElem?_zip_eq_some]
  refine ⟨nameEq, ?_⟩
  rw [lengths] at bound
  rw [List.getD_eq_getElem?_getD, List.getElem?_eq_getElem bound,
    Option.getD_some]

theorem zip_map_same {α β γ : Type} (first : α → β) (second : α → γ)
    (items : List α) :
    (items.map first).zip (items.map second) =
      items.map fun item => (first item, second item) := by
  induction items with
  | nil => rfl
  | cons item items inductionHypothesis =>
      rw [List.map_cons, List.map_cons, List.zip_cons_cons,
        inductionHypothesis]
      rfl

/-- A record that is made column by column has the value of one of them. -/
theorem SqlRecord.value_of_map {α : Type} {names : α → SqlString}
    {values : α → SqlValue} {columns : List α} {name : SqlString}
    (member : name ∈ columns.map names) :
    ∃ column ∈ columns, names column = name ∧
      (⟨columns.map names, columns.map values⟩ : SqlRecord).value name =
        some (values column) := by
  obtain ⟨value, found⟩ := Option.isSome_iff_exists.mp
    ((@SqlRecord.value_isSome ⟨columns.map names, columns.map values⟩ name).mpr
      member)
  have inside := SqlRecord.value_mem_pairs
    (by rw [List.length_map, List.length_map]) found
  unfold pairs at inside
  rw [zip_map_same] at inside
  obtain ⟨column, isColumn, pairEq⟩ := List.mem_map.mp inside
  obtain ⟨nameEq, valueEq⟩ := Prod.mk.inj pairEq
  refine ⟨column, isColumn, nameEq, ?_⟩
  rw [found]
  exact congrArg some valueEq.symm

/-! ## Records that are accepted -/

/-- A value that an evaluation makes: it has a type, and a number is one of an
`int`. -/
def SqlValue.Evaluated (value : SqlValue) : Prop :=
  value.type ≠ .inval ∧ ∀ num, value = .int num → num < 2 ^ 32

theorem evaluated_of_bitVec (num : BitVec 32) :
    (SqlValue.int num.toInt).Evaluated := by
  refine ⟨nofun, ?_⟩
  intro other same
  rw [← SqlValue.int.inj same]
  have bound := @BitVec.toInt_lt 32 num
  omega

theorem sqlValueAcquireEval_evaluated {literal : SqlLiteralStr}
    {value : SqlValue} (evaluated : sqlValueAcquireEval literal = .ok value) :
    value.Evaluated := by
  unfold sqlValueAcquireEval at evaluated
  cases typeEq : literal.type with
  | inval =>
      rw [typeEq] at evaluated
      cases evaluated
  | string =>
      rw [typeEq] at evaluated
      cases evaluated
      exact ⟨nofun, nofun⟩
  | int =>
      rw [typeEq] at evaluated
      cases evaluated
      exact evaluated_of_bitVec _

/-- A record with a value for each column, each from an evaluation. -/
structure SqlRecord.Evaluated (record : SqlRecord) : Prop where
  lengths : record.columns.length = record.values.length
  values : ∀ value ∈ record.values, value.Evaluated

theorem sqlParsegenRecordFromInsert_evaluated {insert : SqlParsedInsert}
    {record : SqlRecord}
    (made : sqlParsegenRecordFromInsert insert = .ok record) :
    record.Evaluated := by
  unfold sqlParsegenRecordFromInsert at made
  split at made
  · cases made
  · rename_i same
    obtain ⟨values, valuesEq, ended⟩ := except_bind_ok_iff.mp made
    cases ended
    have each := mapM_ok_iff.mp valuesEq
    refine ⟨?_, ?_⟩
    · rw [not_not] at same
      exact same.trans each.length_eq
    · intro value member
      obtain ⟨index, bound, rfl⟩ := List.getElem_of_mem member
      exact sqlValueAcquireEval_evaluated
        (each.get (each.length_eq ▸ bound) bound)

theorem sqldbTablePrepareRecord_evaluated {sequences : SqldbSeqTbl}
    {table : SqlTable} {record prepared : SqlRecord} {rowId : BitVec 32}
    (evaluated : record.Evaluated)
    (accepted : sqldbTablePrepareRecord sequences table record =
      .ok (prepared, rowId)) :
    prepared.Evaluated := by
  unfold sqldbTablePrepareRecord at accepted
  obtain ⟨_, _, accepted₁⟩ := except_bind_ok_iff.mp accepted
  cases keyEq : sqlTableFindPrimaryKey table with
  | none =>
      rw [keyEq] at accepted₁
      cases accepted₁
  | some pkeyInd =>
      rw [keyEq] at accepted₁
      dsimp only at accepted₁
      cases indexEq : sqlRecordSchemaIndexof record.columns
          (table.column pkeyInd).name with
      | none =>
          rw [indexEq] at accepted₁
          obtain ⟨seq, _, ended⟩ := except_bind_ok_iff.mp accepted₁
          cases ended
          refine ⟨?_, ?_⟩
          · rw [List.length_append, List.length_append, evaluated.lengths]
            rfl
          · intro value member
            rcases List.mem_append.mp member with old | added
            · exact evaluated.values value old
            · rw [List.mem_singleton.mp added]
              exact evaluated_of_bitVec _
      | some schemaPkeyInd =>
          rw [indexEq] at accepted₁
          obtain ⟨seq, _, ended⟩ := except_bind_ok_iff.mp accepted₁
          cases ended
          exact evaluated

theorem SqlRecord.Evaluated.value {record : SqlRecord} {name : SqlString}
    {value : SqlValue} (evaluated : record.Evaluated)
    (found : record.value name = some value) : value.Evaluated := by
  have inside := SqlRecord.value_mem_pairs evaluated.lengths found
  exact evaluated.values _ (List.of_mem_zip inside).2

/-! ## Rows in bytes -/

theorem sqlTableFindPrimaryKey_some {table : SqlTable} {pkeyInd : Nat}
    (found : sqlTableFindPrimaryKey table = some pkeyInd) :
    pkeyInd < table.columns.length :=
  (List.findIdx?_eq_some_iff_getElem.mp found).1

/-- A row has the columns of the table. -/
theorem rowColumns_perm {table : SqlTable} {pkeyInd : Nat}
    (found : sqlTableFindPrimaryKey table = some pkeyInd) :
    (rowColumns table pkeyInd).Perm table.columns := by
  have bound := sqlTableFindPrimaryKey_some found
  unfold rowColumns SqlTable.column
  rw [List.getD_eq_getElem?_getD, List.getElem?_eq_getElem bound,
    Option.getD_some]
  exact List.getElem_cons_eraseIdx_perm bound

/-- What is known of a record that is written. -/
structure WrittenRow (table : SqlTable) (record : SqlRecord)
    (serialized : SqlSerializedRecord) (pkeyInd : Nat) : Prop where
  key : sqlTableFindPrimaryKey table = some pkeyInd
  size : serialized.size = (record.values.map SqlValue.size).sum % 2 ^ 32
  columns : ∀ column ∈ table.columns, ∃ value bytes,
    record.value column.name = some value ∧
      sqlValueSerialize value = .ok bytes
  buf : serialized.buf = (rowColumns table pkeyInd).flatMap fun column =>
    ((record.value column.name).getD .inval).bytes

theorem sqlIbtreeSerializeRecordAcquire_written {table : SqlTable}
    {record : SqlRecord} {serialized : SqlSerializedRecord}
    (evaluated : record.Evaluated)
    (encoded : sqlIbtreeSerializeRecordAcquire table record = .ok serialized) :
    ∃ pkeyInd, WrittenRow table record serialized pkeyInd := by
  have typed : ∀ value ∈ record.values, value.type ≠ .inval :=
    fun value member => (evaluated.values value member).1
  unfold sqlIbtreeSerializeRecordAcquire at encoded
  cases keyEq : sqlTableFindPrimaryKey table with
  | none =>
      rw [keyEq] at encoded
      cases encoded
  | some pkeyInd =>
      rw [keyEq] at encoded
      dsimp only at encoded
      split at encoded
      · cases encoded
      · split at encoded
        · cases encoded
        · rw [sqlValueArraySerSize_ok typed] at encoded
          cases writtenEq : (rowColumns table pkeyInd).mapM
              (serializeRecordColumn record) with
          | error other =>
              rw [writtenEq] at encoded
              cases encoded
          | ok written =>
              rw [writtenEq] at encoded
              cases encoded
              have each : List.Forall₂ (fun column bytes => ∃ value,
                  record.value column.name = some value ∧
                    sqlValueSerialize value = .ok bytes)
                  (rowColumns table pkeyInd) written := by
                apply (mapM_ok_iff.mp writtenEq).imp
                intro column bytes columnEq
                unfold serializeRecordColumn at columnEq
                unfold SqlRecord.value
                cases indexEq : sqlRecordSchemaIndexof record.columns
                    column.name with
                | none =>
                    rw [indexEq] at columnEq
                    cases columnEq
                | some recordInd =>
                    rw [indexEq] at columnEq
                    exact ⟨_, rfl, columnEq⟩
              refine ⟨pkeyInd, keyEq, rfl, ?_, ?_⟩
              · intro column member
                have inRow := (rowColumns_perm keyEq).mem_iff.mpr member
                obtain ⟨index, bound, rfl⟩ := List.getElem_of_mem inRow
                obtain ⟨value, found, bytesEq⟩ :=
                  each.get bound (each.length_eq ▸ bound)
                exact ⟨value, _, found, bytesEq⟩
              · have writtenIs : written = (rowColumns table pkeyInd).map
                    fun column =>
                      ((record.value column.name).getD .inval).bytes := by
                  apply Eq.symm
                  rw [← List.forall₂_eq_eq_eq, List.forall₂_map_left_iff]
                  apply each.imp
                  rintro column bytes ⟨value, found, bytesEq⟩
                  rw [found, Option.getD_some, sqlValueSerialize_bytes bytesEq]
                rw [writtenIs, ← List.flatMap_def]

/-- The bytes of a row are as many as its values take. -/
theorem WrittenRow.length {table : SqlTable} {record : SqlRecord}
    {serialized : SqlSerializedRecord} {pkeyInd : Nat}
    (row : WrittenRow table record serialized pkeyInd) :
    serialized.buf.length = (table.columns.map fun column =>
      ((record.value column.name).getD .inval).size).sum := by
  have perm := rowColumns_perm row.key
  rw [row.buf, List.length_flatMap, ← (perm.map _).sum_nat]
  apply congrArg List.sum
  apply List.map_congr_left
  intro column member
  obtain ⟨value, bytes, found, written⟩ :=
    row.columns column (perm.mem_iff.mp member)
  rw [found, Option.getD_some, ← sqlValueSerialize_bytes written]
  exact sqlValueSerialize_length written

/-! ## Rows that come back -/

/-- The size is the number of bytes, and every column comes back: each value
that is read under a name equals the one of the record, and each value of the
record is read under its name. -/
structure RowComesBack (table : SqlTable) (record : SqlRecord)
    (serialized : SqlSerializedRecord) : Prop where
  size : serialized.size = serialized.buf.length
  columns : ∃ decoded rest,
    sqlIbtreeDeserializeRecord table serialized.buf = .ok (decoded, rest) ∧
    (∀ pair ∈ decoded.pairs, ∃ value, record.value pair.1 = some value ∧
      sqlValueEquals pair.2 value = true) ∧
    ∀ pair ∈ record.pairs, ∃ value, decoded.value pair.1 = some value ∧
      sqlValueEquals value pair.2 = true

/-- The values fit the table: each column has a value of its type, a number
without a sign; the record has no other column, and no two values under one
name; and the values of the record take as many bytes as those of the
columns. -/
structure RowFits (table : SqlTable) (record : SqlRecord) : Prop where
  typed : ∀ column ∈ table.columns, ∃ value,
    record.value column.name = some value ∧
      value.ReadAs (convertToValueType column.type)
  known : ∀ name ∈ record.columns, ∃ column ∈ table.columns,
    column.name = name
  single : ∀ pair ∈ record.pairs, record.value pair.1 = some pair.2
  sized : (record.values.map SqlValue.size).sum % 2 ^ 32 =
    (table.columns.map fun column =>
      ((record.value column.name).getD .inval).size).sum

theorem WrittenRow.fits_of_comesBack {table : SqlTable} {record : SqlRecord}
    {serialized : SqlSerializedRecord} {pkeyInd : Nat}
    (row : WrittenRow table record serialized pkeyInd)
    (evaluated : record.Evaluated)
    (back : RowComesBack table record serialized) : RowFits table record := by
  obtain ⟨decoded, rest, read, given, returned⟩ := back.columns
  have perm := rowColumns_perm row.key
  unfold sqlIbtreeDeserializeRecord at read
  rw [row.key] at read
  obtain ⟨values, mid, valuesEq, ended⟩ := bind_ok_iff.mp read
  obtain ⟨rfl, _⟩ := pure_ok_iff.mp ended
  have each := readEach_forall₂
    (fun column _ value _ same =>
      (sqlValueDeserializeAs_readAs same :
        value.ReadAs (convertToValueType (SqlTableColumn.type column))))
    valuesEq
  have lengths : ((rowColumns table pkeyInd).map SqlTableColumn.name).length =
      values.length := by
    rw [List.length_map]
    exact each.length_eq
  refine ⟨?_, ?_, ?_, ?_⟩
  · intro column member
    obtain ⟨index, bound, rfl⟩ :=
      List.getElem_of_mem (perm.mem_iff.mpr member)
    have valueBound : index < values.length := each.length_eq ▸ bound
    have inside : ((rowColumns table pkeyInd)[index].name, values[index]) ∈
        SqlRecord.pairs ⟨(rowColumns table pkeyInd).map SqlTableColumn.name,
          values⟩ := by
      apply List.mem_iff_getElem?.mpr
      refine ⟨index, ?_⟩
      unfold SqlRecord.pairs
      rw [List.getElem?_zip_eq_some, List.getElem?_map,
        List.getElem?_eq_getElem bound, List.getElem?_eq_getElem valueBound]
      exact ⟨rfl, rfl⟩
    obtain ⟨value, found, same⟩ := given _ inside
    refine ⟨value, found, ?_⟩
    rw [← (sqlValueEquals_iff.mp same).1]
    exact each.get bound valueBound
  · intro name member
    obtain ⟨index, bound, rfl⟩ := List.getElem_of_mem member
    have valueBound : index < record.values.length :=
      evaluated.lengths ▸ bound
    have inside : (record.columns[index], record.values[index]) ∈
        record.pairs := by
      apply List.mem_iff_getElem?.mpr
      refine ⟨index, ?_⟩
      unfold SqlRecord.pairs
      rw [List.getElem?_zip_eq_some, List.getElem?_eq_getElem bound,
        List.getElem?_eq_getElem valueBound]
      exact ⟨rfl, rfl⟩
    obtain ⟨value, found, _⟩ := returned _ inside
    have named := SqlRecord.value_isSome.mp (Option.isSome_iff_exists.mpr
      ⟨value, found⟩)
    obtain ⟨column, isColumn, nameEq⟩ := List.mem_map.mp named
    exact ⟨column, perm.mem_iff.mp isColumn, nameEq⟩
  · intro pair member
    obtain ⟨value, found, same⟩ := returned pair member
    obtain ⟨other, foundOther, sameOther⟩ :=
      given _ (SqlRecord.value_mem_pairs lengths found)
    rw [foundOther, ← (sqlValueEquals_iff.mp sameOther).1,
      (sqlValueEquals_iff.mp same).1]
  · rw [← row.size, back.size, row.length]

theorem WrittenRow.comesBack_of_fits {table : SqlTable} {record : SqlRecord}
    {serialized : SqlSerializedRecord} {pkeyInd : Nat}
    (row : WrittenRow table record serialized pkeyInd)
    (evaluated : record.Evaluated) (fits : RowFits table record) :
    RowComesBack table record serialized := by
  have perm := rowColumns_perm row.key
  have decodes : Decodes
      (readEach
        (fun column => sqlValueDeserializeAs (convertToValueType column.type))
        (rowColumns table pkeyInd))
      serialized.buf ((rowColumns table pkeyInd).map fun column =>
        (record.value column.name).getD .inval) := by
    rw [row.buf]
    apply Decodes.each
    intro column member
    have isColumn := perm.mem_iff.mp member
    obtain ⟨value, found, readAs⟩ := fits.typed column isColumn
    obtain ⟨other, bytes, foundOther, written⟩ := row.columns column isColumn
    rw [found] at foundOther
    rw [← Option.some.inj foundOther] at written
    rw [found, Option.getD_some, ← sqlValueSerialize_bytes written]
    exact sqlValueDeserializeAs_decodes written readAs
      (evaluated.value found).2
  have read : sqlIbtreeDeserializeRecord table serialized.buf =
      .ok (⟨(rowColumns table pkeyInd).map SqlTableColumn.name,
        (rowColumns table pkeyInd).map fun column =>
          (record.value column.name).getD .inval⟩, []) := by
    have whole := decodes []
    rw [List.append_nil] at whole
    unfold sqlIbtreeDeserializeRecord
    rw [row.key]
    exact bind_ok_iff.mpr ⟨_, _, whole, rfl⟩
  refine ⟨?_, _, _, read, ?_, ?_⟩
  · rw [row.size, row.length, fits.sized]
  · intro pair member
    unfold SqlRecord.pairs at member
    rw [zip_map_same] at member
    obtain ⟨column, isColumn, rfl⟩ := List.mem_map.mp member
    obtain ⟨value, found, readAs⟩ :=
      fits.typed column (perm.mem_iff.mp isColumn)
    refine ⟨value, found, sqlValueEquals_iff.mpr ?_⟩
    rw [found]
    exact ⟨rfl, readAs.typed⟩
  · intro pair member
    obtain ⟨column, isColumn, nameEq⟩ :=
      fits.known pair.1 (List.of_mem_zip member).1
    have named : pair.1 ∈
        (rowColumns table pkeyInd).map SqlTableColumn.name :=
      List.mem_map.mpr ⟨column, perm.mem_iff.mpr isColumn, nameEq⟩
    obtain ⟨first, _, firstName, found⟩ := @SqlRecord.value_of_map
      SqlTableColumn SqlTableColumn.name
      (fun column => (record.value column.name).getD .inval) _ _ named
    refine ⟨_, found, sqlValueEquals_iff.mpr ?_⟩
    rw [firstName, fits.single pair member]
    exact ⟨rfl, (evaluated.values _ (List.of_mem_zip member).2).1⟩

/-- A row comes back exactly when its values fit the table. -/
theorem row_comesBack_iff {sequences : SqldbSeqTbl} {table : SqlTable}
    {insert : SqlParsedInsert} {record prepared : SqlRecord}
    {rowId : BitVec 32} {serialized : SqlSerializedRecord}
    (made : sqlParsegenRecordFromInsert insert = .ok record)
    (accepted : sqldbTablePrepareRecord sequences table record =
      .ok (prepared, rowId))
    (encoded : sqlIbtreeSerializeRecordAcquire table prepared =
      .ok serialized) :
    RowComesBack table prepared serialized ↔ RowFits table prepared := by
  have evaluated := sqldbTablePrepareRecord_evaluated
    (sqlParsegenRecordFromInsert_evaluated made) accepted
  obtain ⟨pkeyInd, row⟩ :=
    sqlIbtreeSerializeRecordAcquire_written evaluated encoded
  exact ⟨row.fits_of_comesBack evaluated, row.comesBack_of_fits evaluated⟩

/-- The table of `CREATE TABLE "t" ("a" INT)`. -/
def numberTable : SqlTable where
  columns := [idColumn, ⟨[34, 97, 34], .int, false⟩]
  tableName := [34, 116, 34]
  tableMeta := ⟨3, 1⟩

/-- The first row of the table gets the number 1. -/
def firstRow : SqldbSeqTbl where
  next := .ok 1
  set := fun _ => .ok 1

/-- `INSERT INTO "t" ("a") VALUES (5)`. -/
theorem number_comes_back :
    RowComesBack numberTable ⟨[[34, 97, 34], [105, 100]], [.int 5, .int 1]⟩
      ⟨[1, 0, 0, 0, 5, 0, 0, 0], 8⟩ := by
  have made : sqlParsegenRecordFromInsert
      ⟨some [34, 116, 34], [[34, 97, 34]], [⟨[53], .int⟩]⟩ =
        .ok ⟨[[34, 97, 34]], [.int 5]⟩ := by decide +kernel
  have accepted : sqldbTablePrepareRecord firstRow numberTable
      ⟨[[34, 97, 34]], [.int 5]⟩ =
        .ok (⟨[[34, 97, 34], [105, 100]], [.int 5, .int 1]⟩, 1) := by
    decide +kernel
  have encoded : sqlIbtreeSerializeRecordAcquire numberTable
      ⟨[[34, 97, 34], [105, 100]], [.int 5, .int 1]⟩ =
        .ok ⟨[1, 0, 0, 0, 5, 0, 0, 0], 8⟩ := by decide +kernel
  apply (row_comesBack_iff made accepted encoded).mpr
  refine ⟨?_, ?_, by decide +kernel, by decide +kernel⟩
  · intro column member
    rcases List.mem_pair.mp member with rfl | rfl
    · exact ⟨.int 1, by decide +kernel, Int.one_nonneg⟩
    · exact ⟨.int 5, by decide +kernel, Int.natCast_nonneg 5⟩
  · intro name member
    rcases List.mem_pair.mp member with rfl | rfl
    · exact ⟨_, List.mem_cons_of_mem _ List.mem_cons_self, rfl⟩
    · exact ⟨_, List.mem_cons_self, rfl⟩

/-- `INSERT INTO "t" ("a") VALUES ('x')` is accepted, and 3 is read under the
name: the length of the string with its quotes. -/
theorem string_in_number_column :
    sqlParsegenRecordFromInsert
        ⟨some [34, 116, 34], [[34, 97, 34]], [⟨[39, 120, 39], .string⟩]⟩ =
      .ok ⟨[[34, 97, 34]], [.string [39, 120, 39]]⟩ ∧
    sqldbTablePrepareRecord firstRow numberTable
        ⟨[[34, 97, 34]], [.string [39, 120, 39]]⟩ =
      .ok (⟨[[34, 97, 34], [105, 100]], [.string [39, 120, 39], .int 1]⟩, 1) ∧
    sqlIbtreeSerializeRecordAcquire numberTable
        ⟨[[34, 97, 34], [105, 100]], [.string [39, 120, 39], .int 1]⟩ =
      .ok ⟨[1, 0, 0, 0, 3, 0, 0, 0, 39, 120, 39], 11⟩ ∧
    ¬ RowComesBack numberTable
      ⟨[[34, 97, 34], [105, 100]], [.string [39, 120, 39], .int 1]⟩
      ⟨[1, 0, 0, 0, 3, 0, 0, 0, 39, 120, 39], 11⟩ := by
  refine ⟨by decide +kernel, by decide +kernel, by decide +kernel, ?_⟩
  intro back
  obtain ⟨decoded, rest, read, _, returned⟩ := back.columns
  have readIs : sqlIbtreeDeserializeRecord numberTable
      [1, 0, 0, 0, 3, 0, 0, 0, 39, 120, 39] =
        .ok (⟨[[105, 100], [34, 97, 34]], [.int 1, .int 3]⟩, [39, 120, 39]) := by
    decide +kernel
  rw [readIs] at read
  cases read
  obtain ⟨value, found, same⟩ :=
    returned ([34, 97, 34], .string [39, 120, 39]) List.mem_cons_self
  have foundIs : SqlRecord.value
      ⟨[[105, 100], [34, 97, 34]], [.int 1, .int 3]⟩ [34, 97, 34] =
        some (.int 3) := by decide +kernel
  rw [foundIs] at found
  cases found
  cases same

end BtreeDb
