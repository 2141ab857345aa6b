import BtreeDb.Sql.Rows

/-!
# Statements on a row

The bodies of the row loops of `sqldb_interpret.c`: the condition is tested on a
row, and the row is printed, deleted or written again.
-/

namespace BtreeDb

open Bytes ByteStream

/-- `match_where`: an unknown column matches no row. -/
def matchWhere (record : SqlRecord) (whereClause : Option SqlParsedWhereClause) :
    SqlM Bool :=
  match whereClause with
  | none => .ok true
  | some condition =>
      match sqlRecordSchemaIndexof record.columns condition.field with
      | none => .ok false
      | some index => do
          let value ← sqlValueAcquireEval condition.value
          pure (sqlValueEquals (record.valueAt index) value)

/-- `update_record_value`: the column is asserted to be there. -/
def updateRecordValue (record : SqlRecord) (column : SqlString)
    (newvalue : SqlValue) : SqlM SqlRecord :=
  match sqlRecordSchemaIndexof record.columns column with
  | none => .error .assertion
  | some index => .ok { record with values := record.values.set index newvalue }

/-- The loop of `update_record`. -/
def updateRecordValues :
    List SqlString → List SqlLiteralStr → SqlRecord → SqlM SqlRecord
  | [], _, record => .ok record
  | column :: columns, literals, record => do
      let newvalue ← sqlValueAcquireEval (literals.headD ⟨[], .inval⟩)
      let updated ← updateRecordValue record column newvalue
      updateRecordValues columns literals.tail updated

/-- `sqldb_scan_update` up to the write into the tree. -/
def sqldbScanUpdate (table : SqlTable) (record : SqlRecord) :
    SqlM SqlSerializedRecord := do
  let _newsize ← sqlValueArraySerSize record.values
  sqlIbtreeSerializeRecordAcquire table record

/-- `update_record`: the row as it is written again. -/
def updateRecord (table : SqlTable) (update : SqlParsedUpdate)
    (record : SqlRecord) : SqlM SqlSerializedRecord := do
  let updated ← updateRecordValues update.columns update.values record
  sqldbScanUpdate table updated

/-- What a statement does with a row. -/
inductive RowChange where
  | none
  | print
  | delete
  | write (serialized : SqlSerializedRecord)
  deriving DecidableEq, Repr

/-- The row after `update_record`, whose result the loop drops. -/
def dropResult : SqlM SqlSerializedRecord → SqlM RowChange
  | .ok serialized => .ok (.write serialized)
  | .error (.error _) => .ok .none
  | .error stopped => .error stopped

/-- The body of the loop of `select_s`, `delete_s` or `update`. -/
def evaluateRow (table : SqlTable) (parse : SqlParse) (record : SqlRecord) :
    SqlM RowChange :=
  match parse with
  | .select select => do
      let isMatch ← matchWhere record select.whereClause
      pure (if isMatch then .print else .none)
  | .delete delete => do
      let isMatch ← matchWhere record delete.whereClause
      pure (if isMatch then .delete else .none)
  | .update update => do
      let isMatch ← matchWhere record update.whereClause
      if isMatch then dropResult (updateRecord table update record)
      else pure .none
  | _ => .ok .none

/-- The columns that the condition and the assignments name. -/
def SqlParse.namedColumns : SqlParse → List SqlString
  | .select parsed =>
      (parsed.whereClause.map SqlParsedWhereClause.field).toList
  | .delete parsed =>
      (parsed.whereClause.map SqlParsedWhereClause.field).toList
  | .update parsed =>
      (parsed.whereClause.map SqlParsedWhereClause.field).toList ++
        parsed.columns
  | _ => []

/-! ## Literals of the parser -/

/-- A literal with a type has a value. -/
theorem sqlValueAcquireEval_of_typed {literal : SqlLiteralStr}
    (typed : literal.type ≠ .inval) :
    ∃ value, sqlValueAcquireEval literal = .ok value := by
  unfold sqlValueAcquireEval
  cases typeEq : literal.type with
  | inval => exact absurd typeEq typed
  | string => exact ⟨_, rfl⟩
  | int => exact ⟨_, rfl⟩

theorem literalStr_typed {token : SqlToken} {literal : SqlLiteralStr}
    (accepted : literalStr token = some literal) : literal.type ≠ .inval := by
  cases token <;> cases accepted <;> exact nofun

/-- Every literal that the statement evaluates has a type, and every assignment
has one. -/
def SqlParse.LiteralsTyped : SqlParse → Prop
  | .select parsed => ∀ condition ∈ parsed.whereClause,
      condition.value.type ≠ .inval
  | .delete parsed => ∀ condition ∈ parsed.whereClause,
      condition.value.type ≠ .inval
  | .update parsed => (∀ condition ∈ parsed.whereClause,
        condition.value.type ≠ .inval) ∧
      parsed.columns.length = parsed.values.length ∧
        ∀ literal ∈ parsed.values, literal.type ≠ .inval
  | _ => True

theorem sqlParseCreate_literalsTyped {tokens : List SqlToken} {parse : SqlParse}
    (parsed : sqlParseCreate tokens = .ok parse) : parse.LiteralsTyped := by
  by_cases notInvalid : parse = .invalid
  · rw [notInvalid]
    trivial
  · have conditions : ∀ (condition : Option ColumnEquals),
        ∀ clause ∈ condition.map ColumnEquals.parsed,
          clause.value.type ≠ .inval := by
      intro condition clause member
      obtain ⟨equals, _, rfl⟩ := Option.map_eq_some_iff.mp member
      exact literalStr_typed equals.value.accepted
    rcases sqlParseCreate_ok_iff.mp ⟨parsed, notInvalid⟩ with
      ⟨statement, extra, _, _, _, rfl⟩ | ⟨_, _, _, rfl⟩
    · cases statement with
      | insert table columns values => trivial
      | createTable table columns => trivial
      | select table fields condition => exact conditions condition
      | delete table condition => exact conditions condition
      | update table assignments condition =>
          refine ⟨conditions condition, ?_, ?_⟩
          · rw [List.length_map, List.length_map]
          · intro literal member
            obtain ⟨equals, _, rfl⟩ := List.mem_map.mp member
            exact literalStr_typed equals.value.accepted
    · trivial

/-! ## Rows of the table -/

/-- A record with the columns of the row and a typed value for each. -/
structure SqlRecord.OfRow (record : SqlRecord) (table : SqlTable)
    (pkeyInd : Nat) : Prop where
  columns : record.columns =
    (rowColumns table pkeyInd).map SqlTableColumn.name
  lengths : record.columns.length = record.values.length
  typed : ∀ value ∈ record.values, value.type ≠ .inval

theorem sqlIbtreeDeserializeRecord_ofRow {table : SqlTable}
    {record : SqlRecord} {buffer rest : List UInt8}
    (read : sqlIbtreeDeserializeRecord table buffer = .ok (record, rest)) :
    ∃ pkeyInd, sqlTableFindPrimaryKey table = some pkeyInd ∧
      record.OfRow table pkeyInd := by
  unfold sqlIbtreeDeserializeRecord at read
  cases keyEq : sqlTableFindPrimaryKey table with
  | none =>
      rw [keyEq] at read
      cases read
  | some pkeyInd =>
      rw [keyEq] at read
      obtain ⟨values, mid, valuesEq, ended⟩ := bind_ok_iff.mp read
      obtain ⟨rfl, _⟩ := pure_ok_iff.mp ended
      have each := readEach_forall₂
        (fun column _ value _ same =>
          (sqlValueDeserializeAs_readAs same :
            value.ReadAs (convertToValueType (SqlTableColumn.type column))))
        valuesEq
      refine ⟨pkeyInd, rfl, rfl, ?_, ?_⟩
      · rw [List.length_map]
        exact each.length_eq
      · intro value member
        obtain ⟨index, bound, rfl⟩ := List.getElem_of_mem member
        exact (each.get (each.length_eq ▸ bound) bound).typed

theorem SqlRecord.OfRow.named {record : SqlRecord} {table : SqlTable}
    {pkeyInd : Nat} (ofRow : record.OfRow table pkeyInd)
    (key : sqlTableFindPrimaryKey table = some pkeyInd) {name : SqlString} :
    name ∈ record.columns ↔ ∃ column ∈ table.columns, column.name = name := by
  rw [ofRow.columns, List.mem_map]
  constructor
  · rintro ⟨column, member, nameEq⟩
    exact ⟨column, (rowColumns_perm key).mem_iff.mp member, nameEq⟩
  · rintro ⟨column, member, nameEq⟩
    exact ⟨column, (rowColumns_perm key).mem_iff.mpr member, nameEq⟩

/-- A typed value in place of another. -/
theorem SqlRecord.OfRow.set {record : SqlRecord} {table : SqlTable}
    {pkeyInd : Nat} (ofRow : record.OfRow table pkeyInd) {index : Nat}
    {value : SqlValue} (typed : value.type ≠ .inval) :
    ({ record with values := record.values.set index value } :
      SqlRecord).OfRow table pkeyInd where
  columns := ofRow.columns
  lengths := by
    rw [List.length_set]
    exact ofRow.lengths
  typed := by
    intro other member
    rcases List.mem_or_eq_of_mem_set member with old | rfl
    · exact ofRow.typed other old
    · exact typed

/-! ## Assertions -/

theorem matchWhere_ok {record : SqlRecord}
    {whereClause : Option SqlParsedWhereClause}
    (typed : ∀ condition ∈ whereClause, condition.value.type ≠ .inval) :
    ∃ isMatch, matchWhere record whereClause = .ok isMatch := by
  unfold matchWhere
  cases whereClause with
  | none => exact ⟨true, rfl⟩
  | some condition =>
      dsimp only
      cases sqlRecordSchemaIndexof record.columns condition.field with
      | none => exact ⟨false, rfl⟩
      | some index =>
          obtain ⟨value, valueEq⟩ :=
            sqlValueAcquireEval_of_typed (typed condition rfl)
          dsimp only
          rw [valueEq]
          exact ⟨_, rfl⟩

/-- Known columns take their new values. -/
theorem updateRecordValues_ok {table : SqlTable} {pkeyInd : Nat} :
    ∀ {columns : List SqlString} {literals : List SqlLiteralStr}
      {record : SqlRecord}, columns.length = literals.length →
      (∀ literal ∈ literals, literal.type ≠ .inval) →
      (∀ name ∈ columns, name ∈ record.columns) →
      record.OfRow table pkeyInd →
      ∃ updated, updateRecordValues columns literals record = .ok updated ∧
        updated.OfRow table pkeyInd
  | [], _, record, _, _, _, ofRow => ⟨record, rfl, ofRow⟩
  | column :: columns, [], _, lengths, _, _, _ => by cases lengths
  | column :: columns, literal :: literals, record, lengths, typed, known,
      ofRow => by
      obtain ⟨value, valueEq⟩ :=
        sqlValueAcquireEval_of_typed (typed literal List.mem_cons_self)
      obtain ⟨index, indexEq⟩ := Option.isSome_iff_exists.mp
        (sqlRecordSchemaIndexof_isSome.mpr (known column List.mem_cons_self))
      obtain ⟨updated, rest, still⟩ := @updateRecordValues_ok _ _ columns
        literals { record with values := record.values.set index value }
        (Nat.succ.inj lengths)
        (fun later member => typed later (List.mem_cons_of_mem _ member))
        (fun name member => known name (List.mem_cons_of_mem _ member))
        (ofRow.set (sqlValueAcquireEval_typed valueEq))
      refine ⟨updated, ?_, still⟩
      unfold updateRecordValues
      rw [List.headD_cons, List.tail_cons, valueEq]
      change (updateRecordValue record column value >>= fun updated =>
        updateRecordValues columns literals updated) = _
      unfold updateRecordValue
      rw [indexEq]
      exact rest

/-- A typed value is written, or it is too long. -/
theorem sqlValueSerialize_noAssertion {value : SqlValue}
    (typed : value.type ≠ .inval) :
    sqlValueSerialize value ≠ .error .assertion := by
  cases value with
  | inval => exact absurd rfl typed
  | int num => exact nofun
  | string text =>
      unfold sqlValueSerialize sqlStringSer
      dsimp only
      split
      · exact nofun
      · exact nofun

theorem sqldbScanUpdate_noAssertion {table : SqlTable} {record : SqlRecord}
    {pkeyInd : Nat} (key : sqlTableFindPrimaryKey table = some pkeyInd)
    (ofRow : record.OfRow table pkeyInd) :
    sqldbScanUpdate table record ≠ .error .assertion := by
  intro stopped
  have sized := sqlValueArraySerSize_ok ofRow.typed
  unfold sqldbScanUpdate at stopped
  rw [sized] at stopped
  change sqlIbtreeSerializeRecordAcquire table record = _ at stopped
  unfold sqlIbtreeSerializeRecordAcquire at stopped
  rw [key] at stopped
  dsimp only at stopped
  split at stopped
  · cases stopped
  · split at stopped
    · cases stopped
    · rw [sized] at stopped
      cases writtenEq : (rowColumns table pkeyInd).mapM
          (serializeRecordColumn record) with
      | ok written =>
          rw [writtenEq] at stopped
          cases stopped
      | error other =>
          rw [writtenEq] at stopped
          cases stopped
          obtain ⟨column, _, columnEq⟩ := mapM_error writtenEq
          unfold serializeRecordColumn at columnEq
          cases indexEq : sqlRecordSchemaIndexof record.columns
              column.name with
          | none =>
              rw [indexEq] at columnEq
              cases columnEq
          | some index =>
              rw [indexEq] at columnEq
              obtain ⟨bound, _⟩ := List.getElem?_eq_some_iff.mp
                (sqlRecordSchemaIndexof_some indexEq)
              rw [ofRow.lengths] at bound
              apply sqlValueSerialize_noAssertion _ columnEq
              apply ofRow.typed
              unfold SqlRecord.valueAt
              rw [List.getD_eq_getElem?_getD, List.getElem?_eq_getElem bound,
                Option.getD_some]
              exact List.getElem_mem bound

/-- No statement ends in an error code on a row. -/
theorem evaluateRow_ne_error {table : SqlTable} {parse : SqlParse}
    {record : SqlRecord} {code : SqlErr} (typed : parse.LiteralsTyped) :
    evaluateRow table parse record ≠ .error (.error code) := by
  intro stopped
  cases parse with
  | select select =>
      obtain ⟨isMatch, matchEq⟩ := @matchWhere_ok record _ typed
      unfold evaluateRow at stopped
      dsimp only at stopped
      rw [matchEq] at stopped
      cases stopped
  | delete delete =>
      obtain ⟨isMatch, matchEq⟩ := @matchWhere_ok record _ typed
      unfold evaluateRow at stopped
      dsimp only at stopped
      rw [matchEq] at stopped
      cases stopped
  | update update =>
      obtain ⟨isMatch, matchEq⟩ := @matchWhere_ok record _ typed.1
      unfold evaluateRow at stopped
      dsimp only at stopped
      rw [matchEq] at stopped
      cases isMatch with
      | false => cases stopped
      | true =>
          change dropResult (updateRecord table update record) = _ at stopped
          cases updatedEq : updateRecord table update record with
          | ok serialized =>
              rw [updatedEq] at stopped
              cases stopped
          | error other =>
              rw [updatedEq] at stopped
              cases other <;> cases stopped
  | _ => cases stopped

theorem evaluateRow_noAssertion {table : SqlTable} {parse : SqlParse}
    {record : SqlRecord} {pkeyInd : Nat} (typed : parse.LiteralsTyped)
    (key : sqlTableFindPrimaryKey table = some pkeyInd)
    (ofRow : record.OfRow table pkeyInd)
    (known : ∀ name ∈ parse.namedColumns, name ∈ record.columns) :
    evaluateRow table parse record ≠ .error .assertion := by
  intro stopped
  cases parse with
  | select select =>
      obtain ⟨isMatch, matchEq⟩ := @matchWhere_ok record _ typed
      unfold evaluateRow at stopped
      dsimp only at stopped
      rw [matchEq] at stopped
      cases stopped
  | delete delete =>
      obtain ⟨isMatch, matchEq⟩ := @matchWhere_ok record _ typed
      unfold evaluateRow at stopped
      dsimp only at stopped
      rw [matchEq] at stopped
      cases stopped
  | update update =>
      obtain ⟨conditions, lengths, literals⟩ := typed
      obtain ⟨isMatch, matchEq⟩ := @matchWhere_ok record _ conditions
      obtain ⟨updated, updatedEq, still⟩ := updateRecordValues_ok lengths
        literals
        (fun name member => known name (List.mem_append_right _ member)) ofRow
      have written : updateRecord table update record =
          sqldbScanUpdate table updated := by
        unfold updateRecord
        rw [updatedEq]
        rfl
      have noAssertion := sqldbScanUpdate_noAssertion key still
      rw [← written] at noAssertion
      unfold evaluateRow at stopped
      dsimp only at stopped
      rw [matchEq] at stopped
      cases isMatch with
      | false => cases stopped
      | true =>
          change dropResult (updateRecord table update record) = _ at stopped
          cases rowEq : updateRecord table update record with
          | ok serialized =>
              rw [rowEq] at stopped
              cases stopped
          | error other =>
              rw [rowEq] at stopped
              cases other with
              | error code => cases stopped
              | assertion => exact noAssertion rowEq
              | outOfRange => cases stopped
  | _ => cases stopped

/-! ## Unknown columns -/

/-- On the row no assertion fails, and a statement with an unknown column ends
in an error code, which leaves the row as it is. -/
structure EvaluatesSafely (table : SqlTable) (parse : SqlParse)
    (record : SqlRecord) : Prop where
  noAssertion : evaluateRow table parse record ≠ .error .assertion
  unknown : ∀ name ∈ parse.namedColumns,
    (∀ column ∈ table.columns, column.name ≠ name) →
      ∃ code, evaluateRow table parse record = .error (.error code)

/-- A statement is safe on a row exactly when its condition and its assignments
name columns of the table. -/
theorem evaluatesSafely_iff {tokens : List SqlToken} {table : SqlTable}
    {parse : SqlParse} {buffer rest : List UInt8} {record : SqlRecord}
    (stored : sqlIbtreeDeserializeRecord table buffer = .ok (record, rest))
    (parsed : sqlParseCreate tokens = .ok parse) :
    EvaluatesSafely table parse record ↔
      ∀ name ∈ parse.namedColumns, ∃ column ∈ table.columns,
        column.name = name := by
  have typed := sqlParseCreate_literalsTyped parsed
  obtain ⟨pkeyInd, key, ofRow⟩ := sqlIbtreeDeserializeRecord_ofRow stored
  constructor
  · intro safe name member
    by_contra unknown
    obtain ⟨code, stopped⟩ := safe.unknown name member
      fun column isColumn nameEq => unknown ⟨column, isColumn, nameEq⟩
    exact evaluateRow_ne_error typed stopped
  · intro known
    refine ⟨?_, ?_⟩
    · exact evaluateRow_noAssertion typed key ofRow
        fun name member => (ofRow.named key).mpr (known name member)
    · intro name member none
      obtain ⟨column, isColumn, nameEq⟩ := known name member
      exact absurd nameEq (none column isColumn)

/-- `UPDATE "t" SET "a" = 7 WHERE "a" = 5` on the row 1, 5. -/
theorem known_columns_are_safe :
    EvaluatesSafely numberTable
      (.update ⟨some [34, 116, 34], [[34, 97, 34]], [⟨[55], .int⟩],
        some ⟨[34, 97, 34], ⟨[53], .int⟩⟩⟩)
      ⟨[[105, 100], [34, 97, 34]], [.int 1, .int 5]⟩ := by
  have stored : sqlIbtreeDeserializeRecord numberTable
      [1, 0, 0, 0, 5, 0, 0, 0] =
        .ok (⟨[[105, 100], [34, 97, 34]], [.int 1, .int 5]⟩, []) := by
    decide +kernel
  have parsed : sqlParseCreate
      [.updateKw, .quotedIdentifier [34, 116, 34], .setKw,
        .quotedIdentifier [34, 97, 34], .equalKw, .intLiteral [55], .whereKw,
        .quotedIdentifier [34, 97, 34], .equalKw, .intLiteral [53]] =
      .ok (.update ⟨some [34, 116, 34], [[34, 97, 34]], [⟨[55], .int⟩],
        some ⟨[34, 97, 34], ⟨[53], .int⟩⟩⟩) := by
    decide +kernel
  apply (evaluatesSafely_iff stored parsed).mpr
  intro name member
  refine ⟨⟨[34, 97, 34], .int, false⟩, by decide, ?_⟩
  rcases List.mem_pair.mp member with rfl | rfl
  · rfl
  · rfl

/-- `UPDATE "t" SET a = 1`: the name has no quotes, the stored name has them,
and the assertion of `update_record_value` fails. -/
theorem unquoted_column_fails_assertion :
    sqlParseCreate
        [.updateKw, .quotedIdentifier [34, 116, 34], .setKw, .identifier [97],
          .equalKw, .intLiteral [49]] =
      .ok (.update ⟨some [34, 116, 34], [[97]], [⟨[49], .int⟩], none⟩) ∧
    sqlIbtreeDeserializeRecord numberTable [1, 0, 0, 0, 5, 0, 0, 0] =
      .ok (⟨[[105, 100], [34, 97, 34]], [.int 1, .int 5]⟩, []) ∧
    ¬ EvaluatesSafely numberTable
      (.update ⟨some [34, 116, 34], [[97]], [⟨[49], .int⟩], none⟩)
      ⟨[[105, 100], [34, 97, 34]], [.int 1, .int 5]⟩ := by
  refine ⟨by decide +kernel, by decide +kernel, ?_⟩
  intro safe
  exact safe.noAssertion (by decide +kernel)

end BtreeDb
