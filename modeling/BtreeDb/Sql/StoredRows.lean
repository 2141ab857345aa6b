import BtreeDb.Sql.Statements

/-!
# Rows in the tree of a table

The records of the tree of a table are its rows, each under its id.  The tree is
a single leaf, for the operation of an INSERT splits no page.
-/

namespace BtreeDb

open Bytes ByteStream PagedTree Sweep

/-! ## Rows and records -/

structure SqlRow where
  id : Nat
  record : SqlRecord
  deriving DecidableEq, Repr

def SqlTable.root (table : SqlTable) : Nat := table.tableMeta.rootPage.toNat

def SqlTable.tree (table : SqlTable) : BTree := ⟨table.root, .table, 0⟩

/-- The rows with one more, in the order of the ids. -/
def addRow (row : SqlRow) (rows : List SqlRow) : List SqlRow :=
  rows.takeWhile (fun other => other.id < row.id) ++
    row :: rows.dropWhile fun other => other.id < row.id

/-- A record under the columns of the table, as it is read back. -/
def rowIn (table : SqlTable) (record : SqlRecord) : SqlRecord :=
  let columns := rowColumns table ((sqlTableFindPrimaryKey table).getD 0)
  { columns := columns.map SqlTableColumn.name
    values := columns.map fun column =>
      (record.value column.name).getD .inval }

/-- Each column has a value of its type, a number without a sign. -/
def RowReadable (table : SqlTable) (record : SqlRecord) : Prop :=
  ∀ column ∈ table.columns, ∃ value ∈ record.value column.name,
    value.ReadAs (convertToValueType column.type)

instance decidableReadAs : ∀ (value : SqlValue) (type : SqlValueType),
    Decidable (value.ReadAs type)
  | .string _, .string => .isTrue trivial
  | .int num, .int => inferInstanceAs (Decidable (0 ≤ num))
  | .string _, .int => .isFalse id
  | .string _, .inval => .isFalse id
  | .int _, .string => .isFalse id
  | .int _, .inval => .isFalse id
  | .inval, .string => .isFalse id
  | .inval, .int => .isFalse id
  | .inval, .inval => .isFalse id

instance (table : SqlTable) (record : SqlRecord) :
    Decidable (RowReadable table record) :=
  inferInstanceAs (Decidable (∀ column ∈ _, ∃ value ∈ _, _))

/-- The bytes of a row are read back with anything behind them. -/
theorem WrittenRow.decodes {table : SqlTable} {record : SqlRecord}
    {serialized : SqlSerializedRecord} {pkeyInd : Nat}
    (row : WrittenRow table record serialized pkeyInd)
    (evaluated : record.Evaluated) (readable : RowReadable table record) :
    Decodes (sqlIbtreeDeserializeRecord table) serialized.buf
      (rowIn table record) := by
  have perm := rowColumns_perm row.key
  have values : Decodes
      (readEach
        (fun column => sqlValueDeserializeAs (convertToValueType column.type))
        (rowColumns table pkeyInd))
      serialized.buf ((rowColumns table pkeyInd).map fun column =>
        (record.value column.name).getD .inval) := by
    rw [row.buf]
    refine Decodes.each fun column member => ?_
    have isColumn := perm.mem_iff.mp member
    obtain ⟨value, found, readAs⟩ := readable column isColumn
    obtain ⟨other, bytes, foundOther, written⟩ := row.columns column isColumn
    rw [Option.mem_def.mp found] at foundOther ⊢
    rw [← Option.some.inj foundOther] at written
    rw [Option.getD_some, ← sqlValueSerialize_bytes written]
    exact sqlValueDeserializeAs_decodes written readAs
      (evaluated.value found).2
  intro rest
  unfold sqlIbtreeDeserializeRecord rowIn
  rw [row.key]
  exact bind_ok_iff.mpr ⟨_, _, values rest, rfl⟩

/-- A record of the tree is a row. -/
structure StoresRow (table : SqlTable) (record : TableRecord)
    (row : SqlRow) : Prop where
  key : record.key = row.id
  decodes : Decodes (sqlIbtreeDeserializeRecord table) record.payload row.record

section Rows

variable {table : SqlTable} {records : List TableRecord} {rows : List SqlRow}
variable {record : TableRecord} {row : SqlRow}

theorem storesRows_add (stored : List.Forall₂ (StoresRow table) records rows)
    (new : StoresRow table record row) :
    List.Forall₂ (StoresRow table)
      (addRecord record.key record.payload records) (addRow row rows) := by
  induction stored with
  | nil => exact .cons new .nil
  | @cons first other firsts others same rest inductionHypothesis =>
      unfold addRecord addRow at inductionHypothesis ⊢
      by_cases below : first.key < record.key
      · have belowRow : other.id < row.id := by
          rw [← same.key, ← new.key]
          exact below
        rw [List.takeWhile_cons_of_pos (by simpa using below),
          List.dropWhile_cons_of_pos (by simpa using below),
          List.takeWhile_cons_of_pos (by simpa using belowRow),
          List.dropWhile_cons_of_pos (by simpa using belowRow)]
        exact .cons same inductionHypothesis
      · have notBelow : ¬ other.id < row.id := by
          rw [← same.key, ← new.key]
          exact below
        rw [List.takeWhile_cons_of_neg (by simpa using below),
          List.dropWhile_cons_of_neg (by simpa using below),
          List.takeWhile_cons_of_neg (by simpa using notBelow),
          List.dropWhile_cons_of_neg (by simpa using notBelow)]
        exact .cons new (.cons same rest)

/-- An id is that of a row exactly where the tree has it as a key. -/
theorem storesRows_id (stored : List.Forall₂ (StoresRow table) records rows)
    (id : Nat) : (∃ row ∈ rows, row.id = id) ↔
      ∃ record ∈ records, record.key = id := by
  induction stored with
  | nil => simp
  | cons same _ inductionHypothesis =>
      simp only [List.mem_cons, exists_eq_or_imp, inductionHypothesis, same.key]

end Rows

/-! ## Rows of a scan -/

/-- The condition holds of a row. -/
def SqlParse.selects (parse : SqlParse) (record : SqlRecord) : Bool :=
  match matchWhere record parse.whereClause with
  | .ok isMatch => isMatch
  | .error _ => false

/-- The statement is a DELETE and its condition holds of a row. -/
def SqlParse.removes (parse : SqlParse) (row : SqlRow) : Bool :=
  match parse with
  | .delete _ => parse.selects row.record
  | _ => false

/-- The row, if it is printed. -/
def SqlParse.printed (parse : SqlParse) (row : SqlRow) : Option SqlRecord :=
  if parse.selects row.record then some row.record else none

/-- The statement is an UPDATE and its condition holds of a row. -/
def SqlParse.writes (parse : SqlParse) (row : SqlRow) : Bool :=
  match parse with
  | .update _ => parse.selects row.record
  | _ => false

section Scan

variable {table : SqlTable} {parse : SqlParse} {record : TableRecord}
variable {row : SqlRow} {rows : List SqlRow} {records : List TableRecord}
variable {disk : Disk} {free chains : List Nat} {flat : List Mark}

theorem SqlParse.selects_eq {record : SqlRecord} (typed : parse.LiteralsTyped) :
    matchWhere record parse.whereClause = .ok (parse.selects record) := by
  have answers : ∃ isMatch, matchWhere record parse.whereClause =
      .ok isMatch := by
    cases parse with
    | select parsed => exact matchWhere_ok typed
    | delete parsed => exact matchWhere_ok typed
    | update parsed => exact matchWhere_ok typed.1
    | _ => exact ⟨true, rfl⟩
  obtain ⟨isMatch, matchEq⟩ := answers
  unfold selects
  rw [matchEq]

/-- What the statement does with a row. -/
theorem evaluateRow_eq (typed : parse.LiteralsTyped) (member : row ∈ rows)
    (writesNone : ∀ row ∈ rows, parse.writes row = false) :
    ∃ change, evaluateRow table parse row.record = .ok change ∧
      change.step = .ok (RowStep.ofChosen (parse.removes row)) := by
  have matchEq := @SqlParse.selects_eq parse row.record typed
  cases parse with
  | select parsed =>
      unfold evaluateRow
      dsimp only
      rw [show matchWhere row.record parsed.whereClause = _ from matchEq]
      refine ⟨_, rfl, ?_⟩
      split <;> rfl
  | delete parsed =>
      unfold evaluateRow
      dsimp only
      rw [show matchWhere row.record parsed.whereClause = _ from matchEq]
      refine ⟨_, rfl, ?_⟩
      unfold SqlParse.removes
      dsimp only
      cases SqlParse.selects (.delete parsed) row.record <;> rfl
  | update parsed =>
      rw [show SqlParse.selects (.update parsed) row.record = false
        from writesNone row member] at matchEq
      unfold evaluateRow
      dsimp only
      rw [show matchWhere row.record parsed.whereClause = _ from matchEq]
      exact ⟨_, rfl, rfl⟩
  | _ => exact ⟨_, rfl, rfl⟩

/-- One turn of the loop on a stored row. -/
theorem visitRow_stored (stores : StoresRow table record row)
    (typed : parse.LiteralsTyped) (member : row ∈ rows)
    (writesNone : ∀ row ∈ rows, parse.writes row = false) (size : Nat) :
    visitRow table parse record.payload size =
      .ok (parse.printed row, RowStep.ofChosen (parse.removes row)) := by
  obtain ⟨change, changeEq, stepEq⟩ :=
    @evaluateRow_eq table parse row rows typed member writesNone
  unfold visitRow scanBuffer
  rw [stores.decodes]
  change (do
    let isMatch ← matchWhere row.record parse.whereClause
    let change ← evaluateRow table parse row.record
    let step ← change.step
    pure (if isMatch then some row.record else none, step) :
      Except SqlStop _) = _
  rw [SqlParse.selects_eq typed, changeEq]
  change (do
    let step ← change.step
    pure (if parse.selects row.record then some row.record else none, step) :
      Except SqlStop _) = _
  rw [stepEq]
  rfl

/-- What the loop says of a payload. -/
def sayRow (table : SqlTable) (parse : SqlParse) (payload : List UInt8) :
    Except SqlStop (Option SqlRecord) :=
  (visitRow table parse payload payload.length).map Prod.fst

/-- The loop deletes the row of a payload. -/
def deletesRow (table : SqlTable) (parse : SqlParse)
    (payload : List UInt8) : Bool :=
  match visitRow table parse payload payload.length with
  | .ok (_, .delete) => true
  | _ => false

/-- The loop of a statement over the rows of a table. -/
theorem btreeVisit_rows {fault : BTreeE → SqlStop}
    (store : TableStore disk free table.root 0 [table.root] flat chains records)
    (stored : List.Forall₂ (StoresRow table) records rows)
    (typed : parse.LiteralsTyped)
    (writesNone : ∀ row ∈ rows, parse.writes row = false)
    (safe : SweepsSafely (rows.map parse.removes)
      (loadedNode disk table.root) 0) :
    ∃ after left marks more kept,
      (∀ turns, rows.length < turns →
        btreeVisit table.tree fault (visitRow table parse) turns disk =
          (.ok ((visited parse.removes rows).map parse.printed, .ok ()),
            after)) ∧
      TableStore after left table.root 0 [table.root] marks more kept ∧
      List.Forall₂ (StoresRow table) kept (sweep parse.removes rows) ∧
      Within disk free ([table.root] ++ chains) after left
        ([table.root] ++ more) := by
  have agree : ∀ record row, StoresRow table record row ∧ row ∈ rows →
      deletesRow table parse record.payload = parse.removes row := by
    rintro record row ⟨stores, member⟩
    unfold deletesRow
    rw [visitRow_stored stores typed member writesNone]
    cases parse.removes row <;> rfl
  have both : List.Forall₂ (fun record row => StoresRow table record row ∧
      row ∈ rows) records rows := by
    obtain ⟨lengths, each⟩ := List.forall₂_iff_zip.mp stored
    exact List.forall₂_iff_zip.mpr ⟨lengths, fun member =>
      ⟨each member, (List.of_mem_zip member).2⟩⟩
  have rowOf : ∀ record ∈ records, ∃ row, StoresRow table record row ∧
      row ∈ rows := by
    intro record member
    obtain ⟨index, inside, rfl⟩ := List.getElem_of_mem member
    exact ⟨_, both.get inside (both.length_eq ▸ inside)⟩
  have visits : ∀ record ∈ records, VisitsAs (visitRow table parse)
      (sayRow table parse) (deletesRow table parse) record := by
    intro record member size _
    obtain ⟨row, stores, inRows⟩ := rowOf record member
    unfold sayRow
    rw [visitRow_stored stores typed inRows writesNone,
      visitRow_stored stores typed inRows writesNone,
      agree record row ⟨stores, inRows⟩]
    rfl
  have isTable : table.tree.type = .table := rfl
  have oneLeaf : leavesBelow table.tree disk 0 table.tree.rootPageId =
      [table.root] := rfl
  have oneRow : leafRows table.tree disk 0 records = [records] := by
    have count := store.records_length isTable
    unfold leafRows
    rw [oneLeaf] at count ⊢
    rw [List.map_singleton, List.sum_singleton] at count
    rw [List.map_singleton, ← count, List.splitLengths_cons, List.take_length,
      List.splitLengths_nil]
  have fits : SweepFits table.tree (deletesRow table parse) disk 0 records := by
    unfold SweepFits
    rw [oneRow, oneLeaf]
    intro place member
    rw [List.zip_cons_cons, List.zip_nil_left, List.mem_singleton] at member
    rw [member]
    have flags : (records.map fun record =>
        deletesRow table parse record.payload) = rows.map parse.removes := by
      rw [← List.forall₂_eq_eq_eq, List.forall₂_map_left_iff,
        List.forall₂_map_right_iff]
      exact both.imp agree
    rw [flags]
    exact safe
  have filled : EvenlyFilled table.tree disk 0 := by
    rcases Nat.eq_zero_or_pos (keysOn disk table.root) with none | some
    · exact Or.inr fun leaf member => by
        rw [List.mem_singleton.mp member]
        exact none
    · exact Or.inl fun leaf member => by
        rw [List.mem_singleton.mp member]
        exact some
  obtain ⟨after, freed, marks, more, runEq, kept, _, within, _⟩ :=
    @btreeVisit_run table.tree (deletesRow table parse) disk free [table.root]
      chains 0 flat records _ _ fault _ _ isTable store (by decide) filled fits
      visits
  have answers : ∀ record ∈ records, sayRow table parse record.payload =
      .ok (((sayRow table parse record.payload).toOption).getD none) := by
    intro record member
    obtain ⟨row, stores, inRows⟩ := rowOf record member
    unfold sayRow
    rw [visitRow_stored stores typed inRows writesNone]
    rfl
  obtain ⟨saidEq, leftEq⟩ := @dropRecords_deletedKeys table.tree
    (deletesRow table parse) disk free [table.root] chains 0 flat records _ _ _
    isTable store
    (fun payload => ((sayRow table parse payload).toOption).getD none) answers
  have seenEq : seenRecords table.tree (deletesRow table parse) disk 0 records =
      visited (fun record => deletesRow table parse record.payload) records := by
    unfold seenRecords
    rw [oneRow, List.flatMap_singleton]
  have printedEq : (visited (fun record : TableRecord =>
        deletesRow table parse record.payload) records).map
          (fun record => ((sayRow table parse record.payload).toOption).getD
            none) =
      (visited parse.removes rows).map parse.printed := by
    rw [← List.forall₂_eq_eq_eq, List.forall₂_map_left_iff,
      List.forall₂_map_right_iff]
    refine (forall₂_visited agree both).imp fun record row related => ?_
    unfold sayRow
    rw [visitRow_stored related.1 typed related.2 writesNone]
    rfl
  rw [leftEq] at kept
  unfold sweptRecords at kept
  rw [oneRow, List.flatMap_singleton] at kept
  refine ⟨after, _, marks, more, _, ?_, kept,
    (forall₂_sweep agree both).imp fun _ _ related => related.1, within⟩
  intro turns enough
  rw [runEq turns (by rw [stored.length_eq]; exact enough), saidEq, seenEq,
    printedEq]

end Scan

/-! ## A row that is inserted -/

/-- What comes of a row on a disk where the tree of the table is open: nothing
where its id is there, a new row where the leaf takes it, and an error where the
leaf does not. -/
def rowOutcome (disk : Disk) (table : SqlTable) (rows : List SqlRow)
    (record : SqlRecord) (rowId : BitVec 32) : SqlM (Option SqlRow) :=
  if rows.any fun row => row.id == rowId.toNat then .ok none
  else do
    let payload ← serializedPayload table record
    let leaf := loadedNode disk table.root
    if Takes (btreeNodeMaxCellSize leaf) leaf.freeHeap payload.length then
      pure (some ⟨rowId.toNat, rowIn table record⟩)
    else .error (.error .unknown)

/-- The rows after that. -/
def rowsAfter : SqlM (Option SqlRow) → List SqlRow → List SqlRow
  | .ok (some row), rows => addRow row rows
  | _, rows => rows

section Insert

variable {table : SqlTable} {record : SqlRecord} {rowId : BitVec 32}
variable {rows : List SqlRow} {records : List TableRecord}
variable {disk : Disk} {free chains : List Nat} {flat : List Mark}
variable {payload : List UInt8}

theorem rowOutcome_there (there : ∃ row ∈ rows, row.id = rowId.toNat) :
    rowOutcome disk table rows record rowId = .ok none := by
  unfold rowOutcome
  refine if_pos (List.any_eq_true.mpr ?_)
  obtain ⟨row, member, same⟩ := there
  exact ⟨row, member, beq_iff_eq.mpr same⟩

theorem rowOutcome_new (new : ¬ ∃ row ∈ rows, row.id = rowId.toNat) :
    rowOutcome disk table rows record rowId = (do
      let payload ← serializedPayload table record
      let leaf := loadedNode disk table.root
      if Takes (btreeNodeMaxCellSize leaf) leaf.freeHeap payload.length then
        pure (some ⟨rowId.toNat, rowIn table record⟩)
      else .error (.error .unknown)) := by
  unfold rowOutcome
  refine if_neg fun any => new ?_
  obtain ⟨row, member, same⟩ := List.any_eq_true.mp any
  exact ⟨row, member, beq_iff_eq.mp same⟩

theorem rowOutcome_error {reason : SqlStop}
    (new : ¬ ∃ row ∈ rows, row.id = rowId.toNat)
    (encoded : serializedPayload table record = .error reason) :
    rowOutcome disk table rows record rowId = .error reason := by
  rw [rowOutcome_new new, encoded]
  rfl

theorem rowOutcome_ok (new : ¬ ∃ row ∈ rows, row.id = rowId.toNat)
    (encoded : serializedPayload table record = .ok payload) :
    rowOutcome disk table rows record rowId =
      if Takes (btreeNodeMaxCellSize (loadedNode disk table.root))
          (loadedNode disk table.root).freeHeap payload.length then
        .ok (some ⟨rowId.toNat, rowIn table record⟩)
      else .error (.error .unknown) := by
  rw [rowOutcome_new new, encoded]
  rfl

/-- The bytes of a row, which are as many as an `u32` says. -/
theorem serializedPayload_ok (evaluated : record.Evaluated)
    (readable : RowReadable table record)
    (encoded : serializedPayload table record = .ok payload) :
    payload.length < 2 ^ 32 ∧
      Decodes (sqlIbtreeDeserializeRecord table) payload
        (rowIn table record) := by
  obtain ⟨serialized, writtenEq, payloadEq⟩ := except_bind_ok_iff.mp encoded
  obtain ⟨pkeyInd, row⟩ :=
    sqlIbtreeSerializeRecordAcquire_written evaluated writtenEq
  unfold SqlSerializedRecord.payload at payloadEq
  split at payloadEq
  · next sized =>
      rw [← Except.ok.inj payloadEq, ← sized, row.size]
      exact ⟨Nat.mod_lt _ (Nat.two_pow_pos 32),
        row.decodes evaluated readable⟩
  · cases payloadEq

/-- What `insert` does on the open tree of a table. -/
theorem insertInto_run
    (store : TableStore disk free table.root 0 [table.root] flat chains records)
    (stored : List.Forall₂ (StoresRow table) records rows)
    (evaluated : record.Evaluated) (readable : RowReadable table record)
    (room : ∀ payload, serializedPayload table record = .ok payload →
      disk.maxPage + payload.length + 1 < pageIdLimit) :
    ∃ after left marks more kept,
      insertInto table record rowId table.tree disk =
        (.ok ((rowOutcome disk table rows record rowId).map fun _ => ()),
          after) ∧
      TableStore after left table.root 0 [table.root] marks more kept ∧
      List.Forall₂ (StoresRow table) kept
        (rowsAfter (rowOutcome disk table rows record rowId) rows) ∧
      Within disk free ([table.root] ++ chains) after left
        ([table.root] ++ more) := by
  have isTable : table.tree.type = .table := rfl
  by_cases there : ∃ row ∈ rows, row.id = rowId.toNat
  · -- the status is `BTREE_OK`, and the statement ends
    obtain ⟨op, prepareEq, status⟩ := btreeOpUpdatePrepare_found isTable store
      ((storesRows_id stored _).mp there)
    rw [rowOutcome_there there]
    refine ⟨disk, free, flat, chains, records, ?_, store, stored,
      Within.refl _ _ _⟩
    unfold insertInto
    rw [SqlBt.bind_ok (SqlBt.ofBtM_ok prepareEq), status]
    rfl
  · have absent : ∀ record ∈ records, record.key ≠ rowId.toNat :=
      fun record member same =>
        there ((storesRows_id stored _).mpr ⟨record, member, same⟩)
    obtain ⟨op, prepareEq, status, commits⟩ :=
      btreeOpUpdate_missing isTable store absent rowId.isLt
    have begins : insertInto table record rowId table.tree disk = (do
        let payload ← SqlBt.ofSql (serializedPayload table record)
        let upsert ← SqlBt.ofBtM (btreeOpUpdateCommit table.tree op payload)
        SqlBt.ofStatus upsert.lastStatus : SqlBt Unit) disk := by
      unfold insertInto
      rw [SqlBt.bind_ok (SqlBt.ofBtM_ok prepareEq), status]
      rfl
    rw [begins]
    cases encoded : serializedPayload table record with
    | error reason =>
        rw [rowOutcome_error there encoded]
        exact ⟨disk, free, flat, chains, records, rfl, store, stored,
          Within.refl _ _ _⟩
    | ok payload =>
        obtain ⟨sizeFits, decodes⟩ :=
          serializedPayload_ok evaluated readable encoded
        obtain ⟨stores, refuses⟩ :=
          commits payload sizeFits (room payload encoded)
        rw [SqlBt.bind_ok (SqlBt.ofSql_apply _ _), rowOutcome_ok there encoded]
        by_cases takes : Takes (btreeNodeMaxCellSize
            (loadedNode disk table.root))
              (loadedNode disk table.root).freeHeap payload.length
        · obtain ⟨later, after, left, marks, more, commitEq, ok, grown,
            within⟩ := stores takes
          rw [if_pos takes]
          refine ⟨after, left, marks, more, _, ?_, grown, ?_, within⟩
          · rw [SqlBt.bind_ok (SqlBt.ofBtM_ok commitEq), ok]
            rfl
          · exact @storesRows_add table records rows ⟨rowId.toNat, payload⟩
              ⟨rowId.toNat, rowIn table record⟩ stored ⟨rfl, decodes⟩
        · obtain ⟨later, commitEq, full⟩ := refuses takes
          rw [if_neg takes]
          refine ⟨disk, free, flat, chains, records, ?_, store, stored,
            Within.refl _ _ _⟩
          rw [SqlBt.bind_ok (SqlBt.ofBtM_ok commitEq), full]
          rfl

end Insert

end BtreeDb
