import BtreeDb.Sql.Database
import BtreeDb.Sql.Sequences

/-!
# Runs of statements

A database is for tables of rows: CREATE TABLE adds an empty table, INSERT adds
a row under its id, SELECT prints the rows of a condition, and DELETE takes rows
out.  The statements of a run that fit do this on the tables of the file.
-/

namespace BtreeDb

open Bytes ByteStream Disk Owners PagedTree Runs Sweep

/-! ## What statements are for -/

/-- The tables after the rows of the first one of a name have changed. -/
def replaceRows (named : Option SqlString)
    (change : List SqlRow → List SqlRow) : List SqlRows → List SqlRows
  | [] => []
  | stored :: rest =>
      if named = some stored.table.tableName then
        ⟨stored.table, change stored.rows⟩ :: rest
      else stored :: replaceRows named change rest

/-- What a statement prints of the rows of its table. -/
def SqlParse.prints (parse : SqlParse) (rows : List SqlRow) : List SqlRecord :=
  match parse with
  | .delete _ => (taken parse.removes rows).map SqlRow.record
  | _ => (rows.filter fun row => parse.selects row.record).map SqlRow.record

/-- The rows that it leaves: a DELETE passes over the row behind a deleted
one. -/
def SqlParse.leaves (parse : SqlParse) (rows : List SqlRow) : List SqlRow :=
  match parse with
  | .delete _ => sweep parse.removes rows
  | _ => rows

/-- The tables of a file, with the file. -/
structure SqlState where
  disk : Disk
  tables : List SqlRows

/-- The answer of SELECT, UPDATE or DELETE; a name that is `NULL` is read. -/
def scanAnswer (named : Option SqlString) (parse : SqlParse)
    (tables : List SqlRows) : List SqlRecord × SqlM Unit :=
  match named with
  | none => ([], .error .outOfRange)
  | some name =>
      match namedTable (some name) tables with
      | .error reason => ([], .error reason)
      | .ok stored => (parse.prints stored.rows, .ok ())

/-- The table of a CREATE TABLE. -/
def createdTable (db : SqlDb) (disk : Disk) (parsed : SqlParsedCreateTable) :
    SqlM SqlTable := do
  let table ← sqlParsegenTableFromCreateTable parsed
  let seq ← (db.sequences.next tablesName).answer disk
  let table := { table with
    tableMeta := ⟨BitVec.ofNat 32 (pagerNextUnused disk), seq⟩ }
  let _ ← tableDefBuffer table
  pure table

/-- The disk on which `insert` writes its row. -/
def insertDisk (db : SqlDb) (table : SqlTable) (record : SqlRecord)
    (disk : Disk) : Disk :=
  (sqldbTableBtreeAcquire table
    (sqldbTablePrepareRecordOn db.sequences table record disk).2).2

/-- What comes of an INSERT. -/
def insertOutcome (db : SqlDb) (state : SqlState) (parsed : SqlParsedInsert) :
    SqlM (Option SqlRow) := do
  let stored ← namedTable parsed.tableName state.tables
  let record ← sqlParsegenRecordFromInsert parsed
  let prepared ← sqldbTablePrepareRecord
    (db.sequences.answers stored.table.tableName state.disk) stored.table record
  rowOutcome (insertDisk db stored.table record state.disk) stored.table
    stored.rows prepared.1 prepared.2

/-- What a statement prints and returns. -/
def SqlState.answer (db : SqlDb) (state : SqlState) :
    SqlParse → List SqlRecord × SqlM Unit
  | .invalid => ([], .ok ())
  | .createTable parsed =>
      ([], (createdTable db state.disk parsed).map fun _ => ())
  | .insert parsed => ([], (insertOutcome db state parsed).map fun _ => ())
  | .select parsed => scanAnswer parsed.tableName (.select parsed) state.tables
  | .update parsed => scanAnswer parsed.tableName (.update parsed) state.tables
  | .delete parsed => scanAnswer parsed.tableName (.delete parsed) state.tables

/-- The tables after a statement. -/
def SqlState.tablesAfter (db : SqlDb) (state : SqlState) :
    SqlParse → List SqlRows
  | .createTable parsed =>
      match createdTable db state.disk parsed with
      | .ok table => state.tables ++ [⟨table, []⟩]
      | .error _ => state.tables
  | .insert parsed => replaceRows parsed.tableName
      (rowsAfter (insertOutcome db state parsed)) state.tables
  | .delete parsed => replaceRows parsed.tableName
      (SqlParse.leaves (.delete parsed)) state.tables
  | _ => state.tables

/-! ## Statements that fit -/

/-- A statement of the parser, and the turns that its loops may take. -/
structure ParsedStatement where
  parse : SqlParse
  turns : Nat
  parsed : ∃ tokens, sqlParseCreate tokens = .ok parse

/-- The catalogue can be scanned. -/
def CatalogFits (db : SqlDb) (state : SqlState) (turns : Nat) : Prop :=
  state.tables.length < turns ∧
    EvenlyFilled db.tbTables state.disk
      (treeHeight db.tbTables state.disk 2 db.tbTables.rootPageId)

instance (db : SqlDb) (state : SqlState) (turns : Nat) :
    Decidable (CatalogFits db state turns) :=
  inferInstanceAs (Decidable (_ ∧ _))

/-- A scan of a table: no UPDATE writes a row, and the removals of a DELETE move
no cell onto another. -/
def ScanFits (state : SqlState) (parse : SqlParse) (turns : Nat)
    (stored : SqlRows) : Prop :=
  stored.rows.length < turns ∧
    OthersOpened state.disk state.tables stored.table ∧
    OpensNow state.disk stored.table ∧
    (∀ row ∈ stored.rows, parse.writes row = false) ∧
    SweepsSafely (stored.rows.map parse.removes)
      (loadedNode state.disk stored.table.root) 0

instance (state : SqlState) (parse : SqlParse) (turns : Nat)
    (stored : SqlRows) : Decidable (ScanFits state parse turns stored) :=
  inferInstanceAs (Decidable (_ ∧ _ ∧ _ ∧ (∀ row ∈ _, _) ∧ _))

/-- An INSERT into a table: the sequences write to their own pages, and the
values can be read back. -/
def InsertionFits (db : SqlDb) (others : List Nat) (state : SqlState)
    (parsed : SqlParsedInsert) (stored : SqlRows) : Prop :=
  OthersOpened state.disk state.tables stored.table ∧
    OpensNow state.disk stored.table ∧
    ∀ record ∈ (sqlParsegenRecordFromInsert parsed).toOption,
      StaysIn others state.disk
          (sqldbTablePrepareRecordOn db.sequences stored.table record) ∧
        ∀ prepared ∈ (sqldbTablePrepareRecord
            (db.sequences.answers stored.table.tableName state.disk)
            stored.table record).toOption,
          RowReadable stored.table prepared.1 ∧
            ∀ payload ∈ (serializedPayload stored.table prepared.1).toOption,
              state.disk.maxPage + payload.length + 2 < pageIdLimit

instance (db : SqlDb) (others : List Nat) (state : SqlState)
    (parsed : SqlParsedInsert) (stored : SqlRows) :
    Decidable (InsertionFits db others state parsed stored) :=
  inferInstanceAs (Decidable (_ ∧ _ ∧ ∀ record ∈ _, _ ∧ ∀ prepared ∈ _,
    _ ∧ ∀ payload ∈ _, _))

/-- A CREATE TABLE: every table is open, the ids count up, and the definition
goes into the catalogue without a new page, so that the root of the table is
still the next one. -/
def CreateFits (db : SqlDb) (others : List Nat) (state : SqlState)
    (parsed : SqlParsedCreateTable) : Prop :=
  AllOpened state.disk state.tables ∧
    StaysIn others state.disk (db.sequences.next tablesName) ∧
    ∀ table ∈ (createdTable db state.disk parsed).toOption,
      (∀ stored ∈ state.tables,
        stored.table.catalogRecord.key < table.catalogRecord.key) ∧
      CommandFits db.tbTables
        ⟨(db.sequences.next tablesName state.disk).2,
          catalogRecords state.tables⟩ (.insert table.catalogRecord) ∧
      ((TableCommand.insert table.catalogRecord).run db.tbTables
        (db.sequences.next tablesName state.disk).2).2.maxPage =
          state.disk.maxPage

instance (db : SqlDb) (others : List Nat) (state : SqlState)
    (parsed : SqlParsedCreateTable) :
    Decidable (CreateFits db others state parsed) :=
  inferInstanceAs (Decidable (_ ∧ _ ∧ ∀ table ∈ _,
    (∀ stored ∈ _, _) ∧ _ ∧ _))

/-- A statement fits the tables of the file. -/
def ParseFits (db : SqlDb) (others : List Nat) (state : SqlState)
    (turns : Nat) : SqlParse → Prop
  | .invalid => True
  | .createTable parsed => CreateFits db others state parsed
  | .insert parsed => CatalogFits db state turns ∧
      ∀ stored ∈ (namedTable parsed.tableName state.tables).toOption,
        InsertionFits db others state parsed stored
  | .select parsed => CatalogFits db state turns ∧
      ∀ stored ∈ (namedTable parsed.tableName state.tables).toOption,
        ScanFits state (.select parsed) turns stored
  | .update parsed => CatalogFits db state turns ∧
      ∀ stored ∈ (namedTable parsed.tableName state.tables).toOption,
        ScanFits state (.update parsed) turns stored
  | .delete parsed => CatalogFits db state turns ∧
      ∀ stored ∈ (namedTable parsed.tableName state.tables).toOption,
        ScanFits state (.delete parsed) turns stored

instance (db : SqlDb) (others : List Nat) (state : SqlState) (turns : Nat) :
    ∀ parse, Decidable (ParseFits db others state turns parse)
  | .invalid => instDecidableTrue
  | .createTable parsed =>
      inferInstanceAs (Decidable (CreateFits db others state parsed))
  | .insert _ => inferInstanceAs (Decidable (_ ∧ ∀ stored ∈ _, _))
  | .select _ => inferInstanceAs (Decidable (_ ∧ ∀ stored ∈ _, _))
  | .update _ => inferInstanceAs (Decidable (_ ∧ ∀ stored ∈ _, _))
  | .delete _ => inferInstanceAs (Decidable (_ ∧ ∀ stored ∈ _, _))

/-! ## Changing the rows of a table -/

section Replace

variable {named : Option SqlString} {tables : List SqlRows} {stored : SqlRows}

/-- The first table of a name is one of the tables, and its rows are the ones
that change. -/
theorem namedTable_index (found : namedTable named tables = .ok stored) :
    ∃ index, tables[index]? = some stored ∧
      ∀ change, replaceRows named change tables =
        tables.set index ⟨stored.table, change stored.rows⟩ := by
  induction tables with
  | nil => cases found
  | cons first rest inductionHypothesis =>
      cases named with
      | none => cases found
      | some name =>
          rw [namedTable] at found
          by_cases isNamed : first.table.tableName = name
          · rw [if_pos isNamed] at found
            cases found
            refine ⟨0, rfl, fun change => ?_⟩
            rw [replaceRows, if_pos (by rw [isNamed])]
            rfl
          · rw [if_neg isNamed] at found
            obtain ⟨index, here, replaced⟩ := inductionHypothesis found
            refine ⟨index + 1, here, fun change => ?_⟩
            rw [replaceRows, if_neg (by
              intro same
              exact isNamed (Option.some.inj same).symm), replaced]
            rfl

theorem namedTable_named (found : namedTable named tables = .ok stored) :
    ∃ name, named = some name := by
  cases named with
  | none => cases tables <;> cases found
  | some name => exact ⟨name, rfl⟩

/-- Without a table of the name nothing changes. -/
theorem namedTable_missing {reason : SqlStop}
    (missing : namedTable named tables = .error reason)
    (change : List SqlRow → List SqlRow) :
    replaceRows named change tables = tables := by
  induction tables with
  | nil => rfl
  | cons first rest inductionHypothesis =>
      rw [replaceRows]
      cases named with
      | none =>
          have same : ∀ others, replaceRows none change others = others := by
            intro others
            induction others with
            | nil => rfl
            | cons first rest inductionHypothesis =>
                rw [replaceRows, if_neg nofun, inductionHypothesis]
          rw [if_neg nofun, same]
      | some name =>
          rw [namedTable] at missing
          by_cases isNamed : first.table.tableName = name
          · rw [if_pos isNamed] at missing
            cases missing
          · rw [if_neg isNamed] at missing
            rw [if_neg (by
              intro same
              exact isNamed (Option.some.inj same).symm),
              inductionHypothesis missing]

theorem replaceRows_same {change : List SqlRow → List SqlRow}
    (same : ∀ rows, change rows = rows) (tables : List SqlRows) :
    replaceRows named change tables = tables := by
  induction tables with
  | nil => rfl
  | cons first rest inductionHypothesis =>
      rw [replaceRows, same, inductionHypothesis]
      split <;> rfl

end Replace

/-! ## Scans -/

section Scan

variable {db : SqlDb} {others : List Nat} {state : SqlState}
variable {named : Option SqlString} {parse : SqlParse} {turns : Nat}

theorem SqlParse.prints_eq (parse : SqlParse) (rows : List SqlRow) :
    ((visited parse.removes rows).map parse.printed).filterMap id =
      parse.prints rows := by
  have kept : ∀ list : List SqlRow,
      (list.map parse.printed).filterMap id =
        (list.filter fun row => parse.selects row.record).map
          SqlRow.record := by
    intro list
    induction list with
    | nil => rfl
    | cons row list inductionHypothesis =>
        by_cases selected : parse.selects row.record = true
        · have here : parse.printed row = some row.record := if_pos selected
          rw [List.map_cons, here, List.filter_cons, if_pos selected,
            List.map_cons, ← inductionHypothesis]
          rfl
        · have here : parse.printed row = none := if_neg selected
          rw [List.map_cons, here, List.filter_cons, if_neg selected,
            ← inductionHypothesis]
          rfl
  rw [kept]
  cases parse with
  | delete parsed =>
      have same := @filter_visited SqlRow (SqlParse.removes (.delete parsed))
        rows
      exact congrArg (List.map SqlRow.record) same
  | _ =>
      rw [visited_eq_self (by intros; rfl)]
      rfl

theorem SqlParse.leaves_eq (parse : SqlParse) (rows : List SqlRow) :
    sweep parse.removes rows = parse.leaves rows := by
  cases parse with
  | delete parsed => rfl
  | _ => exact sweep_eq_self fun _ _ => rfl

/-- The catalogue is looked up on the disk. -/
theorem Database.finds (database : Database db others state.disk state.tables)
    (fits : CatalogFits db state turns) :
    sqldbTableTblFind db named turns state.disk =
      (.ok ((namedTable named state.tables).map SqlRows.table),
        state.disk) := by
  obtain ⟨free, catalog, owned, database⟩ := database
  obtain ⟨isTable, height, pages, flat, chains, _, bound, store⟩ :=
    database.catalogue
  obtain ⟨enough, filled⟩ := fits
  rw [(store.valid.wellShaped isTable).treeHeight_eq bound] at filled
  exact sqldbTableTblFind_run isTable store (by unfold maxBreadcrumbs; omega)
    filled database.sound enough

/-- The loop of SELECT, UPDATE or DELETE over the open tree of a table. -/
theorem Database.scans {disk : Disk} {tables : List SqlRows} {index : Nat}
    {stored : SqlRows} {fault : BTreeE → SqlStop}
    (database : Database db others disk tables)
    (here : tables[index]? = some stored) (opened : AllOpened disk tables)
    (typed : parse.LiteralsTyped) (enough : stored.rows.length < turns)
    (writesNone : ∀ row ∈ stored.rows, parse.writes row = false)
    (safe : SweepsSafely (stored.rows.map parse.removes)
      (loadedNode disk stored.table.root) 0) :
    ∃ after, btreeVisit stored.table.tree fault (visitRow stored.table parse)
        turns disk =
          (.ok ((visited parse.removes stored.rows).map parse.printed, .ok ()),
            after) ∧
      Database db others after
        (tables.set index ⟨stored.table, parse.leaves stored.rows⟩) := by
  obtain ⟨free, catalog, owned, database⟩ := database
  obtain ⟨own, ownHere, held⟩ := owns_getElem database.held here
  obtain ⟨flat, chains, records, rfl, store, rows⟩ :=
    held.opened_of (opened stored (List.mem_of_getElem? here))
  obtain ⟨after, left, marks, more, kept, runEq, store', rows', within⟩ :=
    @btreeVisit_rows stored.table parse stored.rows records disk free chains
      flat fault store rows typed writesNone safe
  rw [parse.leaves_eq] at rows'
  have distinct := store'.apart
  rw [← List.append_assoc] at distinct
  exact ⟨after, runEq turns enough, left, catalog, _,
    database.change here ownHere rfl (fun other member =>
      Or.inl (opened other member)) within store'.valid.store
      (.opened store' rows') distinct⟩

/-- SELECT, DELETE, and an UPDATE that writes nothing. -/
theorem scanStatement_run
    (database : Database db others state.disk state.tables)
    (typed : parse.LiteralsTyped) (catalogFits : CatalogFits db state turns)
    (fits : ∀ stored ∈ (namedTable named state.tables).toOption,
      ScanFits state parse turns stored) :
    ∃ after, scanStatement db named parse turns state.disk =
        (.ok (scanAnswer named parse state.tables), after) ∧
      Database db others after (replaceRows named parse.leaves state.tables) := by
  have found := @Database.finds db others state named turns database
    catalogFits
  cases lookEq : namedTable named state.tables with
  | error reason =>
      rw [lookEq] at found
      rw [namedTable_missing lookEq]
      refine ⟨state.disk, ?_, database⟩
      unfold scanStatement scanAnswer
      cases named with
      | none => rfl
      | some name =>
          dsimp only
          rw [BtM.bind_ok found, lookEq]
          rfl
  | ok stored =>
      rw [lookEq] at found fits
      obtain ⟨index, here, replaced⟩ := namedTable_index lookEq
      obtain ⟨enough, opened, opensNow, writesNone, safe⟩ := fits stored rfl
      obtain ⟨disk, acquireEq, whole, allOpened, _, same⟩ :=
        database.opens here opened opensNow
      have safeThere : SweepsSafely (stored.rows.map parse.removes)
          (loadedNode disk stored.table.root) 0 := by
        by_cases isOpen : stored.table.root ≤ state.disk.maxPage
        · rw [same isOpen]
          exact safe
        · obtain ⟨free, catalog, owned, database⟩ := database
          obtain ⟨own, _, held⟩ := owns_getElem database.held here
          cases held with
          | opened store _ =>
              exact absurd (treeAt_present store.valid.tree _
                (List.mem_singleton_self _)).2 isOpen
          | unopened _ => trivial
      obtain ⟨after, visitEq, kept⟩ := @Database.scans db others parse turns
        disk state.tables index stored
        (fun code => .error (sqlbtErr code)) whole here allOpened typed enough
        writesNone safeThere
      rw [replaced]
      refine ⟨after, ?_, kept⟩
      unfold scanStatement scanAnswer
      obtain ⟨name, rfl⟩ := namedTable_named lookEq
      dsimp only
      rw [BtM.bind_ok found]
      change (sqldbTableBtreeAcquire stored.table >>= _ : BtM _) _ = _
      rw [BtM.bind_ok acquireEq]
      dsimp only
      rw [BtM.bind_ok visitEq, lookEq]
      change (Except.ok (List.filterMap id _, _), _) = _
      rw [parse.prints_eq]

end Scan

/-! ## Insertions -/

section Insert

variable {db : SqlDb} {others : List Nat} {state : SqlState} {turns : Nat}

/-- The rest of `insert` on the open tree of a table. -/
theorem Database.inserts {disk : Disk} {tables : List SqlRows} {index : Nat}
    {stored : SqlRows} {record : SqlRecord} {rowId : BitVec 32}
    (database : Database db others disk tables)
    (here : tables[index]? = some stored) (opened : AllOpened disk tables)
    (evaluated : record.Evaluated) (readable : RowReadable stored.table record)
    (room : ∀ payload, serializedPayload stored.table record = .ok payload →
      disk.maxPage + payload.length + 1 < pageIdLimit) :
    ∃ after, insertInto stored.table record rowId stored.table.tree disk =
        (.ok ((rowOutcome disk stored.table stored.rows record rowId).map
          fun _ => ()), after) ∧
      Database db others after (tables.set index ⟨stored.table,
        rowsAfter (rowOutcome disk stored.table stored.rows record rowId)
          stored.rows⟩) := by
  obtain ⟨free, catalog, owned, database⟩ := database
  obtain ⟨own, ownHere, held⟩ := owns_getElem database.held here
  obtain ⟨flat, chains, records, rfl, store, rows⟩ :=
    held.opened_of (opened stored (List.mem_of_getElem? here))
  obtain ⟨after, left, marks, more, kept, runEq, store', rows', within⟩ :=
    @insertInto_run stored.table record rowId stored.rows records disk free
      chains flat store rows evaluated readable room
  have distinct := store'.apart
  rw [← List.append_assoc] at distinct
  exact ⟨after, runEq, left, catalog, _,
    database.change here ownHere rfl (fun other member =>
      Or.inl (opened other member)) within store'.valid.store
      (.opened store' rows') distinct⟩

theorem Database.notFirst {disk : Disk} {tables : List SqlRows}
    (database : Database db others disk tables) : 1 ∉ others := by
  obtain ⟨_, _, _, database⟩ := database
  exact fun member => (database.reserved 1 member).1 rfl

theorem Database.elsewhere {disk after : Disk} {tables : List SqlRows}
    (database : Database db others disk tables)
    (writes : OnlyWrites others disk after) :
    Database db others after tables := by
  obtain ⟨free, catalog, owned, database⟩ := database
  exact ⟨free, catalog, owned, database.elsewhere writes⟩

theorem OnlyWrites.opensNow {disk after : Disk} {table : SqlTable}
    (writes : OnlyWrites others disk after) (notFirst : 1 ∉ others)
    (opensNow : OpensNow disk table) : OpensNow after table := by
  unfold OpensNow nextFree at *
  rw [writes.2.1, writes.kept notFirst]
  exact opensNow

theorem OnlyWrites.othersOpened {disk after : Disk} {tables : List SqlRows}
    {table : SqlTable} (writes : OnlyWrites others disk after)
    (opened : OthersOpened disk tables table) :
    OthersOpened after tables table := by
  unfold OthersOpened at *
  rw [writes.2.1]
  exact opened

/-- `insert`. -/
theorem insertStatement_run {parsed : SqlParsedInsert}
    (database : Database db others state.disk state.tables)
    (catalogFits : CatalogFits db state turns)
    (fits : ∀ stored ∈ (namedTable parsed.tableName state.tables).toOption,
      InsertionFits db others state parsed stored) :
    ∃ after, insert db parsed turns state.disk =
        (.ok ((insertOutcome db state parsed).map fun _ => ()), after) ∧
      Database db others after (replaceRows parsed.tableName
        (rowsAfter (insertOutcome db state parsed)) state.tables) := by
  have found := @Database.finds db others state parsed.tableName turns database
    catalogFits
  have unchanged : ∀ reason : SqlStop, replaceRows parsed.tableName
      (rowsAfter (.error reason)) state.tables = state.tables := by
    intro reason
    exact replaceRows_same (fun _ => rfl) _
  unfold insert
  cases lookEq : namedTable parsed.tableName state.tables with
  | error reason =>
      rw [lookEq] at found
      have outcomeEq : insertOutcome db state parsed = .error reason := by
        unfold insertOutcome
        rw [lookEq]
        rfl
      rw [SqlBt.bind_error found, outcomeEq, unchanged]
      exact ⟨state.disk, rfl, database⟩
  | ok stored =>
      rw [lookEq] at found fits
      obtain ⟨index, here, replaced⟩ := namedTable_index lookEq
      obtain ⟨opened, opensNow, sequenced⟩ := fits stored rfl
      rw [SqlBt.bind_ok found]
      cases madeEq : sqlParsegenRecordFromInsert parsed with
      | error reason =>
          have outcomeEq : insertOutcome db state parsed = .error reason := by
            unfold insertOutcome
            rw [lookEq, madeEq]
            rfl
          rw [SqlBt.bind_error (SqlBt.ofSql_apply _ _), outcomeEq, unchanged]
          exact ⟨state.disk, rfl, database⟩
      | ok record =>
          rw [SqlBt.bind_ok (SqlBt.ofSql_apply _ _)]
          rw [madeEq] at sequenced
          obtain ⟨⟨returns, writes⟩, prepares⟩ := sequenced record rfl
          have sequencesEq := sqldbTablePrepareRecordOn_fst returns
          have opensThere := writes.opensNow database.notFirst opensNow
          have othersThere := writes.othersOpened opened
          have sameMax := writes.2.1
          have middle := database.elsewhere writes
          generalize midEq : sqldbTablePrepareRecordOn db.sequences
            stored.table record state.disk = prepareCall at *
          obtain ⟨result, mid⟩ := prepareCall
          obtain rfl : result = _ := sequencesEq
          cases preparedEq : sqldbTablePrepareRecord
              (db.sequences.answers stored.table.tableName state.disk)
              stored.table record with
          | error reason =>
              rw [preparedEq] at midEq
              have outcomeEq : insertOutcome db state parsed =
                  .error reason := by
                simp only [insertOutcome, lookEq, madeEq, preparedEq, bind,
                  Except.bind]
              rw [SqlBt.bind_error midEq, outcomeEq, unchanged]
              exact ⟨mid, rfl, middle⟩
          | ok prepared =>
              rw [preparedEq] at midEq prepares
              obtain ⟨readable, room⟩ := prepares prepared rfl
              rw [SqlBt.bind_ok midEq]
              obtain ⟨disk, acquireEq, whole, allOpened, few, _⟩ :=
                middle.opens here othersThere opensThere
              have evaluated := sqldbTablePrepareRecord_evaluated
                (sqlParsegenRecordFromInsert_evaluated madeEq) preparedEq
              obtain ⟨after, insertEq, kept⟩ := @Database.inserts db others disk
                state.tables index stored prepared.1 prepared.2 whole here
                allOpened evaluated readable fun payload encoded => by
                  have bound := room payload (by
                    rw [encoded]
                    rfl)
                  have sameMax : mid.maxPage = state.disk.maxPage := sameMax
                  omega
              have diskEq : insertDisk db stored.table record state.disk =
                  disk := by
                unfold insertDisk
                rw [midEq]
                dsimp only
                rw [acquireEq]
              have outcomeEq : insertOutcome db state parsed =
                  rowOutcome disk stored.table stored.rows prepared.1
                    prepared.2 := by
                simp only [insertOutcome, lookEq, madeEq, preparedEq, diskEq,
                  bind, Except.bind]
              rw [outcomeEq, replaced]
              refine ⟨after, ?_, kept⟩
              dsimp only
              rw [SqlBt.bind_ok acquireEq, insertEq]

end Insert

/-! ## New tables -/

section Create

variable {db : SqlDb} {others : List Nat} {state : SqlState}
variable {tokens : List SqlToken} {parsed : SqlParsedCreateTable}
variable {table : SqlTable}

/-- The buffer of a definition holds its bytes and nothing else. -/
theorem tableDefBuffer_ok {buffer : List UInt8}
    (buffered : tableDefBuffer table = .ok buffer) :
    buffer = tableDefBytes table ∧ table.NamesFit := by
  unfold tableDefBuffer at buffered
  cases writtenEq : sqldbTableTblSerializeTableDef table with
  | error reason =>
      rw [writtenEq] at buffered
      cases buffered
  | ok bytes =>
      rw [writtenEq] at buffered
      obtain ⟨fit, rfl⟩ := sqldbTableTblSerializeTableDef_ok_iff.mp writtenEq
      have sizeEq := sqldbTableTblSerializeTableDefSize_eq table
      have length := tableDefBytes_length table
      change (if _ ≤ _ then _ else _) = _ at buffered
      by_cases room : (tableDefBytes table).length ≤
          sqldbTableTblSerializeTableDefSize table
      · rw [if_pos room] at buffered
        rw [← Except.ok.inj buffered]
        refine ⟨?_, fit⟩
        have exactly : sqldbTableTblSerializeTableDefSize table -
            (tableDefBytes table).length = 0 := by
          rw [sizeEq, length]
          exact Nat.sub_eq_zero_of_le (Nat.mod_le _ _)
        unfold scanBuffer
        rw [exactly]
        exact List.append_nil _
      · rw [if_neg room] at buffered
        cases buffered

/-- The definition of a new table can be read back. -/
theorem SqlTable.sound_of (typed : sqlParseCreate tokens =
      .ok (.createTable parsed)) {base : SqlTable}
    (generated : sqlParsegenTableFromCreateTable parsed = .ok base)
    {tableMeta : SqlTableMeta}
    (fit : ({ base with tableMeta := tableMeta } : SqlTable).NamesFit) :
    ({ base with tableMeta := tableMeta } : SqlTable).Sound := by
  obtain ⟨few, each⟩ := sqlParseCreate_createTable typed
  have columnsEq := sqlParsegenTableFromCreateTable_columns
    (fun column member => (each column member).1) generated
  refine ⟨fit, ?_, sqlParsegenTableFromCreateTable_keyFirst columnsEq⟩
  change base.columns.length ≤ 8
  rw [columnsEq, List.length_cons, List.length_map]
  omega

/-- A definition behind the others. -/
theorem catalogRecords_append {tables : List SqlRows}
    (last : ∀ stored ∈ tables,
      stored.table.catalogRecord.key < table.catalogRecord.key) :
    addRecord table.catalogRecord.key table.catalogRecord.payload
        (catalogRecords tables) =
      catalogRecords (tables ++ [⟨table, []⟩]) := by
  have below : ∀ record ∈ catalogRecords tables,
      record.key < table.catalogRecord.key := by
    intro record member
    obtain ⟨stored, inTables, rfl⟩ := List.mem_map.mp member
    exact last stored inTables
  have entered := @addRecord_between _ table.catalogRecord.payload _ [] below
    fun _ member => absurd member List.not_mem_nil
  rw [List.append_nil] at entered
  rw [entered]
  unfold catalogRecords
  rw [List.map_append]
  rfl

/-- A definition goes into the catalogue, and its table has no page yet. -/
theorem Database.enters {disk : Disk} {tables : List SqlRows}
    (database : Database db others disk tables)
    (opened : AllOpened disk tables) (sound : table.Sound)
    (rooted : table.root = disk.maxPage + 1)
    (last : ∀ stored ∈ tables,
      stored.table.catalogRecord.key < table.catalogRecord.key)
    (fits : CommandFits db.tbTables ⟨disk, catalogRecords tables⟩
      (.insert table.catalogRecord))
    (samePages : ((TableCommand.insert table.catalogRecord).run db.tbTables
      disk).2.maxPage = disk.maxPage) :
    ∃ after, (TableCommand.insert table.catalogRecord).run db.tbTables disk =
        (.ok (), after) ∧
      Database db others after (tables ++ [⟨table, []⟩]) := by
  obtain ⟨free, catalog, owned, database⟩ := database
  obtain ⟨isTable, height, pages, flat, chains, rfl, bound, store⟩ :=
    database.catalogue
  obtain ⟨after, left, high, grown, marks, more, runEq, kept, lower, within⟩ :=
    @TableCommand.run_within db.tbTables ⟨disk, catalogRecords tables⟩
      (.insert table.catalogRecord) free pages chains height flat isTable store
      bound fits
  have runEq : (TableCommand.insert table.catalogRecord).run db.tbTables disk =
      (.ok (), after) := runEq
  rw [runEq] at samePages
  have samePages : after.maxPage = disk.maxPage := samePages
  have kept : TableStore after left db.tbTables.rootPageId high grown marks more
      (addRecord table.catalogRecord.key table.catalogRecord.payload
        (catalogRecords tables)) := kept
  rw [catalogRecords_append last] at kept
  have separate := database.separate
  have distinct : ((grown ++ more) ++ left).Nodup := by
    rw [List.append_assoc]
    exact kept.apart
  have exchanged : Separate (others :: (grown ++ more) :: owned) left :=
    @Separate.exchange _ _ _ _ free left 1 _ separate rfl distinct within.source
      database.pages_present
  refine ⟨after, runEq, left, grown ++ more, owned ++ [[]], ?_, ?_, ?_, ?_, ?_⟩
  · exact ⟨isTable, high, grown, marks, more, rfl, lower, kept⟩
  · intro stored member
    rcases List.mem_append.mp member with old | isNew
    · exact database.sound stored old
    · rw [List.mem_singleton.mp isNew]
      exact sound
  · refine List.rel_append ?_ (.cons (.unopened ?_) .nil)
    · obtain ⟨lengths, each⟩ := List.forall₂_iff_get.mp database.held
      refine List.forall₂_iff_get.mpr ⟨lengths, fun place first second => ?_⟩
      refine (each place first second).beside within kept.valid.store ?_
        (Or.inl (opened _ (List.getElem_mem first)))
      exact @Separate.others _ _ _ _ 1 (place + 2) _ separate rfl
        (by
          rw [List.getElem?_cons_succ, List.getElem?_cons_succ]
          exact List.getElem?_eq_getElem second) (by omega)
    · rw [samePages]
      exact rooted
  · have same : (others :: (grown ++ more) :: (owned ++ [[]])).flatten =
        (others :: (grown ++ more) :: owned).flatten := by
      simp only [List.flatten_cons, List.flatten_append, List.flatten_nil,
        List.append_nil]
    unfold Separate
    rw [same]
    exact exchanged
  · intro page member
    obtain ⟨notFirst, present⟩ := database.reserved page member
    exact ⟨notFirst, Nat.le_trans present within.grows⟩

/-- `create_table`. -/
theorem createTable_run (database : Database db others state.disk state.tables)
    (typed : sqlParseCreate tokens = .ok (.createTable parsed))
    (fits : CreateFits db others state parsed) :
    ∃ after, createTable db parsed state.disk =
        (.ok ((createdTable db state.disk parsed).map fun _ => ()), after) ∧
      Database db others after
        (state.tablesAfter db (.createTable parsed)) := by
  obtain ⟨opened, stays, enters⟩ := fits
  have writes := stays.2
  unfold createTable SqlState.tablesAfter
  dsimp only
  cases generatedEq : sqlParsegenTableFromCreateTable parsed with
  | error reason =>
      have createdEq : createdTable db state.disk parsed = .error reason := by
        simp only [createdTable, generatedEq, bind, Except.bind]
      rw [SqlBt.bind_error (SqlBt.ofSql_apply _ _), createdEq]
      exact ⟨state.disk, rfl, database⟩
  | ok base =>
      rw [SqlBt.bind_ok (SqlBt.ofSql_apply _ _)]
      unfold sqldbCreateTable
      rw [SqlBt.bind_ok (SqlBt.ofBtM_ok (show BtM.getDisk state.disk =
        (.ok state.disk, state.disk) from rfl))]
      have middle := database.elsewhere writes
      have sameMax := writes.2.1
      generalize midEq : (db.sequences.next tablesName state.disk).2 = mid at *
      have nextEq : db.sequences.next tablesName state.disk =
          (.ok ((db.sequences.next tablesName).answer state.disk), mid) := by
        rw [← midEq, ← stays.answer]
      cases answerEq : (db.sequences.next tablesName).answer state.disk with
      | error reason =>
          rw [answerEq] at nextEq
          have createdEq : createdTable db state.disk parsed =
              .error reason := by
            simp only [createdTable, generatedEq, answerEq, bind, Except.bind]
          rw [SqlBt.bind_error nextEq, createdEq]
          exact ⟨mid, rfl, middle⟩
      | ok seq =>
          rw [answerEq] at nextEq
          rw [SqlBt.bind_ok nextEq]
          cases bufferEq : tableDefBuffer { base with tableMeta :=
              ⟨BitVec.ofNat 32 (pagerNextUnused state.disk), seq⟩ } with
          | error reason =>
              have createdEq : createdTable db state.disk parsed =
                  .error reason := by
                simp only [createdTable, generatedEq, answerEq, bufferEq, bind,
                  Except.bind]
              rw [SqlBt.bind_error (SqlBt.ofSql_apply _ _), createdEq]
              exact ⟨mid, rfl, middle⟩
          | ok buffer =>
              have createdEq : createdTable db state.disk parsed =
                  .ok { base with tableMeta :=
                    ⟨BitVec.ofNat 32 (pagerNextUnused state.disk), seq⟩ } := by
                simp only [createdTable, generatedEq, answerEq, bufferEq, bind,
                  Except.bind, pure, Except.pure]
              rw [createdEq] at enters
              obtain ⟨last, commandFits, samePages⟩ := enters _ rfl
              obtain ⟨rfl, fit⟩ := tableDefBuffer_ok bufferEq
              have rooted : (BitVec.ofNat 32
                  (pagerNextUnused state.disk)).toNat = mid.maxPage + 1 := by
                have room := commandFits.2.2.2.2
                have few : pagerNextUnused state.disk < 2 ^ 32 := by
                  change state.disk.maxPage + 1 < 2 ^ 32
                  unfold pageIdLimit at room
                  dsimp only at room
                  omega
                rw [BitVec.toNat_ofNat, Nat.mod_eq_of_lt few, sameMax]
                rfl
              have allOpened : AllOpened mid state.tables := by
                unfold AllOpened
                rw [sameMax]
                exact opened
              obtain ⟨after, runEq, whole⟩ := middle.enters allOpened
                (SqlTable.sound_of typed generatedEq fit) rooted last commandFits
                (samePages.trans sameMax.symm)
              rw [SqlBt.bind_ok (SqlBt.ofSql_apply _ _), createdEq]
              exact ⟨after, SqlBt.ofAttempt_ok runEq, whole⟩

end Create

/-! ## Runs -/

section Run

variable {db : SqlDb} {others : List Nat} {start state : SqlState}
variable {statements : List ParsedStatement}

/-- The file and the tables go on by a statement. -/
def SqlState.step (db : SqlDb) (state : SqlState)
    (statement : ParsedStatement) : SqlState where
  disk := (sqldbInterpret db statement.parse statement.turns state.disk).2
  tables := state.tablesAfter db statement.parse

def StatementFits (db : SqlDb) (others : List Nat) (state : SqlState)
    (statement : ParsedStatement) : Prop :=
  ParseFits db others state statement.turns statement.parse

instance (db : SqlDb) (others : List Nat) (state : SqlState)
    (statement : ParsedStatement) :
    Decidable (StatementFits db others state statement) :=
  inferInstanceAs (Decidable (ParseFits _ _ _ _ _))

/-- One statement prints and returns what it is for, and leaves the tables that
it is to leave. -/
theorem sqldbInterpret_run {statement : ParsedStatement}
    (database : Database db others state.disk state.tables)
    (fits : StatementFits db others state statement) :
    (sqldbInterpret db statement.parse statement.turns state.disk).1 =
        .ok (state.answer db statement.parse) ∧
      Database db others (state.step db statement).disk
        (state.step db statement).tables := by
  obtain ⟨parse, turns, tokens, typed⟩ := statement
  have literals := sqlParseCreate_literalsTyped typed
  unfold SqlState.step
  cases parse with
  | invalid => exact ⟨rfl, database⟩
  | createTable parsed =>
      obtain ⟨after, runEq, whole⟩ := createTable_run database typed fits
      have interpretEq : sqldbInterpret db (.createTable parsed) turns
          state.disk = (.ok ([], (createdTable db state.disk parsed).map
            fun _ => ()), after) := BtM.bind_ok runEq
      rw [interpretEq]
      exact ⟨rfl, whole⟩
  | insert parsed =>
      obtain ⟨after, runEq, whole⟩ := insertStatement_run database fits.1 fits.2
      have interpretEq : sqldbInterpret db (.insert parsed) turns state.disk =
          (.ok ([], (insertOutcome db state parsed).map fun _ => ()), after) :=
        BtM.bind_ok runEq
      rw [interpretEq]
      exact ⟨rfl, whole⟩
  | select parsed =>
      obtain ⟨after, runEq, whole⟩ :=
        scanStatement_run database literals fits.1 fits.2
      rw [show sqldbInterpret db (.select parsed) turns state.disk = _ from
        runEq]
      rw [@replaceRows_same parsed.tableName (SqlParse.leaves (.select parsed))
        (fun _ => rfl)] at whole
      exact ⟨rfl, whole⟩
  | update parsed =>
      obtain ⟨after, runEq, whole⟩ :=
        scanStatement_run database literals fits.1 fits.2
      rw [show sqldbInterpret db (.update parsed) turns state.disk = _ from
        runEq]
      rw [@replaceRows_same parsed.tableName (SqlParse.leaves (.update parsed))
        (fun _ => rfl)] at whole
      exact ⟨rfl, whole⟩
  | delete parsed =>
      obtain ⟨after, runEq, whole⟩ :=
        scanStatement_run database literals fits.1 fits.2
      rw [show sqldbInterpret db (.delete parsed) turns state.disk = _ from
        runEq]
      exact ⟨rfl, whole⟩

end Run

/-! ## A new file -/

/-- The root of the catalogue and that of the sequences. -/
def newFile : SqlState :=
  ⟨diskOfNodes 400 [(true, 0, []), (true, 0, [])], []⟩

def newFileDb : SqlDb where
  tbTables := ⟨1, .table, 1⟩
  sequences := SqldbSeqs.toSequences ⟨signMemcmp, ⟨2, .index, 1⟩, ⟨0, 0, 0⟩⟩

theorem newFile_database : Database newFileDb [2] newFile.disk
    newFile.tables := by
  have checked : checkTable newFile.disk [] 1 0 = some ([1], []) := by
    decide +kernel
  have store : TableStore newFile.disk [] newFileDb.tbTables.rootPageId 0 [1] []
      [] [] := ⟨checkTable_sound checked, .nil, by decide, by decide⟩
  refine ⟨[], [1], [], ⟨rfl, 0, [1], [], [], rfl, by decide, store⟩, ?_, .nil,
    by unfold Separate; decide, by decide⟩
  exact fun _ member => absurd member List.not_mem_nil

/-- `CREATE TABLE "t" ("a" INT)`, two rows, a `SELECT` and a `DELETE` of one of
them, and `CREATE TABLE "u" ("b" STRING)` with a row. -/
def firstStatements : List ParsedStatement :=
  [⟨.createTable ⟨some [34, 116, 34], [⟨[34, 97, 34], .int, false⟩]⟩, 9,
      oneColumnTable, by decide +kernel⟩,
    ⟨.insert ⟨some [34, 116, 34], [[34, 97, 34]], [⟨[53], .int⟩]⟩, 9,
      [.insertKw, .quotedIdentifier [34, 116, 34], .openParen,
        .quotedIdentifier [34, 97, 34], .closeParen, .valuesKw, .openParen,
        .intLiteral [53], .closeParen], by decide +kernel⟩,
    ⟨.insert ⟨some [34, 116, 34], [[34, 97, 34]], [⟨[55], .int⟩]⟩, 9,
      [.insertKw, .quotedIdentifier [34, 116, 34], .openParen,
        .quotedIdentifier [34, 97, 34], .closeParen, .valuesKw, .openParen,
        .intLiteral [55], .closeParen], by decide +kernel⟩,
    ⟨.select ⟨some [34, 116, 34], [[42]], some ⟨[34, 97, 34], ⟨[53], .int⟩⟩⟩,
      9, [.selectKw, .starKw, .fromKw, .quotedIdentifier [34, 116, 34],
        .whereKw, .quotedIdentifier [34, 97, 34], .equalKw, .intLiteral [53]],
      by decide +kernel⟩,
    ⟨.delete ⟨some [34, 116, 34], some ⟨[34, 97, 34], ⟨[53], .int⟩⟩⟩, 9,
      [.deleteKw, .quotedIdentifier [34, 116, 34], .whereKw,
        .quotedIdentifier [34, 97, 34], .equalKw, .intLiteral [53]],
      by decide +kernel⟩,
    ⟨.createTable ⟨some [34, 117, 34], [⟨[34, 98, 34], .string, false⟩]⟩, 9,
      [.createTableKw, .quotedIdentifier [34, 117, 34], .openParen,
        .quotedIdentifier [34, 98, 34],
        .identifier [83, 84, 82, 73, 78, 71], .closeParen],
      by decide +kernel⟩,
    ⟨.insert ⟨some [34, 117, 34], [[34, 98, 34]], [⟨[39, 120, 39], .string⟩]⟩,
      9, [.insertKw, .quotedIdentifier [34, 117, 34], .openParen,
        .quotedIdentifier [34, 98, 34], .closeParen, .valuesKw, .openParen,
        .stringLiteral [39, 120, 39], .closeParen], by decide +kernel⟩]

theorem firstStatements_fit :
    AllMeet (SqlState.step newFileDb) (StatementFits newFileDb [2]) newFile
      firstStatements := by
  decide +kernel

end BtreeDb
