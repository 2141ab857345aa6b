import BtreeDb.Sql.Interpret
import BtreeDb.Table.DeleteScan
import BtreeDb.Table.UpsertRun

/-!
# Statements

`sqldb_interpret.c` over the trees of a file: a catalogue of the tables, the
sequences, and a tree for each table.  A statement looks its table up in the
catalogue, opens the tree of the table, and works on it with one of the
operations of the trees.
-/

namespace BtreeDb

/-! ## Calls -/

/-- A call of the SQL layer on a file. -/
abbrev SqlBt (α : Type) : Type := ExceptT SqlStop BtM α

/-- `sqlbt_err`, for a code other than `BTREE_OK`. -/
def sqlbtErr : BTreeE → SqlErr
  | .errIterDone => .scanDone
  | .errKeyNotFound => .notFound
  | _ => .unknown

namespace SqlBt

variable {α β : Type}

def ofSql (value : SqlM α) : SqlBt α := (pure value : BtM (SqlM α))

def ofBtM (call : BtM α) : SqlBt α :=
  (do pure (.ok (← call)) : BtM (SqlM α))

/-- The status that an operation ends with. -/
def ofStatus : Option BTreeE → SqlBt Unit
  | none => pure ()
  | some code => throw (.error (sqlbtErr code))

/-- A call of a tree whose result goes through `sqlbt_err`. -/
def ofAttempt (call : BtM Unit) : SqlBt Unit := do
  match ← ofBtM (BtM.attempt call) with
  | .ok () => pure ()
  | .error code => throw (.error (sqlbtErr code))

variable {call : SqlBt α} {next : α → SqlBt β} {disk after : Disk}
variable {value : α} {reason : SqlStop}

theorem bind_ok (first : call disk = (.ok (.ok value), after)) :
    (call >>= next) disk = next value after :=
  BtM.bind_ok first

theorem bind_error (first : call disk = (.ok (.error reason), after)) :
    (call >>= next) disk = (.ok (.error reason), after) :=
  BtM.bind_ok first

theorem ofSql_apply (result : SqlM α) (disk : Disk) :
    ofSql result disk = (.ok result, disk) := rfl

theorem ofBtM_ok {tree : BtM α} (first : tree disk = (.ok value, after)) :
    ofBtM tree disk = (.ok (.ok value), after) :=
  BtM.bind_ok first

theorem ofAttempt_ok {tree : BtM Unit} (first : tree disk = (.ok (), after)) :
    ofAttempt tree disk = (.ok (.ok ()), after) := by
  unfold ofAttempt
  rw [bind_ok (ofBtM_ok (BtM.attempt_ok first))]
  rfl

end SqlBt

/-! ## The database -/

/-- The calls of the sequences, each with a number of an `int`: the next one, or
the one that a value is taken for. -/
structure SqldbSequences where
  next : SqlString → SqlBt (BitVec 32)
  set : SqlString → SqlValue → SqlBt (BitVec 32)

/-- `struct SQLDB`. -/
structure SqlDb where
  tbTables : BTree
  sequences : SqldbSequences

/-- What a call answers on a disk, if it returns. -/
def SqlBt.answer (call : SqlBt (BitVec 32)) (disk : Disk) : SqlM (BitVec 32) :=
  match (call disk).1 with
  | .ok answer => answer
  | .error _ => .error .assertion

/-- What the sequence of a table answers on a disk. -/
def SqldbSequences.answers (sequences : SqldbSequences) (name : SqlString)
    (disk : Disk) : SqldbSeqTbl where
  next := (sequences.next name).answer disk
  set := fun value => (sequences.set name value).answer disk

/-! ## The catalogue -/

/-- How the loop of `sqldb_table_tbl_find` ends before the catalogue does. -/
inductive FindEnd where
  | found (table : SqlTable)
  | stopped (reason : SqlStop)
  deriving DecidableEq, Repr

/-- The buffer of a scan: it is cleared before a payload is read into it. -/
def scanBuffer (payload : List UInt8) (size : Nat) : List UInt8 :=
  payload ++ List.replicate (size - payload.length) 0

/-- The body of the loop of `sqldb_table_tbl_find`; a name that is `NULL` is
read. -/
def findVisit (name : Option SqlString) (payload : List UInt8) (size : Nat) :
    Except FindEnd (Unit × RowStep) :=
  match sqldbTableTblDeserializeTableDef (scanBuffer payload size) with
  | .error reason => .error (.stopped reason)
  | .ok (table, _) =>
      match name with
      | none => .error (.stopped .outOfRange)
      | some name =>
          if table.tableName = name then .error (.found table)
          else .ok ((), .keep)

/-- What `sqldb_table_tbl_find` returns: every error code becomes
`SQL_ERR_NOT_FOUND`. -/
def findResult : Except FindEnd Unit → SqlM SqlTable
  | .error (.found table) => .ok table
  | .error (.stopped (.error _)) => .error (.error .notFound)
  | .error (.stopped reason) => .error reason
  | .ok () => .error (.error .notFound)

/-- `sqldb_table_tbl_find`. -/
def sqldbTableTblFind (db : SqlDb) (name : Option SqlString) (turns : Nat) :
    SqlBt SqlTable :=
  (do
    let (_, ended) ← btreeVisit db.tbTables
      (fun code => .stopped (.error (sqlbtErr code))) (findVisit name) turns
    pure (findResult ended) : BtM (SqlM SqlTable))

/-- The name of the sequence for table ids: `tables`. -/
def tablesName : SqlString := [116, 97, 98, 108, 101, 115]

/-- The buffer of `sqldb_create_table`, cleared and with the definition in
front. -/
def tableDefBuffer (table : SqlTable) : SqlM (List UInt8) := do
  let bytes ← sqldbTableTblSerializeTableDef table
  let serSize := sqldbTableTblSerializeTableDefSize table
  if bytes.length ≤ serSize then pure (scanBuffer bytes serSize)
  else .error .outOfRange

/-- `sqldb_create_table`. -/
def sqldbCreateTable (db : SqlDb) (table : SqlTable) : SqlBt Unit := do
  let disk ← SqlBt.ofBtM BtM.getDisk
  let pageId := pagerNextUnused disk
  let seq ← db.sequences.next tablesName
  let buffer ← SqlBt.ofSql (tableDefBuffer
    { table with tableMeta := ⟨BitVec.ofNat 32 pageId, seq⟩ })
  SqlBt.ofAttempt (btreeInsert db.tbTables seq.toNat buffer)

/-- `create_table`. -/
def createTable (db : SqlDb) (parsed : SqlParsedCreateTable) : SqlBt Unit := do
  let table ← SqlBt.ofSql (sqlParsegenTableFromCreateTable parsed)
  sqldbCreateTable db table

/-! ## Rows -/

/-- `sqldb_table_btree_acquire`. -/
def sqldbTableBtreeAcquire (table : SqlTable) : SqlBt BTree :=
  if table.tableMeta.rootPage = 0 then throw .assertion
  else do
    match ← SqlBt.ofBtM
        (BtM.attempt (btreeInit table.tableMeta.rootPage.toNat)) with
    | .ok () => pure ⟨table.tableMeta.rootPage.toNat, .table, 0⟩
    | .error _ => throw (.error .unknown)

/-- `sqldb_table_prepare_record` with the sequences of the file. -/
def sqldbTablePrepareRecordOn (sequences : SqldbSequences) (table : SqlTable)
    (record : SqlRecord) : SqlBt (SqlRecord × BitVec 32) := do
  SqlBt.ofSql (verifyRecord table record)
  match sqlTableFindPrimaryKey table with
  | none => throw .assertion
  | some pkeyInd =>
      let pkeyName := (table.column pkeyInd).name
      match sqlRecordSchemaIndexof record.columns pkeyName with
      | none => do
          let seq ← sequences.next table.tableName
          pure ({ columns := record.columns ++ [pkeyName]
                  values := record.values ++ [.int seq.toInt] }, seq)
      | some schemaPkeyInd => do
          let seq ← sequences.set table.tableName
            (record.valueAt schemaPkeyInd)
          pure (record, seq)

/-- The bytes behind `buf`: as many as were written, or the call reads or
writes past them. -/
def SqlSerializedRecord.payload (serialized : SqlSerializedRecord) :
    SqlM (List UInt8) :=
  if serialized.size = serialized.buf.length then .ok serialized.buf
  else .error .outOfRange

/-- The bytes of `sql_ibtree_serialize_record_acquire`. -/
def serializedPayload (table : SqlTable) (record : SqlRecord) :
    SqlM (List UInt8) := do
  let serialized ← sqlIbtreeSerializeRecordAcquire table record
  serialized.payload

/-- `insert` from the open tree on: a row whose id is there is not stored, and
the statement still returns `SQL_OK`. -/
def insertInto (table : SqlTable) (record : SqlRecord) (rowId : BitVec 32)
    (tree : BTree) : SqlBt Unit := do
  let upsert ← SqlBt.ofBtM (btreeOpUpdatePrepare tree
    (btreeOpUpdateAcquireTbl tree rowId.toNat))
  if upsert.lastStatus.map sqlbtErr ≠ some .notFound then
    SqlBt.ofStatus upsert.lastStatus
  else do
    let payload ← SqlBt.ofSql (serializedPayload table record)
    let upsert ← SqlBt.ofBtM (btreeOpUpdateCommit tree upsert payload)
    SqlBt.ofStatus upsert.lastStatus

/-- `insert`. -/
def insert (db : SqlDb) (parsed : SqlParsedInsert) (turns : Nat) :
    SqlBt Unit := do
  let table ← sqldbTableTblFind db parsed.tableName turns
  let record ← SqlBt.ofSql (sqlParsegenRecordFromInsert parsed)
  let (record, rowId) ← sqldbTablePrepareRecordOn db.sequences table record
  let tree ← sqldbTableBtreeAcquire table
  insertInto table record rowId tree

/-- The condition of a statement. -/
def SqlParse.whereClause : SqlParse → Option SqlParsedWhereClause
  | .select parsed => parsed.whereClause
  | .update parsed => parsed.whereClause
  | .delete parsed => parsed.whereClause
  | _ => none

/-- What the tree of the table is told of a row. -/
def RowChange.step : RowChange → SqlM RowStep
  | .none => .ok .keep
  | .print => .ok .keep
  | .delete => .ok .delete
  | .write serialized => do pure (.write (← serialized.payload))

/-- One turn of the loop of `select_s`, `delete_s` or `update`: the row if it is
printed, and what is done with it. -/
def visitRow (table : SqlTable) (parse : SqlParse) (payload : List UInt8)
    (size : Nat) : Except SqlStop (Option SqlRecord × RowStep) := do
  let (record, _) ← sqlIbtreeDeserializeRecord table (scanBuffer payload size)
  let isMatch ← matchWhere record parse.whereClause
  let change ← evaluateRow table parse record
  let step ← change.step
  pure (if isMatch then some record else none, step)

/-- The loop of `select_s`, `delete_s` or `update` over `sqldb_scan.c`: the rows
that are printed, and the result.  A name that is `NULL` is read. -/
def scanStatement (db : SqlDb) (name : Option SqlString) (parse : SqlParse)
    (turns : Nat) : BtM (List SqlRecord × SqlM Unit) :=
  match name with
  | none => pure ([], .error .outOfRange)
  | some _ => do
      match ← sqldbTableTblFind db name turns with
      | .error reason => pure ([], .error reason)
      | .ok table => do
          match ← sqldbTableBtreeAcquire table with
          | .error reason => pure ([], .error reason)
          | .ok tree => do
              let (rows, ended) ← btreeVisit tree
                (fun code => .error (sqlbtErr code)) (visitRow table parse)
                turns
              pure (rows.filterMap id, ended)

/-- `sqldb_interpret`, with the rows that it prints. -/
def sqldbInterpret (db : SqlDb) (parse : SqlParse) (turns : Nat) :
    BtM (List SqlRecord × SqlM Unit) :=
  match parse with
  | .invalid => pure ([], .ok ())
  | .createTable parsed => do pure ([], ← createTable db parsed)
  | .insert parsed => do pure ([], ← insert db parsed turns)
  | .select parsed => scanStatement db parsed.tableName parse turns
  | .update parsed => scanStatement db parsed.tableName parse turns
  | .delete parsed => scanStatement db parsed.tableName parse turns

end BtreeDb
