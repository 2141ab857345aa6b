import BtreeDb.Index.SchemaSearch
import BtreeDb.Sql.Statements

/-!
# Sequences

`sqldb_seq_tbl.c`: an index tree of rows with a name and a number, which the
table ids and the row ids are taken from.  A number is read, written again in
its place, or inserted with a new name.
-/

namespace BtreeDb

open Bytes

/-! ## Updates in an index -/

/-- `btree_op_update_acquire_index`; the key goes to the search. -/
def btreeOpUpdateAcquireIndex (tree : BTree) : OpUpdate where
  lastStatus := none
  notFound := false
  dataSize := 0
  cursor := cursorCreate tree
  step := .init
  smKeyBuf := 0

/-- `btree_op_update_prepare` up to its common exit, with the search of the
operation's key. -/
def opUpdatePrepareExBody (tree : BTree)
    (searchKeys : BTreeNode → BtM (Bool × Nat)) (op : OpUpdate) :
    BtM OpUpdate := do
  let (found, cursor) ← cursorTraverseToEx tree searchKeys op.cursor
  if !found then
    pure { op with
      cursor := cursor
      notFound := true
      lastStatus := some .errKeyNotFound }
  else
    let node ← nodercReinitRead cursor.currentPageId
    pure { op with
      cursor := cursor
      dataSize := btreeNodePayloadSizeAt node cursor.currentKeyIndex.index
      lastStatus := none }

def btreeOpUpdatePrepareEx (tree : BTree)
    (searchKeys : BTreeNode → BtM (Bool × Nat)) (op : OpUpdate) :
    BtM OpUpdate := do
  match ← BtM.attempt (opUpdatePrepareExBody tree searchKeys op) with
  | .ok later => pure { later with step := .prepared }
  | .error code =>
      pure { op with step := .prepared, lastStatus := some code }

/-- A table is searched by its keys. -/
theorem btreeOpUpdatePrepare_eq (tree : BTree) (op : OpUpdate) :
    btreeOpUpdatePrepare tree op = btreeOpUpdatePrepareEx tree
      (fun node => pure (btreeNodeSearchKeys node op.smKeyBuf)) op := rfl

/-- `btree_op_update_preview` up to its common exit. -/
def opUpdatePreviewBody (op : OpUpdate) (bufferSize : Nat) :
    BtM (List UInt8) := do
  let node ← nodercReinitRead op.cursor.currentPageId
  btreeNodeReadAt node op.cursor.currentKeyIndex.index bufferSize

/-- `btree_op_update_preview`, with the bytes that it reads. -/
def btreeOpUpdatePreview (op : OpUpdate) (bufferSize : Nat) :
    BtM (OpUpdate × List UInt8) :=
  if op.notFound then pure (op, [])
  else do
    match ← BtM.attempt (opUpdatePreviewBody op bufferSize) with
    | .ok bytes => pure ({ op with lastStatus := none }, bytes)
    | .error code => pure ({ op with lastStatus := some code }, [])

/-! ## The table of the sequences -/

/-- `sequence_name` -/
def sequenceNameColumn : SqlString :=
  [115, 101, 113, 117, 101, 110, 99, 101, 95, 110, 97, 109, 101]

/-- `value` -/
def sequenceValueColumn : SqlString := [118, 97, 108, 117, 101]

/-- `seq_tbl`. -/
def seqTbl : SqlTable where
  columns := [⟨sequenceNameColumn, .string, true⟩,
    ⟨sequenceValueColumn, .int, false⟩]
  tableName := [115, 101, 113]
  tableMeta := ⟨0, 0⟩

/-- `tb_seq_ctx`: one column, as `seq_tbl_layout` says. -/
def tbSeqCtx : IBTLSCompareContext :=
  ibtlsInitCompareContextFromSchema varsizeSchema .key

/-- What the sequences need of their file: `memcmp`, the tree, and what a
caller of a split finds in its result if the split has not set it. -/
structure SqldbSeqs where
  memcmp : Memcmp
  tree : BTree
  uninitialized : SplitPageAsParent

namespace SqldbSeqs

variable (seqs : SqldbSeqs)

/-- The number of a row. -/
def numOf : SqlValue → SqlM Int
  | .int num => .ok num
  | _ => .error .outOfRange

/-- `read_and_update_sequence`: the number that it leaves. -/
def readAndUpdateSequence (name : SqlString) (setVal : BitVec 32) :
    SqlBt (BitVec 32) := do
  let tableKey ← SqlBt.ofSql (sqlValueSerializeString name)
  let update ← SqlBt.ofBtM (btreeOpUpdatePrepareEx seqs.tree
    (ibtlsSearchKeys seqs.memcmp tbSeqCtx tableKey)
    (btreeOpUpdateAcquireIndex seqs.tree))
  SqlBt.ofStatus update.lastStatus
  let (update, buf) ←
    SqlBt.ofBtM (btreeOpUpdatePreview update update.dataSize)
  SqlBt.ofStatus update.lastStatus
  let (record, _) ← SqlBt.ofSql (sqlIbtreeDeserializeRecord seqTbl buf)
  let num ← SqlBt.ofSql (numOf (record.valueAt 1))
  let num := if setVal = 0 then num + 1 else setVal.toInt
  let payload ← SqlBt.ofSql (serializedPayload seqTbl
    { record with values := record.values.set 1 (.int num) })
  let update ← SqlBt.ofBtM (btreeOpUpdateCommit seqs.tree update payload)
  SqlBt.ofStatus update.lastStatus
  pure (BitVec.ofInt 32 num)

/-- A row that cannot be written is inserted without a byte. -/
def orNoBytes : SqlM (List UInt8) → SqlM (List UInt8)
  | .error (.error _) => .ok []
  | written => written

/-- `ibtree_insert_ex` with the context of the sequences. -/
def insertRow (payload : List UInt8) : BtM Unit := do
  let (_, cursor) ← cursorTraverseToEx seqs.tree
    (ibtlsSearchKeys seqs.memcmp tbSeqCtx payload) (cursorCreate seqs.tree)
  ibtaInsertAt seqs.tree seqs.uninitialized cursor (ibtaInsertAtInit payload)

/-- `create_sequence`. -/
def createSequence (name : SqlString) (first : BitVec 32) : SqlBt Unit := do
  let value ← SqlBt.ofSql (sqlValueAcquireEval ⟨name, .string⟩)
  let payload ← SqlBt.ofSql (orNoBytes (serializedPayload seqTbl
    { columns := [sequenceNameColumn, sequenceValueColumn]
      values := [value, .int first.toInt] }))
  SqlBt.ofAttempt (seqs.insertRow payload)

/-- A call that goes on where the row is missing. -/
def ifMissing (call : SqlBt (BitVec 32)) (creates : SqlBt (BitVec 32)) :
    SqlBt (BitVec 32) :=
  tryCatch call fun
    | .error .notFound => creates
    | stopped => throw stopped

/-- `sqldb_seq_tbl_next`. -/
def seqTblNext (name : SqlString) : SqlBt (BitVec 32) :=
  ifMissing (seqs.readAndUpdateSequence name 0) do
    seqs.createSequence name 1
    pure 1

/-- `sqldb_seq_tbl_set` with the number of a value; the caller keeps the
number. -/
def seqTblSet (name : SqlString) (value : SqlValue) : SqlBt (BitVec 32) := do
  let seq := BitVec.ofInt 32 (← SqlBt.ofSql (numOf value))
  let _ ← ifMissing (seqs.readAndUpdateSequence name seq) do
    seqs.createSequence name seq
    pure seq
  pure seq

/-- The sequences of the file for its tables. -/
def toSequences : SqldbSequences where
  next := seqs.seqTblNext
  set := seqs.seqTblSet

end SqldbSeqs

end BtreeDb
