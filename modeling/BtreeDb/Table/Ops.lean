import BtreeDb.Node.Delete
import BtreeDb.Node.Reader
import BtreeDb.Tree.Iterate

/-!
# Operations on records

`btree_op_update.c` for tables, and `btree_op_scan.c`: an operation is
prepared by moving its cursor to a record, which is then read, rewritten or
deleted there.  `last_status` is `none` for `BTREE_OK`.
-/

namespace BtreeDb

/-! ## Updates -/

inductive OpUpdateStep where
  | uninit
  | init
  | prepared
  | done
  deriving DecidableEq, Repr

structure OpUpdate where
  lastStatus : Option BTreeE
  notFound : Bool
  dataSize : Nat
  cursor : Cursor
  step : OpUpdateStep
  smKeyBuf : Nat
  deriving DecidableEq, Repr

/-- The status that a call returns. -/
def statusOf {α : Type} : Except BTreeE α → Option BTreeE
  | .ok _ => none
  | .error code => some code

/-- `btree_op_update_acquire_tbl`. -/
def btreeOpUpdateAcquireTbl (tree : BTree) (key : Nat) : OpUpdate where
  lastStatus := none
  notFound := false
  dataSize := 0
  cursor := cursorCreate tree
  step := .init
  smKeyBuf := key

/-- `btree_op_update_prepare` up to its common exit, which gives the operation
and its status. -/
def opUpdatePrepareBody (tree : BTree) (op : OpUpdate) : BtM OpUpdate := do
  let (found, cursor) ← cursorTraverseTo tree op.cursor op.smKeyBuf
  if !found then
    pure { op with
      cursor := cursor
      notFound := true
      lastStatus := some .errKeyNotFound }
  else
    let node ← nodercReinitRead cursor.currentPageId
    pure { op with
      cursor := cursor
      dataSize := btreeNodePayloadSizeAt node cursor.currentKeyIndex.index
      lastStatus := none }

/-- `btree_op_update_prepare`.  An error other than a missing key leaves the
cursor to nobody. -/
def btreeOpUpdatePrepare (tree : BTree) (op : OpUpdate) : BtM OpUpdate := do
  match ← BtM.attempt (opUpdatePrepareBody tree op) with
  | .ok later => pure { later with step := .prepared }
  | .error code =>
      pure { op with step := .prepared, lastStatus := some code }

/-- Delete the record at an index and write one with the key that is read
there afterwards. -/
def rewriteRecord (tree : BTree) (node : BTreeNode) (index : ChildListIndex)
    (payload : List UInt8) : BtM BTreeNode := do
  let node ← btreeNodeDelete tree node index
  btreeNodeWriteAt node ⟨.limIndex, index.index⟩ (node.keyAt index.index).key
    payload

/-- `btree_op_update_commit` up to its common exit. -/
def opUpdateCommitBody (tree : BTree) (op : OpUpdate)
    (payload : List UInt8) : BtM BTreeNode := do
  let node ← nodercReinitRead op.cursor.currentPageId
  let index := op.cursor.currentKeyIndex
  if op.notFound then
    btreeNodeWriteAt node ⟨.limIndex, index.index⟩ op.smKeyBuf payload
  else
    rewriteRecord tree node index payload

/-- `btree_op_update_commit`. -/
def btreeOpUpdateCommit (tree : BTree) (op : OpUpdate)
    (payload : List UInt8) : BtM OpUpdate := do
  BtM.assert (op.step == .prepared)
  let result ← BtM.attempt (opUpdateCommitBody tree op payload)
  pure { op with step := .done, lastStatus := statusOf result }

/-- One use of the operation on a table. -/
def btreeOpUpdate (tree : BTree) (key : Nat) (payload : List UInt8) :
    BtM OpUpdate := do
  let op ← btreeOpUpdatePrepare tree (btreeOpUpdateAcquireTbl tree key)
  btreeOpUpdateCommit tree op payload

/-! ## Scans -/

inductive OpScanStep where
  | uninit
  | init
  | iterating
  | done
  deriving DecidableEq, Repr

structure OpScan where
  lastStatus : Option BTreeE
  dataSize : Nat
  cursor : Cursor
  step : OpScanStep
  deriving DecidableEq, Repr

/-- `btree_op_scan_acquire`. -/
def btreeOpScanAcquire (tree : BTree) : OpScan where
  lastStatus := none
  dataSize := 0
  cursor := cursorCreate tree
  step := .init

/-- `btree_op_scan_prepare` up to its common exit: the size of the first
payload. -/
def opScanPrepareBody (tree : BTree) : CursorM Nat := do
  cursorIterBegin tree
  let cursor ← CursorM.getCursor
  let node ← CursorM.lift (nodercReinitRead cursor.currentPageId)
  if node.numKeys = cursor.currentKeyIndex.index then
    CursorM.fail .errIterDone
  else
    pure (btreeNodePayloadSizeAt node cursor.currentKeyIndex.index)

/-- `btree_op_scan_prepare`. -/
def btreeOpScanPrepare (tree : BTree) (op : OpScan) : BtM OpScan := do
  BtM.assert (op.step == .init)
  match ← opScanPrepareBody tree op.cursor with
  | (.ok size, cursor) =>
      pure ⟨none, size, cursor, .iterating⟩
  | (.error .errIterDone, cursor) =>
      pure ⟨none, 0, cursor, .done⟩
  | (.error code, cursor) =>
      pure { op with lastStatus := some code, cursor := cursor }

/-- `btree_op_scan_current`: what is written to a buffer of the given size. -/
def btreeOpScanCurrent (op : OpScan) (bufferSize : Nat) :
    BtM (List UInt8 × OpScan) := do
  if op.step = .iterating then
    let result ← BtM.attempt (currentBody op bufferSize)
    pure (match result with
      | .ok written => (written, { op with lastStatus := none })
      | .error code => ([], { op with lastStatus := some code }))
  else
    pure ([], { op with lastStatus := none })
where
  currentBody (op : OpScan) (bufferSize : Nat) : BtM (List UInt8) := do
    let node ← nodercReinitRead op.cursor.currentPageId
    btreeNodeReadAt node op.cursor.currentKeyIndex.index bufferSize

/-- `btree_op_scan_next` up to its common exit: the size of the payload it
comes to. -/
def opScanNextBody (tree : BTree) : CursorM Nat := do
  cursorIterNext tree
  let cursor ← CursorM.getCursor
  let node ← CursorM.lift (nodercReinitRead cursor.currentPageId)
  pure (btreeNodePayloadSizeAt node cursor.currentKeyIndex.index)

/-- `btree_op_scan_next`. -/
def btreeOpScanNext (tree : BTree) (op : OpScan) : BtM OpScan := do
  if op.step = .iterating then
    match ← opScanNextBody tree op.cursor with
    | (.ok size, cursor) =>
        pure { op with lastStatus := none, dataSize := size, cursor := cursor }
    | (.error .errIterDone, cursor) =>
        pure { op with lastStatus := none, cursor := cursor, step := .done }
    | (.error code, cursor) =>
        pure { op with lastStatus := some code, cursor := cursor }
  else
    pure { op with lastStatus := none }

/-- `btree_op_scan_update`. -/
def btreeOpScanUpdate (tree : BTree) (op : OpScan) (payload : List UInt8) :
    BtM OpScan := do
  let result ← BtM.attempt (updateBody tree op payload)
  pure { op with lastStatus := statusOf result }
where
  updateBody (tree : BTree) (op : OpScan) (payload : List UInt8) :
      BtM BTreeNode := do
    let node ← nodercReinitRead op.cursor.currentPageId
    rewriteRecord tree node op.cursor.currentKeyIndex payload

/-- `btree_op_scan_delete`. -/
def btreeOpScanDelete (tree : BTree) (op : OpScan) : BtM OpScan := do
  let result ← BtM.attempt (deleteBody tree op)
  pure { op with lastStatus := statusOf result }
where
  deleteBody (tree : BTree) (op : OpScan) : BtM BTreeNode := do
    let node ← nodercReinitRead op.cursor.currentPageId
    btreeNodeDelete tree node op.cursor.currentKeyIndex

/-- `btree_op_scan_done`. -/
def btreeOpScanDone (op : OpScan) : Bool := op.step == .done

end BtreeDb
