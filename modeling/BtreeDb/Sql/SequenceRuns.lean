import BtreeDb.Index.SearchContext
import BtreeDb.Lib.KeyedRows
import BtreeDb.Lib.Runs
import BtreeDb.Sql.Sequences
import BtreeDb.Sql.StoredRows
import BtreeDb.Table.Rewrite

/-!
# Runs of the sequences

Calls of the sequences in any order, while their rows fit in the root of their
tree.  What the sequences are for is a number for each name; each call answers
with the number of its name and changes no other one.
-/

namespace BtreeDb

open BinarySearch Bytes ByteStream KeyedRows ListEdit Runs

/-! ## Rows -/

structure SequenceRow where
  name : SqlString
  value : BitVec 32
  deriving DecidableEq, Repr

/-- The row as it is written: the name is the primary key. -/
def SequenceRow.bytes (row : SequenceRow) : List UInt8 :=
  stringBytes row.name ++ le32 row.value.toNat

/-- The record of the row, with its number as it is read. -/
def SequenceRow.record (row : SequenceRow) : SqlRecord where
  columns := [sequenceNameColumn, sequenceValueColumn]
  values := [.string row.name, .int row.value.toNat]

/-- The name and its length fit in an `int`, with the number behind them. -/
def NameFits (name : SqlString) : Prop := name.length + 8 < 2 ^ 31

instance (name : SqlString) : Decidable (NameFits name) :=
  inferInstanceAs (Decidable (_ < _))

section Rows

variable {row : SequenceRow} {name : SqlString}

theorem SequenceRow.bytes_length :
    row.bytes.length = row.name.length + 8 := by
  unfold SequenceRow.bytes stringBytes
  rw [List.length_append, List.length_append, le32_length, le32_length]
  omega

theorem seqTbl_primaryKey : sqlTableFindPrimaryKey seqTbl = some 0 := rfl

theorem seqTbl_rowColumns : rowColumns seqTbl 0 =
    [⟨sequenceNameColumn, .string, true⟩,
      ⟨sequenceValueColumn, .int, false⟩] := rfl

/-- Writing a name with a number. -/
theorem serializedPayload_seqTbl (fits : NameFits name) (num : Int) :
    serializedPayload seqTbl
        { columns := [sequenceNameColumn, sequenceValueColumn]
          values := [.string name, .int num] } =
      .ok (stringBytes name ++ le32 (num % 2 ^ 32).toNat) := by
  have small : 4 + name.length < 2 ^ 31 := by
    unfold NameFits at fits
    omega
  have written : sqlIbtreeSerializeRecordAcquire seqTbl
      { columns := [sequenceNameColumn, sequenceValueColumn]
        values := [.string name, .int num] } =
        .ok ⟨stringBytes name ++ le32 (num % 2 ^ 32).toNat,
          name.length + 8⟩ := by
    have sized : sqlValueArraySerSize [.string name, .int num] =
        .ok (name.length + 8) := by
      change Except.ok (((0 + (4 + name.length)) % 2 ^ 32 + 4) % 2 ^ 32) = _
      congr 1
      omega
    have nameBytes : serializeRecordColumn
        { columns := [sequenceNameColumn, sequenceValueColumn]
          values := [.string name, .int num] }
        ⟨sequenceNameColumn, .string, true⟩ = .ok (stringBytes name) := by
      change sqlStringSer name = _
      unfold sqlStringSer
      rw [if_pos small]
      rfl
    have numBytes : serializeRecordColumn
        { columns := [sequenceNameColumn, sequenceValueColumn]
          values := [.string name, .int num] }
        ⟨sequenceValueColumn, .int, false⟩ =
          .ok (le32 (num % 2 ^ 32).toNat) := rfl
    unfold sqlIbtreeSerializeRecordAcquire
    rw [seqTbl_primaryKey]
    dsimp only
    rw [if_neg (by decide), if_neg (by decide), sized, seqTbl_rowColumns]
    simp only [List.mapM_cons, List.mapM_nil, nameBytes, numBytes]
    change Except.ok (SqlSerializedRecord.mk
      (stringBytes name ++ (le32 (num % 2 ^ 32).toNat ++ [])) _) = _
    rw [List.append_nil]
  unfold serializedPayload
  rw [written]
  change (if _ then _ else _) = _
  rw [if_pos]
  unfold stringBytes
  rw [List.length_append, List.length_append, le32_length, le32_length]
  change name.length + 8 = _
  omega

theorem sqlIbtreeDeserializeRecord_seqTbl (fits : NameFits row.name) :
    Decodes (sqlIbtreeDeserializeRecord seqTbl) row.bytes row.record := by
  have small : 4 + row.name.length < 2 ^ 31 := by
    unfold NameFits at fits
    omega
  have name : Decodes (sqlValueDeserializeAs .string) (stringBytes row.name)
      (.string row.name) := (sqlStringDeser_decodes small).map
  have value : Decodes (sqlValueDeserializeAs .int) (le32 row.value.toNat)
      (.int row.value.toNat) := (Decodes.word32 row.value.isLt).map
  have last : Decodes (readEach (fun column : SqlTableColumn =>
      sqlValueDeserializeAs (convertToValueType column.type))
        [⟨sequenceValueColumn, .int, false⟩])
      (le32 row.value.toNat ++ []) [.int row.value.toNat] :=
    value.bind (Decodes.pure []).map
  rw [List.append_nil] at last
  have both : Decodes (readEach (fun column : SqlTableColumn =>
      sqlValueDeserializeAs (convertToValueType column.type))
        (rowColumns seqTbl 0)) row.bytes
      [.string row.name, .int row.value.toNat] :=
    name.bind last.map
  unfold sqlIbtreeDeserializeRecord
  rw [seqTbl_primaryKey]
  exact both.map

end Rows

/-! ## The leaf of the rows -/

/-- The cell of a row. -/
inductive HoldsSequence (row : SequenceRow) : Entry → Prop where
  | inline {key : Nat} (fits : NameFits row.name) :
      HoldsSequence row ⟨key, cellTypeCode .cellTypeInline, row.bytes⟩

abbrev sequenceNames (rows : List SequenceRow) : List SqlString :=
  rows.map SequenceRow.name

/-- Where the row of a name is, or belongs. -/
def sequencePlace (rows : List SequenceRow) (name : SqlString) : Nat :=
  columnPlace (sequenceNames rows) name

/-- No name in the rows is a proper part of the other one. -/
def NamesApart (rows : List SequenceRow) (name : SqlString) : Prop :=
  ∀ row ∈ rows, row.name = name ∨ ¬ row.name <+: name

instance (rows : List SequenceRow) (name : SqlString) :
    Decidable (NamesApart rows name) :=
  inferInstanceAs (Decidable (∀ row ∈ rows, _))

/-- A row of this length is stored in the leaf itself. -/
def StoredInline (leaf : BTreeNode) (length : Nat) : Prop :=
  heapRequiredForInsertion (cellInlineDiskSize length) ≤
    btreeNodeMaxCellSize leaf

instance (leaf : BTreeNode) (length : Nat) :
    Decidable (StoredInline leaf length) :=
  inferInstanceAs (Decidable (_ ≤ _))

structure SequenceLeaf (disk : Disk) (free : List Nat) (leaf : BTreeNode)
    (rows : List SequenceRow) : Prop where
  roomy : Roomy disk
  store : Store disk free
  holds : Holds disk leaf
  isLeaf : leaf.isLeaf = true
  used : leaf.pageNumber ∉ free
  cells : List.Forall₂ HoldsSequence rows leaf.entries
  small : ∀ row ∈ rows, StoredInline leaf row.bytes.length
  increase : (sequenceNames rows).Pairwise fun left right =>
    compare left right = .lt

/-- The cursor of a search. -/
def sequenceCursor (leaf : BTreeNode) (place : Nat) : Cursor where
  currentPageId := leaf.pageNumber
  currentKeyIndex := initKeylistindexFromIndex leaf place
  breadcrumbs := [⟨initKeylistindexFromIndex leaf place, leaf.pageNumber⟩,
    ⟨⟨.limIndex, 0⟩, leaf.pageNumber⟩]

section Leaf

variable {memcmp : Memcmp} {tree : BTree} {disk : Disk} {free : List Nat}
variable {leaf : BTreeNode} {rows : List SequenceRow} {row : SequenceRow}
variable {name : SqlString} {tail : List UInt8} {place : Nat}

theorem HoldsSequence.beginsWith {entry : Entry}
    (holds : HoldsSequence row entry) : BeginsWith row.name entry := by
  cases holds with
  | @inline key fits =>
      have short : (row.name ++ le32 row.value.toNat).length + 4 < 2 ^ 31 := by
        unfold NameFits at fits
        rw [List.length_append, le32_length]
        omega
      have same : row.bytes =
          le32 row.name.length ++ (row.name ++ le32 row.value.toNat) := by
        unfold SequenceRow.bytes stringBytes
        rw [List.append_assoc]
      rw [same]
      exact .inline short

theorem SequenceLeaf.columnNode (held : SequenceLeaf disk free leaf rows)
    (metaBytes : List UInt8) :
    ColumnNode { leaf with metaBytes := metaBytes } (sequenceNames rows) where
  ok := held.holds.ok.withMeta metaBytes
  cells := List.forall₂_map_left_iff.mpr
    (held.cells.imp fun _ _ => HoldsSequence.beginsWith)
  increase := held.increase

theorem names_apart (apart : NamesApart rows name) :
    ∀ other ∈ sequenceNames rows, other = name ∨ ¬ other <+: name := by
  intro other member
  obtain ⟨row, inRows, rfl⟩ := List.mem_map.mp member
  exact apart row inRows

/-- A search in the tree ends in its root. -/
theorem SequenceLeaf.traverse (held : SequenceLeaf disk free leaf rows)
    (number : leaf.pageNumber = tree.rootPageId) (exact : memcmp.Exact)
    (fits : NameFits name) (apart : NamesApart rows name) :
    cursorTraverseToEx tree (ibtlsSearchKeys memcmp tbSeqCtx
        (stringBytes name ++ tail)) (cursorCreate tree) disk =
      (.ok (decide (name ∈ sequenceNames rows),
        sequenceCursor leaf (sequencePlace rows name)), disk) := by
  obtain ⟨metaBytes, readEq, _⟩ := nodercReinitRead_holds held.holds held.store
  have short : name.length < 2 ^ 31 := by
    unfold NameFits at fits
    omega
  have searchEq : ibtlsSearchKeys memcmp tbSeqCtx (stringBytes name ++ tail)
      { leaf with metaBytes := metaBytes } disk =
        (.ok (decide (name ∈ sequenceNames rows), sequencePlace rows name),
          disk) := by
    unfold stringBytes
    rw [List.append_assoc]
    exact @ColumnNode.searchKeys memcmp .key _ _ name tail disk exact
      (held.columnNode metaBytes) short (names_apart apart)
  unfold cursorTraverseToEx cursorTraverseLoop
  have start : (cursorCreate tree).currentPageId = leaf.pageNumber :=
    number.symm
  rw [start, BtM.bind_ok readEq]
  rw [BtM.bind_ok searchEq]
  dsimp only
  have shallow : ¬ (cursorCreate tree).breadcrumbs.length = maxBreadcrumbs := by
    change ¬ 1 = maxBreadcrumbs
    decide
  have index : initKeylistindexFromIndex { leaf with metaBytes := metaBytes }
      (sequencePlace rows name) =
        initKeylistindexFromIndex leaf (sequencePlace rows name) := rfl
  rw [cursorPush, if_neg shallow, BtM.bind_ok (BtM.ofExcept_ok _ disk), index]
  simp only [held.isLeaf, Bool.not_true, Bool.false_and, Bool.false_eq_true,
    if_false, Bool.false_or]
  unfold sequenceCursor cursorCreate
  rw [number]
  rfl

/-- The row of a name that is there. -/
theorem SequenceLeaf.row_of (held : SequenceLeaf disk free leaf rows)
    (present : name ∈ sequenceNames rows) :
    ∃ row, rows[sequencePlace rows name]? = some row ∧ row.name = name := by
  have isThere := (search_column_present held.increase present).2
  unfold sequenceNames at isThere
  rw [List.getElem?_map, Option.map_eq_some_iff] at isThere
  exact isThere

/-- The entry of a row. -/
theorem SequenceLeaf.entry_of (held : SequenceLeaf disk free leaf rows)
    (here : rows[place]? = some row) :
    NameFits row.name ∧ ∃ key, leaf.entries[place]? =
      some ⟨key, cellTypeCode .cellTypeInline, row.bytes⟩ := by
  obtain ⟨inside, rfl⟩ := List.getElem?_eq_some_iff.mp here
  obtain ⟨lengths, each⟩ := List.forall₂_iff_get.mp held.cells
  have insideEntries : place < leaf.entries.length := lengths ▸ inside
  have holds := each place inside insideEntries
  have entryHere := List.getElem?_eq_getElem insideEntries
  simp only [List.get_eq_getElem] at holds
  generalize leaf.entries[place] = entry at holds entryHere
  cases holds with
  | inline fits => exact ⟨fits, _, entryHere⟩

theorem SequenceLeaf.place_lt (held : SequenceLeaf disk free leaf rows)
    (here : rows[place]? = some row) : place < leaf.numKeys := by
  obtain ⟨_, key, entryHere⟩ := held.entry_of here
  have inside := (List.getElem?_eq_some_iff.mp entryHere).1
  rwa [entries_length] at inside

/-- The index of a cursor at a row. -/
theorem sequenceCursor_index (inside : place < leaf.numKeys) :
    (sequenceCursor leaf place).currentKeyIndex = ⟨.limIndex, place⟩ := by
  change initKeylistindexFromIndex leaf place = _
  unfold initKeylistindexFromIndex
  rw [if_pos inside]

/-! ## Reading and writing a row -/

/-- The operation of a search that found nothing. -/
def missedUpdate (tree : BTree) (leaf : BTreeNode) (place : Nat) : OpUpdate :=
  { btreeOpUpdateAcquireIndex tree with
    cursor := sequenceCursor leaf place
    notFound := true
    lastStatus := some .errKeyNotFound
    step := .prepared }

theorem SequenceLeaf.prepare_missing (held : SequenceLeaf disk free leaf rows)
    (number : leaf.pageNumber = tree.rootPageId) (exact : memcmp.Exact)
    (fits : NameFits name) (apart : NamesApart rows name)
    (missing : name ∉ sequenceNames rows) :
    btreeOpUpdatePrepareEx tree (ibtlsSearchKeys memcmp tbSeqCtx
        (stringBytes name)) (btreeOpUpdateAcquireIndex tree) disk =
      (.ok (missedUpdate tree leaf (sequencePlace rows name)), disk) := by
  have traverseEq := @SequenceLeaf.traverse memcmp tree disk free leaf rows name
    [] held number exact fits apart
  rw [List.append_nil, decide_eq_false missing] at traverseEq
  have body : opUpdatePrepareExBody tree (ibtlsSearchKeys memcmp tbSeqCtx
      (stringBytes name)) (btreeOpUpdateAcquireIndex tree) disk =
        (.ok { btreeOpUpdateAcquireIndex tree with
          cursor := sequenceCursor leaf (sequencePlace rows name)
          notFound := true
          lastStatus := some .errKeyNotFound }, disk) := by
    unfold opUpdatePrepareExBody
    rw [BtM.bind_ok (show cursorTraverseToEx tree _
      (btreeOpUpdateAcquireIndex tree).cursor disk = _ from traverseEq)]
    rfl
  unfold btreeOpUpdatePrepareEx
  rw [BtM.bind_ok (BtM.attempt_ok body)]
  rfl

/-- The operation of a search that found a row. -/
def foundUpdate (tree : BTree) (leaf : BTreeNode) (place size : Nat) :
    OpUpdate :=
  { btreeOpUpdateAcquireIndex tree with
    cursor := sequenceCursor leaf place
    dataSize := size
    lastStatus := none
    step := .prepared }

theorem SequenceLeaf.prepare_found (held : SequenceLeaf disk free leaf rows)
    (number : leaf.pageNumber = tree.rootPageId) (exact : memcmp.Exact)
    (fits : NameFits name) (apart : NamesApart rows name)
    (here : rows[sequencePlace rows name]? = some row)
    (named : row.name = name) :
    btreeOpUpdatePrepareEx tree (ibtlsSearchKeys memcmp tbSeqCtx
        (stringBytes name)) (btreeOpUpdateAcquireIndex tree) disk =
      (.ok (foundUpdate tree leaf (sequencePlace rows name) row.bytes.length),
        disk) := by
  have present : name ∈ sequenceNames rows := by
    rw [← named]
    exact List.mem_map_of_mem (List.mem_of_getElem? here)
  have traverseEq := @SequenceLeaf.traverse memcmp tree disk free leaf rows name
    [] held number exact fits apart
  rw [List.append_nil, decide_eq_true present] at traverseEq
  obtain ⟨_, key, entryHere⟩ := held.entry_of here
  obtain ⟨metaBytes, readEq, _⟩ := nodercReinitRead_holds held.holds held.store
  have sizeEq := @btreeNodePayloadSizeAt_resolves disk
    { leaf with metaBytes := metaBytes } (sequencePlace rows name) _ row.bytes []
    (held.holds.ok.withMeta metaBytes) entryHere .inline
  have index := sequenceCursor_index (held.place_lt here)
  have body : opUpdatePrepareExBody tree (ibtlsSearchKeys memcmp tbSeqCtx
      (stringBytes name)) (btreeOpUpdateAcquireIndex tree) disk =
        (.ok { btreeOpUpdateAcquireIndex tree with
          cursor := sequenceCursor leaf (sequencePlace rows name)
          dataSize := row.bytes.length
          lastStatus := none }, disk) := by
    unfold opUpdatePrepareExBody
    rw [BtM.bind_ok (show cursorTraverseToEx tree _
      (btreeOpUpdateAcquireIndex tree).cursor disk = _ from traverseEq)]
    simp only [Bool.not_true, Bool.false_eq_true, if_false]
    rw [BtM.bind_ok (show nodercReinitRead (sequenceCursor leaf
      (sequencePlace rows name)).currentPageId disk = _ from readEq), index,
      sizeEq]
    rfl
  unfold btreeOpUpdatePrepareEx
  rw [BtM.bind_ok (BtM.attempt_ok body)]
  rfl

theorem SequenceLeaf.preview (held : SequenceLeaf disk free leaf rows)
    (here : rows[place]? = some row) :
    btreeOpUpdatePreview (foundUpdate tree leaf place row.bytes.length)
        row.bytes.length disk =
      (.ok (foundUpdate tree leaf place row.bytes.length, row.bytes), disk) := by
  obtain ⟨_, key, entryHere⟩ := held.entry_of here
  obtain ⟨metaBytes, readEq, _⟩ := nodercReinitRead_holds held.holds held.store
  have bytesEq := @btreeNodeReadAt_resolves disk
    { leaf with metaBytes := metaBytes } place row.bytes.length _ row.bytes []
    (held.holds.ok.withMeta metaBytes) entryHere .inline (Nat.le_refl _)
  have index := sequenceCursor_index (held.place_lt here)
  have body : opUpdatePreviewBody (foundUpdate tree leaf place row.bytes.length)
      row.bytes.length disk = (.ok row.bytes, disk) := by
    unfold opUpdatePreviewBody
    rw [BtM.bind_ok (show nodercReinitRead (foundUpdate tree leaf place
      row.bytes.length).cursor.currentPageId disk = _ from readEq)]
    change btreeNodeReadAt _ (sequenceCursor leaf place).currentKeyIndex.index _
      disk = _
    rw [index]
    exact bytesEq
  unfold btreeOpUpdatePreview
  rw [if_neg (show ¬ (foundUpdate tree leaf place
    row.bytes.length).notFound = true from Bool.false_ne_true),
    BtM.bind_ok (BtM.attempt_ok body)]
  rfl

/-- What a call of the sequences leaves: the rows in the same page, and every
other page as it was. -/
structure LeavesRows (disk : Disk) (free : List Nat) (leaf : BTreeNode)
    (after : Disk) (stored : BTreeNode) (rows : List SequenceRow) : Prop where
  leafAt : SequenceLeaf after free stored rows
  number : stored.pageNumber = leaf.pageNumber
  maxPage : after.maxPage = disk.maxPage
  kept : ∀ page, page ≠ leaf.pageNumber →
    after.buffer? page = disk.buffer? page

/-- A row that is stored in a leaf. -/
theorem Stored.leavesRows {after : Disk} {stored : BTreeNode} {entry : Entry}
    {position key : Nat} {data : List UInt8}
    (whole : Stored disk free leaf position key data after free stored entry [])
    (roomy : Roomy disk) (store : Store disk free) (holds : Holds disk leaf)
    (isLeaf : leaf.isLeaf = true) (used : leaf.pageNumber ∉ free)
    (cells : List.Forall₂ HoldsSequence rows
      (leaf.entries.insertIdx position entry))
    (small : ∀ row ∈ rows, StoredInline leaf row.bytes.length)
    (increase : (sequenceNames rows).Pairwise fun left right =>
      compare left right = .lt) :
    LeavesRows disk free leaf after stored rows := by
  have number := whole.reentered.pageNumber_eq
  have pageSize : stored.pageSize = leaf.pageSize := by
    rw [whole.holds.pageSize_eq whole.updates.store, whole.updates.pageSize,
      holds.pageSize_eq store]
  have sameMax := maxCellSize_eq number pageSize
  have bounded := whole.updates.bounded
  have leafAt : SequenceLeaf after free stored rows :=
    { roomy := roomy.congr whole.updates.pageSize
      store := whole.updates.store
      holds := whole.holds
      isLeaf := whole.reentered.isLeaf_eq.trans isLeaf
      used := by
        rw [number]
        exact used
      cells := by
        rw [whole.reentered.entries_eq]
        exact cells
      small := by
        intro row member
        unfold StoredInline
        rw [sameMax]
        exact small row member
      increase := increase }
  refine ⟨leafAt, number, Nat.le_antisymm bounded whole.updates.grows, ?_⟩
  intro page other
  exact whole.updates.kept page (fun member =>
    other (List.mem_singleton.mp member)) List.not_mem_nil

/-- Rows with another number under one of the names. -/
theorem sequenceNames_set (here : rows[place]? = some row)
    (value : BitVec 32) :
    sequenceNames (rows.set place ⟨row.name, value⟩) = sequenceNames rows := by
  obtain ⟨inside, rowEq⟩ := List.getElem?_eq_some_iff.mp here
  have insideNames : place < (sequenceNames rows).length := by
    rw [List.length_map]
    exact inside
  have nameEq : (sequenceNames rows)[place] = row.name := by
    rw [List.getElem_map, rowEq]
  change (rows.set place _).map SequenceRow.name = _
  rw [List.map_set, ← nameEq]
  exact List.set_getElem_self _

/-- A number in place of that of a row. -/
theorem SequenceLeaf.commit (held : SequenceLeaf disk free leaf rows)
    (here : rows[place]? = some row) (safe : GcSafe leaf place)
    (value : BitVec 32) :
    ∃ op after stored, btreeOpUpdateCommit tree
        (foundUpdate tree leaf place row.bytes.length)
        (SequenceRow.bytes ⟨row.name, value⟩) disk = (.ok op, after) ∧
      op.lastStatus = none ∧
      LeavesRows disk free leaf after stored
        (rows.set place ⟨row.name, value⟩) := by
  obtain ⟨nameFits, key, entryHere⟩ := held.entry_of here
  obtain ⟨metaBytes, readEq, metaFresh⟩ :=
    nodercReinitRead_holds held.holds held.store
  have index := sequenceCursor_index (held.place_lt here)
  have apart : (leaf.pageNumber :: ([] ++ free)).Nodup :=
    List.nodup_cons.mpr ⟨held.used, held.store.distinct⟩
  obtain ⟨node, middle, deleteEq, deleted⟩ := @btreeNodeDelete_run tree disk
    free { leaf with metaBytes := metaBytes } place _ row.bytes [] held.roomy
    held.store (held.holds.withMeta metaBytes) metaFresh entryHere .inline apart
    List.not_mem_nil safe
  have deleted : Deleted disk middle free { leaf with metaBytes := metaBytes }
    place ⟨key, cellTypeCode .cellTypeInline, row.bytes⟩ node := deleted
  have number : node.pageNumber = leaf.pageNumber :=
    deleted.reentered.pageNumber_eq
  have entriesEq : node.entries = leaf.entries.eraseIdx place :=
    deleted.reentered.entries_eq
  have inside := (List.getElem?_eq_some_iff.mp entryHere).1
  have sameMax : btreeNodeMaxCellSize node = btreeNodeMaxCellSize leaf :=
    maxCellSize_eq number deleted.pageSize_eq
  have sameLength : (SequenceRow.bytes ⟨row.name, value⟩).length =
      row.bytes.length := by
    rw [SequenceRow.bytes_length, SequenceRow.bytes_length]
  have isInline : StoredInline node
      (SequenceRow.bytes ⟨row.name, value⟩).length := by
    unfold StoredInline
    rw [sameMax, sameLength]
    exact held.small row (List.mem_of_getElem? here)
  have takes : Takes (btreeNodeMaxCellSize node) node.freeHeap
      (SequenceRow.bytes ⟨row.name, value⟩).length := by
    have room : node.freeHeap = leaf.freeHeap + (16 + row.bytes.length) :=
      deleted.freeHeap_eq
    unfold Takes
    rw [if_pos (show heapRequiredForInsertion _ ≤ _ from isInline), sameLength,
      room]
    unfold heapRequiredForInsertion cellInlineDiskSize pageKeySize
    omega
  have notFree : node.pageNumber ∉ free := by
    rw [number]
    exact held.used
  have count : node.numKeys = leaf.entries.length - 1 := by
    change node.keys.length = _
    rw [← entries_length, entriesEq, List.length_eraseIdx_of_lt inside]
  obtain ⟨stored, after, writeEq, whole⟩ := @btreeNodeWriteAt_inline middle free
    node ⟨.limIndex, place⟩ (rereadKey { leaf with metaBytes := metaBytes } place)
    (SequenceRow.bytes ⟨row.name, value⟩) deleted.store deleted.holds
    deleted.metaFresh notFree (show place ≤ node.numKeys by
      have bound : place < leaf.entries.length := inside
      omega)
    (rereadKey_lt (held.holds.withMeta metaBytes) place) takes isInline
  have position : ChildListIndex.number ⟨.limIndex, place⟩ node = place := rfl
  rw [position] at whole
  have cells : List.Forall₂ HoldsSequence (rows.set place ⟨row.name, value⟩)
      (node.entries.insertIdx place ⟨rereadKey
        { leaf with metaBytes := metaBytes } place,
          cellTypeCode .cellTypeInline,
          SequenceRow.bytes ⟨row.name, value⟩⟩) := by
    rw [entriesEq, List.insertIdx_eraseIdx_self (Nat.ne_of_lt inside)]
    refine forall₂_set held.cells (HoldsSequence.inline ?_) place
    exact nameFits
  have later := whole.leavesRows (held.roomy.congr deleted.pageSize)
    deleted.store deleted.holds
    (deleted.reentered.isLeaf_eq.trans held.isLeaf) notFree cells
    (by
      intro other member
      unfold StoredInline
      rw [sameMax]
      rcases List.mem_or_eq_of_mem_set member with old | rfl
      · exact held.small other old
      · rw [sameLength]
        exact held.small row (List.mem_of_getElem? here))
    (by
      rw [sequenceNames_set here]
      exact held.increase)
  have body : opUpdateCommitBody tree
      (foundUpdate tree leaf place row.bytes.length)
      (SequenceRow.bytes ⟨row.name, value⟩) disk = (.ok stored, after) := by
    unfold opUpdateCommitBody
    rw [BtM.bind_ok (show nodercReinitRead (foundUpdate tree leaf place
      row.bytes.length).cursor.currentPageId disk = _ from readEq)]
    change rewriteRecord tree _ (sequenceCursor leaf place).currentKeyIndex _
      disk = _
    rw [index]
    unfold rewriteRecord
    rw [BtM.bind_ok deleteEq, deleted.reread]
    exact writeEq
  have commitEq : btreeOpUpdateCommit tree
      (foundUpdate tree leaf place row.bytes.length)
      (SequenceRow.bytes ⟨row.name, value⟩) disk =
        (.ok { foundUpdate tree leaf place row.bytes.length with
          step := .done, lastStatus := none }, after) := by
    unfold btreeOpUpdateCommit
    rw [BtM.bind_ok (show BtM.assert _ disk = (.ok (), disk) from rfl),
      BtM.bind_ok (BtM.attempt_ok body)]
    rfl
  refine ⟨_, after, stored, commitEq, rfl, later.leafAt,
    later.number.trans number, later.maxPage.trans deleted.maxPage, ?_⟩
  intro page other
  rw [later.kept page (by rw [number]; exact other)]
  exact deleted.kept page other

theorem sequencePlace_le : sequencePlace rows name ≤ rows.length := by
  have bound := lowerBound_le (fun other => compare other name)
    (sequenceNames rows)
  rwa [List.length_map] at bound

/-- The place of a cursor in a leaf. -/
theorem fromCli_number (isLeaf : leaf.isLeaf = true)
    (bound : place ≤ leaf.numKeys) (metaBytes : List UInt8) :
    (fromCli (initKeylistindexFromIndex leaf place)).number
      { leaf with metaBytes := metaBytes } = place := by
  unfold initKeylistindexFromIndex
  rw [isLeaf]
  by_cases inside : place < leaf.numKeys
  · rw [if_pos inside]
    rfl
  · have last : leaf.numKeys = place := Nat.le_antisymm
      (Nat.not_lt.mp inside) bound
    rw [if_neg inside, if_neg (by decide)]
    exact last

/-- A row with a new name. -/
theorem SequenceLeaf.insert {seqs : SqldbSeqs}
    (held : SequenceLeaf disk free leaf rows)
    (number : leaf.pageNumber = seqs.tree.rootPageId)
    (exact : seqs.memcmp.Exact) (fits : NameFits name)
    (apart : NamesApart rows name) (missing : name ∉ sequenceNames rows)
    (value : BitVec 32)
    (isInline : StoredInline leaf (SequenceRow.bytes ⟨name, value⟩).length)
    (room : heapRequiredForInsertion (cellInlineDiskSize
      (SequenceRow.bytes ⟨name, value⟩).length) ≤ leaf.freeHeap) :
    ∃ after stored, seqs.insertRow (SequenceRow.bytes ⟨name, value⟩) disk =
        (.ok (), after) ∧
      LeavesRows disk free leaf after stored
        (rows.insertIdx (sequencePlace rows name) ⟨name, value⟩) := by
  have traverseEq := @SequenceLeaf.traverse seqs.memcmp seqs.tree disk free leaf
    rows name (le32 value.toNat) held number exact fits apart
  obtain ⟨metaBytes, readEq, metaFresh⟩ :=
    nodercReinitRead_holds held.holds held.store
  have rowsLength : rows.length = leaf.numKeys := by
    rw [held.cells.length_eq, entries_length]
  have bound : sequencePlace rows name ≤ leaf.numKeys :=
    rowsLength ▸ sequencePlace_le
  have position := fromCli_number held.isLeaf bound metaBytes
  have takes : Takes (btreeNodeMaxCellSize leaf) leaf.freeHeap
      (SequenceRow.bytes ⟨name, value⟩).length := by
    unfold Takes
    rw [if_pos (show heapRequiredForInsertion _ ≤ _ from isInline)]
    exact room
  obtain ⟨stored, after, writeEq, whole⟩ := @btreeNodeWriteAt_inline disk free
    { leaf with metaBytes := metaBytes }
    (fromCli (initKeylistindexFromIndex leaf (sequencePlace rows name))) 0
    (SequenceRow.bytes ⟨name, value⟩) held.store
    (held.holds.withMeta metaBytes) metaFresh held.used (by
      rw [position]
      exact bound) (by decide) takes isInline
  rw [position] at whole
  have increase := (search_column_absent held.increase missing).2
  have later := whole.leavesRows held.roomy held.store
    (held.holds.withMeta metaBytes) held.isLeaf held.used
    (forall₂_insertIdx held.cells
      (@HoldsSequence.inline ⟨name, value⟩ 0 fits) sequencePlace_le)
    (by
      intro other member
      rcases (mem_insertIdx_iff sequencePlace_le).mp member with rfl | old
      · exact isInline
      · exact held.small other old)
    (by
      rw [insertIdx_eq_append sequencePlace_le]
      unfold sequenceNames
      rw [List.map_append, List.map_cons, List.map_take, List.map_drop]
      exact increase)
  refine ⟨after, stored, ?_, later.leafAt, later.number, later.maxPage,
    later.kept⟩
  unfold SqldbSeqs.insertRow
  rw [BtM.bind_ok (show cursorTraverseToEx seqs.tree (ibtlsSearchKeys
    seqs.memcmp tbSeqCtx (SequenceRow.bytes ⟨name, value⟩)) _ disk = _ from
      traverseEq)]
  dsimp only
  unfold ibtaInsertAt
  rw [BtM.bind_ok (show nodercAcquire disk = (.ok _, disk) from rfl),
    BtM.bind_ok (show nodercAcquire disk = (.ok _, disk) from rfl),
    ibtaInsertAtLoop]
  rw [BtM.bind_ok (show BtM.ofExcept (cursorPop (sequenceCursor leaf
    (sequencePlace rows name))) disk = (.ok (⟨initKeylistindexFromIndex leaf
      (sequencePlace rows name), leaf.pageNumber⟩, _), disk) from rfl)]
  dsimp only
  rw [BtM.bind_ok readEq]
  dsimp only
  rw [BtM.bind_ok (BtM.attempt_ok (show btreeNodeWriteEx _ _
    (ibtaInsertAtInit (SequenceRow.bytes ⟨name, value⟩)) disk = _ from
      writeEq))]
  rfl

end Leaf

/-! ## The numbers -/

/-- What the sequences are for. -/
abbrev SequenceMap := SqlString → Option (BitVec 32)

def sequenceMap (rows : List SequenceRow) : SequenceMap := fun name =>
  (rows.find? fun row => row.name = name).map SequenceRow.value

inductive SequenceCall where
  | next (name : SqlString)
  | set (name : SqlString) (seq : BitVec 32)
  deriving DecidableEq, Repr

def SequenceCall.name : SequenceCall → SqlString
  | .next name => name
  | .set name _ => name

/-- The number that a call leaves under its name: a set to zero counts where
there is a number. -/
def SequenceCall.number : SequenceCall → Option (BitVec 32) → BitVec 32
  | .next _, none => 1
  | .next _, some number => number + 1
  | .set _ seq, none => seq
  | .set _ seq, some number => if seq = 0 then number + 1 else seq

/-- What it answers with. -/
def SequenceCall.answer : SequenceCall → Option (BitVec 32) → BitVec 32
  | .next name, old => SequenceCall.number (.next name) old
  | .set _ seq, _ => seq

def SequenceCall.apply (call : SequenceCall) (map : SequenceMap) :
    SequenceMap :=
  Function.update map call.name (some (call.number (map call.name)))

/-- What it does to the rows. -/
def SequenceCall.rows (call : SequenceCall) (rows : List SequenceRow) :
    List SequenceRow :=
  let row := ⟨call.name, call.number (sequenceMap rows call.name)⟩
  if call.name ∈ sequenceNames rows then
    rows.set (sequencePlace rows call.name) row
  else rows.insertIdx (sequencePlace rows call.name) row

/-- The call of the program. -/
def SequenceCall.run (seqs : SqldbSeqs) : SequenceCall → SqlBt (BitVec 32)
  | .next name => seqs.seqTblNext name
  | .set name seq => seqs.seqTblSet name (.int seq.toInt)

section Map

variable {rows : List SequenceRow} {name other : SqlString}
variable {row : SequenceRow} {value : BitVec 32} {call : SequenceCall}

theorem sequenceNames_nodup
    (increase : (sequenceNames rows).Pairwise fun left right =>
      compare left right = .lt) : (sequenceNames rows).Nodup := by
  refine increase.imp ?_
  rintro left right less rfl
  rw [Std.ReflOrd.compare_self] at less
  cases less

theorem sequenceMap_some (distinct : (sequenceNames rows).Nodup) :
    sequenceMap rows name = some value ↔ ⟨name, value⟩ ∈ rows := by
  unfold sequenceMap
  rw [Option.map_eq_some_iff]
  constructor
  · rintro ⟨row, found, rfl⟩
    obtain ⟨member, named⟩ := (find_eq_some_iff distinct).mp found
    rw [← named]
    exact member
  · intro member
    exact ⟨_, (find_eq_some_iff distinct).mpr ⟨member, rfl⟩, rfl⟩

theorem sequenceMap_none (missing : name ∉ sequenceNames rows) :
    sequenceMap rows name = none := by
  unfold sequenceMap
  rw [Option.map_eq_none_iff]
  refine find_eq_none_iff.mpr ?_
  rintro row member rfl
  exact missing (List.mem_map_of_mem member)

/-- Rows that differ in the row of one name only. -/
theorem sequenceMap_update {changed : List SequenceRow}
    (distinct : (sequenceNames rows).Nodup)
    (changedDistinct : (sequenceNames changed).Nodup)
    (new : (⟨name, value⟩ : SequenceRow) ∈ changed)
    (others : ∀ other value, other ≠ name →
      ((⟨other, value⟩ : SequenceRow) ∈ changed ↔ ⟨other, value⟩ ∈ rows)) :
    sequenceMap changed =
      Function.update (sequenceMap rows) name (some value) := by
  funext other
  by_cases same : other = name
  · rw [same, Function.update_self]
    exact (sequenceMap_some changedDistinct).mpr new
  · rw [Function.update_of_ne same]
    refine Option.ext fun theirs => ?_
    rw [sequenceMap_some changedDistinct, sequenceMap_some distinct]
    exact others other theirs same

theorem mem_set_other {place : Nat} {theirs : BitVec 32}
    (here : rows[place]? = some row) (named : row.name = name)
    (differs : other ≠ name) :
    (⟨other, theirs⟩ : SequenceRow) ∈ rows.set place ⟨name, value⟩ ↔
      ⟨other, theirs⟩ ∈ rows := by
  constructor
  · intro member
    rcases List.mem_or_eq_of_mem_set member with old | isNew
    · exact old
    · exact absurd (congrArg SequenceRow.name isNew) differs
  · intro member
    obtain ⟨index, inside⟩ := List.mem_iff_getElem?.mp member
    have notPlace : place ≠ index := by
      rintro rfl
      rw [here] at inside
      have same := congrArg SequenceRow.name (Option.some.inj inside)
      exact differs (same.symm.trans named)
    refine List.mem_iff_getElem?.mpr ⟨index, ?_⟩
    rw [List.getElem?_set_ne notPlace]
    exact inside

end Map

/-! ## Calls -/

section Calls

variable {seqs : SqldbSeqs} {disk : Disk} {free : List Nat}
variable {leaf : BTreeNode} {rows : List SequenceRow} {row : SequenceRow}
variable {name : SqlString}

theorem serializeString_name (fits : NameFits name) :
    sqlValueSerializeString name = .ok (stringBytes name) := by
  unfold sqlValueSerializeString sqlStringSer
  unfold NameFits at fits
  rw [if_pos (by omega)]
  rfl

/-- The bytes of a row with a number of another kind. -/
theorem SequenceRow.bytes_ofInt (num : Int) :
    SequenceRow.bytes ⟨name, BitVec.ofInt 32 num⟩ =
      stringBytes name ++ le32 (num % 2 ^ 32).toNat := by
  unfold SequenceRow.bytes
  rw [BitVec.toNat_ofInt]
  rfl

theorem SequenceLeaf.readAndUpdate_missing
    (held : SequenceLeaf disk free leaf rows)
    (number : leaf.pageNumber = seqs.tree.rootPageId)
    (exact : seqs.memcmp.Exact) (fits : NameFits name)
    (apart : NamesApart rows name) (missing : name ∉ sequenceNames rows)
    (setVal : BitVec 32) :
    seqs.readAndUpdateSequence name setVal disk =
      (.ok (.error (.error .notFound)), disk) := by
  have prepareEq := held.prepare_missing number exact fits apart missing
  unfold SqldbSeqs.readAndUpdateSequence
  rw [serializeString_name fits,
    SqlBt.bind_ok (SqlBt.ofSql_apply (.ok (stringBytes name)) disk),
    SqlBt.bind_ok (SqlBt.ofBtM_ok prepareEq)]
  rfl

/-- The number that a call writes. -/
def writtenNumber (setVal old : BitVec 32) : BitVec 32 :=
  if setVal = 0 then old + 1 else setVal

theorem writtenNumber_eq (setVal old : BitVec 32) :
    BitVec.ofInt 32 (if setVal = 0 then (old.toNat : Int) + 1
      else setVal.toInt) = writtenNumber setVal old := by
  unfold writtenNumber
  by_cases isZero : setVal = 0
  · rw [if_pos isZero, if_pos isZero, BitVec.ofInt_add]
    have same : BitVec.ofInt 32 (old.toNat : Int) = old := by
      rw [BitVec.ofInt_natCast, BitVec.ofNat_toNat, BitVec.setWidth_eq]
    rw [same]
    rfl
  · rw [if_neg isZero, if_neg isZero, BitVec.ofInt_toInt]

theorem SequenceLeaf.readAndUpdate_found
    (held : SequenceLeaf disk free leaf rows)
    (number : leaf.pageNumber = seqs.tree.rootPageId)
    (exact : seqs.memcmp.Exact) (apart : NamesApart rows row.name)
    (here : rows[sequencePlace rows row.name]? = some row)
    (safe : GcSafe leaf (sequencePlace rows row.name))
    (setVal : BitVec 32) :
    ∃ after stored, seqs.readAndUpdateSequence row.name setVal disk =
        (.ok (.ok (writtenNumber setVal row.value)), after) ∧
      LeavesRows disk free leaf after stored (rows.set
        (sequencePlace rows row.name)
        ⟨row.name, writtenNumber setVal row.value⟩) := by
  obtain ⟨fits, _⟩ := held.entry_of here
  have prepareEq := held.prepare_found number exact fits apart here rfl
  have previewEq := @SequenceLeaf.preview seqs.tree disk free leaf rows row
    (sequencePlace rows row.name) held here
  obtain ⟨op, after, stored, commitEq, noError, leaves⟩ :=
    @SequenceLeaf.commit seqs.tree disk free leaf rows row _ held here safe
      (writtenNumber setVal row.value)
  have decoded := sqlIbtreeDeserializeRecord_seqTbl fits []
  rw [List.append_nil] at decoded
  have payloadEq : serializedPayload seqTbl
      { row.record with
        values := row.record.values.set 1 (.int (if setVal = 0 then
          (row.value.toNat : Int) + 1 else setVal.toInt)) } =
        .ok (SequenceRow.bytes ⟨row.name, writtenNumber setVal row.value⟩) := by
    rw [← writtenNumber_eq, SequenceRow.bytes_ofInt]
    exact serializedPayload_seqTbl fits _
  refine ⟨after, stored, ?_, leaves⟩
  unfold SqldbSeqs.readAndUpdateSequence
  rw [serializeString_name fits,
    SqlBt.bind_ok (SqlBt.ofSql_apply (.ok (stringBytes row.name)) disk),
    SqlBt.bind_ok (SqlBt.ofBtM_ok prepareEq)]
  have goesOn : SqlBt.ofStatus (foundUpdate seqs.tree leaf
      (sequencePlace rows row.name) row.bytes.length).lastStatus disk =
        (.ok (.ok ()), disk) := rfl
  rw [SqlBt.bind_ok goesOn]
  rw [SqlBt.bind_ok (SqlBt.ofBtM_ok (show btreeOpUpdatePreview _
    (foundUpdate seqs.tree leaf (sequencePlace rows row.name)
      row.bytes.length).dataSize disk = _ from previewEq))]
  dsimp only
  rw [SqlBt.bind_ok goesOn]
  rw [decoded, SqlBt.bind_ok (SqlBt.ofSql_apply (.ok (row.record, [])) disk)]
  dsimp only
  rw [SqlBt.bind_ok (show SqlBt.ofSql (SqldbSeqs.numOf
    (row.record.valueAt 1)) disk = (.ok (.ok (row.value.toNat : Int)), disk)
      from rfl)]
  rw [payloadEq, SqlBt.bind_ok (SqlBt.ofSql_apply (.ok _) disk),
    SqlBt.bind_ok (SqlBt.ofBtM_ok commitEq), noError]
  rw [SqlBt.bind_ok (show SqlBt.ofStatus none after = (.ok (.ok ()), after)
    from rfl), writtenNumber_eq]
  rfl

/-! ## Creating a row -/

theorem SequenceLeaf.createSequence
    (held : SequenceLeaf disk free leaf rows)
    (number : leaf.pageNumber = seqs.tree.rootPageId)
    (exact : seqs.memcmp.Exact) (fits : NameFits name)
    (apart : NamesApart rows name) (missing : name ∉ sequenceNames rows)
    (isInline : StoredInline leaf (name.length + 8))
    (room : heapRequiredForInsertion (cellInlineDiskSize (name.length + 8)) ≤
      leaf.freeHeap) (first : BitVec 32) :
    ∃ after stored, seqs.createSequence name first disk =
        (.ok (.ok ()), after) ∧
      LeavesRows disk free leaf after stored
        (rows.insertIdx (sequencePlace rows name) ⟨name, first⟩) := by
  have length : (SequenceRow.bytes ⟨name, first⟩).length = name.length + 8 :=
    SequenceRow.bytes_length
  rw [← length] at isInline room
  obtain ⟨after, stored, insertEq, leaves⟩ := held.insert number exact fits
    apart missing first isInline room
  have payloadEq : serializedPayload seqTbl
      { columns := [sequenceNameColumn, sequenceValueColumn]
        values := [.string name, .int first.toInt] } =
        .ok (SequenceRow.bytes ⟨name, first⟩) := by
    rw [serializedPayload_seqTbl fits, ← SequenceRow.bytes_ofInt,
      BitVec.ofInt_toInt]
  refine ⟨after, stored, ?_, leaves⟩
  unfold SqldbSeqs.createSequence
  rw [SqlBt.bind_ok (show SqlBt.ofSql (sqlValueAcquireEval ⟨name, .string⟩)
    disk = (.ok (.ok (.string name)), disk) from rfl), payloadEq,
    SqlBt.bind_ok (show SqlBt.ofSql (SqldbSeqs.orNoBytes
      (.ok (SequenceRow.bytes ⟨name, first⟩))) disk = (.ok (.ok _), disk)
        from rfl)]
  exact SqlBt.ofAttempt_ok insertEq

theorem ifMissing_ok {call creates : SqlBt (BitVec 32)} {after : Disk}
    {number : BitVec 32} (found : call disk = (.ok (.ok number), after)) :
    SqldbSeqs.ifMissing call creates disk = (.ok (.ok number), after) :=
  BtM.bind_ok found

theorem ifMissing_missing {call creates : SqlBt (BitVec 32)} {after : Disk}
    (missing : call disk = (.ok (.error (.error .notFound)), after)) :
    SqldbSeqs.ifMissing call creates disk = creates after :=
  BtM.bind_ok missing

/-- A set answers with its own number. -/
theorem seqTblSet_ok {seq number : BitVec 32} {after : Disk}
    (written : SqldbSeqs.ifMissing (seqs.readAndUpdateSequence name seq) (do
      seqs.createSequence name seq
      pure seq) disk = (.ok (.ok number), after)) :
    seqs.seqTblSet name (.int seq.toInt) disk = (.ok (.ok seq), after) := by
  unfold SqldbSeqs.seqTblSet
  rw [SqlBt.bind_ok (show SqlBt.ofSql (SqldbSeqs.numOf (.int seq.toInt))
    disk = (.ok (.ok seq.toInt), disk) from rfl)]
  rw [BitVec.ofInt_toInt, SqlBt.bind_ok written]
  rfl

/-! ## One call -/

/-- A call fits where no other name is a part of its name, its row can be taken
out of the leaf, and a new row has room in it. -/
def CallFitsLeaf (leaf : BTreeNode) (rows : List SequenceRow)
    (name : SqlString) : Prop :=
  NameFits name ∧ NamesApart rows name ∧
    (name ∈ sequenceNames rows → GcSafe leaf (sequencePlace rows name)) ∧
    (name ∉ sequenceNames rows → StoredInline leaf (name.length + 8) ∧
      heapRequiredForInsertion (cellInlineDiskSize (name.length + 8)) ≤
        leaf.freeHeap)

instance (leaf : BTreeNode) (rows : List SequenceRow) (name : SqlString) :
    Decidable (CallFitsLeaf leaf rows name) :=
  inferInstanceAs (Decidable (_ ∧ _ ∧ (_ → _) ∧ (_ → _ ∧ _)))

/-- The answer of a call that finds its name. -/
theorem SequenceCall.run_present {call : SequenceCall}
    (held : SequenceLeaf disk free leaf rows)
    (number : leaf.pageNumber = seqs.tree.rootPageId)
    (exact : seqs.memcmp.Exact) (apart : NamesApart rows call.name)
    (here : rows[sequencePlace rows call.name]? = some row)
    (named : row.name = call.name)
    (safe : GcSafe leaf (sequencePlace rows call.name)) :
    ∃ after stored, call.run seqs disk =
        (.ok (.ok (call.answer (some row.value))), after) ∧
      LeavesRows disk free leaf after stored
        (rows.set (sequencePlace rows call.name)
          ⟨call.name, call.number (some row.value)⟩) := by
  rw [← named] at apart here safe ⊢
  cases call with
  | next name =>
      obtain ⟨after, stored, updateEq, leaves⟩ :=
        held.readAndUpdate_found number exact apart here safe 0
      refine ⟨after, stored, ?_, leaves⟩
      have named : row.name = name := named
      rw [named] at updateEq
      exact ifMissing_ok updateEq
  | set name seq =>
      obtain ⟨after, stored, updateEq, leaves⟩ :=
        held.readAndUpdate_found number exact apart here safe seq
      refine ⟨after, stored, ?_, leaves⟩
      have named : row.name = name := named
      rw [named] at updateEq
      exact seqTblSet_ok (ifMissing_ok updateEq)

/-- The answer of a call that does not. -/
theorem SequenceCall.run_missing {call : SequenceCall}
    (held : SequenceLeaf disk free leaf rows)
    (number : leaf.pageNumber = seqs.tree.rootPageId)
    (exact : seqs.memcmp.Exact) (fits : NameFits call.name)
    (apart : NamesApart rows call.name)
    (missing : call.name ∉ sequenceNames rows)
    (isInline : StoredInline leaf (call.name.length + 8))
    (room : heapRequiredForInsertion
      (cellInlineDiskSize (call.name.length + 8)) ≤ leaf.freeHeap) :
    ∃ after stored, call.run seqs disk =
        (.ok (.ok (call.answer none)), after) ∧
      LeavesRows disk free leaf after stored
        (rows.insertIdx (sequencePlace rows call.name)
          ⟨call.name, call.number none⟩) := by
  obtain ⟨after, stored, createEq, leaves⟩ := held.createSequence number exact
    fits apart missing isInline room (call.number none)
  refine ⟨after, stored, ?_, leaves⟩
  cases call with
  | next name =>
      have absent := held.readAndUpdate_missing number exact fits apart missing 0
      have createEq : seqs.createSequence name 1 disk = (.ok (.ok ()), after) :=
        createEq
      refine (ifMissing_missing absent).trans ?_
      rw [SqlBt.bind_ok createEq]
      rfl
  | set name seq =>
      have absent :=
        held.readAndUpdate_missing number exact fits apart missing seq
      have createEq : seqs.createSequence name seq disk =
        (.ok (.ok ()), after) := createEq
      have inserted : SqldbSeqs.ifMissing
          (seqs.readAndUpdateSequence name seq) (do
            seqs.createSequence name seq
            pure seq) disk = (.ok (.ok seq), after) := by
        refine (ifMissing_missing absent).trans ?_
        rw [SqlBt.bind_ok createEq]
        rfl
      exact seqTblSet_ok inserted

/-- A call that fits answers with the number of its name, and does to the rows
what it is for. -/
theorem SequenceCall.run_ok {call : SequenceCall}
    (held : SequenceLeaf disk free leaf rows)
    (number : leaf.pageNumber = seqs.tree.rootPageId)
    (exact : seqs.memcmp.Exact) (fits : CallFitsLeaf leaf rows call.name) :
    ∃ after stored, call.run seqs disk =
        (.ok (.ok (call.answer (sequenceMap rows call.name))), after) ∧
      LeavesRows disk free leaf after stored (call.rows rows) ∧
      sequenceMap (call.rows rows) = call.apply (sequenceMap rows) := by
  obtain ⟨nameFits, apart, safe, room⟩ := fits
  have distinct := sequenceNames_nodup held.increase
  by_cases present : call.name ∈ sequenceNames rows
  · obtain ⟨row, here, named⟩ := held.row_of present
    have value : sequenceMap rows call.name = some row.value := by
      rw [sequenceMap_some distinct, ← named]
      exact List.mem_of_getElem? here
    have rowsEq : call.rows rows = rows.set (sequencePlace rows call.name)
        ⟨call.name, call.number (some row.value)⟩ := by
      unfold SequenceCall.rows
      rw [if_pos present, value]
    obtain ⟨after, stored, runEq, leaves⟩ := SequenceCall.run_present held
      number exact apart here named (safe present)
    rw [value, rowsEq]
    refine ⟨after, stored, runEq, leaves, ?_⟩
    have laterDistinct := sequenceNames_nodup leaves.leafAt.increase
    have inside := (List.getElem?_eq_some_iff.mp here).1
    have new : (⟨call.name, call.number (some row.value)⟩ : SequenceRow) ∈
        rows.set (sequencePlace rows call.name)
          ⟨call.name, call.number (some row.value)⟩ :=
      List.mem_iff_getElem?.mpr ⟨_, List.getElem?_set_self inside⟩
    unfold SequenceCall.apply
    rw [value]
    exact sequenceMap_update distinct laterDistinct new fun other theirs =>
      mem_set_other here named
  · have value := sequenceMap_none present
    have rowsEq : call.rows rows = rows.insertIdx
        (sequencePlace rows call.name)
        ⟨call.name, call.number none⟩ := by
      unfold SequenceCall.rows
      rw [if_neg present, value]
    obtain ⟨isInline, space⟩ := room present
    obtain ⟨after, stored, runEq, leaves⟩ := SequenceCall.run_missing held
      number exact nameFits apart present isInline space
    rw [value, rowsEq]
    refine ⟨after, stored, runEq, leaves, ?_⟩
    have laterDistinct := sequenceNames_nodup leaves.leafAt.increase
    have new : (⟨call.name, call.number none⟩ : SequenceRow) ∈
        rows.insertIdx (sequencePlace rows call.name)
          ⟨call.name, call.number none⟩ :=
      (mem_insertIdx_iff sequencePlace_le).mpr (Or.inl rfl)
    unfold SequenceCall.apply
    rw [value]
    refine sequenceMap_update distinct laterDistinct new ?_
    intro other theirs differs
    rw [mem_insertIdx_iff sequencePlace_le]
    constructor
    · rintro (isNew | old)
      · exact absurd (congrArg SequenceRow.name isNew) differs
      · exact old
    · exact Or.inr

end Calls

/-! ## Runs -/

/-- A state of the program with the rows that the tree of the sequences has. -/
structure SequenceState where
  disk : Disk
  rows : List SequenceRow

/-- Both go on by a call. -/
def SequenceState.step (seqs : SqldbSeqs) (state : SequenceState)
    (call : SequenceCall) : SequenceState where
  disk := (call.run seqs state.disk).2
  rows := call.rows state.rows

def SequenceFits (seqs : SqldbSeqs) (state : SequenceState)
    (call : SequenceCall) : Prop :=
  CallFitsLeaf (loadedNode state.disk seqs.tree.rootPageId) state.rows call.name

instance (seqs : SqldbSeqs) (state : SequenceState) (call : SequenceCall) :
    Decidable (SequenceFits seqs state call) :=
  inferInstanceAs (Decidable (CallFitsLeaf _ _ _))

/-- The tree of the sequences is a leaf with these rows. -/
def HasSequences (seqs : SqldbSeqs) (disk : Disk) (rows : List SequenceRow) :
    Prop :=
  ∃ free leaf, SequenceLeaf disk free leaf rows ∧
    leaf.pageNumber = seqs.tree.rootPageId

/-- What a run of calls leaves. -/
structure Counted (seqs : SqldbSeqs) (start : SequenceState)
    (calls : List SequenceCall) (state : SequenceState) : Prop where
  has : HasSequences seqs state.disk state.rows
  map : sequenceMap state.rows = calls.foldl (fun map call => call.apply map)
    (sequenceMap start.rows)
  maxPage : state.disk.maxPage = start.disk.maxPage
  kept : ∀ page, page ≠ seqs.tree.rootPageId →
    state.disk.buffer? page = start.disk.buffer? page

section Run

variable {seqs : SqldbSeqs} {start state : SequenceState}
variable {calls : List SequenceCall} {call : SequenceCall}

theorem HasSequences.run (exact : seqs.memcmp.Exact)
    (has : HasSequences seqs state.disk state.rows)
    (fits : SequenceFits seqs state call) :
    (call.run seqs state.disk).1 =
        .ok (.ok (call.answer (sequenceMap state.rows call.name))) ∧
      Counted seqs state [call] (state.step seqs call) := by
  obtain ⟨free, leaf, held, number⟩ := has
  obtain ⟨metaBytes, loadedEq⟩ := held.holds.loadedNode_eq held.store
  unfold SequenceFits at fits
  rw [← number, loadedEq] at fits
  have fits : CallFitsLeaf leaf state.rows call.name := fits
  obtain ⟨after, stored, runEq, leaves, mapEq⟩ :=
    SequenceCall.run_ok held number exact fits
  unfold SequenceState.step
  rw [runEq]
  refine ⟨rfl, ⟨free, stored, leaves.leafAt, leaves.number.trans number⟩, mapEq,
    leaves.maxPage, ?_⟩
  rw [← number]
  exact leaves.kept

theorem Counted.step (exact : seqs.memcmp.Exact)
    (counted : Counted seqs start calls state)
    (fits : SequenceFits seqs state call) :
    Counted seqs start (calls ++ [call]) (state.step seqs call) := by
  obtain ⟨_, later⟩ := counted.has.run exact fits
  refine ⟨later.has, ?_, later.maxPage.trans counted.maxPage, ?_⟩
  · rw [List.foldl_append, ← counted.map]
    exact later.map
  · intro page other
    rw [later.kept page other]
    exact counted.kept page other

theorem SequenceCall.number_next (name : SqlString)
    (old : Option (BitVec 32)) :
    SequenceCall.number (.next name) old = old.getD 0 + 1 := by
  cases old with
  | none => rfl
  | some number => rfl

/-- The calls on a name that is only counted. -/
def callsOn (name : SqlString) (calls : List SequenceCall) : Nat :=
  calls.countP fun call => call.name = name

theorem foldl_apply_counts {name : SqlString} :
    ∀ {calls : List SequenceCall} {map : SequenceMap},
      (∀ call ∈ calls, call.name = name → call = .next name) →
      ((calls.foldl (fun map call => call.apply map) map) name).getD 0 =
        (map name).getD 0 + BitVec.ofNat 32 (callsOn name calls) := by
  intro calls
  induction calls with
  | nil =>
      intro map _
      exact (BitVec.add_zero _).symm
  | cons call calls inductionHypothesis =>
      intro map onlyNext
      have others := fun later member =>
        onlyNext later (List.mem_cons_of_mem _ member)
      rw [List.foldl_cons, inductionHypothesis others]
      unfold callsOn SequenceCall.apply
      by_cases same : call.name = name
      · rw [List.countP_cons_of_pos (by simpa using same), same,
          Function.update_self, onlyNext call List.mem_cons_self same,
          SequenceCall.number_next, Option.getD_some, BitVec.ofNat_add,
          BitVec.add_assoc]
        congr 1
        exact BitVec.add_comm _ _
      · rw [List.countP_cons_of_neg (by simpa using same),
          Function.update_of_ne (Ne.symm same)]

end Run

/-! ## A run on an empty leaf -/

def emptySequences : SequenceState :=
  ⟨diskOfNodes 400 [(true, 0, []), (true, 0, [])], []⟩

def firstSeqs : SqldbSeqs := ⟨signMemcmp, ⟨2, .index, 1⟩, ⟨0, 0, 0⟩⟩

/-- On the names `t` and `a`. -/
def firstCalls : List SequenceCall :=
  [.next [116], .next [97], .next [116], .set [97] 9, .set [97] 0]

theorem emptySequences_has :
    HasSequences firstSeqs emptySequences.disk emptySequences.rows := by
  have on : NodeOn emptySequences.disk 2 := by decide +kernel
  have checked : CheckedStore emptySequences.disk [] := by decide +kernel
  have noEntries : (loadedNode emptySequences.disk 2).entries = [] := by
    decide +kernel
  refine ⟨[], loadedNode emptySequences.disk 2, ?_, on.2⟩
  exact
    { roomy := ⟨by decide +kernel, by decide +kernel⟩
      store := checked.store
      holds := on.1
      isLeaf := by decide +kernel
      used := List.not_mem_nil
      cells := by
        rw [noEntries]
        exact .nil
      small := fun _ member => absurd member List.not_mem_nil
      increase := .nil }

theorem firstCalls_fit :
    AllMeet (SequenceState.step firstSeqs) (SequenceFits firstSeqs)
      emptySequences firstCalls := by
  decide +kernel

end BtreeDb
