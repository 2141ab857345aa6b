import BtreeDb.Sql.StoredRows
import BtreeDb.Table.Several

/-!
# The catalogue and the sequences

The records of the catalogue are the definitions of the tables in the order in
which they were created.  The sequences write to pages of their own.
-/

namespace BtreeDb

open Bytes ByteStream Disk PagedTree Sweep

/-! ## Writing to some pages -/

/-- A call writes to the given pages only, and takes no new one. -/
def OnlyWrites (pages : List Nat) (disk after : Disk) : Prop :=
  after.pageSize = disk.pageSize ∧ after.maxPage = disk.maxPage ∧
    (∀ page ∈ List.range (disk.maxPage + 1), page ∉ pages →
      after.page? page = disk.page? page) ∧
    ∀ image ∈ after.pages, image.metaBytes.length = pagemetaSize ∧
      image.pageBuffer.length = disk.pageSize

instance (pages : List Nat) (disk after : Disk) :
    Decidable (OnlyWrites pages disk after) :=
  inferInstanceAs (Decidable (_ ∧ _ ∧ (∀ _ ∈ _, _ → _) ∧ ∀ _ ∈ _, _))

section OnlyWrites

variable {pages free : List Nat} {disk after : Disk}

theorem OnlyWrites.kept (writes : OnlyWrites pages disk after) {page : Nat}
    (outside : page ∉ pages) : after.page? page = disk.page? page := by
  obtain ⟨_, sameMax, kept, _⟩ := writes
  by_cases present : page ≤ disk.maxPage
  · exact kept page (List.mem_range.mpr (Nat.lt_succ_of_le present)) outside
  · have missing : ∀ other : Disk, other.maxPage = disk.maxPage →
        other.page? page = none := by
      intro other same
      rw [← Option.not_isSome_iff_eq_none, page?_isSome_iff, same]
      exact fun both => present both.2
    rw [missing after sameMax, missing disk rfl]

theorem OnlyWrites.within (writes : OnlyWrites pages disk after)
    (free : List Nat) : Within disk free pages after free pages where
  pageSize := writes.1
  grows := Nat.le_of_eq writes.2.1.symm
  kept := by
    intro page notOwn _ _
    unfold buffer?
    rw [writes.kept notOwn]
  source := fun _ member => (List.mem_append.mp member).imp_right Or.inl

theorem OnlyWrites.store (writes : OnlyWrites pages disk after)
    (store : Store disk free) (notFirst : 1 ∉ pages)
    (used : ∀ page ∈ pages, page ∉ free) : Store after free := by
  have sameFirst : after.nextFree 1 = disk.nextFree 1 := by
    unfold nextFree
    rw [writes.kept notFirst]
  refine ⟨?_, ?_, ?_, ?_, store.distinct, store.firstUsed⟩
  · intro page image found
    unfold page? at found
    split at found
    · cases found
    · rw [writes.1]
      exact writes.2.2.2 image (List.mem_of_getElem? found)
  · rw [writes.2.1]
    exact store.few
  · rw [writes.2.1]
    exact store.first
  · rw [sameFirst]
    refine Disk.FreeChain.congr store.chain fun page member => ?_
    have same := writes.kept fun inPages => used page inPages member
    refine ⟨?_, ?_⟩
    · rw [same]
      exact Disk.FreeChain.present store.chain page member
    · unfold nextFree
      rw [same]

end OnlyWrites

/-! ## The sequences -/

/-- A call of the sequences returns, and writes to their pages only. -/
def StaysIn {α : Type} (pages : List Nat) (disk : Disk) (call : SqlBt α) :
    Prop :=
  (call disk).1.isOk = true ∧ OnlyWrites pages disk (call disk).2

instance {α : Type} (pages : List Nat) (disk : Disk) (call : SqlBt α) :
    Decidable (StaysIn pages disk call) :=
  inferInstanceAs (Decidable (_ ∧ _))

theorem StaysIn.answer {pages : List Nat} {disk : Disk}
    {call : SqlBt (BitVec 32)} (stays : StaysIn pages disk call) :
    (call disk).1 = .ok (call.answer disk) := by
  have returns := stays.1
  unfold SqlBt.answer
  cases outcome : (call disk).1 with
  | ok answer => rfl
  | error reason =>
      rw [outcome] at returns
      cases returns

/-- The record and its id are those of the answers on the disk. -/
theorem sqldbTablePrepareRecordOn_fst {sequences : SqldbSequences}
    {table : SqlTable} {record : SqlRecord} {disk : Disk}
    (returns : (sqldbTablePrepareRecordOn sequences table record
      disk).1.isOk = true) :
    (sqldbTablePrepareRecordOn sequences table record disk).1 =
      .ok (sqldbTablePrepareRecord (sequences.answers table.tableName disk)
        table record) := by
  -- the answer of a call, if what follows it returns
  have answered : ∀ (call : SqlBt (BitVec 32))
      (later : BitVec 32 → SqlRecord × BitVec 32),
      ((do let seq ← call; pure (later seq) :
        SqlBt (SqlRecord × BitVec 32)) disk).1.isOk = true →
      ((do let seq ← call; pure (later seq) :
        SqlBt (SqlRecord × BitVec 32)) disk).1 =
          .ok (call.answer disk >>= fun seq => .ok (later seq)) := by
    intro call later isOk
    unfold SqlBt.answer
    cases outcome : call disk with
    | mk result after =>
        cases result with
        | error reason =>
            have stopped : ((do let seq ← call; pure (later seq) :
                SqlBt (SqlRecord × BitVec 32)) disk) =
                  (.error reason, after) := BtM.bind_error outcome
            rw [stopped] at isOk
            cases isOk
        | ok answer =>
            cases answer with
            | error reason =>
                rw [SqlBt.bind_error outcome]
                rfl
            | ok seq =>
                rw [SqlBt.bind_ok outcome]
                rfl
  revert returns
  unfold sqldbTablePrepareRecordOn sqldbTablePrepareRecord
  cases verifyEq : verifyRecord table record with
  | error reason =>
      intro _
      rw [SqlBt.bind_error (SqlBt.ofSql_apply _ _)]
      rfl
  | ok _ =>
      rw [SqlBt.bind_ok (SqlBt.ofSql_apply _ _)]
      cases sqlTableFindPrimaryKey table with
      | none => exact fun _ => rfl
      | some pkeyInd =>
          dsimp only
          cases sqlRecordSchemaIndexof record.columns
              (table.column pkeyInd).name with
          | none => exact answered _ _
          | some schemaPkeyInd => exact answered _ _

/-! ## Definitions -/

/-- A table with its rows. -/
structure SqlRows where
  table : SqlTable
  rows : List SqlRow
  deriving DecidableEq, Repr

/-- A definition that can be written and read back. -/
structure SqlTable.Sound (table : SqlTable) : Prop where
  names : table.NamesFit
  few : table.columns.length ≤ sqlTableColumns
  keyFirst : table.KeyFirst

/-- The record of the catalogue. -/
def SqlTable.catalogRecord (table : SqlTable) : TableRecord :=
  ⟨table.tableMeta.tableId.toNat, tableDefBytes table⟩

def catalogRecords (tables : List SqlRows) : List TableRecord :=
  tables.map fun stored => stored.table.catalogRecord

/-- The first table of a name; a name that is `NULL` is read if there is a
table. -/
def namedTable : Option SqlString → List SqlRows → SqlM SqlRows
  | _, [] => .error (.error .notFound)
  | none, _ :: _ => .error .outOfRange
  | some name, stored :: rest =>
      if stored.table.tableName = name then .ok stored
      else namedTable (some name) rest

/-- What the loop of `sqldb_table_tbl_find` tells of a definition. -/
def sayTable (name : Option SqlString) (payload : List UInt8) :
    Except FindEnd Unit :=
  (findVisit name payload payload.length).map Prod.fst

section Find

variable {name : SqlString} {named : Option SqlString} {table : SqlTable}
variable {tables : List SqlRows}

theorem findVisit_sound (sound : table.Sound) (size : Nat) :
    findVisit named (tableDefBytes table) size =
      match named with
      | none => .error (.stopped .outOfRange)
      | some name =>
          if table.tableName = name then .error (.found table)
          else .ok ((), .keep) := by
  have decodes := tableDefBytes_decodes sound.names sound.few sound.keyFirst
  unfold findVisit scanBuffer
  rewrite [decodes]
  cases named with
  | none => rfl
  | some name => rfl

theorem sayTable_sound (sound : table.Sound) :
    sayTable (some name) (tableDefBytes table) =
      if table.tableName = name then .error (.found table) else .ok () := by
  unfold sayTable
  rw [findVisit_sound sound]
  dsimp only
  split <;> rfl

theorem findResult_said
    (sound : ∀ stored ∈ tables, stored.table.Sound) :
    findResult (saidOf (sayTable named) (catalogRecords tables)).2 =
      (namedTable named tables).map SqlRows.table := by
  induction tables with
  | nil => rfl
  | cons stored rest inductionHypothesis =>
      obtain ⟨here, later⟩ := List.forall_mem_cons.mp sound
      cases named with
      | none =>
          have spoken : sayTable none stored.table.catalogRecord.payload =
              .error (.stopped .outOfRange) := by
            change Except.map _ (findVisit none (tableDefBytes stored.table) _) =
              _
            rw [findVisit_sound here]
            rfl
          unfold catalogRecords
          rw [List.map_cons, saidOf_error spoken]
          rfl
      | some name =>
          have spoken := @sayTable_sound name _ here
          unfold catalogRecords at inductionHypothesis ⊢
          rw [List.map_cons, namedTable]
          by_cases isNamed : stored.table.tableName = name
          · rw [if_pos isNamed] at spoken ⊢
            rw [saidOf_error (show sayTable (some name)
              stored.table.catalogRecord.payload = .error _ from spoken)]
            rfl
          · rw [if_neg isNamed] at spoken ⊢
            rw [saidOf_ok (show sayTable (some name)
              stored.table.catalogRecord.payload = .ok _ from spoken)]
            exact inductionHypothesis later

/-- The catalogue gives the first table of the name. -/
theorem sqldbTableTblFind_run {db : SqlDb} {disk : Disk}
    {free pages chains : List Nat} {height turns : Nat} {flat : List Mark}
    (isTable : db.tbTables.type = .table)
    (store : TableStore disk free db.tbTables.rootPageId height pages flat
      chains (catalogRecords tables))
    (shallow : height + 1 ≤ maxBreadcrumbs)
    (filled : EvenlyFilled db.tbTables disk height)
    (sound : ∀ stored ∈ tables, stored.table.Sound)
    (enough : tables.length < turns) :
    sqldbTableTblFind db named turns disk =
      (.ok ((namedTable named tables).map SqlRows.table), disk) := by
  have visits : ∀ record ∈ catalogRecords tables,
      VisitsAs (findVisit named) (sayTable named) (fun _ => false)
        record := by
    intro record member size _
    obtain ⟨stored, inTables, rfl⟩ := List.mem_map.mp member
    have isSound := sound stored inTables
    change findVisit named (tableDefBytes stored.table) size =
      (sayTable named (tableDefBytes stored.table)).map _
    unfold sayTable
    rw [findVisit_sound isSound, findVisit_sound isSound]
    cases named with
    | none => rfl
    | some name =>
        dsimp only
        split <;> rfl
  have fewer : (catalogRecords tables).length < turns := by
    unfold catalogRecords
    rw [List.length_map]
    exact enough
  have runEq := @btreeVisit_reads db.tbTables disk free pages chains height flat
    _ _ _ (fun code => FindEnd.stopped (.error (sqlbtErr code))) _ _ isTable
    store shallow filled visits turns fewer
  unfold sqldbTableTblFind
  rw [BtM.bind_ok runEq]
  change (Except.ok (findResult (saidOf (sayTable named)
    (catalogRecords tables)).2), disk) = _
  rw [findResult_said sound]

end Find

end BtreeDb
