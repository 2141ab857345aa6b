import BtreeDb.Sql.Grammar
import BtreeDb.Sql.Values

/-!
# Table definitions

`sql_parsegen_table_from_create_table` makes the table of a `CREATE TABLE`, and
`sqldb_table_tbl.c` writes it into the table of tables.  The primary-key mark is
not written: the reader gives it to the first column.
-/

namespace BtreeDb

open Bytes ByteStream

/-- `struct SQLTableColumn`. -/
structure SqlTableColumn where
  name : SqlString
  type : SqlDt
  isPrimaryKey : Bool
  deriving DecidableEq, Repr

/-- `struct SQLTableMeta`, both of them `u32`. -/
structure SqlTableMeta where
  rootPage : BitVec 32
  tableId : BitVec 32
  deriving DecidableEq, Repr

/-- `struct SQLTable`. -/
structure SqlTable where
  columns : List SqlTableColumn
  tableName : SqlString
  tableMeta : SqlTableMeta
  deriving DecidableEq, Repr

/-- The places of the column array. -/
def sqlTableColumns : Nat := 8

/-- `sql_table_find_primary_key`. -/
def sqlTableFindPrimaryKey (table : SqlTable) : Option Nat :=
  table.columns.findIdx? SqlTableColumn.isPrimaryKey

/-- `find_primary_key` of `sql_parsegen.c`. -/
def findPrimaryKey (parsed : SqlParsedCreateTable) : Option Nat :=
  parsed.columns.findIdx? SqlParsedCreateTableColumn.isPrimaryKey

/-- The column that a table has when no other is the primary key: `id`. -/
def idColumn : SqlTableColumn where
  name := [105, 100]
  type := .int
  isPrimaryKey := true

/-- `sql_parsegen_table_from_create_table`, for a table that is all zeros.  A
name that is `NULL` is read. -/
def sqlParsegenTableFromCreateTable (createTable : SqlParsedCreateTable) :
    SqlM SqlTable := do
  match createTable.tableName with
  | none => .error .outOfRange
  | some tableName =>
      let front := if findPrimaryKey createTable = none then [idColumn] else []
      pure
        { columns := front ++ createTable.columns.map fun column =>
            { name := column.name, type := column.type, isPrimaryKey := false }
          tableName
          tableMeta := ⟨0, 0⟩ }

/-! ## Writing and reading -/

/-- `sqldb_table_tbl_serialize_table_def_size`. -/
def sqldbTableTblSerializeTableDefSize (table : SqlTable) : Nat :=
  let sizeofColArray := table.columns.foldl
    (fun size column => (size + (column.name.length + 4 + 1)) % 2 ^ 32) 0
  (4 + (4 + table.tableName.length) + 4 + (4 + sizeofColArray)) % 2 ^ 32

/-- The byte of an `enum sql_dt_e`. -/
def sqlDtByte : SqlDt → UInt8
  | .inval => 0
  | .string => 1
  | .int => 2

/-- A byte as an `enum sql_dt_e`, if it is one. -/
def sqlDtOfByte : UInt8 → Option SqlDt
  | 0 => some .inval
  | 1 => some .string
  | 2 => some .int
  | _ => none

/-- A column in the loop of `sqldb_table_tbl_serialize_table_def`. -/
def serializeColumn (column : SqlTableColumn) : SqlM (List UInt8) := do
  let name ← sqlValueSerializeString column.name
  pure (sqlDtByte column.type :: name)

/-- `sqldb_table_tbl_serialize_table_def`: the bytes that are written. -/
def sqldbTableTblSerializeTableDef (table : SqlTable) : SqlM (List UInt8) := do
  let name ← sqlValueSerializeString table.tableName
  let columns ← table.columns.mapM serializeColumn
  pure (sqlValueSerializeInt table.tableMeta.tableId.toNat ++ (name ++
    (sqlValueSerializeInt table.tableMeta.rootPage.toNat ++
      (sqlValueSerializeInt table.columns.length ++ columns.flatten))))

/-- A value that is read as a number, in a `u32`. -/
def deserializeU32 : SqlReader (BitVec 32) := do
  let value ← sqlValueDeserializeAs .int
  match value with
  | .int num => pure (BitVec.ofInt 32 num)
  | _ => stop .outOfRange

def deserializeString : SqlReader SqlString := do
  let value ← sqlValueDeserializeAs .string
  match value with
  | .string text => pure text
  | _ => stop .outOfRange

/-- A column in the loop of `sqldb_table_tbl_deserialize_table_def`. -/
def deserializeColumn (index : Nat) : SqlReader SqlTableColumn := do
  let byte ← takeBytes .outOfRange 1
  match byte.head?.bind sqlDtOfByte with
  | none => stop .outOfRange
  | some type =>
      let name ← deserializeString
      if index < sqlTableColumns then
        pure { name, type, isPrimaryKey := index == 0 }
      else stop .outOfRange

/-- `sqldb_table_tbl_deserialize_table_def`. -/
def sqldbTableTblDeserializeTableDef : SqlReader SqlTable := do
  let tableId ← deserializeU32
  let tableName ← deserializeString
  let rootPage ← deserializeU32
  let columnArrayLen ← deserializeU32
  let columns ← readEach deserializeColumn (List.range columnArrayLen.toNat)
  pure { columns, tableName, tableMeta := ⟨rootPage, tableId⟩ }

/-! ## The bytes of a definition -/

/-- The table name and the column names. -/
def SqlTable.names (table : SqlTable) : List SqlString :=
  table.tableName :: table.columns.map SqlTableColumn.name

/-- The number of bytes of the definition. -/
def SqlTable.defSize (table : SqlTable) : Nat :=
  16 + table.tableName.length +
    (table.columns.map fun column => column.name.length + 5).sum

/-- A string behind its length. -/
def stringBytes (text : SqlString) : List UInt8 :=
  le32 text.length ++ text

def columnBytes (column : SqlTableColumn) : List UInt8 :=
  [sqlDtByte column.type] ++ stringBytes column.name

def tableDefBytes (table : SqlTable) : List UInt8 :=
  le32 table.tableMeta.tableId.toNat ++ (stringBytes table.tableName ++
    (le32 table.tableMeta.rootPage.toNat ++ (le32 table.columns.length ++
      table.columns.flatMap columnBytes)))

theorem tableDefBytes_length (table : SqlTable) :
    (tableDefBytes table).length = table.defSize := by
  have columns : (table.columns.flatMap columnBytes).length =
      (table.columns.map fun column => column.name.length + 5).sum := by
    rw [List.length_flatMap]
    apply congrArg List.sum
    apply List.map_congr_left
    intro column _
    unfold columnBytes stringBytes
    rw [List.length_append, List.length_append, le32_length,
      List.length_singleton]
    omega
  unfold tableDefBytes stringBytes SqlTable.defSize
  rw [List.length_append, List.length_append, List.length_append,
    List.length_append, List.length_append, columns, le32_length, le32_length,
    le32_length, le32_length]
  omega

/-- The size that the code computes is that, as a `u32`. -/
theorem sqldbTableTblSerializeTableDefSize_eq (table : SqlTable) :
    sqldbTableTblSerializeTableDefSize table = table.defSize % 2 ^ 32 := by
  have summed : ∀ (columns : List SqlTableColumn) (size : Nat),
      columns.foldl (fun size column =>
        (size + (column.name.length + 4 + 1)) % 2 ^ 32) (size % 2 ^ 32) =
        (size + (columns.map fun column => column.name.length + 5).sum) %
          2 ^ 32 := by
    intro columns
    induction columns with
    | nil =>
        intro size
        rfl
    | cons column columns inductionHypothesis =>
        intro size
        have others := inductionHypothesis (size + (column.name.length + 4 + 1))
        rw [List.foldl_cons, Nat.mod_add_mod, others, List.map_cons,
          List.sum_cons, Nat.add_assoc]
  have columns := summed table.columns 0
  rw [Nat.zero_mod, Nat.zero_add] at columns
  unfold sqldbTableTblSerializeTableDefSize SqlTable.defSize
  rw [columns]
  dsimp only
  omega

/-- Every name is short enough to be written. -/
def SqlTable.NamesFit (table : SqlTable) : Prop :=
  ∀ name ∈ table.names, 4 + name.length < 2 ^ 31

theorem SqlTable.NamesFit.column {table : SqlTable} (fit : table.NamesFit)
    {column : SqlTableColumn} (member : column ∈ table.columns) :
    4 + column.name.length < 2 ^ 31 :=
  fit _ (List.mem_cons_of_mem _ (List.mem_map_of_mem member))

theorem serializeColumn_ok_iff {column : SqlTableColumn} {bytes : List UInt8} :
    serializeColumn column = .ok bytes ↔
      4 + column.name.length < 2 ^ 31 ∧ bytes = columnBytes column := by
  unfold serializeColumn sqlValueSerializeString
  cases written : sqlStringSer column.name with
  | error other =>
      constructor
      · intro impossible
        cases impossible
      · rintro ⟨small, _⟩
        rw [sqlStringSer_ok_iff.mpr ⟨small, rfl⟩] at written
        cases written
  | ok name =>
      obtain ⟨small, rfl⟩ := sqlStringSer_ok_iff.mp written
      constructor
      · intro same
        exact ⟨small, (Except.ok.inj same).symm⟩
      · rintro ⟨_, rfl⟩
        rfl

/-- The writer writes the definition unless a name is too long. -/
theorem sqldbTableTblSerializeTableDef_ok_iff {table : SqlTable}
    {bytes : List UInt8} :
    sqldbTableTblSerializeTableDef table = .ok bytes ↔
      table.NamesFit ∧ bytes = tableDefBytes table := by
  constructor
  · intro written
    unfold sqldbTableTblSerializeTableDef sqlValueSerializeString at written
    cases nameEq : sqlStringSer table.tableName with
    | error other =>
        rw [nameEq] at written
        cases written
    | ok name =>
        rw [nameEq] at written
        cases columnsEq : table.columns.mapM serializeColumn with
        | error other =>
            rw [columnsEq] at written
            cases written
        | ok columns =>
            rw [columnsEq] at written
            obtain ⟨small, rfl⟩ := sqlStringSer_ok_iff.mp nameEq
            have each : List.Forall₂ (fun column bytes =>
                4 + column.name.length < 2 ^ 31 ∧ bytes = columnBytes column)
                table.columns columns :=
              (mapM_ok_iff.mp columnsEq).imp
                fun _ _ same => serializeColumn_ok_iff.mp same
            have columnsIs : columns = table.columns.map columnBytes := by
              apply Eq.symm
              rw [← List.forall₂_eq_eq_eq, List.forall₂_map_left_iff]
              exact each.imp fun _ _ both => both.2.symm
            refine ⟨?_, ?_⟩
            · intro text member
              rcases List.mem_cons.mp member with rfl | isColumn
              · exact small
              · obtain ⟨column, inside, rfl⟩ := List.mem_map.mp isColumn
                obtain ⟨index, bound, rfl⟩ := List.getElem_of_mem inside
                exact (each.get bound (each.length_eq ▸ bound)).1
            · rw [← Except.ok.inj written, columnsIs, ← List.flatMap_def]
              rfl
  · rintro ⟨fit, rfl⟩
    have nameEq := sqlStringSer_ok_iff.mpr ⟨fit _ List.mem_cons_self, rfl⟩
    have columnsEq : table.columns.mapM serializeColumn =
        .ok (table.columns.map columnBytes) := by
      apply mapM_of_ok
      intro column member
      exact serializeColumn_ok_iff.mpr ⟨fit.column member, rfl⟩
    unfold sqldbTableTblSerializeTableDef sqlValueSerializeString
    rw [nameEq, columnsEq, tableDefBytes, List.flatMap_def]
    rfl

/-! ## Reading the definition back -/

theorem deserializeU32_decodes (num : BitVec 32) :
    Decodes deserializeU32 (le32 num.toNat) num := by
  have value : Decodes (sqlValueDeserializeAs .int) (le32 num.toNat)
      (.int num.toNat) := (Decodes.word32 num.isLt).map
  have ended : Decodes (pure (BitVec.ofInt 32 num.toNat) :
      SqlReader (BitVec 32)) [] num := by
    rw [BitVec.ofInt_natCast, BitVec.ofNat_toNat, BitVec.setWidth_eq]
    exact Decodes.pure num
  intro rest
  exact bind_ok_iff.mpr ⟨_, rest, value rest, ended rest⟩

theorem deserializeString_decodes {text : SqlString}
    (small : 4 + text.length < 2 ^ 31) :
    Decodes deserializeString (stringBytes text) text := by
  have value : Decodes (sqlValueDeserializeAs .string) (stringBytes text)
      (.string text) := (sqlStringDeser_decodes small).map
  intro rest
  exact bind_ok_iff.mpr ⟨_, rest, value rest, rfl⟩

theorem sqlDtOfByte_sqlDtByte (type : SqlDt) :
    sqlDtOfByte (sqlDtByte type) = some type := by
  cases type <;> rfl

/-- A column is read back with the mark of its place. -/
theorem deserializeColumn_decodes {column : SqlTableColumn} {index : Nat}
    (small : 4 + column.name.length < 2 ^ 31) (room : index < sqlTableColumns)
    (mark : column.isPrimaryKey = (index == 0)) :
    Decodes (deserializeColumn index) (columnBytes column) column := by
  intro rest
  have typeRead : takeBytes (.outOfRange : SqlStop) 1
      (columnBytes column ++ rest) =
        .ok ([sqlDtByte column.type], stringBytes column.name ++ rest) := by
    unfold columnBytes
    rw [List.append_assoc]
    exact @Decodes.takeBytes SqlStop .outOfRange [sqlDtByte column.type] 1 rfl _
  refine bind_ok_iff.mpr ⟨_, _, typeRead, ?_⟩
  rw [List.head?_cons, Option.bind_some, sqlDtOfByte_sqlDtByte]
  refine bind_ok_iff.mpr ⟨_, _, deserializeString_decodes small rest, ?_⟩
  rw [if_pos room, ← mark]
  rfl

/-- The first column and no other is the primary key. -/
def SqlTable.KeyFirst (table : SqlTable) : Prop :=
  ∀ index column, table.columns[index]? = some column →
    column.isPrimaryKey = (index == 0)

theorem tableDefBytes_decodes {table : SqlTable} (fit : table.NamesFit)
    (few : table.columns.length ≤ sqlTableColumns) (keyFirst : table.KeyFirst) :
    Decodes sqldbTableTblDeserializeTableDef (tableDefBytes table) table := by
  have counted : (BitVec.ofNat 32 table.columns.length).toNat =
      table.columns.length := by
    rw [BitVec.toNat_ofNat]
    apply Nat.mod_eq_of_lt
    unfold sqlTableColumns at few
    omega
  have count := deserializeU32_decodes (BitVec.ofNat 32 table.columns.length)
  rw [counted] at count
  have columns : Decodes
      (readEach deserializeColumn (List.range table.columns.length))
      (table.columns.flatMap columnBytes) table.columns := by
    rw [List.range_eq_range']
    apply Decodes.indexed
    intro index column same
    rw [Nat.zero_add]
    obtain ⟨bound, _⟩ := List.getElem?_eq_some_iff.mp same
    exact deserializeColumn_decodes (fit.column (List.mem_of_getElem? same))
      (Nat.lt_of_lt_of_le bound few) (keyFirst index column same)
  intro rest
  unfold tableDefBytes
  simp only [List.append_assoc]
  refine bind_ok_iff.mpr ⟨_, _, deserializeU32_decodes _ _, ?_⟩
  refine bind_ok_iff.mpr
    ⟨_, _, deserializeString_decodes (fit _ List.mem_cons_self) _, ?_⟩
  refine bind_ok_iff.mpr ⟨_, _, deserializeU32_decodes _ _, ?_⟩
  refine bind_ok_iff.mpr ⟨_, _, count _, ?_⟩
  rw [counted]
  refine bind_ok_iff.mpr ⟨_, _, columns rest, ?_⟩
  rfl

/-! ## Tables of `CREATE TABLE` -/

theorem sqlParseCreate_createTable {tokens : List SqlToken}
    {createTable : SqlParsedCreateTable}
    (parsed : sqlParseCreate tokens = .ok (.createTable createTable)) :
    createTable.columns.length ≤ 4 ∧
      ∀ column ∈ createTable.columns,
        column.isPrimaryKey = false ∧ column.type ≠ .inval := by
  rcases sqlParseCreate_ok_iff.mp ⟨parsed, nofun⟩ with
    ⟨statement, extra, fits, _, _, parsedEq⟩ | ⟨_, _, _, parsedEq⟩
  · cases statement with
    | createTable table columns =>
        rw [SqlParse.createTable.inj parsedEq]
        refine ⟨?_, ?_⟩
        · rw [List.length_map]
          exact fits.2
        · intro column member
          obtain ⟨def_, _, rfl⟩ := List.mem_map.mp member
          exact ⟨rfl, def_.typed⟩
    | _ => cases parsedEq
  · rw [SqlParse.createTable.inj parsedEq]
    exact ⟨Nat.zero_le _, fun _ member => nomatch member⟩

/-- The table has `id` in front, as its primary key, and the columns of the
statement behind it. -/
theorem sqlParsegenTableFromCreateTable_columns
    {createTable : SqlParsedCreateTable} {table : SqlTable}
    (unmarked : ∀ column ∈ createTable.columns, column.isPrimaryKey = false)
    (generated : sqlParsegenTableFromCreateTable createTable = .ok table) :
    table.columns = idColumn :: createTable.columns.map fun column =>
      { name := column.name, type := column.type, isPrimaryKey := false } := by
  have noKey : findPrimaryKey createTable = none := by
    unfold findPrimaryKey
    rw [List.findIdx?_eq_none_iff]
    exact unmarked
  unfold sqlParsegenTableFromCreateTable at generated
  cases nameEq : createTable.tableName with
  | none =>
      rw [nameEq] at generated
      cases generated
  | some tableName =>
      rw [nameEq] at generated
      dsimp only at generated
      rw [if_pos noKey] at generated
      rw [← Except.ok.inj generated]
      rfl

theorem sqlParsegenTableFromCreateTable_keyFirst
    {createTable : SqlParsedCreateTable} {table : SqlTable}
    (columnsEq : table.columns = idColumn :: createTable.columns.map
      fun column =>
        { name := column.name, type := column.type, isPrimaryKey := false }) :
    table.KeyFirst := by
  intro index column same
  rw [columnsEq] at same
  cases index with
  | zero =>
      rw [← Option.some.inj same]
      rfl
  | succ index =>
      rw [List.getElem?_cons_succ, List.getElem?_map] at same
      obtain ⟨parsed, _, rfl⟩ := Option.map_eq_some_iff.mp same
      rfl

/-- The writer writes as many bytes as the size function says, and the reader
makes the same table of them. -/
structure TableDefRoundTrips (table : SqlTable) : Prop where
  bytes : ∃ bytes, sqldbTableTblSerializeTableDef table = .ok bytes ∧
    bytes.length = sqldbTableTblSerializeTableDefSize table ∧
    sqldbTableTblDeserializeTableDef bytes = .ok (table, [])

/-- The definition of a table comes back exactly when its names and its size
are in the range of the code's integers. -/
theorem tableDef_roundTrips_iff {tokens : List SqlToken}
    {createTable : SqlParsedCreateTable} {table : SqlTable}
    (tableMeta : SqlTableMeta)
    (parsed : sqlParseCreate tokens = .ok (.createTable createTable))
    (generated : sqlParsegenTableFromCreateTable createTable = .ok table) :
    TableDefRoundTrips { table with tableMeta := tableMeta } ↔
      table.NamesFit ∧ table.defSize < 2 ^ 32 := by
  obtain ⟨few, each⟩ := sqlParseCreate_createTable parsed
  have columnsEq := sqlParsegenTableFromCreateTable_columns
    (fun column member => (each column member).1) generated
  constructor
  · rintro ⟨bytes, written, length, _⟩
    obtain ⟨fit, rfl⟩ := sqldbTableTblSerializeTableDef_ok_iff.mp written
    rw [tableDefBytes_length, sqldbTableTblSerializeTableDefSize_eq] at length
    refine ⟨fit, ?_⟩
    have small := Nat.mod_lt
      ({ table with tableMeta := tableMeta } : SqlTable).defSize
      (Nat.two_pow_pos 32)
    rw [← length] at small
    exact small
  · rintro ⟨fit, small⟩
    refine ⟨tableDefBytes { table with tableMeta := tableMeta }, ?_, ?_, ?_⟩
    · exact sqldbTableTblSerializeTableDef_ok_iff.mpr ⟨fit, rfl⟩
    · rw [tableDefBytes_length, sqldbTableTblSerializeTableDefSize_eq]
      exact (Nat.mod_eq_of_lt small).symm
    · have columnCount : ({ table with tableMeta := tableMeta } :
          SqlTable).columns.length ≤ sqlTableColumns := by
        change table.columns.length ≤ 8
        rw [columnsEq, List.length_cons, List.length_map]
        omega
      have read := @tableDefBytes_decodes
        { table with tableMeta := tableMeta } fit columnCount
        (sqlParsegenTableFromCreateTable_keyFirst columnsEq) []
      rwa [List.append_nil] at read

/-- `CREATE TABLE "t" ("a" INT)`. -/
def oneColumnTable : List SqlToken :=
  [.createTableKw, .quotedIdentifier [34, 116, 34], .openParen,
    .quotedIdentifier [34, 97, 34], .identifier [73, 78, 84], .closeParen]

theorem one_column_table_round_trips :
    TableDefRoundTrips
      { columns := [idColumn, ⟨[34, 97, 34], .int, false⟩]
        tableName := [34, 116, 34]
        tableMeta := ⟨3, 1⟩ } := by
  have parsed : sqlParseCreate oneColumnTable =
      .ok (.createTable ⟨some [34, 116, 34], [⟨[34, 97, 34], .int, false⟩]⟩) := by
    decide +kernel
  apply (tableDef_roundTrips_iff ⟨3, 1⟩ parsed rfl).mpr
  have fit : ∀ name ∈ [[34, 116, 34], [105, 100], [34, 97, 34]],
      4 + (name : SqlString).length < 2 ^ 31 := by decide
  exact ⟨fit, by decide⟩

/-- A table with this name and two columns of this name. -/
def longNames (name : SqlString) : SqlStatement :=
  .createTable name
    [⟨name, [83, 84, 82, 73, 78, 71], by decide⟩,
      ⟨name, [83, 84, 82, 73, 78, 71], by decide⟩]

def longNamesTable (name : SqlString) : SqlTable where
  columns := [idColumn, ⟨name, .string, false⟩, ⟨name, .string, false⟩]
  tableName := name
  tableMeta := ⟨3, 1⟩

/-- Three names that fit each, and whose sum is not in the range of the size:
the table is made, and its definition does not come back. -/
theorem long_names_do_not_round_trip :
    ∃ (tokens : List SqlToken) (createTable : SqlParsedCreateTable)
      (table : SqlTable),
      sqlParseCreate tokens = .ok (.createTable createTable) ∧
      sqlParsegenTableFromCreateTable createTable = .ok table ∧
      ¬ TableDefRoundTrips { table with tableMeta := ⟨3, 1⟩ } := by
  have any : ∀ name : SqlString, name.length = 2 ^ 31 - 5 →
      ∃ (tokens : List SqlToken) (createTable : SqlParsedCreateTable)
        (table : SqlTable),
        sqlParseCreate tokens = .ok (.createTable createTable) ∧
        sqlParsegenTableFromCreateTable createTable = .ok table ∧
        ¬ TableDefRoundTrips { table with tableMeta := ⟨3, 1⟩ } := by
    intro name length
    have parsed := (@sqlParseCreate_ok_iff ((longNames name).tokens ++ [])
      (longNames name).parsed).mpr (Or.inl
        ⟨longNames name, [], ⟨by simp, by simp⟩, trivial, rfl, rfl⟩)
    refine ⟨_, _, { longNamesTable name with tableMeta := ⟨0, 0⟩ }, parsed.1,
      rfl, ?_⟩
    rintro ⟨bytes, written, size, _⟩
    obtain ⟨_, rfl⟩ := sqldbTableTblSerializeTableDef_ok_iff.mp written
    rw [tableDefBytes_length, sqldbTableTblSerializeTableDefSize_eq] at size
    have large : 2 ^ 32 ≤ (longNamesTable name).defSize := by
      unfold SqlTable.defSize longNamesTable
      simp only [List.map_cons, List.map_nil, List.sum_cons, List.sum_nil]
      omega
    have small := Nat.mod_lt (longNamesTable name).defSize (Nat.two_pow_pos 32)
    exact Nat.not_lt_of_le large (size.trans_lt small)
  exact any (List.replicate (2 ^ 31 - 5) 97) List.length_replicate

end BtreeDb
