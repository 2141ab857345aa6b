import BtreeDb.Lib.TokenReader

/-!
# The SQL parser

`sql_parse@flex.c` over the tokens that the lexer returns.  The arrays of the
parsed structures have five places; a store behind them is an error of its own.
-/

namespace BtreeDb

open TokenReader

/-- `struct SQLString`: the bytes. -/
abbrev SqlString := List UInt8

/-- `enum sql_token_e` with the text of the token, where it is not fixed.
`SQL_CREATE_INVAL`, which is 0, is the end of the input. -/
inductive SqlToken where
  | createTableKw
  | insertKw
  | valuesKw
  | updateKw
  | deleteKw
  | whereKw
  | fromKw
  | setKw
  | starKw
  | equalKw
  | selectKw
  | quotedIdentifier (text : SqlString)
  | stringLiteral (text : SqlString)
  | intLiteral (text : SqlString)
  | identifier (text : SqlString)
  | comma
  | openParen
  | closeParen
  deriving DecidableEq, Repr

/-! ## Parsed statements -/

/-- `enum sql_dt_e`. -/
inductive SqlDt where
  | inval
  | string
  | int
  deriving DecidableEq, Repr

/-- `enum sql_literalstr_type_e`. -/
inductive SqlLiteralstrType where
  | inval
  | string
  | int
  deriving DecidableEq, Repr

/-- `struct SQLLiteralStr`. -/
structure SqlLiteralStr where
  value : SqlString
  type : SqlLiteralstrType
  deriving DecidableEq, Repr

structure SqlParsedInsert where
  tableName : Option SqlString
  columns : List SqlString
  values : List SqlLiteralStr
  deriving DecidableEq, Repr

structure SqlParsedCreateTableColumn where
  name : SqlString
  type : SqlDt
  isPrimaryKey : Bool
  deriving DecidableEq, Repr

structure SqlParsedCreateTable where
  tableName : Option SqlString
  columns : List SqlParsedCreateTableColumn
  deriving DecidableEq, Repr

/-- `struct SQLParsedWhereClause` with a field; none stands for one whose field
is `NULL`. -/
structure SqlParsedWhereClause where
  field : SqlString
  value : SqlLiteralStr
  deriving DecidableEq, Repr

structure SqlParsedUpdate where
  tableName : Option SqlString
  columns : List SqlString
  values : List SqlLiteralStr
  whereClause : Option SqlParsedWhereClause
  deriving DecidableEq, Repr

structure SqlParsedSelect where
  tableName : Option SqlString
  fields : List SqlString
  whereClause : Option SqlParsedWhereClause
  deriving DecidableEq, Repr

structure SqlParsedDelete where
  tableName : Option SqlString
  whereClause : Option SqlParsedWhereClause
  deriving DecidableEq, Repr

/-- `struct SQLParse`. -/
inductive SqlParse where
  | invalid
  | insert (insert : SqlParsedInsert)
  | createTable (createTable : SqlParsedCreateTable)
  | select (select : SqlParsedSelect)
  | update (update : SqlParsedUpdate)
  | delete (delete : SqlParsedDelete)
  deriving DecidableEq, Repr

/-! ## Tokens that are accepted -/

def quotedIdentifierText : SqlToken → Option SqlString
  | .quotedIdentifier text => some text
  | _ => none

def identifierText : SqlToken → Option SqlString
  | .identifier text => some text
  | _ => none

/-- A quoted or a plain identifier. -/
def columnText : SqlToken → Option SqlString
  | .quotedIdentifier text => some text
  | .identifier text => some text
  | _ => none

/-- A column or a star. -/
def fieldText : SqlToken → Option SqlString
  | .starKw => some [42]
  | token => columnText token

/-- A literal, with `get_data_type_from_sql_type` of its token. -/
def literalStr : SqlToken → Option SqlLiteralStr
  | .stringLiteral text => some ⟨text, .string⟩
  | .intLiteral text => some ⟨text, .int⟩
  | _ => none

/-- `strcmp` stops at the first zero byte. -/
def cString (text : SqlString) : List UInt8 :=
  text.takeWhile (· != 0)

/-- `get_data_type`: the names are `STRING` and `INT`. -/
def getDataType (text : SqlString) : SqlDt :=
  if cString text = [83, 84, 82, 73, 78, 71] then .string
  else if cString text = [73, 78, 84] then .int
  else .inval

/-! ## Parsing -/

/-- `goto fail`, or a store behind the end of an array. -/
inductive ParseStop where
  | failed
  | overrun
  deriving DecidableEq, Repr

abbrev ParseM := Reader SqlToken ParseStop

/-- The places of an array of a parsed statement. -/
def parsedArraySize : Nat := 5

/-- `if( next(lex) != token ) goto fail;` -/
def expectNext (token : SqlToken) : ParseM Unit := do
  if (← next) = some token then pure () else fail .failed

/-- `if( current(lex) != token ) goto fail;` -/
def expectCurrent (token : SqlToken) : ParseM Unit := do
  if (← current) = some token then pure () else fail .failed

/-- The next token, of a kind that is accepted. -/
def nextOf {α : Type} (accepts : SqlToken → Option α) : ParseM α :=
  nextItem .failed accepts

/-- A `do` loop. -/
def parseLoop {σ : Type} (body : σ → ParseM σ) (again : σ → ParseM Bool)
    (state : σ) : ParseM σ := fun lexer =>
  doWhile .failed body again lexer.rest.length state lexer

/-- An item of one token, stored behind the others. -/
def oneTokenItem {α : Type} (accepts : SqlToken → Option α) (items : List α) :
    ParseM (List α) := do
  let item ← nextOf accepts
  storeInRange .overrun parsedArraySize items
  pure (items ++ [item])

/-- `while( next(lex) == SQL_COMMA )` -/
def whileComma {α : Type} : List α → ParseM Bool :=
  nextIsSep .comma fun _ => true

/-- `while( next(lex) == SQL_COMMA && count < 4 )` -/
def whileCommaBelowFour {α : Type} : List α → ParseM Bool :=
  nextIsSep .comma fun count => decide (count < 4)

def parseInsertColumn : List SqlString → ParseM (List SqlString) :=
  oneTokenItem quotedIdentifierText

def parseInsertValue : List SqlLiteralStr → ParseM (List SqlLiteralStr) :=
  oneTokenItem literalStr

/-- `parse_insert`. -/
def parseInsert : ParseM SqlParsedInsert := do
  if (← current) ≠ some .insertKw then
    pure ⟨none, [], []⟩
  else
    let tableName ← nextOf quotedIdentifierText
    expectNext .openParen
    let columns ← parseLoop parseInsertColumn whileComma []
    expectCurrent .closeParen
    expectNext .valuesKw
    expectNext .openParen
    let values ← parseLoop parseInsertValue whileCommaBelowFour []
    expectCurrent .closeParen
    pure ⟨some tableName, columns, values⟩

/-- `parse_where`. -/
def parseWhere : ParseM SqlParsedWhereClause := do
  expectCurrent .whereKw
  let field ← nextOf columnText
  expectNext .equalKw
  let value ← nextOf literalStr
  pure ⟨field, value⟩

def parseCreateTableColumn (columns : List SqlParsedCreateTableColumn) :
    ParseM (List SqlParsedCreateTableColumn) := do
  let name ← nextOf quotedIdentifierText
  storeInRange .overrun parsedArraySize columns
  let type ← nextOf identifierText
  let dt := getDataType type
  if dt = .inval then fail .failed
  else pure (columns ++ [⟨name, dt, false⟩])

/-- `parse_create_table`: without a table name it ends, but it does not
fail. -/
def parseCreateTable : ParseM SqlParsedCreateTable := do
  if (← current) ≠ some .createTableKw then
    pure ⟨none, []⟩
  else
    match (← next).bind quotedIdentifierText with
    | none => pure ⟨none, []⟩
    | some tableName =>
        expectNext .openParen
        let columns ← parseLoop parseCreateTableColumn whileCommaBelowFour []
        expectCurrent .closeParen
        pure ⟨some tableName, columns⟩

def parseSelectField : List SqlString → ParseM (List SqlString) :=
  oneTokenItem fieldText

/-- The optional tail: a `WHERE` clause, if the next token starts one. -/
def parseOptionalWhere : ParseM (Option SqlParsedWhereClause) := do
  if (← next) ≠ some .whereKw then
    pure none
  else
    let whereClause ← parseWhere
    pure (some whereClause)

/-- `parse_select`. -/
def parseSelect : ParseM SqlParsedSelect := do
  expectCurrent .selectKw
  let fields ← parseLoop parseSelectField whileComma []
  expectCurrent .fromKw
  let tableName ← nextOf quotedIdentifierText
  let whereClause ← parseOptionalWhere
  pure ⟨some tableName, fields, whereClause⟩

/-- One assignment of `parse_update`. -/
def parseUpdateItem (items : List SqlString × List SqlLiteralStr) :
    ParseM (List SqlString × List SqlLiteralStr) := do
  let column ← nextOf columnText
  storeInRange .overrun parsedArraySize items.1
  expectNext .equalKw
  let value ← nextOf literalStr
  storeInRange .overrun parsedArraySize items.2
  pure (items.1 ++ [column], items.2 ++ [value])

/-- `while( current(lex) == SQL_COMMA )` -/
def whileCurrentComma {σ : Type} (_ : σ) : ParseM Bool := do
  pure (decide ((← current) = some .comma))

/-- `parse_update`: the current token after an assignment is its literal. -/
def parseUpdate : ParseM SqlParsedUpdate := do
  expectCurrent .updateKw
  let tableName ← nextOf quotedIdentifierText
  expectNext .setKw
  let items ← parseLoop parseUpdateItem whileCurrentComma ([], [])
  let whereClause ← parseOptionalWhere
  pure ⟨some tableName, items.1, items.2, whereClause⟩

/-- `parse_delete`. -/
def parseDelete : ParseM SqlParsedDelete := do
  expectCurrent .deleteKw
  let tableName ← nextOf quotedIdentifierText
  let whereClause ← parseOptionalWhere
  pure ⟨some tableName, whereClause⟩

/-- The type of the parse, unless the parser fails. -/
def parseAs {α : Type} (parser : ParseM α) (type : α → SqlParse)
    (lexer : Lexer SqlToken) : Except ParseStop SqlParse :=
  match parser lexer with
  | .ok (parsed, _) => .ok (type parsed)
  | .error .failed => .ok .invalid
  | .error .overrun => .error .overrun

/-- `sql_parse_create`. -/
def sqlParseCreate (tokens : List SqlToken) : Except ParseStop SqlParse :=
  let lexer : Lexer SqlToken := ⟨tokens.head?, tokens.tail⟩
  match lexer.tok with
  | some .insertKw => parseAs parseInsert .insert lexer
  | some .createTableKw => parseAs parseCreateTable .createTable lexer
  | some .selectKw => parseAs parseSelect .select lexer
  | some .updateKw => parseAs parseUpdate .update lexer
  | some .deleteKw => parseAs parseDelete .delete lexer
  | _ => .ok .invalid

end BtreeDb
