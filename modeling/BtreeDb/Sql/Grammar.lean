import BtreeDb.Sql.Parse

/-!
# Statements and what the parser reads of them

A statement is written as a token list.  The parser reads a statement from the
front of the list and does not look whether the list ends there.
-/

namespace BtreeDb

open TokenReader

/-! ## Statements -/

/-- A token of a kind that is accepted, with what is stored of it. -/
structure Accepted {α : Type} (accepts : SqlToken → Option α) where
  token : SqlToken
  item : α
  accepted : accepts token = some item

/-- A column of `CREATE TABLE`, with a type that there is. -/
structure ColumnDef where
  name : SqlString
  typeText : SqlString
  typed : getDataType typeText ≠ .inval

/-- `column = value`, an assignment or a condition. -/
structure ColumnEquals where
  column : Accepted columnText
  value : Accepted literalStr

inductive SqlStatement where
  | insert (table : SqlString) (columns : List (Accepted quotedIdentifierText))
      (values : List (Accepted literalStr))
  | createTable (table : SqlString) (columns : List ColumnDef)
  | select (table : SqlString) (fields : List (Accepted fieldText))
      (condition : Option ColumnEquals)
  | update (table : SqlString) (assignments : List ColumnEquals)
      (condition : Option ColumnEquals)
  | delete (table : SqlString) (condition : Option ColumnEquals)

def Accepted.tokens {α : Type} {accepts : SqlToken → Option α}
    (accepted : Accepted accepts) : List SqlToken :=
  [accepted.token]

def ColumnDef.tokens (column : ColumnDef) : List SqlToken :=
  [.quotedIdentifier column.name, .identifier column.typeText]

def ColumnEquals.tokens (equals : ColumnEquals) : List SqlToken :=
  [equals.column.token, .equalKw, equals.value.token]

/-- `WHERE column = value`, or nothing. -/
def conditionTokens : Option ColumnEquals → List SqlToken
  | none => []
  | some condition => .whereKw :: condition.tokens

/-- Items with commas between them. -/
def commaList {α : Type} (tokens : α → List SqlToken) (items : List α) :
    List SqlToken :=
  separated .comma (items.map tokens)

/-- The statement as it is written. -/
def SqlStatement.tokens : SqlStatement → List SqlToken
  | .insert table columns values =>
      [.insertKw, .quotedIdentifier table, .openParen] ++
        (commaList Accepted.tokens columns ++
          ([.closeParen, .valuesKw, .openParen] ++
            (commaList Accepted.tokens values ++ [.closeParen])))
  | .createTable table columns =>
      [.createTableKw, .quotedIdentifier table, .openParen] ++
        (commaList ColumnDef.tokens columns ++ [.closeParen])
  | .select table fields condition =>
      [.selectKw] ++ (commaList Accepted.tokens fields ++
        ([.fromKw, .quotedIdentifier table] ++ conditionTokens condition))
  | .update table assignments condition =>
      [.updateKw, .quotedIdentifier table, .setKw] ++
        (commaList ColumnEquals.tokens assignments ++
          conditionTokens condition)
  | .delete table condition =>
      [.deleteKw, .quotedIdentifier table] ++ conditionTokens condition

def ColumnDef.parsed (column : ColumnDef) : SqlParsedCreateTableColumn where
  name := column.name
  type := getDataType column.typeText
  isPrimaryKey := false

def ColumnEquals.parsed (equals : ColumnEquals) : SqlParsedWhereClause where
  field := equals.column.item
  value := equals.value.item

/-- All that the statement says, as a parsed structure. -/
def SqlStatement.parsed : SqlStatement → SqlParse
  | .insert table columns values =>
      .insert ⟨some table, columns.map Accepted.item,
        values.map Accepted.item⟩
  | .createTable table columns =>
      .createTable ⟨some table, columns.map ColumnDef.parsed⟩
  | .select table fields condition =>
      .select ⟨some table, fields.map Accepted.item,
        condition.map ColumnEquals.parsed⟩
  | .update table assignments condition =>
      .update ⟨some table,
        assignments.map fun equals => equals.column.item,
        assignments.map fun equals => equals.value.item,
        condition.map ColumnEquals.parsed⟩
  | .delete table condition =>
      .delete ⟨some table, condition.map ColumnEquals.parsed⟩

/-- Every list of the statement has an item. -/
def SqlStatement.Nonempty : SqlStatement → Prop
  | .insert _ columns values => columns ≠ [] ∧ values ≠ []
  | .createTable _ columns => columns ≠ []
  | .select _ fields _ => fields ≠ []
  | .update _ assignments _ => assignments ≠ []
  | .delete _ _ => True

/-- The parser has room for the statement's lists: five columns and four values
of an `INSERT`, four columns of a `CREATE TABLE`, five fields of a `SELECT`, and
one assignment of an `UPDATE`. -/
def SqlStatement.Fits : SqlStatement → Prop
  | .insert _ columns values =>
      (columns ≠ [] ∧ columns.length ≤ 5) ∧ values ≠ [] ∧ values.length ≤ 4
  | .createTable _ columns => columns ≠ [] ∧ columns.length ≤ 4
  | .select _ fields _ => fields ≠ [] ∧ fields.length ≤ 5
  | .update _ assignments _ => assignments.length = 1
  | .delete _ _ => True

/-- The statement ends before the rest of the tokens: a statement that may have
a condition and has none is not followed by `WHERE`. -/
def SqlStatement.EndsBefore (statement : SqlStatement)
    (rest : List SqlToken) : Prop :=
  match statement with
  | .insert _ _ _ | .createTable _ _ => True
  | .select _ _ condition | .update _ _ condition | .delete _ condition =>
      condition = none → rest.head? ≠ some .whereKw

/-! ## Items -/

section Items

variable {lexer later : Lexer SqlToken}

theorem oneTokenItem_reader {α : Type} (accepts : SqlToken → Option α) :
    ItemReader (oneTokenItem accepts) parsedArraySize
      (@Accepted.tokens α accepts) Accepted.item where
  ok_iff := by
    intro items items' lexer later
    unfold oneTokenItem
    rw [bind_ok_iff]
    constructor
    · rintro ⟨item, mid, itemEq, stored⟩
      obtain ⟨token, restEq, tokEq, accepted⟩ := nextItem_ok_iff.mp itemEq
      obtain ⟨_, same, roomEq, pushed⟩ := bind_ok_iff.mp stored
      obtain ⟨room, rfl⟩ := storeInRange_ok_iff.mp roomEq
      obtain ⟨rfl, rfl⟩ := pure_ok_iff.mp pushed
      exact ⟨room, ⟨token, item, accepted⟩, restEq, tokEq, rfl⟩
    · rintro ⟨room, ⟨token, item, accepted⟩, restEq, tokEq, rfl⟩
      refine ⟨item, later, ?_, ?_⟩
      · exact nextItem_ok_iff.mpr ⟨token, restEq, tokEq, accepted⟩
      · exact bind_ok_iff.mpr ⟨(), later, storeInRange_ok_iff.mpr ⟨room, rfl⟩,
          rfl⟩

theorem parseCreateTableColumn_reader :
    ItemReader parseCreateTableColumn parsedArraySize ColumnDef.tokens
      ColumnDef.parsed where
  ok_iff := by
    intro items items' lexer later
    unfold parseCreateTableColumn
    rw [bind_ok_iff]
    constructor
    · rintro ⟨name, mid, nameEq, stored⟩
      obtain ⟨nameToken, restEq, _, accepted⟩ := nextItem_ok_iff.mp nameEq
      obtain ⟨_, same, roomEq, typed⟩ := bind_ok_iff.mp stored
      obtain ⟨room, rfl⟩ := storeInRange_ok_iff.mp roomEq
      obtain ⟨typeText, last, typeEq, pushed⟩ := bind_ok_iff.mp typed
      obtain ⟨typeToken, restEq', tokEq, acceptedType⟩ :=
        nextItem_ok_iff.mp typeEq
      have nameIs : nameToken = .quotedIdentifier name := by
        cases nameToken <;> cases accepted
        rfl
      have typeIs : typeToken = .identifier typeText := by
        cases typeToken <;> cases acceptedType
        rfl
      by_cases inval : getDataType typeText = .inval
      · rw [if_pos inval] at pushed
        exact absurd pushed fail_ne_ok
      · rw [if_neg inval] at pushed
        obtain ⟨rfl, rfl⟩ := pure_ok_iff.mp pushed
        refine ⟨room, ⟨name, typeText, inval⟩, ?_, ?_, rfl⟩
        · rw [restEq, restEq', nameIs, typeIs]
          rfl
        · rw [tokEq, typeIs]
          rfl
    · rintro ⟨room, ⟨name, typeText, typed⟩, restEq, tokEq, rfl⟩
      refine ⟨name, ⟨some (.quotedIdentifier name),
        .identifier typeText :: later.rest⟩, ?_, ?_⟩
      · exact nextItem_ok_iff.mpr ⟨_, restEq, rfl, rfl⟩
      · refine bind_ok_iff.mpr ⟨(), _, storeInRange_ok_iff.mpr ⟨room, rfl⟩, ?_⟩
        refine bind_ok_iff.mpr ⟨typeText, later, ?_, ?_⟩
        · exact nextItem_ok_iff.mpr ⟨_, rfl, tokEq, rfl⟩
        · rw [if_neg typed]
          rfl

theorem expectNext_ok_iff {token : SqlToken} :
    expectNext token lexer = .ok ((), later) ↔
      lexer.rest = token :: later.rest ∧ later.tok = some token := by
  unfold expectNext
  rw [bind_of_ok next_apply]
  obtain ⟨tok, rest⟩ := lexer
  cases rest with
  | nil =>
      constructor
      · intro impossible
        cases impossible
      · rintro ⟨impossible, _⟩
        cases impossible
  | cons first rest =>
      have headEq : (⟨tok, first :: rest⟩ : Lexer SqlToken).rest.head? =
          some first := rfl
      rw [headEq]
      by_cases same : first = token
      · rw [if_pos (congrArg some same), pure_ok_iff]
        constructor
        · rintro ⟨_, rfl⟩
          rw [same]
          exact ⟨rfl, rfl⟩
        · rintro ⟨restEq, tokEq⟩
          refine ⟨rfl, ?_⟩
          obtain ⟨laterTok, laterRest⟩ := later
          rw [(List.cons.inj restEq).2, same]
          cases tokEq
          rfl
      · have apart : some first ≠ some token := by
          intro equal
          exact same (Option.some.inj equal)
        rw [if_neg apart]
        constructor
        · intro impossible
          exact absurd impossible fail_ne_ok
        · rintro ⟨restEq, _⟩
          exact absurd (List.cons.inj restEq).1 same

theorem expectCurrent_ok_iff {token : SqlToken} :
    expectCurrent token lexer = .ok ((), later) ↔
      lexer.tok = some token ∧ later = lexer := by
  have unfolded : expectCurrent token lexer =
      (if lexer.tok = some token then pure () else fail .failed : ParseM Unit)
        lexer := rfl
  rw [unfolded]
  by_cases same : lexer.tok = some token
  · rw [if_pos same, pure_ok_iff]
    simp [same]
  · rw [if_neg same]
    simp [same, fail_ne_ok]

/-- The name of a table. -/
theorem nextQuoted_ok_iff {name : SqlString} :
    nextOf quotedIdentifierText lexer = .ok (name, later) ↔
      lexer.rest = .quotedIdentifier name :: later.rest ∧
        later.tok = some (.quotedIdentifier name) := by
  unfold nextOf
  rw [nextItem_ok_iff]
  constructor
  · rintro ⟨token, restEq, tokEq, accepted⟩
    have tokenIs : token = .quotedIdentifier name := by
      cases token <;> cases accepted
      rfl
    rw [tokenIs] at restEq tokEq
    exact ⟨restEq, tokEq⟩
  · rintro ⟨restEq, tokEq⟩
    exact ⟨_, restEq, tokEq, rfl⟩

section Apply

variable {tok : Option SqlToken} {rest : List SqlToken}

theorem current_apply :
    (current : ParseM (Option SqlToken)) ⟨tok, rest⟩ =
      .ok (tok, ⟨tok, rest⟩) := rfl

theorem nextQuoted_apply {name : SqlString} :
    nextOf quotedIdentifierText ⟨tok, .quotedIdentifier name :: rest⟩ =
      .ok (name, ⟨some (.quotedIdentifier name), rest⟩) := rfl

theorem expectNext_apply {token : SqlToken} :
    expectNext token ⟨tok, token :: rest⟩ = .ok ((), ⟨some token, rest⟩) :=
  expectNext_ok_iff.mpr ⟨rfl, rfl⟩

theorem expectCurrent_apply {token : SqlToken} :
    expectCurrent token ⟨some token, rest⟩ = .ok ((), ⟨some token, rest⟩) :=
  expectCurrent_ok_iff.mpr ⟨rfl, rfl⟩

end Apply

end Items

/-! ## Loops -/

/-- A loop over a list with commas that has room for so many items. -/
structure ListLoop {α β : Type} (body : List β → ParseM (List β))
    (again : List β → ParseM Bool) (tokens : α → List SqlToken)
    (stored : α → β) (most : Nat) : Prop where
  reader : ItemReader body parsedArraySize tokens stored
  nonempty : ∀ item, tokens item ≠ []
  small : most ≤ parsedArraySize
  goesOn : ∃ more, again = nextIsSep .comma more ∧
    ∀ count, count ≤ parsedArraySize →
      (count ≤ most ↔ ∀ below, 0 < below → below < count → more below = true)

section Loops

variable {α β : Type} {body : List β → ParseM (List β)}
variable {again : List β → ParseM Bool}
variable {tokens : α → List SqlToken} {stored : α → β} {most : Nat}
variable {lexer later : Lexer SqlToken} {items : List β} {close : SqlToken}
variable (loop : ListLoop body again tokens stored most)

include loop

theorem ListLoop.length_le (found : List α) :
    found.length ≤ (commaList tokens found).length := by
  induction found with
  | nil => exact Nat.zero_le _
  | cons item others inductionHypothesis =>
      have long := List.length_pos_iff.mpr (loop.nonempty item)
      unfold commaList at inductionHypothesis ⊢
      by_cases last : others = []
      · subst last
        exact long
      · rw [List.map_cons, separated_cons _ _ (by simpa using last),
          List.length_append, List.length_cons, List.length_cons]
        omega

/-- What stands before the closing token is a list with commas. -/
theorem ListLoop.sound
    (read : parseLoop body again [] lexer = .ok (items, later))
    (closed : later.tok = some close) :
    ∃ found, (found ≠ [] ∧ found.length ≤ most) ∧
      lexer.rest = commaList tokens found ++ close :: later.rest ∧
      items = found.map stored := by
  obtain ⟨more, rfl, most_iff⟩ := loop.goesOn
  unfold parseLoop at read
  obtain ⟨found, tail, some_, restEq, rfl, rfl, bound, goesOn⟩ :=
    doWhile_sound loop.reader read
  simp only [List.nil_append, List.length_map, List.length_nil] at *
  have tailEq : tail = close :: tail.tail := by
    cases tail with
    | nil => cases closed
    | cons token rest => rw [Option.some.inj closed]; rfl
  refine ⟨found, ⟨some_, (most_iff _ bound).mpr goesOn⟩, ?_, rfl⟩
  rw [restEq, ← tailEq]
  rfl

/-- A list with commas is read up to the token behind it. -/
theorem ListLoop.apply {tok : Option SqlToken} {rest : List SqlToken}
    {found : List α} (fits : found ≠ [] ∧ found.length ≤ most)
    (notComma : close ≠ .comma) :
    parseLoop body again []
        ⟨tok, commaList tokens found ++ close :: rest⟩ =
      .ok (found.map stored, ⟨some close, rest⟩) := by
  obtain ⟨more, rfl, most_iff⟩ := loop.goesOn
  have inside := Nat.le_trans fits.2 loop.small
  have goesOn := (most_iff _ inside).mp fits.2
  have long : found.length ≤
      (commaList tokens found ++ close :: rest).length := by
    rw [List.length_append]
    exact Nat.le_trans (loop.length_le found) (Nat.le_add_right _ _)
  have notSep : (close :: rest).head? ≠ some .comma := by
    intro same
    exact notComma (Option.some.inj same)
  unfold parseLoop
  exact doWhile_complete loop.reader fits.1 long rfl notSep
    (by simpa using inside)
    (fun count low high => goesOn count low (by simpa using high))

end Loops

theorem whileComma_goesOn {α : Type} : ∃ more,
    @whileComma α = nextIsSep .comma more ∧
    ∀ count, count ≤ parsedArraySize →
      (count ≤ 5 ↔ ∀ below, 0 < below → below < count →
        more below = true) :=
  ⟨fun _ => true, rfl, fun _ bound => ⟨fun _ _ _ _ => rfl, fun _ => bound⟩⟩

theorem whileCommaBelowFour_goesOn {α : Type} : ∃ more,
    @whileCommaBelowFour α = nextIsSep .comma more ∧
    ∀ count, count ≤ parsedArraySize →
      (count ≤ 4 ↔ ∀ below, 0 < below → below < count →
        more below = true) := by
  refine ⟨fun count => decide (count < 4), rfl, ?_⟩
  intro count bound
  unfold parsedArraySize at bound
  constructor
  · intro few below _ high
    exact decide_eq_true (by omega)
  · intro goesOn
    by_contra many
    have impossible := of_decide_eq_true (goesOn 4 (by omega) (by omega))
    omega

theorem one_token_ne {α : Type} {accepts : SqlToken → Option α}
    (item : Accepted accepts) : item.tokens ≠ [] :=
  List.cons_ne_nil _ _

theorem parseInsertColumn_loop :
    ListLoop parseInsertColumn whileComma
      (@Accepted.tokens _ quotedIdentifierText) Accepted.item 5 :=
  ⟨oneTokenItem_reader _, one_token_ne, Nat.le_refl 5, whileComma_goesOn⟩

theorem parseInsertValue_loop :
    ListLoop parseInsertValue whileCommaBelowFour
      (@Accepted.tokens _ literalStr) Accepted.item 4 :=
  ⟨oneTokenItem_reader _, one_token_ne, by decide, whileCommaBelowFour_goesOn⟩

theorem parseCreateTableColumn_loop :
    ListLoop parseCreateTableColumn whileCommaBelowFour ColumnDef.tokens
      ColumnDef.parsed 4 :=
  ⟨parseCreateTableColumn_reader, fun _ => List.cons_ne_nil _ _, by decide,
    whileCommaBelowFour_goesOn⟩

theorem parseSelectField_loop :
    ListLoop parseSelectField whileComma
      (@Accepted.tokens _ fieldText) Accepted.item 5 :=
  ⟨oneTokenItem_reader _, one_token_ne, Nat.le_refl 5, whileComma_goesOn⟩

/-! ## The five routines -/

section Routines

variable {rest : List SqlToken}

theorem parseInsert_ok_iff {parsed : SqlParsedInsert} :
    (∃ later, parseInsert ⟨some .insertKw, rest⟩ = .ok (parsed, later)) ↔
      ∃ table columns values extra,
        (SqlStatement.insert table columns values).Fits ∧
        .insertKw :: rest =
          (SqlStatement.insert table columns values).tokens ++ extra ∧
        .insert parsed = (SqlStatement.insert table columns values).parsed := by
  unfold parseInsert
  rw [bind_of_ok current_apply, if_neg (by simp)]
  constructor
  · rintro ⟨later, read⟩
    obtain ⟨table, first, tableEq, read₁⟩ := bind_ok_iff.mp read
    obtain ⟨_, second, openEq, read₂⟩ := bind_ok_iff.mp read₁
    obtain ⟨columns, third, columnsEq, read₃⟩ := bind_ok_iff.mp read₂
    obtain ⟨_, same, closeEq, read₄⟩ := bind_ok_iff.mp read₃
    obtain ⟨_, fourth, valuesKwEq, read₅⟩ := bind_ok_iff.mp read₄
    obtain ⟨_, fifth, openEq', read₆⟩ := bind_ok_iff.mp read₅
    obtain ⟨values, sixth, valuesEq, read₇⟩ := bind_ok_iff.mp read₆
    obtain ⟨_, same', closeEq', read₈⟩ := bind_ok_iff.mp read₇
    obtain ⟨restEq, _⟩ := nextQuoted_ok_iff.mp tableEq
    obtain ⟨firstEq, _⟩ := expectNext_ok_iff.mp openEq
    obtain ⟨closed, rfl⟩ := expectCurrent_ok_iff.mp closeEq
    obtain ⟨columnItems, fits, secondEq, rfl⟩ :=
      parseInsertColumn_loop.sound columnsEq closed
    obtain ⟨thirdEq, _⟩ := expectNext_ok_iff.mp valuesKwEq
    obtain ⟨fourthEq, _⟩ := expectNext_ok_iff.mp openEq'
    obtain ⟨closed', rfl⟩ := expectCurrent_ok_iff.mp closeEq'
    obtain ⟨valueItems, fits', fifthEq, rfl⟩ :=
      parseInsertValue_loop.sound valuesEq closed'
    obtain ⟨rfl, _⟩ := pure_ok_iff.mp read₈
    change rest = _ at restEq
    refine ⟨table, columnItems, valueItems, same'.rest, ⟨fits, fits'⟩, ?_, rfl⟩
    rw [restEq, firstEq, secondEq, thirdEq, fourthEq, fifthEq]
    unfold SqlStatement.tokens
    simp only [List.append_assoc, List.cons_append, List.nil_append]
  · rintro ⟨table, columns, values, extra, ⟨fits, fits'⟩, restEq, parsedEq⟩
    have parsedIs := SqlParse.insert.inj parsedEq
    unfold SqlStatement.tokens at restEq
    simp only [List.append_assoc, List.cons_append, List.nil_append,
      List.cons.injEq, true_and] at restEq
    subst restEq parsedIs
    refine ⟨⟨some .closeParen, extra⟩, ?_⟩
    rw [bind_of_ok nextQuoted_apply, bind_of_ok expectNext_apply]
    rw [bind_of_ok (parseInsertColumn_loop.apply fits (by decide)),
      bind_of_ok expectCurrent_apply, bind_of_ok expectNext_apply,
      bind_of_ok expectNext_apply]
    rw [bind_of_ok (parseInsertValue_loop.apply fits' (by decide)),
      bind_of_ok expectCurrent_apply]
    rfl

theorem parseCreateTable_unnamed
    (unnamed : rest.head?.bind quotedIdentifierText = none) :
    parseCreateTable ⟨some .createTableKw, rest⟩ =
      .ok (⟨none, []⟩, ⟨rest.head?, rest.tail⟩) := by
  unfold parseCreateTable
  rw [bind_of_ok current_apply, if_neg (by simp), bind_of_ok next_apply]
  simp only [unnamed]
  rfl

theorem parseCreateTable_named {table : SqlString}
    (named : rest.head?.bind quotedIdentifierText = some table) :
    parseCreateTable ⟨some .createTableKw, rest⟩ =
      (do
        expectNext .openParen
        let columns ← parseLoop parseCreateTableColumn whileCommaBelowFour []
        expectCurrent .closeParen
        pure ⟨some table, columns⟩ : ParseM SqlParsedCreateTable)
      ⟨rest.head?, rest.tail⟩ := by
  unfold parseCreateTable
  rw [bind_of_ok current_apply, if_neg (by simp), bind_of_ok next_apply]
  simp only [named]
  rfl

/-- Without a quoted table name the parser ends with an empty structure. -/
theorem parseCreateTable_ok_iff {parsed : SqlParsedCreateTable} :
    (∃ later, parseCreateTable ⟨some .createTableKw, rest⟩ =
        .ok (parsed, later)) ↔
      (∃ table columns extra,
        (SqlStatement.createTable table columns).Fits ∧
        .createTableKw :: rest =
          (SqlStatement.createTable table columns).tokens ++ extra ∧
        .createTable parsed =
          (SqlStatement.createTable table columns).parsed) ∨
      rest.head?.bind quotedIdentifierText = none ∧ parsed = ⟨none, []⟩ := by
  constructor
  · rintro ⟨later, read⟩
    cases named : rest.head?.bind quotedIdentifierText with
    | none =>
        rw [parseCreateTable_unnamed named] at read
        exact Or.inr ⟨rfl, (Prod.mk.inj (Except.ok.inj read)).1.symm⟩
    | some table =>
        rw [parseCreateTable_named named] at read
        obtain ⟨_, second, openEq, read₂⟩ := bind_ok_iff.mp read
        obtain ⟨columns, third, columnsEq, read₃⟩ := bind_ok_iff.mp read₂
        obtain ⟨_, same, closeEq, read₄⟩ := bind_ok_iff.mp read₃
        obtain ⟨token, headEq, accepted⟩ := Option.bind_eq_some_iff.mp named
        have tokenIs : token = .quotedIdentifier table := by
          cases token <;> cases accepted
          rfl
        have restEq : rest = .quotedIdentifier table :: rest.tail := by
          rw [← tokenIs]
          cases rest with
          | nil => cases headEq
          | cons first others => rw [Option.some.inj headEq]; rfl
        obtain ⟨firstEq, _⟩ := expectNext_ok_iff.mp openEq
        obtain ⟨closed, rfl⟩ := expectCurrent_ok_iff.mp closeEq
        obtain ⟨items, fits, secondEq, rfl⟩ :=
          parseCreateTableColumn_loop.sound columnsEq closed
        obtain ⟨rfl, _⟩ := pure_ok_iff.mp read₄
        change rest.tail = _ at firstEq
        refine Or.inl ⟨table, items, same.rest, fits, ?_, rfl⟩
        rw [restEq, firstEq, secondEq]
        unfold SqlStatement.tokens
        simp only [List.append_assoc, List.cons_append, List.nil_append]
  · rintro (⟨table, columns, extra, fits, restEq, parsedEq⟩ | ⟨unnamed, rfl⟩)
    · have parsedIs := SqlParse.createTable.inj parsedEq
      unfold SqlStatement.tokens at restEq
      simp only [List.append_assoc, List.cons_append, List.nil_append,
        List.cons.injEq, true_and] at restEq
      subst restEq parsedIs
      refine ⟨⟨some .closeParen, extra⟩, ?_⟩
      rw [parseCreateTable_named rfl]
      simp only [List.head?_cons, List.tail_cons]
      rw [bind_of_ok expectNext_apply,
        bind_of_ok (parseCreateTableColumn_loop.apply fits (by decide)),
        bind_of_ok expectCurrent_apply]
      rfl
    · exact ⟨_, parseCreateTable_unnamed unnamed⟩

/-- A condition, behind `WHERE`. -/
theorem parseWhere_ok_iff {parsed : SqlParsedWhereClause}
    {lexer : Lexer SqlToken} (isWhere : lexer.tok = some .whereKw) :
    (∃ later, parseWhere lexer = .ok (parsed, later)) ↔
      ∃ (condition : ColumnEquals) (extra : List SqlToken),
        lexer.rest = condition.tokens ++ extra ∧
        parsed = condition.parsed := by
  obtain ⟨tok, rest⟩ := lexer
  change tok = _ at isWhere
  subst isWhere
  unfold parseWhere
  rw [bind_of_ok expectCurrent_apply]
  constructor
  · rintro ⟨later, read⟩
    obtain ⟨field, first, fieldEq, read₁⟩ := bind_ok_iff.mp read
    obtain ⟨_, second, equalEq, read₂⟩ := bind_ok_iff.mp read₁
    obtain ⟨value, third, valueEq, read₃⟩ := bind_ok_iff.mp read₂
    obtain ⟨column, restEq, _, accepted⟩ := nextItem_ok_iff.mp fieldEq
    obtain ⟨firstEq, _⟩ := expectNext_ok_iff.mp equalEq
    obtain ⟨literal, secondEq, _, acceptedLiteral⟩ :=
      nextItem_ok_iff.mp valueEq
    obtain ⟨rfl, _⟩ := pure_ok_iff.mp read₃
    refine ⟨⟨⟨column, field, accepted⟩, ⟨literal, value, acceptedLiteral⟩⟩,
      third.rest, ?_, rfl⟩
    rw [restEq, firstEq, secondEq]
    rfl
  · rintro ⟨⟨⟨column, field, accepted⟩, ⟨literal, value, acceptedLiteral⟩⟩,
      extra, restEq, rfl⟩
    change rest = column :: .equalKw :: literal :: extra at restEq
    subst restEq
    have fieldEq : nextOf columnText ⟨some .whereKw,
        column :: .equalKw :: literal :: extra⟩ =
        .ok (field, ⟨some column, .equalKw :: literal :: extra⟩) :=
      nextItem_ok_iff.mpr ⟨column, rfl, rfl, accepted⟩
    have valueEq : nextOf literalStr ⟨some .equalKw, literal :: extra⟩ =
        .ok (value, ⟨some literal, extra⟩) :=
      nextItem_ok_iff.mpr ⟨literal, rfl, rfl, acceptedLiteral⟩
    refine ⟨⟨some literal, extra⟩, ?_⟩
    rw [bind_of_ok fieldEq, bind_of_ok expectNext_apply, bind_of_ok valueEq]
    rfl

/-- The tail of a statement that may have a condition. -/
theorem parseOptionalWhere_ok_iff {parsed : Option SqlParsedWhereClause}
    {lexer : Lexer SqlToken} :
    (∃ later, parseOptionalWhere lexer = .ok (parsed, later)) ↔
      ∃ (condition : Option ColumnEquals) (extra : List SqlToken),
        lexer.rest = conditionTokens condition ++ extra ∧
        (condition = none → extra.head? ≠ some .whereKw) ∧
        parsed = condition.map ColumnEquals.parsed := by
  unfold parseOptionalWhere
  rw [bind_of_ok next_apply]
  by_cases isWhere : lexer.rest.head? = some .whereKw
  · have restEq : lexer.rest = .whereKw :: lexer.rest.tail := by
      cases whole : lexer.rest with
      | nil =>
          rw [whole] at isWhere
          cases isWhere
      | cons first others =>
          rw [whole] at isWhere
          rw [Option.some.inj isWhere]
          rfl
    rw [if_neg (fun other => other isWhere)]
    have parsed_iff := fun {parsed} =>
      @parseWhere_ok_iff parsed lexer.advance isWhere
    constructor
    · rintro ⟨later, read⟩
      obtain ⟨clause, mid, clauseEq, read₁⟩ := bind_ok_iff.mp read
      obtain ⟨rfl, rfl⟩ := pure_ok_iff.mp read₁
      obtain ⟨condition, extra, tailEq, rfl⟩ := parsed_iff.mp ⟨_, clauseEq⟩
      refine ⟨some condition, extra, ?_, ?_, rfl⟩
      · rw [restEq]
        exact congrArg (List.cons SqlToken.whereKw) tailEq
      · intro impossible
        cases impossible
    · rintro ⟨condition, extra, tailEq, notWhere, rfl⟩
      cases condition with
      | none =>
          change lexer.rest = extra at tailEq
          rw [tailEq] at isWhere
          exact absurd isWhere (notWhere rfl)
      | some condition =>
          rw [restEq] at tailEq
          have conditionEq := (List.cons.inj tailEq).2
          obtain ⟨later, clauseEq⟩ := parsed_iff.mpr
            ⟨condition, extra, conditionEq, rfl⟩
          refine ⟨later, ?_⟩
          rw [bind_of_ok clauseEq]
          rfl
  · rw [if_pos isWhere]
    constructor
    · rintro ⟨later, read⟩
      obtain ⟨rfl, _⟩ := pure_ok_iff.mp read
      exact ⟨none, lexer.rest, rfl, fun _ => isWhere, rfl⟩
    · rintro ⟨condition, extra, tailEq, _, rfl⟩
      cases condition with
      | none => exact ⟨_, rfl⟩
      | some condition =>
          rw [tailEq] at isWhere
          exact absurd rfl isWhere

theorem parseDelete_ok_iff {parsed : SqlParsedDelete} :
    (∃ later, parseDelete ⟨some .deleteKw, rest⟩ = .ok (parsed, later)) ↔
      ∃ table condition extra,
        (SqlStatement.delete table condition).EndsBefore extra ∧
        .deleteKw :: rest =
          (SqlStatement.delete table condition).tokens ++ extra ∧
        .delete parsed = (SqlStatement.delete table condition).parsed := by
  unfold parseDelete
  rw [bind_of_ok expectCurrent_apply]
  constructor
  · rintro ⟨later, read⟩
    obtain ⟨table, first, tableEq, read₁⟩ := bind_ok_iff.mp read
    obtain ⟨clause, second, clauseEq, read₂⟩ := bind_ok_iff.mp read₁
    obtain ⟨restEq, _⟩ := nextQuoted_ok_iff.mp tableEq
    obtain ⟨condition, extra, firstEq, ends, rfl⟩ :=
      parseOptionalWhere_ok_iff.mp ⟨_, clauseEq⟩
    obtain ⟨rfl, _⟩ := pure_ok_iff.mp read₂
    change rest = _ at restEq
    refine ⟨table, condition, extra, ends, ?_, rfl⟩
    rw [restEq, firstEq]
    rfl
  · rintro ⟨table, condition, extra, ends, restEq, parsedEq⟩
    have parsedIs := SqlParse.delete.inj parsedEq
    unfold SqlStatement.tokens at restEq
    simp only [List.cons_append, List.nil_append,
      List.cons.injEq, true_and] at restEq
    subst restEq parsedIs
    obtain ⟨later, clauseEq⟩ := (@parseOptionalWhere_ok_iff _
      ⟨some (.quotedIdentifier table), conditionTokens condition ++ extra⟩).mpr
        ⟨condition, extra, rfl, ends, rfl⟩
    refine ⟨later, ?_⟩
    rw [bind_of_ok nextQuoted_apply, bind_of_ok clauseEq]
    rfl

theorem parseSelect_ok_iff {parsed : SqlParsedSelect} :
    (∃ later, parseSelect ⟨some .selectKw, rest⟩ = .ok (parsed, later)) ↔
      ∃ table fields condition extra,
        (SqlStatement.select table fields condition).Fits ∧
        (SqlStatement.select table fields condition).EndsBefore extra ∧
        .selectKw :: rest =
          (SqlStatement.select table fields condition).tokens ++ extra ∧
        .select parsed =
          (SqlStatement.select table fields condition).parsed := by
  unfold parseSelect
  rw [bind_of_ok expectCurrent_apply]
  constructor
  · rintro ⟨later, read⟩
    obtain ⟨fields, first, fieldsEq, read₁⟩ := bind_ok_iff.mp read
    obtain ⟨_, same, fromEq, read₂⟩ := bind_ok_iff.mp read₁
    obtain ⟨table, second, tableEq, read₃⟩ := bind_ok_iff.mp read₂
    obtain ⟨clause, third, clauseEq, read₄⟩ := bind_ok_iff.mp read₃
    obtain ⟨isFrom, rfl⟩ := expectCurrent_ok_iff.mp fromEq
    obtain ⟨items, fits, restEq, rfl⟩ :=
      parseSelectField_loop.sound fieldsEq isFrom
    obtain ⟨firstEq, _⟩ := nextQuoted_ok_iff.mp tableEq
    obtain ⟨condition, extra, secondEq, ends, rfl⟩ :=
      parseOptionalWhere_ok_iff.mp ⟨_, clauseEq⟩
    obtain ⟨rfl, _⟩ := pure_ok_iff.mp read₄
    change rest = _ at restEq
    refine ⟨table, items, condition, extra, fits, ends, ?_, rfl⟩
    rw [restEq, firstEq, secondEq]
    unfold SqlStatement.tokens
    simp only [List.append_assoc, List.cons_append, List.nil_append]
  · rintro ⟨table, fields, condition, extra, fits, ends, restEq, parsedEq⟩
    have parsedIs := SqlParse.select.inj parsedEq
    unfold SqlStatement.tokens at restEq
    simp only [List.append_assoc, List.cons_append, List.nil_append,
      List.cons.injEq, true_and] at restEq
    subst restEq parsedIs
    obtain ⟨later, clauseEq⟩ := (@parseOptionalWhere_ok_iff _
      ⟨some (.quotedIdentifier table), conditionTokens condition ++ extra⟩).mpr
        ⟨condition, extra, rfl, ends, rfl⟩
    refine ⟨later, ?_⟩
    rw [bind_of_ok (parseSelectField_loop.apply fits (by decide)),
      bind_of_ok expectCurrent_apply, bind_of_ok nextQuoted_apply,
      bind_of_ok clauseEq]
    rfl

/-- The loop over the assignments ends after the first one: the current token
is its literal then. -/
theorem parseUpdateLoop_ok_iff {items : List SqlString × List SqlLiteralStr}
    {lexer later : Lexer SqlToken} :
    parseLoop parseUpdateItem whileCurrentComma ([], []) lexer =
        .ok (items, later) ↔
      ∃ equals : ColumnEquals, lexer.rest = equals.tokens ++ later.rest ∧
        later.tok = some equals.value.token ∧
        items = ([equals.column.item], [equals.value.item]) := by
  have notComma : ∀ value : Accepted literalStr, value.token ≠ .comma := by
    rintro ⟨token, item, accepted⟩ rfl
    cases accepted
  unfold parseLoop
  constructor
  · intro read
    obtain ⟨tok, rest⟩ := lexer
    cases rest with
    | nil => cases read
    | cons first others =>
        change doWhile _ _ _ (others.length + 1) _ _ = _ at read
        unfold doWhile at read
        obtain ⟨middle, mid, itemEq, read₁⟩ := bind_ok_iff.mp read
        unfold parseUpdateItem at itemEq
        obtain ⟨name, mid₁, nameEq, read₂⟩ := bind_ok_iff.mp itemEq
        obtain ⟨_, mid₂, roomEq, read₃⟩ := bind_ok_iff.mp read₂
        obtain ⟨_, mid₃, equalEq, read₄⟩ := bind_ok_iff.mp read₃
        obtain ⟨literal, mid₄, literalEq, read₅⟩ := bind_ok_iff.mp read₄
        obtain ⟨_, mid₅, roomEq', read₆⟩ := bind_ok_iff.mp read₅
        obtain ⟨column, restEq, _, accepted⟩ := nextItem_ok_iff.mp nameEq
        obtain ⟨_, rfl⟩ := storeInRange_ok_iff.mp roomEq
        obtain ⟨firstEq, _⟩ := expectNext_ok_iff.mp equalEq
        obtain ⟨value, thirdEq, tokEq, acceptedLiteral⟩ :=
          nextItem_ok_iff.mp literalEq
        obtain ⟨_, rfl⟩ := storeInRange_ok_iff.mp roomEq'
        obtain ⟨rfl, rfl⟩ := pure_ok_iff.mp read₆
        have ended : (whileCurrentComma (([] : List SqlString) ++ [name],
            ([] : List SqlLiteralStr) ++ [literal]) : ParseM Bool) mid =
            .ok (false, mid) := by
          have unfolded : (whileCurrentComma (([] : List SqlString) ++ [name],
              ([] : List SqlLiteralStr) ++ [literal]) : ParseM Bool) mid =
              .ok (decide (mid.tok = some .comma), mid) := rfl
          rw [unfolded, tokEq, decide_eq_false]
          intro same
          exact notComma ⟨value, literal, acceptedLiteral⟩
            (Option.some.inj same)
        rw [bind_of_ok ended, if_neg (by simp)] at read₁
        obtain ⟨rfl, rfl⟩ := pure_ok_iff.mp read₁
        refine ⟨⟨⟨column, name, accepted⟩, ⟨value, literal, acceptedLiteral⟩⟩,
          ?_, tokEq, rfl⟩
        rw [restEq, firstEq, thirdEq]
        rfl
  · rintro ⟨⟨⟨column, name, accepted⟩, ⟨value, literal, acceptedLiteral⟩⟩,
      restEq, tokEq, rfl⟩
    obtain ⟨tok, rest⟩ := lexer
    obtain ⟨laterTok, laterRest⟩ := later
    change rest = column :: .equalKw :: value :: laterRest at restEq
    change laterTok = some value at tokEq
    subst restEq tokEq
    change doWhile _ _ _ ((.equalKw :: value :: laterRest : List SqlToken).length
      + 1) _ _ = _
    unfold doWhile
    have nameEq : nextOf columnText
        ⟨tok, column :: .equalKw :: value :: laterRest⟩ =
        .ok (name, ⟨some column, .equalKw :: value :: laterRest⟩) :=
      nextItem_ok_iff.mpr ⟨column, rfl, rfl, accepted⟩
    have literalEq : nextOf literalStr ⟨some .equalKw, value :: laterRest⟩ =
        .ok (literal, ⟨some value, laterRest⟩) :=
      nextItem_ok_iff.mpr ⟨value, rfl, rfl, acceptedLiteral⟩
    have itemEq : parseUpdateItem ([], [])
        ⟨tok, column :: .equalKw :: value :: laterRest⟩ =
        .ok (([name], [literal]), ⟨some value, laterRest⟩) := by
      unfold parseUpdateItem
      rw [bind_of_ok nameEq,
        bind_of_ok (storeInRange_ok_iff.mpr ⟨by decide, rfl⟩),
        bind_of_ok expectNext_apply, bind_of_ok literalEq,
        bind_of_ok (storeInRange_ok_iff.mpr ⟨by decide, rfl⟩)]
      rfl
    have ended : (whileCurrentComma ([name], [literal]) : ParseM Bool)
        ⟨some value, laterRest⟩ = .ok (false, ⟨some value, laterRest⟩) := by
      have unfolded : (whileCurrentComma ([name], [literal]) : ParseM Bool)
          ⟨some value, laterRest⟩ =
          .ok (decide (some value = some SqlToken.comma),
            ⟨some value, laterRest⟩) := rfl
      rw [unfolded, decide_eq_false]
      intro same
      exact notComma ⟨value, literal, acceptedLiteral⟩ (Option.some.inj same)
    rw [bind_of_ok itemEq, bind_of_ok ended, if_neg (by simp)]
    rfl

theorem parseUpdate_ok_iff {parsed : SqlParsedUpdate} :
    (∃ later, parseUpdate ⟨some .updateKw, rest⟩ = .ok (parsed, later)) ↔
      ∃ table assignments condition extra,
        (SqlStatement.update table assignments condition).Fits ∧
        (SqlStatement.update table assignments condition).EndsBefore extra ∧
        .updateKw :: rest =
          (SqlStatement.update table assignments condition).tokens ++ extra ∧
        .update parsed =
          (SqlStatement.update table assignments condition).parsed := by
  unfold parseUpdate
  rw [bind_of_ok expectCurrent_apply]
  constructor
  · rintro ⟨later, read⟩
    obtain ⟨table, first, tableEq, read₁⟩ := bind_ok_iff.mp read
    obtain ⟨_, second, setEq, read₂⟩ := bind_ok_iff.mp read₁
    obtain ⟨items, third, itemsEq, read₃⟩ := bind_ok_iff.mp read₂
    obtain ⟨clause, fourth, clauseEq, read₄⟩ := bind_ok_iff.mp read₃
    obtain ⟨restEq, _⟩ := nextQuoted_ok_iff.mp tableEq
    obtain ⟨firstEq, _⟩ := expectNext_ok_iff.mp setEq
    obtain ⟨equals, secondEq, _, rfl⟩ := parseUpdateLoop_ok_iff.mp itemsEq
    obtain ⟨condition, extra, thirdEq, ends, rfl⟩ :=
      parseOptionalWhere_ok_iff.mp ⟨_, clauseEq⟩
    obtain ⟨rfl, _⟩ := pure_ok_iff.mp read₄
    change rest = _ at restEq
    refine ⟨table, [equals], condition, extra, rfl, ends, ?_, rfl⟩
    rw [restEq, firstEq, secondEq, thirdEq]
    unfold SqlStatement.tokens
    simp only [List.append_assoc, List.cons_append, List.nil_append]
    rfl
  · rintro ⟨table, assignments, condition, extra, one, ends, restEq, parsedEq⟩
    obtain ⟨equals, rfl⟩ := List.length_eq_one_iff.mp one
    have parsedIs := SqlParse.update.inj parsedEq
    have listed : commaList ColumnEquals.tokens [equals] = equals.tokens := rfl
    unfold SqlStatement.tokens at restEq
    simp only [listed, List.append_assoc, List.cons_append, List.nil_append,
      List.cons.injEq, true_and] at restEq
    subst restEq parsedIs
    have itemsEq := (@parseUpdateLoop_ok_iff _
      ⟨some .setKw, equals.tokens ++ (conditionTokens condition ++ extra)⟩
      ⟨some equals.value.token, conditionTokens condition ++ extra⟩).mpr
        ⟨equals, rfl, rfl, rfl⟩
    obtain ⟨later, clauseEq⟩ := (@parseOptionalWhere_ok_iff _
      ⟨some equals.value.token, conditionTokens condition ++ extra⟩).mpr
        ⟨condition, extra, rfl, ends, rfl⟩
    refine ⟨later, ?_⟩
    rw [bind_of_ok nextQuoted_apply, bind_of_ok expectNext_apply,
      bind_of_ok itemsEq, bind_of_ok clauseEq]
    rfl

end Routines

/-! ## Every token list -/

theorem parseAs_ok_iff {α : Type} {parser : ParseM α} {type : α → SqlParse}
    {lexer : Lexer SqlToken} {parse : SqlParse}
    (valid : ∀ parsed, type parsed ≠ .invalid) :
    (parseAs parser type lexer = .ok parse ∧ parse ≠ .invalid) ↔
      ∃ parsed, (∃ later, parser lexer = .ok (parsed, later)) ∧
        parse = type parsed := by
  unfold parseAs
  cases parser lexer with
  | ok pair =>
      constructor
      · rintro ⟨same, _⟩
        exact ⟨pair.1, ⟨pair.2, rfl⟩, (Except.ok.inj same).symm⟩
      · rintro ⟨parsed, ⟨later, pairEq⟩, rfl⟩
        rw [Except.ok.inj pairEq]
        exact ⟨rfl, valid parsed⟩
  | error stop =>
      constructor
      · rintro ⟨same, notInvalid⟩
        cases stop with
        | failed => exact absurd (Except.ok.inj same).symm notInvalid
        | overrun => cases same
      · rintro ⟨_, ⟨_, impossible⟩, _⟩
        cases impossible

/-- The parser reads a statement from the front of the list, or an empty one
when `CREATE TABLE` has no name behind it. -/
theorem sqlParseCreate_ok_iff {tokens : List SqlToken} {parse : SqlParse} :
    (sqlParseCreate tokens = .ok parse ∧ parse ≠ .invalid) ↔
      (∃ (statement : SqlStatement) (extra : List SqlToken),
        statement.Fits ∧ statement.EndsBefore extra ∧
        tokens = statement.tokens ++ extra ∧ parse = statement.parsed) ∨
      ∃ rest, tokens = .createTableKw :: rest ∧
        rest.head?.bind quotedIdentifierText = none ∧
        parse = .createTable ⟨none, []⟩ := by
  constructor
  · intro read
    unfold sqlParseCreate at read
    cases tokens with
    | nil => exact absurd (Except.ok.inj read.1).symm read.2
    | cons first rest =>
        simp only [List.head?_cons, List.tail_cons] at read
        cases first with
        | insertKw =>
            obtain ⟨parsed, ok, rfl⟩ :=
              (parseAs_ok_iff (fun _ => by simp)).mp read
            obtain ⟨table, columns, values, extra, fits, restEq, parsedEq⟩ :=
              parseInsert_ok_iff.mp ok
            exact Or.inl ⟨_, extra, fits, trivial, restEq, parsedEq⟩
        | createTableKw =>
            obtain ⟨parsed, ok, rfl⟩ :=
              (parseAs_ok_iff (fun _ => by simp)).mp read
            rcases parseCreateTable_ok_iff.mp ok with
              ⟨table, columns, extra, fits, restEq, parsedEq⟩ |
                ⟨unnamed, rfl⟩
            · exact Or.inl ⟨_, extra, fits, trivial, restEq, parsedEq⟩
            · exact Or.inr ⟨rest, rfl, unnamed, rfl⟩
        | selectKw =>
            obtain ⟨parsed, ok, rfl⟩ :=
              (parseAs_ok_iff (fun _ => by simp)).mp read
            obtain ⟨table, fields, condition, extra, fits, ends, restEq,
              parsedEq⟩ := parseSelect_ok_iff.mp ok
            exact Or.inl ⟨_, extra, fits, ends, restEq, parsedEq⟩
        | updateKw =>
            obtain ⟨parsed, ok, rfl⟩ :=
              (parseAs_ok_iff (fun _ => by simp)).mp read
            obtain ⟨table, assignments, condition, extra, fits, ends, restEq,
              parsedEq⟩ := parseUpdate_ok_iff.mp ok
            exact Or.inl ⟨_, extra, fits, ends, restEq, parsedEq⟩
        | deleteKw =>
            obtain ⟨parsed, ok, rfl⟩ :=
              (parseAs_ok_iff (fun _ => by simp)).mp read
            obtain ⟨table, condition, extra, ends, restEq, parsedEq⟩ :=
              parseDelete_ok_iff.mp ok
            exact Or.inl
              ⟨.delete table condition, extra, trivial, ends, restEq, parsedEq⟩
        | _ => exact absurd (Except.ok.inj read.1).symm read.2
  · rintro (⟨statement, extra, fits, ends, rfl, rfl⟩ | ⟨rest, rfl, unnamed,
      rfl⟩)
    · cases statement with
      | insert table columns values =>
          obtain ⟨later, ok⟩ := parseInsert_ok_iff.mpr
            ⟨table, columns, values, extra, fits, rfl, rfl⟩
          exact (parseAs_ok_iff (fun _ => by simp)).mpr ⟨_, ⟨later, ok⟩, rfl⟩
      | createTable table columns =>
          obtain ⟨later, ok⟩ := parseCreateTable_ok_iff.mpr
            (Or.inl ⟨table, columns, extra, fits, rfl, rfl⟩)
          exact (parseAs_ok_iff (fun _ => by simp)).mpr ⟨_, ⟨later, ok⟩, rfl⟩
      | select table fields condition =>
          obtain ⟨later, ok⟩ := parseSelect_ok_iff.mpr
            ⟨table, fields, condition, extra, fits, ends, rfl, rfl⟩
          exact (parseAs_ok_iff (fun _ => by simp)).mpr ⟨_, ⟨later, ok⟩, rfl⟩
      | update table assignments condition =>
          obtain ⟨later, ok⟩ := parseUpdate_ok_iff.mpr
            ⟨table, assignments, condition, extra, fits, ends, rfl, rfl⟩
          exact (parseAs_ok_iff (fun _ => by simp)).mpr ⟨_, ⟨later, ok⟩, rfl⟩
      | delete table condition =>
          obtain ⟨later, ok⟩ := parseDelete_ok_iff.mpr
            ⟨table, condition, extra, ends, rfl, rfl⟩
          exact (parseAs_ok_iff (fun _ => by simp)).mpr ⟨_, ⟨later, ok⟩, rfl⟩
    · obtain ⟨later, ok⟩ := parseCreateTable_ok_iff.mpr
        (Or.inr ⟨unnamed, rfl⟩)
      exact (parseAs_ok_iff (fun _ => by simp)).mpr ⟨_, ⟨later, ok⟩, rfl⟩

end BtreeDb
