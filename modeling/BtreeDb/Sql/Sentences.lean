import BtreeDb.Sql.Grammar

/-!
# Whole statements

The parser keeps what a statement says when the token list ends where the
parser stops reading.  It does not look whether it does, it reads one
assignment of an `UPDATE` whatever follows, and it accepts `CREATE TABLE`
without a name.
-/

namespace BtreeDb

open TokenReader

/-! ## The length of a statement -/

theorem commaList_length {α : Type} {tokens : α → List SqlToken} {size : Nat}
    (same : ∀ item, (tokens item).length = size) (items : List α) :
    (commaList tokens items).length = items.length * (size + 1) - 1 := by
  unfold commaList
  rw [@separated_length _ _ size, List.length_map]
  intro item member
  obtain ⟨origin, _, rfl⟩ := List.mem_map.mp member
  exact same origin

theorem conditionTokens_length (condition : Option ColumnEquals) :
    (conditionTokens condition).length =
      if condition.isSome then 4 else 0 := by
  cases condition <;> rfl

theorem isSome_of_map_eq {left right : Option ColumnEquals}
    (same : left.map ColumnEquals.parsed = right.map ColumnEquals.parsed) :
    left.isSome = right.isSome := by
  have counts := congrArg Option.isSome same
  rwa [Option.isSome_map, Option.isSome_map] at counts

theorem length_of_map_eq {α β γ : Type} {left : List α} {right : List β}
    {first : α → γ} {second : β → γ}
    (same : left.map first = right.map second) :
    left.length = right.length := by
  have lengths := congrArg List.length same
  rwa [List.length_map, List.length_map] at lengths

/-- Statements that are parsed alike have as many tokens. -/
theorem SqlStatement.length_of_parsed {left right : SqlStatement}
    (same : left.parsed = right.parsed) :
    left.tokens.length = right.tokens.length := by
  have one : ∀ {α : Type} {accepts : SqlToken → Option α}
      (item : Accepted accepts), item.tokens.length = 1 := fun _ => rfl
  have two : ∀ column : ColumnDef, column.tokens.length = 2 := fun _ => rfl
  have three : ∀ equals : ColumnEquals, equals.tokens.length = 3 :=
    fun _ => rfl
  cases left with
  | insert table columns values =>
      cases right with
      | insert table' columns' values' =>
          have parts := SqlParsedInsert.mk.inj (SqlParse.insert.inj same)
          have columnCount := length_of_map_eq parts.2.1
          have valueCount := length_of_map_eq parts.2.2
          simp only [tokens, List.length_append, List.length_cons,
            List.length_nil, commaList_length one, columnCount, valueCount]
      | _ => cases same
  | createTable table columns =>
      cases right with
      | createTable table' columns' =>
          have parts := SqlParsedCreateTable.mk.inj
            (SqlParse.createTable.inj same)
          have columnCount := length_of_map_eq parts.2
          simp only [tokens, List.length_append, List.length_cons,
            List.length_nil, commaList_length two, columnCount]
      | _ => cases same
  | select table fields condition =>
      cases right with
      | select table' fields' condition' =>
          have parts := SqlParsedSelect.mk.inj (SqlParse.select.inj same)
          have fieldCount := length_of_map_eq parts.2.1
          have conditionSame := isSome_of_map_eq parts.2.2
          simp only [tokens, List.length_append, List.length_cons,
            List.length_nil, commaList_length one, fieldCount,
            conditionTokens_length, conditionSame]
      | _ => cases same
  | update table assignments condition =>
      cases right with
      | update table' assignments' condition' =>
          have parts := SqlParsedUpdate.mk.inj (SqlParse.update.inj same)
          have assignmentCount := length_of_map_eq parts.2.1
          have conditionSame := isSome_of_map_eq parts.2.2.2
          simp only [tokens, List.length_append, List.length_cons,
            List.length_nil, commaList_length three, assignmentCount,
            conditionTokens_length, conditionSame]
      | _ => cases same
  | delete table condition =>
      cases right with
      | delete table' condition' =>
          have parts := SqlParsedDelete.mk.inj (SqlParse.delete.inj same)
          have conditionSame := isSome_of_map_eq parts.2
          simp only [tokens, List.length_append, List.length_cons,
            List.length_nil, conditionTokens_length, conditionSame]
      | _ => cases same

/-! ## Conditions that are there -/

theorem Accepted.token_ne {α : Type} {accepts : SqlToken → Option α}
    (accepted : Accepted accepts) {token : SqlToken}
    (refused : accepts token = none) : accepted.token ≠ token := by
  rintro rfl
  rw [accepted.accepted] at refused
  cases refused

theorem ColumnEquals.where_not_mem (equals : ColumnEquals) :
    SqlToken.whereKw ∉ equals.tokens := by
  intro member
  unfold tokens at member
  simp only [List.mem_cons, List.not_mem_nil, or_false] at member
  rcases member with isColumn | isEqual | isValue
  · exact equals.column.token_ne rfl isColumn.symm
  · cases isEqual
  · exact equals.value.token_ne rfl isValue.symm

/-- The parse has no condition, though its kind may have one that limits what
it changes. -/
def SqlParse.changesEveryRow : SqlParse → Bool
  | .update parsed => parsed.whereClause.isNone
  | .delete parsed => parsed.whereClause.isNone
  | _ => false

theorem SqlStatement.where_not_mem {statement : SqlStatement}
    (everyRow : statement.parsed.changesEveryRow = true) :
    SqlToken.whereKw ∉ statement.tokens := by
  cases statement with
  | update table assignments condition =>
      cases condition with
      | some condition => cases everyRow
      | none =>
          intro member
          simp only [tokens, conditionTokens, List.append_nil,
            List.mem_append, List.mem_cons, List.not_mem_nil, or_false,
            reduceCtorEq, false_or] at member
          unfold commaList at member
          rcases mem_separated member with isComma | ⟨item, isItem, inside⟩
          · cases isComma
          · obtain ⟨equals, _, rfl⟩ := List.mem_map.mp isItem
            exact equals.where_not_mem inside
  | delete table condition =>
      cases condition with
      | some condition => cases everyRow
      | none =>
          intro member
          simp only [tokens, conditionTokens, List.append_nil, List.mem_cons,
            List.not_mem_nil, or_false, reduceCtorEq] at member
  | _ => cases everyRow

/-! ## Nothing is dropped -/

/-- What the parser accepts is a statement and nothing else, and the parsed
structure has all that it says; a condition that is there is not left out. -/
structure KeepsStatement (tokens : List SqlToken) : Prop where
  whole : ∀ parse, sqlParseCreate tokens = .ok parse → parse ≠ .invalid →
    ∃ statement : SqlStatement, statement.Nonempty ∧
      tokens = statement.tokens ∧ parse = statement.parsed
  condition : ∀ parse, sqlParseCreate tokens = .ok parse →
    SqlToken.whereKw ∈ tokens → parse.changesEveryRow = false

/-- No token stands behind a statement that the parser has room for, and
`CREATE TABLE` has a name behind it. -/
structure ReadToEnd (tokens : List SqlToken) : Prop where
  ended : ∀ (statement : SqlStatement) (extra : List SqlToken),
    statement.Fits → statement.EndsBefore extra →
    tokens = statement.tokens ++ extra → extra = []
  named : ∀ rest, tokens = .createTableKw :: rest →
    rest.head?.bind quotedIdentifierText ≠ none

theorem SqlStatement.Fits.nonempty {statement : SqlStatement}
    (fits : statement.Fits) : statement.Nonempty := by
  cases statement with
  | insert table columns values => exact ⟨fits.1.1, fits.2.1⟩
  | createTable table columns => exact fits.1
  | select table fields condition => exact fits.1
  | update table assignments condition =>
      rintro rfl
      cases fits
  | delete table condition => trivial

theorem SqlStatement.parsed_ne_invalid (statement : SqlStatement) :
    statement.parsed ≠ .invalid := by
  cases statement <;> simp [parsed]

/-- The parser drops nothing exactly when there is nothing behind what it
reads. -/
theorem keepsStatement_iff (tokens : List SqlToken) :
    KeepsStatement tokens ↔ ReadToEnd tokens := by
  constructor
  · intro keeps
    constructor
    · intro statement extra fits ends tokensEq
      obtain ⟨read, notInvalid⟩ := sqlParseCreate_ok_iff.mpr
        (Or.inl ⟨statement, extra, fits, ends, tokensEq, rfl⟩)
      obtain ⟨other, _, otherEq, parsedEq⟩ := keeps.whole _ read notInvalid
      have lengths := SqlStatement.length_of_parsed parsedEq
      rw [← otherEq, tokensEq, List.length_append] at lengths
      apply List.eq_nil_of_length_eq_zero
      omega
    · intro rest tokensEq unnamed
      obtain ⟨read, notInvalid⟩ := sqlParseCreate_ok_iff.mpr
        (Or.inr ⟨rest, tokensEq, unnamed, rfl⟩)
      obtain ⟨statement, _, _, parsedEq⟩ := keeps.whole _ read notInvalid
      cases statement <;> cases parsedEq
  · intro toEnd
    have whole : ∀ parse, sqlParseCreate tokens = .ok parse →
        parse ≠ .invalid → ∃ statement : SqlStatement, statement.Nonempty ∧
          tokens = statement.tokens ∧ parse = statement.parsed := by
      intro parse read notInvalid
      rcases sqlParseCreate_ok_iff.mp ⟨read, notInvalid⟩ with
        ⟨statement, extra, fits, ends, tokensEq, parsedEq⟩ |
          ⟨rest, tokensEq, unnamed, _⟩
      · have none := toEnd.ended statement extra fits ends tokensEq
        rw [none, List.append_nil] at tokensEq
        exact ⟨statement, fits.nonempty, tokensEq, parsedEq⟩
      · exact absurd unnamed (toEnd.named rest tokensEq)
    refine ⟨whole, ?_⟩
    intro parse read member
    by_cases notInvalid : parse = .invalid
    · rw [notInvalid]
      rfl
    · obtain ⟨statement, _, tokensEq, rfl⟩ := whole parse read notInvalid
      by_contra everyRow
      rw [Bool.not_eq_false] at everyRow
      rw [tokensEq] at member
      exact statement.where_not_mem everyRow member

/-- `UPDATE "t" SET a = 1, b = 2 WHERE c = 3`. -/
def twoAssignments : List SqlToken :=
  [.updateKw, .quotedIdentifier [34, 116, 34], .setKw, .identifier [97],
    .equalKw, .intLiteral [49], .comma, .identifier [98], .equalKw,
    .intLiteral [50], .whereKw, .identifier [99], .equalKw, .intLiteral [51]]

/-- The statement is accepted with one assignment and for every row. -/
theorem two_assignments_change_every_row : ¬ KeepsStatement twoAssignments := by
  intro keeps
  have read : sqlParseCreate twoAssignments =
      .ok (.update ⟨some [34, 116, 34], [[97]], [⟨[49], .int⟩], none⟩) := by
    decide +kernel
  have limited := keeps.condition _ read (by decide)
  cases limited

end BtreeDb
