import BtreeDb.Sql.Grammar

/-!
# The arrays of the parsed statements

The columns of an `INSERT` and the fields of a `SELECT` are stored as long as a
comma follows, so a sixth item is stored behind the array.  The other loops end
in time.
-/

namespace BtreeDb

open TokenReader

theorem failed_ne_overrun : ParseStop.failed ≠ ParseStop.overrun :=
  nofun

/-! ## Parts that store nothing -/

theorem expectNext_inRange (token : SqlToken) :
    Avoids .overrun (expectNext token) := by
  apply Avoids.bind Avoids.next
  intro found
  split
  · exact Avoids.pure
  · exact Avoids.fail failed_ne_overrun

theorem expectCurrent_inRange (token : SqlToken) :
    Avoids .overrun (expectCurrent token) := by
  apply Avoids.bind Avoids.current
  intro found
  split
  · exact Avoids.pure
  · exact Avoids.fail failed_ne_overrun

theorem nextOf_inRange {α : Type} (accepts : SqlToken → Option α) :
    Avoids .overrun (nextOf accepts) :=
  Avoids.nextItem failed_ne_overrun

theorem parseWhere_inRange : Avoids .overrun parseWhere := by
  apply Avoids.bind (expectCurrent_inRange _)
  intro _
  apply Avoids.bind (nextOf_inRange _)
  intro field
  apply Avoids.bind (expectNext_inRange _)
  intro _
  apply Avoids.bind (nextOf_inRange _)
  intro value
  exact Avoids.pure

theorem parseOptionalWhere_inRange : Avoids .overrun parseOptionalWhere := by
  apply Avoids.bind Avoids.next
  intro token
  split
  · exact Avoids.pure
  · apply Avoids.bind parseWhere_inRange
    intro whereClause
    exact Avoids.pure

theorem parseDelete_inRange : Avoids .overrun parseDelete := by
  apply Avoids.bind (expectCurrent_inRange _)
  intro _
  apply Avoids.bind (nextOf_inRange _)
  intro tableName
  apply Avoids.bind parseOptionalWhere_inRange
  intro whereClause
  exact Avoids.pure

/-! ## Loops that end in time -/

/-- The store is the only one of an item, and it is behind its name. -/
theorem oneTokenItem_overrun_iff {α : Type} {accepts : SqlToken → Option α}
    {items : List α} {lexer : Lexer SqlToken} :
    oneTokenItem accepts items lexer = .error .overrun ↔
      parsedArraySize ≤ items.length ∧
        ∃ (item : Accepted accepts) (rest : List SqlToken),
          lexer.rest = item.tokens ++ rest := by
  unfold oneTokenItem
  rw [bind_error_of_avoids_first (nextOf_inRange _)]
  constructor
  · rintro ⟨item, mid, itemEq, stopped⟩
    obtain ⟨token, restEq, _, accepted⟩ := nextItem_ok_iff.mp itemEq
    rw [bind_error_of_avoids fun _ => Avoids.pure] at stopped
    exact ⟨(storeInRange_error_iff.mp stopped).1, ⟨token, item, accepted⟩,
      mid.rest, restEq⟩
  · rintro ⟨full, ⟨token, item, accepted⟩, rest, restEq⟩
    refine ⟨item, ⟨some token, rest⟩, ?_, ?_⟩
    · exact nextItem_ok_iff.mpr ⟨token, restEq, rfl, accepted⟩
    · rw [bind_error_of_avoids fun _ => Avoids.pure]
      exact storeInRange_error_iff.mpr ⟨full, rfl⟩

theorem parseCreateTableColumn_overrun
    {columns : List SqlParsedCreateTableColumn} {lexer : Lexer SqlToken}
    (stopped : parseCreateTableColumn columns lexer = .error .overrun) :
    parsedArraySize ≤ columns.length := by
  unfold parseCreateTableColumn at stopped
  rw [bind_error_of_avoids_first (nextOf_inRange _)] at stopped
  obtain ⟨name, mid, _, stopped⟩ := stopped
  rw [bind_error_of_avoids] at stopped
  · exact (storeInRange_error_iff.mp stopped).1
  · intro _
    apply Avoids.bind (nextOf_inRange _)
    intro type
    dsimp only
    split
    · exact Avoids.fail failed_ne_overrun
    · exact Avoids.pure

/-- The counter of the loop is below four when there is another turn. -/
theorem belowFour_inRange {α β : Type} {body : List β → ParseM (List β)}
    {tokens : α → List SqlToken} {stored : α → β}
    (reader : ItemReader body parsedArraySize tokens stored)
    (overrun : ∀ {items : List β} {lexer : Lexer SqlToken},
      body items lexer = .error .overrun → parsedArraySize ≤ items.length) :
    Avoids .overrun (parseLoop body whileCommaBelowFour []) := by
  intro lexer
  apply doWhile_in_range reader failed_ne_overrun overrun
  · intro count more
    exact Nat.lt_succ_of_lt (of_decide_eq_true more)
  · exact Nat.zero_lt_succ 4

theorem parseInsertValues_inRange :
    Avoids .overrun (parseLoop parseInsertValue whileCommaBelowFour []) :=
  belowFour_inRange (oneTokenItem_reader _)
    fun stopped => (oneTokenItem_overrun_iff.mp stopped).1

theorem parseCreateTable_inRange : Avoids .overrun parseCreateTable := by
  apply Avoids.bind Avoids.current
  intro token
  split
  · exact Avoids.pure
  · apply Avoids.bind Avoids.next
    intro named
    split
    · exact Avoids.pure
    · apply Avoids.bind (expectNext_inRange _)
      intro _
      apply Avoids.bind (belowFour_inRange parseCreateTableColumn_reader
        parseCreateTableColumn_overrun)
      intro columns
      apply Avoids.bind (expectCurrent_inRange _)
      intro _
      exact Avoids.pure

/-- An assignment ends in a literal. -/
theorem parseUpdateItem_ends {items items' : List SqlString × List SqlLiteralStr}
    {lexer later : Lexer SqlToken}
    (read : parseUpdateItem items lexer = .ok (items', later)) :
    later.tok ≠ some .comma := by
  unfold parseUpdateItem at read
  obtain ⟨column, first, _, read₁⟩ := bind_ok_iff.mp read
  obtain ⟨_, second, _, read₂⟩ := bind_ok_iff.mp read₁
  obtain ⟨_, third, _, read₃⟩ := bind_ok_iff.mp read₂
  obtain ⟨value, fourth, valueEq, read₄⟩ := bind_ok_iff.mp read₃
  obtain ⟨_, same, roomEq, read₅⟩ := bind_ok_iff.mp read₄
  obtain ⟨token, _, tokEq, accepted⟩ := nextItem_ok_iff.mp valueEq
  obtain ⟨_, rfl⟩ := storeInRange_ok_iff.mp roomEq
  obtain ⟨_, rfl⟩ := pure_ok_iff.mp read₅
  rw [tokEq]
  intro isComma
  rw [Option.some.inj isComma] at accepted
  cases accepted

theorem parseUpdateItem_inRange : Avoids .overrun (parseUpdateItem ([], [])) := by
  have room : ∀ {β : Type}, Avoids .overrun
      (storeInRange .overrun parsedArraySize ([] : List β) : ParseM Unit) := by
    intro β lexer failed
    exact absurd (storeInRange_error_iff.mp failed).1
      (Nat.not_succ_le_zero 4)
  apply Avoids.bind (nextOf_inRange _)
  intro column
  apply Avoids.bind room
  intro _
  apply Avoids.bind (expectNext_inRange _)
  intro _
  apply Avoids.bind (nextOf_inRange _)
  intro value
  apply Avoids.bind room
  intro _
  exact Avoids.pure

theorem parseUpdateItems_inRange :
    Avoids .overrun (parseLoop parseUpdateItem whileCurrentComma ([], [])) := by
  intro lexer stopped
  unfold parseLoop at stopped
  cases fuelEq : lexer.rest.length with
  | zero =>
      rw [fuelEq] at stopped
      exact failed_ne_overrun (fail_error_iff.mp stopped)
  | succ fuel =>
      rw [fuelEq] at stopped
      unfold doWhile at stopped
      rw [bind_error_of_avoids_first parseUpdateItem_inRange] at stopped
      obtain ⟨items, mid, itemEq, later⟩ := stopped
      -- the loop tests the current token, which is the literal
      have ended : (whileCurrentComma items : ParseM Bool) mid =
          .ok (decide (mid.tok = some .comma), mid) := rfl
      rw [bind_of_ok ended, decide_eq_false (parseUpdateItem_ends itemEq),
        if_neg (by simp)] at later
      exact absurd later pure_ne_error

theorem parseUpdate_inRange : Avoids .overrun parseUpdate := by
  apply Avoids.bind (expectCurrent_inRange _)
  intro _
  apply Avoids.bind (nextOf_inRange _)
  intro tableName
  apply Avoids.bind (expectNext_inRange _)
  intro _
  apply Avoids.bind parseUpdateItems_inRange
  intro items
  apply Avoids.bind parseOptionalWhere_inRange
  intro whereClause
  exact Avoids.pure

/-! ## Loops without a bound -/

/-- A loop over one-token items that goes on at every comma stores a sixth
item. -/
theorem everyComma_overrun_iff {α : Type} {accepts : SqlToken → Option α}
    {lexer : Lexer SqlToken} :
    parseLoop (oneTokenItem accepts) whileComma [] lexer = .error .overrun ↔
      ∃ (items : List (Accepted accepts)) (rest : List SqlToken),
        items.length = 6 ∧ lexer.rest = commaList Accepted.tokens items ++ rest := by
  have stops := @doWhile_error_iff _ _ _ _ _ .failed (oneTokenItem accepts)
    parsedArraySize (@Accepted.tokens α accepts) Accepted.item .comma
    (fun _ => true) (oneTokenItem_reader accepts) .overrun failed_ne_overrun
    oneTokenItem_overrun_iff (fun _ => rfl) lexer.rest.length [] lexer
    (Nat.le_refl _) one_token_ne (Nat.zero_le _)
  rw [List.length_nil] at stops
  unfold parseLoop
  refine stops.trans ?_
  constructor
  · rintro ⟨items, rest, count, restEq⟩
    exact ⟨items, rest, (Nat.zero_add _).symm.trans count, restEq⟩
  · rintro ⟨items, rest, count, restEq⟩
    exact ⟨items, rest, (Nat.zero_add _).trans count, restEq⟩

/-- `INSERT INTO "t" (` and six columns. -/
def SixInsertColumns (tokens : List SqlToken) : Prop :=
  ∃ (table : SqlString) (columns : List (Accepted quotedIdentifierText))
    (rest : List SqlToken), columns.length = 6 ∧
      tokens = [.insertKw, .quotedIdentifier table, .openParen] ++
        (commaList Accepted.tokens columns ++ rest)

/-- `SELECT` and six fields. -/
def SixSelectFields (tokens : List SqlToken) : Prop :=
  ∃ (fields : List (Accepted fieldText)) (rest : List SqlToken),
    fields.length = 6 ∧
      tokens = .selectKw :: (commaList Accepted.tokens fields ++ rest)

theorem parseInsert_overrun_iff {rest : List SqlToken} :
    parseInsert ⟨some .insertKw, rest⟩ = .error .overrun ↔
      SixInsertColumns (.insertKw :: rest) := by
  have behind : ∀ (tableName : SqlString) (columns : List SqlString),
      Avoids .overrun (do
        expectCurrent .closeParen
        expectNext .valuesKw
        expectNext .openParen
        let values ← parseLoop parseInsertValue whileCommaBelowFour []
        expectCurrent .closeParen
        pure (⟨some tableName, columns, values⟩ : SqlParsedInsert)) := by
    intro tableName columns
    apply Avoids.bind (expectCurrent_inRange _)
    intro _
    apply Avoids.bind (expectNext_inRange _)
    intro _
    apply Avoids.bind (expectNext_inRange _)
    intro _
    apply Avoids.bind parseInsertValues_inRange
    intro values
    apply Avoids.bind (expectCurrent_inRange _)
    intro _
    exact Avoids.pure
  unfold parseInsert
  rw [bind_of_ok current_apply, if_neg (by simp),
    bind_error_of_avoids_first (nextOf_inRange _)]
  constructor
  · rintro ⟨table, first, tableEq, stopped⟩
    rw [bind_error_of_avoids_first (expectNext_inRange _)] at stopped
    obtain ⟨_, second, openEq, stopped⟩ := stopped
    rw [bind_error_of_avoids (behind table)] at stopped
    obtain ⟨columns, extra, count, secondEq⟩ :=
      everyComma_overrun_iff.mp stopped
    obtain ⟨restEq, _⟩ := nextQuoted_ok_iff.mp tableEq
    obtain ⟨firstEq, _⟩ := expectNext_ok_iff.mp openEq
    change rest = _ at restEq
    refine ⟨table, columns, extra, count, ?_⟩
    rw [restEq, firstEq, secondEq]
    rfl
  · rintro ⟨table, columns, extra, count, tokensEq⟩
    have restEq : rest = .quotedIdentifier table :: .openParen ::
        (commaList Accepted.tokens columns ++ extra) :=
      (List.cons.inj tokensEq).2
    subst restEq
    refine ⟨table, _, nextQuoted_apply, ?_⟩
    rw [bind_of_ok expectNext_apply, bind_error_of_avoids (behind table)]
    exact everyComma_overrun_iff.mpr ⟨columns, extra, count, rfl⟩

theorem parseSelect_overrun_iff {rest : List SqlToken} :
    parseSelect ⟨some .selectKw, rest⟩ = .error .overrun ↔
      SixSelectFields (.selectKw :: rest) := by
  have behind : ∀ fields : List SqlString, Avoids .overrun (do
      expectCurrent .fromKw
      let tableName ← nextOf quotedIdentifierText
      let whereClause ← parseOptionalWhere
      pure (⟨some tableName, fields, whereClause⟩ : SqlParsedSelect)) := by
    intro fields
    apply Avoids.bind (expectCurrent_inRange _)
    intro _
    apply Avoids.bind (nextOf_inRange _)
    intro tableName
    apply Avoids.bind parseOptionalWhere_inRange
    intro whereClause
    exact Avoids.pure
  unfold parseSelect
  rw [bind_of_ok expectCurrent_apply, bind_error_of_avoids behind]
  refine everyComma_overrun_iff.trans ?_
  constructor
  · rintro ⟨fields, extra, count, restEq⟩
    exact ⟨fields, extra, count, congrArg _ restEq⟩
  · rintro ⟨fields, extra, count, tokensEq⟩
    exact ⟨fields, extra, count, (List.cons.inj tokensEq).2⟩

/-! ## Every token list -/

theorem parseAs_overrun_iff {α : Type} {parser : ParseM α} {type : α → SqlParse}
    {lexer : Lexer SqlToken} :
    parseAs parser type lexer = .error .overrun ↔
      parser lexer = .error .overrun := by
  unfold parseAs
  cases parser lexer with
  | ok pair => exact ⟨nofun, nofun⟩
  | error stop =>
      cases stop with
      | failed => exact ⟨nofun, nofun⟩
      | overrun => exact ⟨fun _ => rfl, fun _ => rfl⟩

/-- The parser stores out of range exactly for six columns of an `INSERT` and
six fields of a `SELECT`. -/
theorem sqlParseCreate_inRange_iff (tokens : List SqlToken) :
    sqlParseCreate tokens ≠ .error .overrun ↔
      ¬ SixInsertColumns tokens ∧ ¬ SixSelectFields tokens := by
  rw [← not_or]
  apply not_congr
  have parsers : ∀ {α : Type} {parser : ParseM α} {type : α → SqlParse}
      {lexer : Lexer SqlToken}, Avoids .overrun parser →
      parseAs parser type lexer ≠ .error .overrun := by
    intro α parser type lexer inRange stopped
    exact inRange lexer (parseAs_overrun_iff.mp stopped)
  constructor
  · intro stopped
    unfold sqlParseCreate at stopped
    cases tokens with
    | nil => cases stopped
    | cons first rest =>
        simp only [List.head?_cons, List.tail_cons] at stopped
        cases first with
        | insertKw =>
            exact Or.inl (parseInsert_overrun_iff.mp
              (parseAs_overrun_iff.mp stopped))
        | selectKw =>
            exact Or.inr (parseSelect_overrun_iff.mp
              (parseAs_overrun_iff.mp stopped))
        | createTableKw => exact absurd stopped (parsers parseCreateTable_inRange)
        | updateKw => exact absurd stopped (parsers parseUpdate_inRange)
        | deleteKw => exact absurd stopped (parsers parseDelete_inRange)
        | _ => cases stopped
  · rintro (columns | fields)
    · have first := columns
      obtain ⟨table, items, extra, count, rfl⟩ := first
      exact parseAs_overrun_iff.mpr (parseInsert_overrun_iff.mpr columns)
    · have first := fields
      obtain ⟨items, extra, count, rfl⟩ := first
      exact parseAs_overrun_iff.mpr (parseSelect_overrun_iff.mpr fields)

/-- `SELECT a, a, a, a, a, a FROM "t"`. -/
def sixFields : List SqlToken :=
  .selectKw :: (separated .comma (List.replicate 6 [.identifier [97]]) ++
    [.fromKw, .quotedIdentifier [34, 116, 34]])

/-- The sixth field is stored behind the array. -/
theorem six_fields_overrun : ¬ sqlParseCreate sixFields ≠ .error .overrun := by
  rw [not_not]
  decide +kernel

end BtreeDb
