import Mathlib.Data.List.Basic

/-!
# Reading a token list

A hand-written parser reads tokens one by one and looks at the current one.
`Reader` is such a parser with its state and its errors, `doWhile` is its loop,
and the rules say which token lists a loop over separated items accepts, and on
which it stores an item out of range.
-/

namespace TokenReader

/-- The current token and those that are not read yet; no token is the end. -/
structure Lexer (τ : Type) where
  tok : Option τ
  rest : List τ
  deriving DecidableEq, Repr

/-- The state in which the next token is the current one. -/
def Lexer.advance {τ : Type} (lexer : Lexer τ) : Lexer τ where
  tok := lexer.rest.head?
  rest := lexer.rest.tail

theorem Lexer.rest_of_head? {τ : Type} (lexer : Lexer τ) {token : τ}
    (head : lexer.rest.head? = some token) :
    lexer.rest = token :: lexer.advance.rest := by
  unfold advance
  cases whole : lexer.rest with
  | nil =>
      rw [whole] at head
      cases head
  | cons first rest =>
      rw [whole] at head
      rw [Option.some.inj head]
      rfl

abbrev Reader (τ ε : Type) : Type → Type := StateT (Lexer τ) (Except ε)

section Primitives

variable {τ ε α β : Type}

def next : Reader τ ε (Option τ) :=
  fun lexer => .ok (lexer.advance.tok, lexer.advance)

def current : Reader τ ε (Option τ) :=
  fun lexer => .ok (lexer.tok, lexer)

def fail (error : ε) : Reader τ ε α :=
  fun _ => .error error

/-- The next token, if it is one of those that are accepted. -/
def nextItem (error : ε) (accepts : τ → Option α) : Reader τ ε α := do
  match (← next).bind accepts with
  | some item => pure item
  | none => fail error

/-- The end of a loop, or another turn.  The fuel is the number of tokens that
are left, and a turn reads one or more. -/
def doWhile {σ : Type} (error : ε) (body : σ → Reader τ ε σ)
    (again : σ → Reader τ ε Bool) : Nat → σ → Reader τ ε σ
  | 0, _ => fail error
  | fuel + 1, state => do
      let state ← body state
      if ← again state then doWhile error body again fuel state
      else pure state

/-- The store of an item in an array. -/
def storeInRange (error : ε) (size : Nat) (items : List β) :
    Reader τ ε Unit :=
  if items.length < size then pure () else fail error

variable {lexer later : Lexer τ} {error : ε}

theorem pure_ok_iff {value result : α} :
    (pure value : Reader τ ε α) lexer = .ok (result, later) ↔
      result = value ∧ later = lexer := by
  constructor
  · intro read
    have parts := Prod.mk.inj (Except.ok.inj read)
    exact ⟨parts.1.symm, parts.2.symm⟩
  · rintro ⟨rfl, rfl⟩
    rfl

theorem pure_ne_error {value : α} :
    (pure value : Reader τ ε α) lexer ≠ .error error := by
  intro failed
  cases failed

theorem fail_ne_ok {result : α} :
    (fail error : Reader τ ε α) lexer ≠ .ok (result, later) := by
  intro read
  cases read

theorem fail_error_iff {other : ε} :
    (fail error : Reader τ ε α) lexer = .error other ↔ error = other :=
  ⟨Except.error.inj, fun same => congrArg Except.error same⟩

theorem bind_ok_iff {read : Reader τ ε α} {cont : α → Reader τ ε β}
    {result : β} :
    (read >>= cont) lexer = .ok (result, later) ↔
      ∃ value mid, read lexer = .ok (value, mid) ∧
        cont value mid = .ok (result, later) := by
  have unfolded : (read >>= cont) lexer =
      (read lexer >>= fun pair => cont pair.1 pair.2) := rfl
  rw [unfolded]
  cases readEq : read lexer with
  | error other =>
      constructor
      · intro impossible
        cases impossible
      · rintro ⟨_, _, impossible, _⟩
        cases impossible
  | ok pair =>
      constructor
      · intro contEq
        exact ⟨pair.1, pair.2, rfl, contEq⟩
      · rintro ⟨value, mid, pairEq, contEq⟩
        rw [Except.ok.inj pairEq]
        exact contEq

theorem bind_error_iff {read : Reader τ ε α} {cont : α → Reader τ ε β} :
    (read >>= cont) lexer = .error error ↔
      read lexer = .error error ∨
        ∃ value mid, read lexer = .ok (value, mid) ∧
          cont value mid = .error error := by
  have unfolded : (read >>= cont) lexer =
      (read lexer >>= fun pair => cont pair.1 pair.2) := rfl
  rw [unfolded]
  cases readEq : read lexer with
  | error other =>
      constructor
      · intro failed
        exact Or.inl (congrArg Except.error (Except.error.inj failed))
      · rintro (failed | ⟨_, _, impossible, _⟩)
        · exact congrArg Except.error (Except.error.inj failed)
        · cases impossible
  | ok pair =>
      constructor
      · intro contEq
        exact Or.inr ⟨pair.1, pair.2, rfl, contEq⟩
      · rintro (impossible | ⟨value, mid, pairEq, contEq⟩)
        · cases impossible
        · rw [Except.ok.inj pairEq]
          exact contEq

theorem bind_of_ok {read : Reader τ ε α} {cont : α → Reader τ ε β} {value : α}
    {mid : Lexer τ} (readEq : read lexer = .ok (value, mid)) :
    (read >>= cont) lexer = cont value mid := by
  have unfolded : (read >>= cont) lexer =
      (read lexer >>= fun pair => cont pair.1 pair.2) := rfl
  rw [unfolded, readEq]
  rfl

theorem next_apply :
    (next : Reader τ ε (Option τ)) lexer =
      .ok (lexer.rest.head?, lexer.advance) := rfl

theorem nextItem_ok_iff {accepts : τ → Option α} {item : α} :
    nextItem error accepts lexer = .ok (item, later) ↔
      ∃ token, lexer.rest = token :: later.rest ∧ later.tok = some token ∧
        accepts token = some item := by
  unfold nextItem
  rw [bind_of_ok next_apply]
  obtain ⟨tok, rest⟩ := lexer
  cases rest with
  | nil =>
      constructor
      · intro impossible
        cases impossible
      · rintro ⟨_, impossible, _⟩
        cases impossible
  | cons token rest =>
      have unfolded : (List.head? (token :: rest)).bind accepts =
          accepts token := rfl
      rw [unfolded]
      cases accepted : accepts token with
      | none =>
          constructor
          · intro impossible
            cases impossible
          · rintro ⟨other, same, _, acceptedOther⟩
            rw [← (List.cons.inj same).1, accepted] at acceptedOther
            cases acceptedOther
      | some value =>
          constructor
          · intro read
            obtain ⟨rfl, rfl⟩ := pure_ok_iff.mp read
            exact ⟨token, rfl, rfl, accepted⟩
          · rintro ⟨other, same, tokEq, acceptedOther⟩
            obtain ⟨rfl, restEq⟩ := List.cons.inj same
            rw [accepted] at acceptedOther
            refine pure_ok_iff.mpr ⟨(Option.some.inj acceptedOther).symm, ?_⟩
            unfold Lexer.advance
            rw [restEq]
            cases later
            cases tokEq
            rfl

theorem nextItem_error {accepts : τ → Option α} {other : ε}
    (failed : nextItem error accepts lexer = .error other) :
    error = other := by
  unfold nextItem at failed
  rw [bind_of_ok next_apply] at failed
  cases accepted : lexer.rest.head?.bind accepts with
  | none =>
      rw [accepted] at failed
      exact fail_error_iff.mp failed
  | some value =>
      rw [accepted] at failed
      exact absurd failed pure_ne_error

theorem storeInRange_ok_iff {size : Nat} {items : List β} :
    storeInRange error size items lexer = .ok ((), later) ↔
      items.length < size ∧ later = lexer := by
  unfold storeInRange
  split
  · rename_i inside
    rw [pure_ok_iff]
    simp [inside]
  · rename_i outside
    simp [outside, fail_ne_ok]

theorem storeInRange_error_iff {size : Nat} {items : List β} {other : ε} :
    storeInRange error size items lexer = .error other ↔
      size ≤ items.length ∧ error = other := by
  unfold storeInRange
  split
  · rename_i inside
    constructor
    · intro failed
      exact absurd failed pure_ne_error
    · rintro ⟨outside, _⟩
      omega
  · rename_i outside
    rw [fail_error_iff]
    constructor
    · intro same
      exact ⟨Nat.le_of_not_lt outside, same⟩
    · rintro ⟨_, same⟩
      exact same

/-- The reader never ends with the error, from any state. -/
def Avoids (error : ε) (read : Reader τ ε α) : Prop :=
  ∀ lexer, read lexer ≠ .error error

theorem Avoids.pure {value : α} :
    Avoids error (pure value : Reader τ ε α) :=
  fun _ => pure_ne_error

theorem Avoids.fail {other : ε} (apart : other ≠ error) :
    Avoids error (fail other : Reader τ ε α) :=
  fun _ failed => apart (fail_error_iff.mp failed)

theorem Avoids.bind {read : Reader τ ε α} {cont : α → Reader τ ε β}
    (first : Avoids error read) (later : ∀ value, Avoids error (cont value)) :
    Avoids error (read >>= cont) := by
  intro lexer failed
  rcases bind_error_iff.mp failed with stopped | ⟨value, mid, _, stopped⟩
  · exact first lexer stopped
  · exact later value mid stopped

theorem Avoids.next : Avoids error (next : Reader τ ε (Option τ)) :=
  fun _ failed => nomatch failed

theorem Avoids.current : Avoids error (current : Reader τ ε (Option τ)) :=
  fun _ failed => nomatch failed

theorem Avoids.nextItem {other : ε} {accepts : τ → Option α}
    (apart : other ≠ error) : Avoids error (nextItem other accepts) :=
  fun _ failed => apart (nextItem_error failed)

/-- What a bind may stop with, when only its first part may. -/
theorem bind_error_of_avoids {read : Reader τ ε α} {cont : α → Reader τ ε β}
    (later : ∀ value, Avoids error (cont value)) :
    (read >>= cont) lexer = .error error ↔ read lexer = .error error := by
  rw [bind_error_iff]
  constructor
  · rintro (stopped | ⟨value, mid, _, stopped⟩)
    · exact stopped
    · exact absurd stopped (later value mid)
  · exact Or.inl

/-- What a bind may stop with, when its first part may not. -/
theorem bind_error_of_avoids_first {read : Reader τ ε α}
    {cont : α → Reader τ ε β} (first : Avoids error read) :
    (read >>= cont) lexer = .error error ↔
      ∃ value mid, read lexer = .ok (value, mid) ∧
        cont value mid = .error error := by
  rw [bind_error_iff]
  constructor
  · rintro (stopped | continued)
    · exact absurd stopped (first lexer)
    · exact continued
  · exact Or.inr

end Primitives

/-! ## Separated items -/

section Separated

variable {τ ε α β : Type}

/-- The items behind each other, with a separator between them. -/
def separated (sep : τ) : List (List τ) → List τ
  | [] => []
  | [item] => item
  | item :: other :: items => item ++ sep :: separated sep (other :: items)

theorem separated_cons (sep : τ) (item : List τ) {items : List (List τ)}
    (some_ : items ≠ []) :
    separated sep (item :: items) = item ++ sep :: separated sep items := by
  cases items with
  | nil => exact absurd rfl some_
  | cons other items => rfl

/-- Items of one length, with a separator after each but the last. -/
theorem separated_length (sep : τ) {size : Nat} :
    ∀ {items : List (List τ)}, (∀ item ∈ items, item.length = size) →
      (separated sep items).length = items.length * (size + 1) - 1
  | [], _ => by simp [separated]
  | [item], same => by
      have first := same item List.mem_cons_self
      simp [separated, first]
  | item :: other :: items, same => by
      have first := same item List.mem_cons_self
      have rest := @separated_length sep size (other :: items)
        fun later member => same later (List.mem_cons_of_mem _ member)
      have unfolded : (items.length + 1 + 1) * (size + 1) =
          (items.length + 1) * (size + 1) + (size + 1) := Nat.succ_mul _ _
      have positive : 0 < (items.length + 1) * (size + 1) :=
        Nat.mul_pos (Nat.succ_pos _) (Nat.succ_pos _)
      simp only [separated, List.length_append, List.length_cons] at rest ⊢
      rw [rest, first, unfolded]
      omega

theorem mem_separated {sep token : τ} :
    ∀ {items : List (List τ)}, token ∈ separated sep items →
      token = sep ∨ ∃ item ∈ items, token ∈ item
  | [], member => by cases member
  | [item], member => Or.inr ⟨item, List.mem_cons_self, member⟩
  | item :: other :: items, member => by
      rw [separated] at member
      rcases List.mem_append.mp member with first | later
      · exact Or.inr ⟨item, List.mem_cons_self, first⟩
      · rcases List.mem_cons.mp later with isSep | behind
        · exact Or.inl isSep
        · rcases mem_separated behind with isSep | ⟨found, isItem, inside⟩
          · exact Or.inl isSep
          · exact Or.inr ⟨found, List.mem_cons_of_mem _ isItem, inside⟩

/-- Reading one item: its tokens, and what is stored of it. -/
structure ItemReader (body : List β → Reader τ ε (List β)) (size : Nat)
    (tokens : α → List τ) (stored : α → β) : Prop where
  ok_iff : ∀ {items items' lexer later},
    body items lexer = .ok (items', later) ↔
      items.length < size ∧ ∃ item, lexer.rest = tokens item ++ later.rest ∧
        later.tok = (tokens item).getLast? ∧ items' = items ++ [stored item]

/-- Another turn when the next token is the separator and there is to be
more. -/
def nextIsSep [DecidableEq τ] (sep : τ) (more : Nat → Bool)
    (items : List β) : Reader τ ε Bool := do
  let token ← next
  pure (decide (token = some sep) && more items.length)

section Loop

variable [DecidableEq τ] {error : ε} {body : List β → Reader τ ε (List β)}
variable {size : Nat} {tokens : α → List τ} {stored : α → β} {sep : τ}
variable {more : Nat → Bool}

theorem nextIsSep_apply {items : List β} {lexer : Lexer τ} :
    (nextIsSep sep more items : Reader τ ε Bool) lexer =
      .ok (decide (lexer.rest.head? = some sep) && more items.length,
        lexer.advance) := rfl

/-- What a loop has read: one item or more, and the token behind them. -/
theorem doWhile_sound (reader : ItemReader body size tokens stored) :
    ∀ {fuel : Nat} {items items' : List β} {lexer later : Lexer τ},
      doWhile error body (nextIsSep sep more) fuel items lexer =
        .ok (items', later) →
      ∃ found tail, found ≠ [] ∧
        lexer.rest = separated sep (found.map tokens) ++ tail ∧
        later = ⟨tail.head?, tail.tail⟩ ∧
        items' = items ++ found.map stored ∧ items'.length ≤ size ∧
        ∀ count, items.length < count → count < items'.length →
          more count = true := by
  intro fuel
  induction fuel with
  | zero =>
      intro items items' lexer later read
      exact absurd read fail_ne_ok
  | succ fuel inductionHypothesis =>
      intro items items' lexer later read
      unfold doWhile at read
      obtain ⟨middle, mid, bodyEq, read⟩ := bind_ok_iff.mp read
      obtain ⟨room, item, restEq, _, rfl⟩ := reader.ok_iff.mp bodyEq
      rw [bind_of_ok nextIsSep_apply] at read
      cases another : decide (mid.rest.head? = some sep) &&
          more (items ++ [stored item]).length with
      | false =>
          rw [another, if_neg (by simp)] at read
          obtain ⟨rfl, rfl⟩ := pure_ok_iff.mp read
          refine ⟨[item], mid.rest, by simp, restEq, rfl, rfl, ?_, ?_⟩
          · rw [List.length_append, List.length_singleton]
            omega
          · intro count low high
            rw [List.length_append, List.length_singleton] at high
            omega
      | true =>
          rw [another, if_pos rfl] at read
          obtain ⟨isSep, goesOn⟩ := Bool.and_eq_true_iff.mp another
          have headEq := of_decide_eq_true isSep
          obtain ⟨found, tail, some_, laterRest, laterEq, itemsEq, bound,
            moreAll⟩ := inductionHypothesis read
          have restCons := mid.rest_of_head? headEq
          refine ⟨item :: found, tail, by simp, ?_, laterEq, ?_, bound, ?_⟩
          · rw [restEq, restCons, laterRest, List.map_cons,
              separated_cons sep _ (by simpa using some_), List.append_assoc]
            rfl
          · rw [itemsEq, List.map_cons, List.append_assoc]
            rfl
          · intro count low high
            by_cases first : count = (items ++ [stored item]).length
            · rw [first]
              exact goesOn
            · apply moreAll count _ high
              rw [List.length_append, List.length_singleton] at first ⊢
              omega

/-- Items that a loop reads: the array has room for them, the loop goes on
after each but the last, and no separator follows. -/
theorem doWhile_complete (reader : ItemReader body size tokens stored) :
    ∀ {found : List α} {fuel : Nat} {items : List β} {lexer : Lexer τ}
      {tail : List τ}, found ≠ [] → found.length ≤ fuel →
      lexer.rest = separated sep (found.map tokens) ++ tail →
      tail.head? ≠ some sep → items.length + found.length ≤ size →
      (∀ count, items.length < count → count < items.length + found.length →
        more count = true) →
      doWhile error body (nextIsSep sep more) fuel items lexer =
        .ok (items ++ found.map stored, ⟨tail.head?, tail.tail⟩)
  | [], _, _, _, _, some_, _, _, _, _, _ => absurd rfl some_
  | item :: found, 0, _, _, _, _, fuelEq, _, _, _, _ => by simp at fuelEq
  | item :: found, fuel + 1, items, lexer, tail, _, fuelEq, restEq, notSep,
      room, moreAll => by
      rw [List.length_cons] at room fuelEq
      unfold doWhile
      by_cases last : found = []
      · subst last
        have bodyEq : body items lexer =
            .ok (items ++ [stored item],
              ⟨(tokens item).getLast?, tail⟩) :=
          reader.ok_iff.mpr ⟨by omega, item, restEq, rfl, rfl⟩
        rw [bind_of_ok bodyEq, bind_of_ok nextIsSep_apply,
          decide_eq_false notSep, Bool.false_and, if_neg (by simp)]
        rfl
      · have mapSome : found.map tokens ≠ [] := by simpa using last
        rw [List.map_cons, separated_cons sep _ mapSome,
          List.append_assoc] at restEq
        have bodyEq : body items lexer =
            .ok (items ++ [stored item], ⟨(tokens item).getLast?,
              sep :: (separated sep (found.map tokens) ++ tail)⟩) :=
          reader.ok_iff.mpr ⟨by omega, item, restEq, rfl, rfl⟩
        have notLast : 0 < found.length := List.length_pos_iff.mpr last
        have goesOn : more (items ++ [stored item]).length = true := by
          apply moreAll
          · rw [List.length_append, List.length_singleton]
            omega
          · rw [List.length_append, List.length_singleton, List.length_cons]
            omega
        have others := @doWhile_complete reader found fuel
          (items ++ [stored item])
          ⟨some sep, separated sep (found.map tokens) ++ tail⟩ tail last
          (by omega) rfl notSep
          (by rw [List.length_append, List.length_singleton]; omega)
          (by
            intro count low high
            rw [List.length_append, List.length_singleton] at low high
            apply moreAll count (by omega)
            rw [List.length_cons]
            omega)
        rw [bind_of_ok bodyEq, bind_of_ok nextIsSep_apply]
        have headEq : (sep :: (separated sep (found.map tokens) ++
            tail)).head? = some sep := rfl
        rw [headEq, decide_eq_true rfl, goesOn, Bool.and_self, if_pos rfl]
        have advanced : (⟨(tokens item).getLast?,
            sep :: (separated sep (found.map tokens) ++ tail)⟩ :
              Lexer τ).advance =
            ⟨some sep, separated sep (found.map tokens) ++ tail⟩ := rfl
        rw [advanced, others, List.map_cons, List.append_assoc]
        rfl

/-- A loop that goes on at every separator stores out of range exactly when
there is an item too many. -/
theorem doWhile_error_iff (reader : ItemReader body size tokens stored)
    {range : ε} (apart : error ≠ range)
    (body_error : ∀ {items : List β} {lexer : Lexer τ},
      body items lexer = .error range ↔ size ≤ items.length ∧
        ∃ item rest, lexer.rest = tokens item ++ rest)
    (always : ∀ count, more count = true) :
    ∀ {fuel : Nat} {items : List β} {lexer : Lexer τ},
      lexer.rest.length ≤ fuel → (∀ item, tokens item ≠ []) →
      items.length ≤ size →
      (doWhile error body (nextIsSep sep more) fuel items lexer =
          .error range ↔
        ∃ (found : List α) (rest : List τ),
          items.length + found.length = size + 1 ∧
          lexer.rest = separated sep (found.map tokens) ++ rest) := by
  intro fuel
  induction fuel with
  | zero =>
      intro items lexer fuelEq nonempty room
      have empty := List.eq_nil_of_length_eq_zero (Nat.le_zero.mp fuelEq)
      constructor
      · intro failed
        exact absurd (fail_error_iff.mp failed) apart
      · rintro ⟨found, rest, count, restEq⟩
        exfalso
        cases found with
        | nil =>
            rw [List.length_nil] at count
            omega
        | cons item found =>
            rw [empty] at restEq
            cases found with
            | nil =>
                have itemEmpty := (List.append_eq_nil_iff.mp restEq.symm).1
                exact nonempty item itemEmpty
            | cons other found =>
                have itemEmpty := (List.append_eq_nil_iff.mp
                  (List.append_eq_nil_iff.mp restEq.symm).1).1
                exact nonempty item itemEmpty
  | succ fuel inductionHypothesis =>
      intro items lexer fuelEq nonempty room
      unfold doWhile
      rw [bind_error_iff, body_error]
      constructor
      · rintro (⟨full, item, rest, restEq⟩ | ⟨middle, mid, bodyEq, failed⟩)
        · refine ⟨[item], rest, ?_, restEq⟩
          rw [List.length_singleton]
          omega
        · obtain ⟨inside, item, restEq, _, rfl⟩ := reader.ok_iff.mp bodyEq
          rw [bind_of_ok nextIsSep_apply, always, Bool.and_true] at failed
          by_cases isSep : mid.rest.head? = some sep
          · rw [decide_eq_true isSep, if_pos rfl] at failed
            have restCons := mid.rest_of_head? isSep
            have shorter : mid.advance.rest.length ≤ fuel := by
              have lengths := congrArg List.length restEq
              have lengths' := congrArg List.length restCons
              rw [List.length_append] at lengths
              rw [List.length_cons] at lengths'
              omega
            obtain ⟨found, rest, count, laterEq⟩ :=
              (inductionHypothesis shorter nonempty (by
                rw [List.length_append, List.length_singleton]
                omega)).mp failed
            rw [List.length_append, List.length_singleton] at count
            have some_ : found.map tokens ≠ [] := by
              intro none
              rw [List.map_eq_nil_iff.mp none, List.length_nil] at count
              omega
            refine ⟨item :: found, rest, ?_, ?_⟩
            · rw [List.length_cons]
              omega
            · rw [restEq, restCons, laterEq, List.map_cons,
                separated_cons sep _ some_, List.append_assoc]
              rfl
          · rw [decide_eq_false isSep, if_neg (by simp)] at failed
            exact absurd failed pure_ne_error
      · rintro ⟨found, rest, count, restEq⟩
        cases found with
        | nil =>
            rw [List.length_nil] at count
            omega
        | cons item found =>
            rw [List.length_cons] at count
            by_cases full : items.length = size
            · left
              have none : found = [] := by
                apply List.eq_nil_of_length_eq_zero
                omega
              subst none
              exact ⟨Nat.le_of_eq full.symm, item, rest, restEq⟩
            · right
              have some_ : found.map tokens ≠ [] := by
                intro none
                rw [List.map_eq_nil_iff.mp none, List.length_nil] at count
                omega
              rw [List.map_cons, separated_cons sep _ some_,
                List.append_assoc] at restEq
              have bodyEq : body items lexer =
                  .ok (items ++ [stored item], ⟨(tokens item).getLast?,
                    sep :: (separated sep (found.map tokens) ++ rest)⟩) :=
                reader.ok_iff.mpr ⟨by omega, item, restEq, rfl, rfl⟩
              have shorter :
                  (separated sep (found.map tokens) ++ rest).length ≤ fuel := by
                have lengths := congrArg List.length restEq
                rw [List.length_append, List.cons_append,
                  List.length_cons] at lengths
                omega
              refine ⟨_, _, bodyEq, ?_⟩
              rw [bind_of_ok nextIsSep_apply, always, Bool.and_true]
              have headEq : (sep :: (separated sep (found.map tokens) ++
                  rest)).head? = some sep := rfl
              rw [headEq, decide_eq_true rfl, if_pos rfl]
              apply (inductionHypothesis shorter nonempty (by
                rw [List.length_append, List.length_singleton]
                omega)).mpr
              refine ⟨found, rest, ?_, rfl⟩
              rw [List.length_append, List.length_singleton]
              omega

/-- A loop that ends before its array is full never stores out of range. -/
theorem doWhile_in_range (reader : ItemReader body size tokens stored)
    {range : ε} (apart : error ≠ range)
    (body_error : ∀ {items : List β} {lexer : Lexer τ},
      body items lexer = .error range → size ≤ items.length)
    (few : ∀ count, more count = true → count < size) :
    ∀ {fuel : Nat} {items : List β} {lexer : Lexer τ}, items.length < size →
      doWhile error body (nextIsSep sep more) fuel items lexer ≠
        .error range := by
  intro fuel
  induction fuel with
  | zero =>
      intro items lexer _ failed
      exact apart (fail_error_iff.mp failed)
  | succ fuel inductionHypothesis =>
      intro items lexer room failed
      unfold doWhile at failed
      rcases bind_error_iff.mp failed with full | ⟨middle, mid, bodyEq, later⟩
      · exact absurd (body_error full) (Nat.not_le_of_lt room)
      · obtain ⟨_, item, _, _, rfl⟩ := reader.ok_iff.mp bodyEq
        rw [bind_of_ok nextIsSep_apply] at later
        cases another : decide (mid.rest.head? = some sep) &&
            more (items ++ [stored item]).length with
        | false =>
            rw [another, if_neg (by simp)] at later
            exact absurd later pure_ne_error
        | true =>
            rw [another, if_pos rfl] at later
            have goesOn := (Bool.and_eq_true_iff.mp another).2
            exact inductionHypothesis (few _ goesOn) later

end Loop

end Separated

end TokenReader
