import BtreeDb.Index.SchemaRun

/-!
# One window of a comparison

A turn in a column, of either type, and from it a window: it decides the
comparison or leaves the context standing where the window ended.
-/

namespace BtreeDb

open Bytes

/-! ## One turn -/

section Turn

variable {memcmp : Memcmp} {payload : List UInt8}
  {columns : List ComparedColumn} {keyOffset index : Nat}
  {ctx : IBTLSCompareContext} {column : ComparedColumn}
  {current : VarsizeKeyState} {window rest after : List UInt8}
  {cuts : List Nat} {start lwnd seen bytesCompared cmpOffset outBytes : Nat}

/-- A `fixed` column that is compared is the last one, and equal. -/
theorem ColumnCompares.fixed_last
    (compares : ColumnCompares memcmp columns index column)
    (fixed : column.definition.type = .fixed) :
    index + 1 = columns.length ∧ column.stored = column.key := by
  rcases compares.varsize with varsize | last
  · rw [fixed] at varsize
    exact absurd varsize (by decide)
  · exact last

theorem definition_at (stands : Stands payload columns keyOffset ctx index
    current) (here : columns[index]? = some column) :
    ctx.schema.keyDefinitions.getD ctx.currKey ⟨.invalid, 0⟩ =
      column.definition := by
  rw [stands.definitions, stands.currKey, List.getD_eq_getElem?_getD,
    List.getElem?_map, here]
  rfl

/-- The state of a `fixed` column, of which nothing is compared. -/
def VarsizeKeyState.fixed : VarsizeKeyState := ⟨[], 0, true, 0⟩

theorem configureKey_fixed
    (stands : Stands payload columns keyOffset ctx index current)
    (here : columns[index]? = some column)
    (progress : Progress column seen current)
    (fixed : column.definition.type = .fixed) :
    configureKey ctx window lwnd = .ok (.fixed, lwnd) := by
  have rkeySize := (stands.key here).fixed fixed
  have nothingSeen : current = .zero := by
    cases progress with
    | inBytes typed =>
        rw [fixed] at typed
        exact absurd typed (by decide)
    | inLength few typed =>
        rcases typed with none | varsize
        · rw [none]
          rfl
        · rw [fixed] at varsize
          exact absurd varsize (by decide)
  unfold configureKey
  rw [definition_at stands here, fixed]
  simp only [stands.currKey, stands.here, nothingSeen, rkeySize]
  rfl

theorem intMinimum_zero {left : Nat} (small : left < 2 ^ 31) :
    intMinimum left 0 = 0 := by
  rw [intMinimum_eq small (Nat.two_pow_pos 31), Nat.min_zero]
  rfl

/-- A turn that finds bytes goes on to compare them. -/
theorem compareTurn_found {next : IBTLSCompareContext} {cmpBytes : KeyBytes}
    (found : cmpbytes ctx window bytesCompared cmpOffset =
      .ok (next, cmpBytes))
    (there : cmpBytes.notInWindow = false) :
    compareTurn memcmp ctx window payload bytesCompared cmpOffset outBytes =
      compareBytes memcmp next window payload cmpOffset outBytes cmpBytes := by
  unfold compareTurn
  rw [found]
  simp only [bind, Except.bind, there, Bool.false_eq_true, if_false]

theorem cmpbytes_fixed
    (configured : configureKey ctx window lwnd = .ok (.fixed, lwnd))
    (skip : skipHeader ctx window bytesCompared cmpOffset = some lwnd)
    (lwndLe : lwnd ≤ window.length) (windowFits : window.length < 2 ^ 31) :
    ∃ cmpBytes, cmpbytes ctx window bytesCompared cmpOffset =
        .ok (ctx.setVarkey .fixed, cmpBytes) ∧
      cmpBytes.nbytes = 0 ∧ cmpBytes.notInWindow = false := by
  have noBytes : intMinimum (u32Sub window.length lwnd)
      (u32Sub VarsizeKeyState.fixed.keySize
        VarsizeKeyState.fixed.consumedSize) = 0 := by
    have none : u32Sub VarsizeKeyState.fixed.keySize
        VarsizeKeyState.fixed.consumedSize = 0 :=
      u32Sub_eq (Nat.le_refl 0) (Nat.two_pow_pos 32)
    rw [none, u32Sub_eq lwndLe (by omega)]
    exact intMinimum_zero (by omega)
  have ready : VarsizeKeyState.fixed.ready = true := rfl
  unfold cmpbytes
  rw [skip]
  simp only [configured, bind, Except.bind, pure, Except.pure, ready, if_true]
  exact ⟨_, rfl, noBytes, rfl⟩

/-- A `fixed` column, when it is the last one, ends the comparison. -/
theorem compareBytes_fixed
    (stands : Stands payload columns keyOffset ctx index .fixed)
    (here : columns[index]? = some column)
    (rkeySize : (ctx.rkey index).rkeySize = 0)
    (last : index + 1 = columns.length) {cmpBytes : KeyBytes}
    (noBytes : cmpBytes.nbytes = 0) :
    ∃ after bytes, compareBytes memcmp ctx window payload cmpOffset outBytes
        cmpBytes = .ok (.returns after ⟨0, bytes, 0⟩) := by
  have consumed : ctx.consumedKey 0 = .fixed := by
    unfold IBTLSCompareContext.consumedKey
    rw [stands.currKey, stands.here]
    rfl
  have ended : (ctx.consumedKey 0).consumedSize =
      (ctx.rkey ctx.currKey).rkeySize := by
    rw [consumed, stands.currKey]
    exact rkeySize.symm
  have endStands := stands.consume_ended here ended
  obtain ⟨bytes, finishEq⟩ := @finishTurn_last ctx cmpBytes cmpOffset outBytes
    0 ended (by rw [endStands.currKey, endStands.count, last])
  rw [consumed, if_pos (show VarsizeKeyState.fixed.consumedSize =
    VarsizeKeyState.fixed.keySize from rfl)] at finishEq
  have nothing : intMinimum (u32Sub (ctx.rkey ctx.currKey).rkeySize
      (ctx.varkey ctx.currKey).consumedSize)
      (BitVec.ofInt 32 cmpBytes.nbytes).toNat = (0 : Nat) := by
    have noWord : (BitVec.ofInt 32 cmpBytes.nbytes).toNat = 0 := by
      rw [noBytes]
      exact toNat_ofInt_small (Nat.two_pow_pos 32)
    have none : u32Sub 0 VarsizeKeyState.fixed.consumedSize = 0 :=
      u32Sub_eq (Nat.le_refl 0) (Nat.two_pow_pos 32)
    rw [stands.currKey, stands.here, rkeySize, none, noWord]
    exact intMinimum_zero (Nat.two_pow_pos 31)
  have equal : memcmp.run [] [] = 0 :=
    (memcmp.zero_iff rfl).mpr Std.ReflOrd.compare_self
  refine ⟨ctx.consume 0, bytes, ?_⟩
  unfold compareBytes memcmpBytes
  simp only [nothing, bind, Except.bind]
  rw [if_pos ⟨Int.natCast_nonneg _, Int.natCast_nonneg _,
    Int.natCast_nonneg _⟩]
  simp only [Int.toNat_natCast, List.take_zero, equal]
  exact finishEq

/-- A turn in a `fixed` column: nothing of it is compared. -/
theorem compareTurn_fixed
    (compares : ComparesInWindows memcmp columns keyOffset cuts)
    (stands : Stands payload columns keyOffset ctx index current)
    (before : EqualBefore columns index)
    (here : columns[index]? = some column)
    (progress : Progress column seen current)
    (fixed : column.definition.type = .fixed)
    (skip : skipHeader ctx window bytesCompared cmpOffset = some lwnd)
    (lwndLe : lwnd ≤ window.length) (windowFits : window.length < 2 ^ 31) :
    ∃ turn, compareTurn memcmp ctx window payload bytesCompared cmpOffset
        outBytes = .ok turn ∧
      TurnOutcome payload columns keyOffset window start lwnd cmpOffset index
        turn := by
  obtain ⟨last, same⟩ := (compares.column before here).fixed_last fixed
  obtain ⟨cmpBytes, found, noBytes, there⟩ := cmpbytes_fixed
    (configureKey_fixed stands here progress fixed) skip lwndLe windowFits
  obtain ⟨after, bytes, compareEq⟩ := @compareBytes_fixed memcmp payload
    columns keyOffset index _ column window cmpOffset outBytes
    (stands.set here .fixed) here ((stands.key here).fixed fixed) last _
    noBytes
  have order : (0 : Int) = signOf (compareColumns columns) := by
    rw [compareColumns_last before here last, same, Std.ReflOrd.compare_self]
    rfl
  refine ⟨_, (compareTurn_found found there).trans compareEq, ?_⟩
  rw [order]
  exact .decided (.inr rfl)

/-- A turn in a `varsize` column. -/
theorem compareTurn_varsize
    (compares : ComparesInWindows memcmp columns keyOffset cuts)
    (stands : Stands payload columns keyOffset ctx index current)
    (before : EqualBefore columns index)
    (here : columns[index]? = some column)
    (progress : Progress column seen current)
    (varsize : column.definition.type = .varsize)
    (skip : skipHeader ctx window bytesCompared cmpOffset = some lwnd)
    (stream : window.drop lwnd ++ rest =
      (encodeColumn column.definition column.stored).drop seen ++ after)
    (place : start + lwnd = columnStart columns keyOffset index + seen)
    (lwndLe : lwnd ≤ window.length) (begun : lwnd < window.length ∨ seen = 0)
    (cut : start + window.length ∈ cuts)
    (windowFits : window.length < 2 ^ 31)
    (storedFits : column.stored.length < 2 ^ 31)
    (keyFits : column.key.length < 2 ^ 31) :
    ∃ turn, compareTurn memcmp ctx window payload bytesCompared cmpOffset
        outBytes = .ok turn ∧
      TurnOutcome payload columns keyOffset window start lwnd cmpOffset index
        turn := by
  have restLength : (window.drop lwnd).length = window.length - lwnd :=
    List.length_drop
  have configured : configureKey ctx window lwnd =
      .ok (consumeVarsizeBytes current window lwnd) := by
    unfold configureKey
    rw [definition_at stands here, varsize]
    simp only [stands.currKey, stands.here]
  by_cases enough : 4 ≤ seen + (window.drop lwnd).length
  · obtain ⟨lenBytes, consumed, nextStream⟩ := consumeVarsizeBytes_whole
      progress varsize stream enough (by omega)
    have nextStands := stands.set here
      ⟨lenBytes, column.stored.length, true, seen - 4⟩
    have states : column.stored.take (seen - 4) = column.key.take (seen - 4) ∧
        (seen - 4 = 0 ∨ seen - 4 < column.stored.length ∧
          seen - 4 < column.key.length) := by
      cases progress with
      | inLength few =>
          rw [show seen - 4 = 0 by omega]
          exact ⟨rfl, .inl rfl⟩
      | inBytes typed begun short keyShort same =>
          rw [Nat.add_sub_cancel_left]
          exact ⟨same, .inr ⟨short, keyShort⟩⟩
    have doneLe : seen - 4 ≤ column.stored.length := by omega
    have count : intMinimum (u32Sub window.length (lwnd + (4 - seen)))
        (u32Sub column.stored.length (seen - 4)) =
        (min (window.length - (lwnd + (4 - seen)))
          (column.stored.length - (seen - 4)) : Nat) := by
      rw [u32Sub_eq (by omega) (by omega), u32Sub_eq doneLe (by omega),
        intMinimum_eq (by omega) (by omega)]
    have hasMore : (lwnd + (4 - seen) + (BitVec.ofInt 32
        (min (window.length - (lwnd + (4 - seen)))
          (column.stored.length - (seen - 4)) : Nat)).toNat) % 2 ^ 32 =
        lwnd + (4 - seen) + min (window.length - (lwnd + (4 - seen)))
          (column.stored.length - (seen - 4)) := by
      rw [toNat_ofInt_small (by omega), Nat.mod_eq_of_lt (by omega)]
    have found : cmpbytes ctx window bytesCompared cmpOffset =
        .ok (ctx.setVarkey ⟨lenBytes, column.stored.length, true, seen - 4⟩,
          ⟨(min (window.length - (lwnd + (4 - seen)))
              (column.stored.length - (seen - 4)) : Nat),
            lwnd + (4 - seen), false,
            decide (lwnd + (4 - seen) +
              min (window.length - (lwnd + (4 - seen)))
                (column.stored.length - (seen - 4)) < window.length)⟩) := by
      unfold cmpbytes
      rw [skip]
      simp only [configured, consumed, bind, Except.bind, pure, Except.pure,
        if_true, count, hasMore]
    obtain ⟨turn, run, outcome⟩ := compareBytes_run cmpOffset outBytes compares
      nextStands before here varsize nextStream states.1 states.2 (by omega)
      (by omega) (by omega) cut windowFits storedFits keyFits
    exact ⟨turn, (compareTurn_found found rfl).trans run,
      outcome.mono (by omega)⟩
  · have consumed := consumeVarsizeBytes_short progress varsize stream
      (by omega)
    have turnEq : compareTurn memcmp ctx window payload bytesCompared cmpOffset
        outBytes =
        .ok (.returns (ctx.setVarkey
          ⟨(le32 column.stored.length).take (seen + (window.drop lwnd).length),
            0, false, 0⟩) ⟨0, window.length, 1⟩) := by
      unfold compareTurn cmpbytes
      rw [skip]
      simp only [configured, consumed, bind, Except.bind, pure, Except.pure,
        Bool.false_eq_true, if_false, if_true]
    exact ⟨_, turnEq, .waits (stands.set here _) before here
      (.inLength (by omega) (.inr varsize)) (by omega) lwndLe (by decide)⟩

end Turn

/-! ## One window -/

/-- Between two windows the context stands where the record goes on: in the
header, or in a column. -/
inductive Waits (payload : List UInt8) (columns : List ComparedColumn)
    (keyOffset position bytesCompared : Nat) (ctx : IBTLSCompareContext) : Prop
  | inHeader {column : ComparedColumn}
      (stands : Stands payload columns keyOffset ctx 0 .zero)
      (here : columns[0]? = some column) (inside : position < keyOffset)
      (counted : bytesCompared = position) :
      Waits payload columns keyOffset position bytesCompared ctx
  | inColumn {index seen : Nat} {column : ComparedColumn}
      {current : VarsizeKeyState}
      (stands : Stands payload columns keyOffset ctx index current)
      (before : EqualBefore columns index)
      (here : columns[index]? = some column)
      (progress : Progress column seen current)
      (place : position = columnStart columns keyOffset index + seen)
      (counted : keyOffset ≤ bytesCompared) :
      Waits payload columns keyOffset position bytesCompared ctx

theorem Waits.initted {payload : List UInt8} {columns : List ComparedColumn}
    {keyOffset position bytesCompared : Nat} {ctx : IBTLSCompareContext}
    (waits : Waits payload columns keyOffset position bytesCompared ctx) :
    ctx.initted = true := by
  cases waits with
  | inHeader stands => exact stands.initted
  | inColumn stands => exact stands.initted

/-- What a window gives: the order of the columns, or nothing yet. -/
inductive WindowCompared (payload : List UInt8) (columns : List ComparedColumn)
    (keyOffset position bytesCompared : Nat) :
    IBTLSCompareContext → SchemaCompared → Prop
  | decided {ctx : IBTLSCompareContext} {bytes remaining : Nat}
      (last : signOf (compareColumns columns) ≠ 0 ∨ remaining = 0) :
      WindowCompared payload columns keyOffset position bytesCompared ctx
        ⟨signOf (compareColumns columns), bytes, remaining⟩
  | waits {ctx : IBTLSCompareContext} {bytes remaining : Nat}
      (waits : Waits payload columns keyOffset position
        (bytesCompared + bytes) ctx)
      (undecided : remaining ≠ 0) :
      WindowCompared payload columns keyOffset position bytesCompared ctx
        ⟨0, bytes, remaining⟩

/-- The values of the columns are ones of their definitions, and not too long
for the `int`s of the comparison. -/
structure ComparedColumn.Compared (column : ComparedColumn) : Prop
    extends column.Fits where
  stored_small : column.stored.length < 2 ^ 31
  key_small : column.key.length < 2 ^ 31

theorem Progress.le {column : ComparedColumn} {seen : Nat}
    {current : VarsizeKeyState} (progress : Progress column seen current) :
    seen ≤ (encodeColumn column.definition column.stored).length := by
  have varsizeLength (varsize : column.definition.type = .varsize) :
      (encodeColumn column.definition column.stored).length =
        4 + column.stored.length := by
    unfold encodeColumn
    rw [if_pos varsize, List.length_append, le32_length]
  cases progress with
  | inLength few typed =>
      rcases typed with none | varsize
      · omega
      · rw [varsizeLength varsize]
        omega
  | inBytes typed begun short =>
      rw [varsizeLength typed]
      omega

section Window

variable {memcmp : Memcmp} {payload header more : List UInt8}
  {columns : List ComparedColumn} {index : Nat}
  {ctx : IBTLSCompareContext} {column : ComparedColumn}
  {current : VarsizeKeyState} {window rest : List UInt8} {cuts : List Nat}
  {start lwnd seen bytesCompared cmpOffset : Nat} (outBytes : Nat)
  (compares : ComparesInWindows memcmp columns header.length cuts)
  (compared : ∀ column ∈ columns, column.Compared)
  (stream : window ++ rest =
    (header ++ (storedBytes columns ++ more)).drop start)
  (cut : start + window.length ∈ cuts)
  (windowFits : window.length < 2 ^ 31)

include compares compared stream cut windowFits

theorem compareTurn_run
    (stands : Stands payload columns header.length ctx index current)
    (before : EqualBefore columns index)
    (here : columns[index]? = some column)
    (progress : Progress column seen current)
    (skip : skipHeader ctx window bytesCompared cmpOffset = some lwnd)
    (place : start + lwnd = columnStart columns header.length index + seen)
    (lwndLe : lwnd ≤ window.length) (begun : lwnd < window.length ∨ seen = 0) :
    ∃ turn, compareTurn memcmp ctx window payload bytesCompared cmpOffset
        outBytes = .ok turn ∧
      TurnOutcome payload columns header.length window start lwnd cmpOffset
        index turn := by
  have column_ok := compared column (List.mem_of_getElem? here)
  have columnStream : window.drop lwnd ++ rest =
      (encodeColumn column.definition column.stored).drop seen ++
        (storedBytes (columns.drop (index + 1)) ++ more) := by
    have onward := congrArg (List.drop lwnd) stream
    rw [List.drop_append_of_le_length lwndLe, List.drop_drop, place,
      ← List.drop_drop, record_drop header more here,
      List.drop_append_of_le_length progress.le] at onward
    exact onward
  cases type : column.definition.type with
  | invalid => exact absurd type column_ok.typed
  | fixed =>
      exact compareTurn_fixed compares stands before here progress type skip
        lwndLe windowFits
  | varsize =>
      exact compareTurn_varsize compares stands before here progress type skip
        columnStream place lwndLe begun cut windowFits column_ok.stored_small
        column_ok.key_small

/-- A window after its first turn: a second one may follow, a third one does
not. -/
theorem compareLoop_run {turn : CompareTurn} {fuel : Nat}
    (apart : ∀ cut ∈ cuts, cut ≤ start ∨ start + window.length ≤ cut)
    (first : compareTurn memcmp ctx window payload bytesCompared 0 0 =
      .ok turn)
    (outcome : TurnOutcome payload columns header.length window start lwnd 0
      index turn)
    (behindHeader : header.length ≤ bytesCompared + lwnd) :
    ∃ after compared, compareLoop memcmp window payload bytesCompared
        (fuel + 2) ctx 0 0 = .ok (after, compared) ∧
      WindowCompared payload columns header.length (start + window.length)
        bytesCompared after compared := by
  unfold compareLoop
  rw [first]
  cases outcome with
  | decided last => exact ⟨_, _, rfl, .decided last⟩
  | waits stands before here progress place reached undecided =>
      exact ⟨_, _, rfl, .waits (.inColumn stands before here progress place
        (by omega)) undecided⟩
  | @goesOn next offset bytes stands before inside place moved short reached =>
      have nextHere := List.getElem?_eq_getElem inside
      have skip : skipHeader next window bytesCompared (0 + offset) =
          some (0 + offset) := by
        unfold skipHeader
        rw [stands.keyOffset_eq]
        simp only
        rw [if_neg (by omega)]
      obtain ⟨second, run, secondOutcome⟩ := compareTurn_run bytes compares
        compared stream cut windowFits stands before nextHere (progress_zero _)
        skip (by omega) (by omega) (.inl (by omega))
      simp only [bind, Except.bind]
      unfold compareLoop
      rw [run]
      cases secondOutcome with
      | decided last => exact ⟨_, _, rfl, .decided last⟩
      | waits stands before here progress place reached undecided =>
          exact ⟨_, _, rfl, .waits (.inColumn stands before here progress place
            (by omega)) undecided⟩
      | goesOn stands before inside place moved short reached =>
          obtain ⟨between, isCut, behind, ahead⟩ :=
            compares.thirdColumn before inside
          have thirdStart : columnStart columns header.length (index + 2) =
              columnStart columns header.length (index + 1 + 1) := rfl
          rcases apart between isCut with le | ge
          · omega
          · omega

theorem ibtlsCompare_run
    (waits : Waits payload columns header.length start bytesCompared ctx)
    (apart : ∀ cut ∈ cuts, cut ≤ start ∨ start + window.length ≤ cut)
    (windowNonempty : window ≠ []) :
    ∃ after compared, ibtlsCompare memcmp ctx window payload bytesCompared =
        .ok (after, compared) ∧
      WindowCompared payload columns header.length (start + window.length)
        bytesCompared after compared := by
  have windowPos := List.length_pos_iff.mpr windowNonempty
  obtain ⟨fuel, fuelEq⟩ : ∃ fuel, window.length + 1 = fuel + 2 :=
    ⟨window.length - 1, by omega⟩
  unfold ibtlsCompare initIfNot
  rw [if_pos waits.initted, fuelEq]
  cases waits with
  | inHeader stands here inside counted =>
      by_cases reaches : header.length ≤ start + window.length
      · have skip : skipHeader ctx window bytesCompared 0 =
            some (0 + (header.length - start)) := by
          unfold skipHeader
          rw [stands.keyOffset_eq, counted]
          simp only [Nat.add_zero]
          rw [if_pos inside, if_pos reaches]
        have startEq : columnStart columns header.length 0 = header.length :=
          rfl
        obtain ⟨turn, first, outcome⟩ := compareTurn_run 0 compares compared
          stream cut windowFits stands (fun _ member => absurd member
            (by rw [List.take_zero]; exact List.not_mem_nil)) here
          (progress_zero _) skip (by omega) (by omega) (.inr rfl)
        exact compareLoop_run compares compared stream cut windowFits apart
          first outcome (by omega)
      · have skip : skipHeader ctx window bytesCompared 0 = none := by
          unfold skipHeader
          rw [stands.keyOffset_eq, counted]
          simp only [Nat.add_zero]
          rw [if_pos inside, if_neg (by omega)]
        have turnEq : compareTurn memcmp ctx window payload bytesCompared 0 0 =
            .ok (.returns ctx ⟨0, window.length, 1⟩) := by
          unfold compareTurn cmpbytes
          rw [skip]
          rfl
        unfold compareLoop
        rw [turnEq]
        exact ⟨_, _, rfl, .waits (.inHeader stands here (by omega)
          (by omega)) (by decide)⟩
  | inColumn stands before here progress place counted =>
      have skip : skipHeader ctx window bytesCompared 0 = some 0 := by
        unfold skipHeader
        rw [stands.keyOffset_eq]
        simp only [Nat.add_zero]
        rw [if_neg (by omega)]
      obtain ⟨turn, first, outcome⟩ := compareTurn_run 0 compares compared
        stream cut windowFits stands before here progress skip (by omega)
        (by omega) (.inl windowPos)
      exact compareLoop_run compares compared stream cut windowFits apart first
        outcome (by omega)

end Window

end BtreeDb
