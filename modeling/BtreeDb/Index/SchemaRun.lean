import BtreeDb.Index.SchemaWindows

/-!
# The comparison in windows, step by step

The context stands in a column when its earlier columns are equal to the key's
and it remembers what has been seen of this one.  A turn of the loop decides
the comparison, or uses the window up, or ends the column inside the window.
-/

namespace BtreeDb

open Bytes

/-! ## Words -/

theorem u32Sub_eq {left right : Nat} (le : right ≤ left)
    (leftFits : left < 2 ^ 32) : u32Sub left right = left - right := by
  unfold u32Sub
  rw [show left + 2 ^ 32 - right = left - right + 2 ^ 32 by omega,
    Nat.add_mod_right, Nat.mod_eq_of_lt (by omega)]

theorem toInt_ofNat_small {word : Nat} (small : word < 2 ^ 31) :
    (BitVec.ofNat 32 word).toInt = word := by
  have word_eq : (BitVec.ofNat 32 word).toNat = word := by
    rw [BitVec.toNat_ofNat]
    exact Nat.mod_eq_of_lt (by omega)
  rw [BitVec.toInt_eq_toNat_of_lt (by omega), word_eq]

theorem intMinimum_eq {left right : Nat} (leftFits : left < 2 ^ 31)
    (rightFits : right < 2 ^ 31) :
    intMinimum left right = (min left right : Nat) := by
  unfold intMinimum
  rw [toInt_ofNat_small leftFits, toInt_ofNat_small rightFits]
  omega

theorem toNat_ofInt_small {word : Nat} (small : word < 2 ^ 32) :
    (BitVec.ofInt 32 (word : Int)).toNat = word := by
  rw [BitVec.toNat_ofInt]
  omega

/-! ## Where a context stands -/

/-- The state of a column points to its bytes in the key. -/
structure KeyAt (payload : List UInt8) (column : ComparedColumn)
    (state : RKeyState) : Prop where
  varsize : column.definition.type = .varsize →
    state.rkeySize = column.key.length ∧
      (payload.drop state.rkeyOffset).take column.key.length = column.key
  fixed : column.definition.type = .fixed → state.rkeySize = 0

/-- The context is in a column, with a state for it, and has seen nothing of
the columns behind. -/
structure Stands (payload : List UInt8) (columns : List ComparedColumn)
    (keyOffset : Nat) (ctx : IBTLSCompareContext) (index : Nat)
    (current : VarsizeKeyState) : Prop where
  initted : ctx.initted = true
  keyOffset_eq : ctx.schema.keyOffset = keyOffset
  definitions : ctx.schema.keyDefinitions =
    columns.map ComparedColumn.definition
  count : ctx.nvarkeys = columns.length
  currKey : ctx.currKey = index
  room : columns.length ≤ ctx.varkeys.length
  here : ctx.varkey index = current
  later : ∀ {other : Nat}, index < other → ctx.varkey other = .zero
  key : ∀ {other : Nat} {column : ComparedColumn},
    columns[other]? = some column → KeyAt payload column (ctx.rkey other)

/-- What the state of a column says when so many bytes of its encoding have
been seen.  It is never exactly the length. -/
inductive Progress (column : ComparedColumn) : Nat → VarsizeKeyState → Prop
  | inLength {seen : Nat} (few : seen < 4)
      (typed : seen = 0 ∨ column.definition.type = .varsize) :
      Progress column seen
        ⟨(le32 column.stored.length).take seen, 0, false, 0⟩
  | inBytes {done : Nat} {lenBytes : List UInt8}
      (typed : column.definition.type = .varsize) (begun : 0 < done)
      (short : done < column.stored.length) (keyShort : done < column.key.length)
      (same : column.stored.take done = column.key.take done) :
      Progress column (4 + done)
        ⟨lenBytes, column.stored.length, true, done⟩

theorem progress_zero (column : ComparedColumn) : Progress column 0 .zero :=
  .inLength (by decide) (.inl rfl)

section Step

variable {payload : List UInt8} {columns : List ComparedColumn}
  {keyOffset index : Nat} {ctx : IBTLSCompareContext}
  {current next : VarsizeKeyState} {column : ComparedColumn}

theorem varkey_setVarkey (ctx : IBTLSCompareContext) (next : VarsizeKeyState)
    (other : Nat) (inside : ctx.currKey < ctx.varkeys.length) :
    (ctx.setVarkey next).varkey other =
      if other = ctx.currKey then next else ctx.varkey other := by
  unfold IBTLSCompareContext.setVarkey IBTLSCompareContext.varkey
  simp only [List.getD_eq_getElem?_getD, List.getElem?_set]
  by_cases same : ctx.currKey = other
  · subst same
    rw [if_pos rfl, if_pos inside, if_pos rfl]
    rfl
  · rw [if_neg same, if_neg (fun equal => same equal.symm)]

theorem Stands.inside (stands : Stands payload columns keyOffset ctx index
    current) (here : columns[index]? = some column) :
    ctx.currKey < ctx.varkeys.length := by
  have bound := (List.getElem?_eq_some_iff.mp here).1
  have room := stands.room
  rw [stands.currKey]
  omega

/-- A new state of the column. -/
theorem Stands.set (stands : Stands payload columns keyOffset ctx index
    current) (here : columns[index]? = some column)
    (next : VarsizeKeyState) :
    Stands payload columns keyOffset (ctx.setVarkey next) index next := by
  have inside := stands.inside here
  refine ⟨stands.initted, stands.keyOffset_eq, stands.definitions,
    stands.count, stands.currKey, ?_, ?_, ?_, stands.key⟩
  · unfold IBTLSCompareContext.setVarkey
    simp only [List.length_set]
    exact stands.room
  · rw [varkey_setVarkey ctx next index inside, if_pos stands.currKey.symm]
  · intro other behind
    rw [varkey_setVarkey ctx next other inside,
      if_neg (by rw [stands.currKey]; omega)]
    exact stands.later behind

/-- The step to the next column. -/
theorem Stands.succ (stands : Stands payload columns keyOffset ctx index
    current) :
    Stands payload columns keyOffset { ctx with currKey := ctx.currKey + 1 }
      (index + 1) .zero :=
  ⟨stands.initted, stands.keyOffset_eq, stands.definitions, stands.count,
    by simp only [stands.currKey], stands.room,
    stands.later (Nat.lt_succ_self _),
    fun behind => stands.later (Nat.lt_of_succ_lt behind), stands.key⟩

/-- The key's column has been compared to its end. -/
theorem Stands.consume_ended {count : Nat}
    (stands : Stands payload columns keyOffset ctx index current)
    (here : columns[index]? = some column)
    (ended : (ctx.consumedKey count).consumedSize =
      (ctx.rkey ctx.currKey).rkeySize) :
    Stands payload columns keyOffset (ctx.consume count) (index + 1) .zero := by
  unfold IBTLSCompareContext.consume
  simp only [if_pos ended]
  exact (stands.set here _).succ

theorem Stands.consume_inside {count : Nat}
    (stands : Stands payload columns keyOffset ctx index current)
    (here : columns[index]? = some column)
    (more : (ctx.consumedKey count).consumedSize ≠
      (ctx.rkey ctx.currKey).rkeySize) :
    Stands payload columns keyOffset (ctx.consume count) index
      (ctx.consumedKey count) := by
  unfold IBTLSCompareContext.consume
  simp only [if_neg more]
  exact stands.set here _

end Step

/-! ## The length of a column -/

section Length

variable {column : ComparedColumn} {seen lwnd : Nat}
  {current : VarsizeKeyState} {window rest after : List UInt8}
  (progress : Progress column seen current)
  (varsize : column.definition.type = .varsize)
  (stream : window.drop lwnd ++ rest =
    (encodeColumn column.definition column.stored).drop seen ++ after)

include progress varsize stream

/-- The window ends in the length. -/
theorem consumeVarsizeBytes_short
    (short : seen + (window.drop lwnd).length < 4) :
    consumeVarsizeBytes current window lwnd =
      (⟨(le32 column.stored.length).take (seen + (window.drop lwnd).length), 0,
        false, 0⟩, lwnd + (window.drop lwnd).length) := by
  unfold encodeColumn at stream
  rw [if_pos varsize] at stream
  cases progress with
  | inBytes => omega
  | inLength few typed =>
      have seenLength : ((le32 column.stored.length).take seen).length =
          seen := by
        rw [List.length_take, le32_length]
        omega
      have wholeWindow : (window.drop lwnd).take (4 - seen) =
          window.drop lwnd := List.take_of_length_le (by omega)
      have bytes : window.drop lwnd =
          ((le32 column.stored.length).drop seen).take
            (window.drop lwnd).length := by
        have front := congrArg (List.take (window.drop lwnd).length) stream
        rw [List.take_left, List.drop_append_of_le_length
          (by rw [le32_length]; omega), List.append_assoc,
          List.take_append_of_le_length (by
            simp only [List.length_drop, le32_length] at short ⊢
            omega)] at front
        exact front
      have grown : (le32 column.stored.length).take seen ++ window.drop lwnd =
          (le32 column.stored.length).take
            (seen + (window.drop lwnd).length) := by
        rw [List.take_add, ← bytes]
      have grownLength : ((le32 column.stored.length).take
          (seen + (window.drop lwnd).length)).length ≠ 4 := by
        rw [List.length_take, le32_length]
        omega
      unfold consumeVarsizeBytes
      simp only [Bool.false_eq_true, if_false]
      rw [seenLength, wholeWindow, grown, if_neg grownLength]

/-- The window has the rest of the length. -/
theorem consumeVarsizeBytes_whole
    (enough : 4 ≤ seen + (window.drop lwnd).length)
    (fits : column.stored.length < 2 ^ 32) :
    ∃ lenBytes,
      consumeVarsizeBytes current window lwnd =
        (⟨lenBytes, column.stored.length, true, seen - 4⟩,
          lwnd + (4 - seen)) ∧
      window.drop (lwnd + (4 - seen)) ++ rest =
        column.stored.drop (seen - 4) ++ after := by
  unfold encodeColumn at stream
  rw [if_pos varsize] at stream
  cases progress with
  | @inBytes done lenBytes =>
      refine ⟨lenBytes, ?_, ?_⟩
      · unfold consumeVarsizeBytes
        simp only [if_true]
        rw [Nat.add_sub_cancel_left, show 4 - (4 + done) = 0 by omega,
          Nat.add_zero]
      · rw [show 4 - (4 + done) = 0 by omega, Nat.add_zero, stream,
          Nat.add_sub_cancel_left]
        congr 1
        rw [← List.drop_drop, show (4 : Nat) =
          (le32 column.stored.length).length from (le32_length _).symm,
          List.drop_left]
  | inLength few typed =>
      have seenLength : ((le32 column.stored.length).take seen).length =
          seen := by
        rw [List.length_take, le32_length]
        omega
      have cut : (le32 column.stored.length ++ column.stored).drop seen =
          (le32 column.stored.length).drop seen ++ column.stored :=
        List.drop_append_of_le_length (by rw [le32_length]; omega)
      have restLength : ((le32 column.stored.length).drop seen).length =
          4 - seen := by
        rw [List.length_drop, le32_length]
      rw [cut, List.append_assoc] at stream
      have bytes : (window.drop lwnd).take (4 - seen) =
          (le32 column.stored.length).drop seen := by
        have front := congrArg (List.take (4 - seen)) stream
        rw [List.take_append_of_le_length (by omega),
          List.take_left' restLength] at front
        exact front
      have behind : (window.drop lwnd).drop (4 - seen) ++ rest =
          column.stored ++ after := by
        have back := congrArg (List.drop (4 - seen)) stream
        rw [List.drop_append_of_le_length (by omega),
          List.drop_left' restLength] at back
        exact back
      refine ⟨le32 column.stored.length, ?_, ?_⟩
      · unfold consumeVarsizeBytes
        simp only [Bool.false_eq_true, if_false]
        rw [seenLength, bytes, List.take_append_drop, if_pos (le32_length _),
          fromLe_le32, Nat.mod_eq_of_lt fits, restLength,
          show seen - 4 = 0 by omega]
      · rw [← List.drop_drop, show seen - 4 = 0 by omega, List.drop_zero]
        exact behind

end Length

/-! ## The end of a turn -/

section Finish

variable {ctx : IBTLSCompareContext} {cmpBytes : KeyBytes}
  {cmpOffset outBytes count : Nat} {cmpResult : Int}

/-- The bytes of the window differ from those of the key. -/
theorem finishTurn_apart (apart : cmpResult ≠ 0) :
    ∃ after bytes remaining,
      finishTurn ctx cmpBytes cmpOffset outBytes count cmpResult =
        .ok (.returns after ⟨cmpResult, bytes, remaining⟩) := by
  unfold finishTurn
  simp only [if_pos apart]
  exact ⟨_, _, _, rfl⟩

/-- The key ends in its last column. -/
theorem finishTurn_last
    (ended : (ctx.consumedKey count).consumedSize =
      (ctx.rkey ctx.currKey).rkeySize)
    (last : (ctx.consume count).currKey = (ctx.consume count).nvarkeys) :
    ∃ bytes,
      finishTurn ctx cmpBytes cmpOffset outBytes count 0 =
        .ok (.returns (ctx.consume count)
          ⟨if (ctx.consumedKey count).consumedSize =
              (ctx.consumedKey count).keySize then 0 else 1, bytes, 0⟩) := by
  have rDone : ¬ ¬ ((ctx.consumedKey count).consumedSize =
      (ctx.rkey ctx.currKey).rkeySize ∧
        (ctx.consume count).currKey = (ctx.consume count).nvarkeys) :=
    not_not.mpr ⟨ended, last⟩
  unfold finishTurn
  simp only [Int.toNat_natCast]
  rw [if_neg (fun apart => apart rfl), if_neg (fun both => rDone both.1),
    if_neg rDone]
  refine ⟨outBytes + (cmpBytes.lwnd + count), ?_⟩
  by_cases whole : (ctx.consumedKey count).consumedSize =
      (ctx.consumedKey count).keySize
  · rw [if_neg (not_not.mpr ⟨whole, last⟩), if_neg rDone, if_pos whole]
  · rw [if_pos (fun both => whole both.1), if_neg rDone, if_neg whole]

/-- There is more to compare on either side. -/
theorem finishTurn_more
    (rMore : ¬ ((ctx.consumedKey count).consumedSize =
      (ctx.rkey ctx.currKey).rkeySize ∧
        (ctx.consume count).currKey = (ctx.consume count).nvarkeys))
    (cmpMore : ¬ ((ctx.consumedKey count).consumedSize =
      (ctx.consumedKey count).keySize ∧
        (ctx.consume count).currKey = (ctx.consume count).nvarkeys))
    (some : count ≠ 0) :
    finishTurn ctx cmpBytes cmpOffset outBytes count 0 =
      if cmpBytes.hasMore then
        .ok (.again (ctx.consume count)
          (cmpOffset + (cmpBytes.lwnd + count))
          (outBytes + (cmpBytes.lwnd + count)))
      else .ok (.returns (ctx.consume count)
        ⟨0, outBytes + (cmpBytes.lwnd + count), 1⟩) := by
  have someInt : (count : Int) ≠ 0 := by omega
  unfold finishTurn
  simp only [Int.toNat_natCast]
  rw [if_neg (fun apart => apart rfl), if_pos ⟨rMore, cmpMore⟩,
    if_pos rMore, if_pos someInt]
  by_cases more : cmpBytes.hasMore = true
  · rw [if_pos ⟨more, someInt⟩, if_pos more]
  · rw [if_neg (fun both => more both.1), if_neg more]

end Finish

/-! ## The bytes of a column -/

/-- A turn in a column, in a window that starts at a place of the record:
the comparison is decided, or the window is used up, or the column ends in the
window and the next one begins there. -/
inductive TurnOutcome (payload : List UInt8) (columns : List ComparedColumn)
    (keyOffset : Nat) (window : List UInt8) (start least cmpOffset index : Nat) :
    CompareTurn → Prop
  | decided {ctx : IBTLSCompareContext} {bytes remaining : Nat}
      (last : signOf (compareColumns columns) ≠ 0 ∨ remaining = 0) :
      TurnOutcome payload columns keyOffset window start least cmpOffset index
        (.returns ctx ⟨signOf (compareColumns columns), bytes, remaining⟩)
  | waits {ctx : IBTLSCompareContext} {other seen bytes remaining : Nat}
      {column : ComparedColumn} {current : VarsizeKeyState}
      (stands : Stands payload columns keyOffset ctx other current)
      (before : EqualBefore columns other)
      (here : columns[other]? = some column)
      (progress : Progress column seen current)
      (place : start + window.length =
        columnStart columns keyOffset other + seen)
      (reached : least ≤ bytes) (undecided : remaining ≠ 0) :
      TurnOutcome payload columns keyOffset window start least cmpOffset index
        (.returns ctx ⟨0, bytes, remaining⟩)
  | goesOn {ctx : IBTLSCompareContext} {offset bytes : Nat}
      (stands : Stands payload columns keyOffset ctx (index + 1) .zero)
      (before : EqualBefore columns (index + 1))
      (inside : index + 1 < columns.length)
      (place : start + offset = columnStart columns keyOffset (index + 1))
      (moved : least < offset) (short : offset < window.length)
      (reached : least ≤ bytes) :
      TurnOutcome payload columns keyOffset window start least cmpOffset index
        (.again ctx (cmpOffset + offset) bytes)

theorem TurnOutcome.mono {payload : List UInt8} {columns : List ComparedColumn}
    {keyOffset start least less cmpOffset index : Nat} {window : List UInt8}
    {turn : CompareTurn}
    (outcome : TurnOutcome payload columns keyOffset window start least
      cmpOffset index turn) (le : less ≤ least) :
    TurnOutcome payload columns keyOffset window start less cmpOffset index
      turn := by
  cases outcome with
  | decided last => exact .decided last
  | waits stands before here progress place reached undecided =>
      exact .waits stands before here progress place (le.trans reached)
        undecided
  | goesOn stands before inside place moved short reached =>
      exact .goesOn stands before inside place (le.trans_lt moved) short
        (le.trans reached)

section Bytes

variable {memcmp : Memcmp} {payload : List UInt8}
  {columns : List ComparedColumn} {keyOffset index : Nat}
  {ctx : IBTLSCompareContext} {column : ComparedColumn}
  {lenBytes window rest after : List UInt8} {cuts : List Nat}
  {start lwnd done : Nat} (cmpOffset outBytes : Nat)

theorem compareBytes_run
    (compares : ComparesInWindows memcmp columns keyOffset cuts)
    (stands : Stands payload columns keyOffset ctx index
      ⟨lenBytes, column.stored.length, true, done⟩)
    (before : EqualBefore columns index)
    (here : columns[index]? = some column)
    (varsize : column.definition.type = .varsize)
    (stream : window.drop lwnd ++ rest = column.stored.drop done ++ after)
    (same : column.stored.take done = column.key.take done)
    (short : done = 0 ∨ done < column.stored.length ∧ done < column.key.length)
    (place : start + lwnd = columnStart columns keyOffset index + (4 + done))
    (lwndLe : lwnd ≤ window.length) (begun : lwnd < window.length ∨ done = 0)
    (cut : start + window.length ∈ cuts)
    (windowFits : window.length < 2 ^ 31)
    (storedFits : column.stored.length < 2 ^ 31)
    (keyFits : column.key.length < 2 ^ 31) :
    ∃ turn, compareBytes memcmp ctx window payload cmpOffset outBytes
        ⟨(min (window.length - lwnd) (column.stored.length - done) : Nat),
          lwnd, false,
          decide (lwnd + min (window.length - lwnd)
            (column.stored.length - done) < window.length)⟩ = .ok turn ∧
      TurnOutcome payload columns keyOffset window start lwnd cmpOffset index
        turn := by
  have column_ok := compares.column before here
  obtain ⟨rkeySize, rkeyBytes⟩ := (stands.key here).varsize varsize
  have doneLe : done ≤ column.stored.length ∧ done ≤ column.key.length := by
    omega
  -- how many bytes are compared
  obtain ⟨count, countEq⟩ : ∃ count, count = min (column.key.length - done)
      (min (window.length - lwnd) (column.stored.length - done)) := ⟨_, rfl⟩
  have restLength : (window.drop lwnd).length = window.length - lwnd :=
    List.length_drop
  have leftPiece : (window.drop lwnd).take count =
      (column.stored.drop done).take count := by
    have front := congrArg (List.take count) stream
    rwa [List.take_append_of_le_length (by omega),
      List.take_append_of_le_length (by rw [List.length_drop]; omega)] at front
  have rightPiece : (payload.drop ((ctx.rkey index).rkeyOffset + done)).take
      count = (column.key.drop done).take count := by
    rw [← rkeyBytes, ← List.drop_drop, List.drop_take, List.take_take,
      Nat.min_eq_left (by omega)]
  have payloadLength : column.key.length - done ≤
      (payload.drop ((ctx.rkey index).rkeyOffset + done)).length := by
    have length := congrArg List.length rkeyBytes
    rw [List.length_take, List.length_drop] at length
    rw [List.length_drop]
    omega
  have compareEq : ∀ cmpBytes : KeyBytes, cmpBytes.lwnd = lwnd →
      cmpBytes.nbytes = (min (window.length - lwnd)
        (column.stored.length - done) : Nat) →
      compareBytes memcmp ctx window payload cmpOffset outBytes cmpBytes =
        finishTurn ctx cmpBytes cmpOffset outBytes (count : Int)
          (memcmp.run ((column.stored.drop done).take count)
            ((column.key.drop done).take count)) := by
    intro cmpBytes lwndEq nbytesEq
    unfold compareBytes
    simp only [stands.currKey, stands.here, rkeySize, lwndEq, nbytesEq]
    rw [u32Sub_eq doneLe.2 (by omega), toNat_ofInt_small (by omega),
      intMinimum_eq (by omega) (by omega), ← countEq]
    unfold memcmpBytes
    rw [if_pos ⟨by omega, by omega, by omega⟩, Int.toNat_natCast, leftPiece,
      rightPiece]
    rfl
  rw [compareEq _ rfl rfl]
  have consumedEq : ctx.consumedKey count =
      ⟨lenBytes, column.stored.length, true, done + count⟩ := by
    unfold IBTLSCompareContext.consumedKey
    rw [stands.currKey, stands.here]
  by_cases piece : (column.stored.drop done).take count =
      (column.key.drop done).take count
  · have equal : memcmp.run ((column.stored.drop done).take count)
        ((column.key.drop done).take count) = 0 := by
      rw [piece]
      exact (memcmp.zero_iff rfl).mpr Std.ReflOrd.compare_self
    have grown := take_piece_same same piece
    have rkeyEq : (ctx.rkey ctx.currKey).rkeySize = column.key.length := by
      rw [stands.currKey]
      exact rkeySize
    rw [equal]
    by_cases keyEnds : done + count = column.key.length
    · have ended : (ctx.consumedKey count).consumedSize =
          (ctx.rkey ctx.currKey).rkeySize := by
        rw [consumedEq, rkeyEq]
        exact keyEnds
      have nextStands := stands.consume_ended here ended
      have isPrefix : column.key <+: column.stored := by
        rw [keyEnds, List.take_length] at grown
        rw [← grown]
        exact List.take_prefix _ _
      by_cases last : index + 1 = columns.length
      · obtain ⟨bytes, finishEq⟩ := @finishTurn_last ctx
          ⟨(min (window.length - lwnd) (column.stored.length - done) : Nat),
            lwnd, false, decide (lwnd + min (window.length - lwnd)
              (column.stored.length - done) < window.length)⟩
          cmpOffset outBytes count ended
          (by rw [nextStands.currKey, nextStands.count, last])
        refine ⟨_, finishEq, ?_⟩
        have order : (if (ctx.consumedKey count).consumedSize =
            (ctx.consumedKey count).keySize then (0 : Int) else 1) =
            signOf (compareColumns columns) := by
          rw [compareColumns_last before here last, consumedEq]
          simp only
          obtain ⟨more, storedEq⟩ := isPrefix
          by_cases whole : done + count = column.stored.length
          · have noMore : more = [] := by
              have lengths := congrArg List.length storedEq
              rw [List.length_append] at lengths
              exact List.eq_nil_of_length_eq_zero (by omega)
            rw [if_pos whole, ← storedEq, noMore, List.append_nil,
              Std.ReflOrd.compare_self]
            rfl
          · rw [if_neg whole, ← storedEq]
            cases more with
            | nil =>
                rw [List.append_nil] at storedEq
                rw [storedEq] at keyEnds
                exact absurd keyEnds whole
            | cons byte rest =>
                have order := @compare_append_same UInt8 _ _ column.key
                  (byte :: rest) []
                rw [List.append_nil] at order
                rw [order]
                rfl
        rw [order]
        exact .decided (.inr rfl)
      · have notLast : index + 1 < columns.length := by
          have bound := (List.getElem?_eq_some_iff.mp here).1
          omega
        have columnSame : column.stored = column.key := by
          by_contra apart
          rcases column_ok.decides apart with ⟨_, noPrefix, _⟩ | ⟨isLast, _⟩
          · exact noPrefix isPrefix
          · exact last isLast
        have someBytes := column_ok.nonempty columnSame notLast
        have storedPos := List.length_pos_iff.mpr someBytes
        have sameLength : column.stored.length = column.key.length := by
          rw [columnSame]
        have currKeyEq := nextStands.currKey
        have countEq' := nextStands.count
        have nextBefore := before.succ here columnSame
        have nextStart := columnStart_succ keyOffset here
        have encoded : (encodeColumn column.definition column.stored).length =
            4 + column.stored.length := by
          unfold encodeColumn
          rw [if_pos varsize, List.length_append, le32_length]
        rw [finishTurn_more (fun both => by omega) (fun both => by omega)
          (by omega)]
        simp only [decide_eq_true_eq]
        split
        · exact ⟨_, rfl, .goesOn nextStands nextBefore notLast (by omega)
            (by omega) (by omega) (by omega)⟩
        · obtain ⟨nextColumn, nextHere⟩ : ∃ nextColumn,
              columns[index + 1]? = some nextColumn :=
            ⟨_, List.getElem?_eq_getElem notLast⟩
          exact ⟨_, rfl, .waits nextStands nextBefore nextHere
            (progress_zero nextColumn) (by omega) (by omega) (by decide)⟩
    · have more : (ctx.consumedKey count).consumedSize ≠
          (ctx.rkey ctx.currKey).rkeySize := by
        rw [consumedEq, rkeyEq]
        exact keyEnds
      have nextStands := stands.consume_inside here more
      rw [consumedEq] at nextStands
      have storedMore : done + count < column.stored.length := by
        by_contra ended
        have isPrefix : column.stored <+: column.key := by
          rw [List.take_of_length_le (by omega)] at grown
          rw [grown]
          exact List.take_prefix _ _
        have apart : column.stored ≠ column.key := by
          intro equal
          rw [equal] at ended
          omega
        rcases column_ok.decides apart with ⟨noPrefix, _, _⟩ | ⟨_, keyPrefix⟩
        · exact noPrefix isPrefix
        · have lengths := keyPrefix.length_le
          omega
      have someBytes : count ≠ 0 := by
        intro none
        have atEnd : start + window.length =
            columnStart columns keyOffset index + 4 := by omega
        rw [atEnd] at cut
        have noKey := (compares.behindLength before here varsize cut).2
        rw [noKey, List.length_nil] at keyEnds countEq
        omega
      have rMore : ¬ ((ctx.consumedKey count).consumedSize =
          (ctx.rkey ctx.currKey).rkeySize ∧
            (ctx.consume count).currKey = (ctx.consume count).nvarkeys) :=
        fun both => more both.1
      have cmpMore : ¬ ((ctx.consumedKey count).consumedSize =
          (ctx.consumedKey count).keySize ∧
            (ctx.consume count).currKey = (ctx.consume count).nvarkeys) := by
        rw [consumedEq]
        exact fun both => absurd both.1 (by simp only; omega)
      rw [finishTurn_more rMore cmpMore someBytes]
      simp only [decide_eq_true_eq]
      rw [if_neg (by omega)]
      exact ⟨_, rfl, .waits nextStands before here
        (.inBytes varsize (by omega) storedMore (by omega) grown) (by omega)
        (by omega) (by decide)⟩
  · have apart := compare_piece_apart same (by omega) (by omega) piece
    have pieceLength : ((column.stored.drop done).take count).length =
        ((column.key.drop done).take count).length := by
      rw [List.length_take, List.length_take, List.length_drop,
        List.length_drop]
      omega
    have pieceApart : compare ((column.stored.drop done).take count)
        ((column.key.drop done).take count) ≠ .eq :=
      fun equal => piece (Std.LawfulEqOrd.eq_of_compare equal)
    have columnApart : column.stored ≠ column.key := by
      intro equal
      rw [equal] at piece
      exact piece rfl
    have exact : memcmp.Exact := by
      rcases column_ok.decides columnApart with ⟨_, _, exact⟩ | ⟨_, isPrefix⟩
      · exact exact
      · exact absurd ( piece_same_of_prefix isPrefix (by omega)).symm piece
    have order : memcmp.run ((column.stored.drop done).take count)
        ((column.key.drop done).take count) =
        signOf (compareColumns columns) := by
      rw [exact pieceLength, compareColumns_decided before here
        (by rw [apart]; exact pieceApart), apart]
    have undecided : memcmp.run ((column.stored.drop done).take count)
        ((column.key.drop done).take count) ≠ 0 := by
      rw [exact pieceLength]
      exact fun none => pieceApart (signOf_eq_zero.mp none)
    obtain ⟨after, bytes, remaining, finishEq⟩ := @finishTurn_apart ctx
      ⟨(min (window.length - lwnd) (column.stored.length - done) : Nat), lwnd,
        false, decide (lwnd + min (window.length - lwnd)
          (column.stored.length - done) < window.length)⟩
      cmpOffset outBytes count _ undecided
    refine ⟨_, finishEq, ?_⟩
    rw [order]
    exact .decided (.inl (by rw [← order]; exact undecided))

end Bytes

end BtreeDb
