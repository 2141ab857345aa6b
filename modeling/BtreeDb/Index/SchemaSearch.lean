import BtreeDb.Index.Insert
import BtreeDb.Index.SchemaResult
import BtreeDb.Lib.ByteStream

/-!
# Searching under a schema

`btree_node_compare_cell` with `ibtls_compare`: the context goes from a part of
the record to the next one, and is reset for the next record.  A record that
begins with the one column of the schema is at, before or behind a key as the
values are.
-/

namespace BtreeDb

open BinarySearch Bytes ByteStream

/-! ## The code -/

/-- Reading past a buffer ends the call as a failed assertion does. -/
def CompareStop.stop : CompareStop → Stop
  | .assertFailed => .assertFailed
  | .outOfBounds => .assertFailed
  | .diverges => .diverges

/-- The loop of `btree_node_compare_cell` over the overflow pages, with the
context of `ibtls_compare`. -/
def ibtlsComparePages (memcmp : Memcmp) (key : List UInt8)
    (cmpTotalSize : Nat) : Nat → Nat → Nat → IBTLSCompareContext →
    BtM (IBTLSCompareContext × Int)
  | 0, _, _, _ => BtM.stop .diverges
  | fuel + 1, nextPageId, bytesCompared, ctx => do
      let ov ← btreeOverflowPeek nextPageId
      let (ctx, compared) ← BtM.ofExcept ((ibtlsCompare memcmp ctx
        (ov.payload.take ov.payloadBytes) key bytesCompared).mapError
          CompareStop.stop)
      let bytesCompared := bytesCompared + compared.bytesCompared
      if compared.result ≠ 0 then
        pure (ctx, compared.result)
      else if ov.nextPageId ≠ 0 ∧ bytesCompared < cmpTotalSize ∧
          compared.keySizeRemaining ≠ 0 then
        ibtlsComparePages memcmp key cmpTotalSize fuel ov.nextPageId
          bytesCompared ctx
      else
        pure (ctx, compared.result)

/-- `btree_node_compare_cell`: the context and its `out_result`. -/
def ibtlsCompareCell (memcmp : Memcmp) (ctx : IBTLSCompareContext)
    (node : BTreeNode) (index : Nat) (key : List UInt8) :
    BtM (IBTLSCompareContext × Int) := do
  let cmp := ibtreeKeyof node index
  let (ctx, compared) ← BtM.ofExcept ((ibtlsCompare memcmp ctx
    (cmp.payload.take cmp.size) key 0).mapError CompareStop.stop)
  if compared.bytesCompared = 0 then
    BtM.fail .errUnk
  else if compared.result ≠ 0 ∨ compared.keySizeRemaining = 0 then
    pure (ctx, compared.result)
  else if cmp.followPage = 0 then
    pure (ctx, compared.result)
  else
    ibtlsComparePages memcmp key cmp.totalSize
      (((← BtM.getDisk).maxPage + 1) * (cmp.totalSize + 1)) cmp.followPage
      compared.bytesCompared ctx

/-- The search of a node.  Each comparison begins with `ibtls_reset_compare`,
which undoes what another one with the same key has left in the context
(`ibtlsCompareCell_reset`). -/
def ibtlsSearchKeys (memcmp : Memcmp) (ctx : IBTLSCompareContext)
    (key : List UInt8) : BTreeNode → BtM (Bool × Nat) :=
  nodeSearchKeys fun disk node index =>
    ((ibtlsCompareCell memcmp (ibtlsResetCompare ctx) node index key disk).1).map
      Prod.snd

theorem mapError_eq_ok {α : Type} {outcome : Except CompareStop α} {value : α} :
    outcome.mapError CompareStop.stop = .ok value ↔ outcome = .ok value := by
  cases outcome with
  | error reason => exact ⟨nofun, nofun⟩
  | ok other =>
      exact ⟨fun same => congrArg Except.ok (Except.ok.inj same),
        fun same => congrArg Except.ok (Except.ok.inj same)⟩

/-! ## The context after a comparison -/

/-- The same context but for the columns of the schema and the current one. -/
structure SameSetup (ctx after : IBTLSCompareContext) : Prop where
  initted : after.initted = ctx.initted
  type : after.type = ctx.type
  schema : after.schema = ctx.schema
  rkeys : after.rkeys = ctx.rkeys
  nvarkeys : after.nvarkeys = ctx.nvarkeys
  behind : after.varkeys.drop ctx.nvarkeys = ctx.varkeys.drop ctx.nvarkeys

section Setup

variable {memcmp : Memcmp} {ctx after : IBTLSCompareContext}
variable {window payload : List UInt8}
variable {bytesCompared cmpOffset outBytes : Nat}

theorem SameSetup.refl (ctx : IBTLSCompareContext) : SameSetup ctx ctx :=
  ⟨rfl, rfl, rfl, rfl, rfl, rfl⟩

theorem SameSetup.trans {last : IBTLSCompareContext}
    (first : SameSetup ctx after) (second : SameSetup after last) :
    SameSetup ctx last where
  initted := second.initted.trans first.initted
  type := second.type.trans first.type
  schema := second.schema.trans first.schema
  rkeys := second.rkeys.trans first.rkeys
  nvarkeys := second.nvarkeys.trans first.nvarkeys
  behind := by
    rw [← first.behind, ← first.nvarkeys]
    exact second.behind

/-- A new state of a column of the schema. -/
theorem sameSetup_set (inside : ctx.currKey < ctx.nvarkeys)
    (next : VarsizeKeyState) : SameSetup ctx (ctx.setVarkey next) where
  initted := rfl
  type := rfl
  schema := rfl
  rkeys := rfl
  nvarkeys := rfl
  behind := by
    unfold IBTLSCompareContext.setVarkey
    rw [List.drop_set_of_lt inside]

theorem sameSetup_consume (inside : ctx.currKey < ctx.nvarkeys) (count : Nat) :
    SameSetup ctx (ctx.consume count) := by
  have set := sameSetup_set inside (ctx.consumedKey count)
  unfold IBTLSCompareContext.consume
  dsimp only
  split
  · exact ⟨set.initted, set.type, set.schema, set.rkeys, set.nvarkeys,
      set.behind⟩
  · exact set

/-- What `cmpbytes` leaves is in the same column. -/
theorem cmpbytes_sameSetup (inside : ctx.currKey < ctx.nvarkeys)
    {cmpBytes : KeyBytes}
    (found : cmpbytes ctx window bytesCompared cmpOffset =
      .ok (after, cmpBytes)) :
    SameSetup ctx after ∧ after.currKey = ctx.currKey := by
  unfold cmpbytes at found
  cases skipEq : skipHeader ctx window bytesCompared cmpOffset with
  | none =>
      rw [skipEq] at found
      cases found
      exact ⟨.refl _, rfl⟩
  | some lwnd =>
      rw [skipEq] at found
      obtain ⟨configured, _, found⟩ := except_bind_ok_iff.mp found
      have set := sameSetup_set inside configured.1
      dsimp only at found
      split at found <;>
        · obtain ⟨rfl, _⟩ := Prod.mk.inj (Except.ok.inj found)
          exact ⟨set, rfl⟩

/-- What a window leaves: if it has not decided the comparison, the next one
goes on in a column. -/
structure WindowKeeps (ctx after : IBTLSCompareContext)
    (compared : SchemaCompared) : Prop where
  same : SameSetup ctx after
  inside : compared.result = 0 → compared.keySizeRemaining ≠ 0 →
    after.currKey < after.nvarkeys

def CompareTurn.Keeps (ctx : IBTLSCompareContext) : CompareTurn → Prop
  | .returns after compared => WindowKeeps ctx after compared
  | .again after _ _ => SameSetup ctx after ∧ after.currKey < after.nvarkeys

theorem finishTurn_keeps (inside : ctx.currKey < ctx.nvarkeys)
    {cmpBytes : KeyBytes} {nbytes cmpResult : Int} {turn : CompareTurn}
    (finished : finishTurn ctx cmpBytes cmpOffset outBytes nbytes cmpResult =
      .ok turn) : turn.Keeps ctx := by
  have same := sameSetup_consume inside nbytes.toNat
  have within : (ctx.consume nbytes.toNat).currKey ≤ ctx.nvarkeys := by
    unfold IBTLSCompareContext.consume IBTLSCompareContext.setVarkey
    dsimp only
    split
    · exact inside
    · exact Nat.le_of_lt inside
  -- the column is the last one when it has ended
  have advanced : (ctx.consume nbytes.toNat).currKey = ctx.nvarkeys →
      (ctx.consumedKey nbytes.toNat).consumedSize =
        (ctx.rkey ctx.currKey).rkeySize := by
    intro last
    unfold IBTLSCompareContext.consume at last
    dsimp only at last
    by_cases ended : (ctx.consumedKey nbytes.toNat).consumedSize =
        (ctx.rkey ctx.currKey).rkeySize
    · exact ended
    · rw [if_neg ended] at last
      exact absurd last (Nat.ne_of_lt inside)
  have goesOn : ¬ ((ctx.consumedKey nbytes.toNat).consumedSize =
        (ctx.rkey ctx.currKey).rkeySize ∧
      (ctx.consume nbytes.toNat).currKey =
        (ctx.consume nbytes.toNat).nvarkeys) →
      (ctx.consume nbytes.toNat).currKey <
        (ctx.consume nbytes.toNat).nvarkeys := by
    intro remaining
    rw [same.nvarkeys] at remaining ⊢
    exact Nat.lt_of_le_of_ne within fun last =>
      remaining ⟨advanced last, last⟩
  unfold finishTurn at finished
  dsimp only at finished
  split at finished
  · next apart =>
      cases finished
      exact ⟨same, fun isZero => absurd isZero apart⟩
  · split at finished
    · next remaining =>
        have more := goesOn remaining.1
        split at finished
        · cases finished
          exact ⟨same, more⟩
        · split at finished
          · cases finished
            exact ⟨same, fun _ _ => more⟩
          · cases finished
    · split at finished
      · cases finished
        exact ⟨same, nofun⟩
      · split at finished <;>
          · cases finished
            exact ⟨same, fun _ notZero => absurd rfl notZero⟩

theorem compareTurn_keeps (inside : ctx.currKey < ctx.nvarkeys)
    {turn : CompareTurn}
    (turned : compareTurn memcmp ctx window payload bytesCompared cmpOffset
      outBytes = .ok turn) : turn.Keeps ctx := by
  unfold compareTurn at turned
  obtain ⟨⟨next, cmpBytes⟩, foundEq, turned⟩ := except_bind_ok_iff.mp turned
  obtain ⟨same, column⟩ := cmpbytes_sameSetup inside foundEq
  have stillInside : next.currKey < next.nvarkeys := by
    rw [column, same.nvarkeys]
    exact inside
  dsimp only at turned
  split at turned
  · cases turned
    exact ⟨same, fun _ _ => stillInside⟩
  · unfold compareBytes at turned
    obtain ⟨cmpResult, _, finished⟩ := except_bind_ok_iff.mp turned
    have kept := finishTurn_keeps stillInside finished
    cases turn with
    | returns after compared => exact ⟨same.trans kept.same, kept.inside⟩
    | again after offset bytes => exact ⟨same.trans kept.1, kept.2⟩

theorem compareLoop_keeps : ∀ {fuel : Nat} {ctx : IBTLSCompareContext}
    {cmpOffset outBytes : Nat} {compared : SchemaCompared},
    ctx.currKey < ctx.nvarkeys →
    compareLoop memcmp window payload bytesCompared fuel ctx cmpOffset
      outBytes = .ok (after, compared) → WindowKeeps ctx after compared := by
  intro fuel
  induction fuel with
  | zero =>
      intro ctx cmpOffset outBytes compared _ looped
      cases looped
  | succ fuel inductionHypothesis =>
      intro ctx cmpOffset outBytes compared inside looped
      rw [compareLoop] at looped
      obtain ⟨turn, turned, next⟩ := except_bind_ok_iff.mp looped
      have kept := compareTurn_keeps inside turned
      cases turn with
      | returns last result =>
          obtain ⟨rfl, rfl⟩ := Prod.mk.inj (Except.ok.inj next)
          exact kept
      | again last offset bytes =>
          have later := inductionHypothesis kept.2 next
          exact ⟨kept.1.trans later.same, later.inside⟩

/-- One window leaves the setting up of the first one. -/
theorem ibtlsCompare_keeps {compared : SchemaCompared}
    (inside : (initIfNot ctx payload).currKey <
      (initIfNot ctx payload).nvarkeys)
    (ran : ibtlsCompare memcmp ctx window payload bytesCompared =
      .ok (after, compared)) :
    WindowKeeps (initIfNot ctx payload) after compared :=
  compareLoop_keeps inside ran

theorem initIfNot_initted (initted : ctx.initted = true) :
    initIfNot ctx payload = ctx := by
  unfold initIfNot
  rw [if_pos initted]

theorem initIfNot_initted_eq : (initIfNot ctx payload).initted = true := by
  unfold initIfNot
  split
  · assumption
  · rfl

theorem SameSetup.reset (same : SameSetup ctx after) :
    ibtlsResetCompare after = ibtlsResetCompare ctx := by
  obtain ⟨initted, type, schema, varkeys, rkeys, nvarkeys, currKey⟩ := after
  obtain ⟨rfl, rfl, rfl, rfl, rfl, behind⟩ := same
  unfold ibtlsResetCompare
  dsimp only at behind ⊢
  rw [behind]

theorem ibtlsComparePages_keeps {total : Nat} {disk last : Disk}
    {result : Int} : ∀ {fuel nextPageId bytesCompared : Nat}
    {ctx : IBTLSCompareContext}, ctx.initted = true →
    ctx.currKey < ctx.nvarkeys →
    ibtlsComparePages memcmp payload total fuel nextPageId bytesCompared ctx
      disk = (.ok (after, result), last) → SameSetup ctx after := by
  intro fuel
  induction fuel generalizing disk with
  | zero =>
      intro nextPageId bytesCompared ctx _ _ ran
      cases ran
  | succ fuel inductionHypothesis =>
      intro nextPageId bytesCompared ctx initted inside ran
      rw [ibtlsComparePages] at ran
      obtain ⟨ov, middle, _, compares⟩ := BtM.bind_eq_ok ran
      obtain ⟨⟨next, compared⟩, same, comparedEq, goesOn⟩ :=
        BtM.bind_eq_ok compares
      obtain ⟨mapped, _⟩ := BtM.ofExcept_eq_ok comparedEq
      have kept := ibtlsCompare_keeps
        (by rwa [initIfNot_initted initted]) (mapError_eq_ok.mp mapped)
      rw [initIfNot_initted initted] at kept
      dsimp only at goesOn
      split at goesOn
      · cases goesOn
        exact kept.same
      · next isZero =>
          split at goesOn
          · next more =>
              have nextInitted := kept.same.initted.trans initted
              exact kept.same.trans (inductionHypothesis nextInitted
                (kept.inside (not_not.mp isZero) more.2.2) goesOn)
          · cases goesOn
            exact kept.same

/-- A reset undoes what a comparison has left but the setting up, which the
next comparison with the same key would do again. -/
theorem ibtlsCompareCell_reset {node : BTreeNode} {index : Nat}
    {disk last : Disk} {result : Int}
    (inside : (initIfNot ctx payload).currKey <
      (initIfNot ctx payload).nvarkeys)
    (ran : ibtlsCompareCell memcmp ctx node index payload disk =
      (.ok (after, result), last)) :
    ibtlsResetCompare after = ibtlsResetCompare (initIfNot ctx payload) := by
  refine SameSetup.reset ?_
  unfold ibtlsCompareCell at ran
  obtain ⟨⟨next, compared⟩, same, comparedEq, goesOn⟩ := BtM.bind_eq_ok ran
  obtain ⟨mapped, _⟩ := BtM.ofExcept_eq_ok comparedEq
  have kept := ibtlsCompare_keeps inside (mapError_eq_ok.mp mapped)
  dsimp only at goesOn
  split at goesOn
  · cases goesOn
  · split at goesOn
    · cases goesOn
      exact kept.same
    · next more =>
        rw [not_or, not_not] at more
        split at goesOn
        · cases goesOn
          exact kept.same
        · obtain ⟨first, second, _, pages⟩ := BtM.bind_eq_ok goesOn
          exact kept.same.trans (ibtlsComparePages_keeps
            (kept.same.initted.trans initIfNot_initted_eq)
            (kept.inside more.1 more.2) pages)

end Setup

/-! ## One column -/

/-- One `varsize` column, without a header. -/
def varsizeSchema : IBTreeLayoutSchema := ⟨0, [⟨.varsize, 0⟩]⟩

section Column

variable {memcmp : Memcmp} {type : PayloadCompareType}
variable {stored more searched tail : List UInt8}

/-- The context once the column of the key is known. -/
def columnContext (searched : List UInt8) (state : VarsizeKeyState) :
    IBTLSCompareContext where
  initted := true
  type := .key
  schema := varsizeSchema
  varkeys := state :: List.replicate 3 .zero
  rkeys := ⟨searched.length, 4⟩ :: List.replicate 3 ⟨0, 0⟩
  nvarkeys := 1
  currKey := 0

theorem initIfNot_column (searchedFits : searched.length < 2 ^ 31) :
    initIfNot (ibtlsInitCompareContextFromSchema varsizeSchema type)
        (le32 searched.length ++ (searched ++ tail)) =
      columnContext searched .zero := by
  have length : u32At (le32 searched.length ++ (searched ++ tail)) 0 =
      searched.length := by
    unfold u32At slice
    rw [List.drop_zero, List.take_left' (le32_length _), fromLe_le32]
    exact Nat.mod_eq_of_lt (by omega)
  change IBTLSCompareContext.mk true .key varsizeSchema _
    (⟨u32At _ 0, 4⟩ :: List.replicate 3 ⟨0, 0⟩) 1 0 = _
  rw [length]
  rfl

/-- What a comparison of a window with its key gives, if the window decides
it. -/
def Decides (outcome : Except CompareStop (IBTLSCompareContext ×
    SchemaCompared)) (result : Int) : Prop :=
  ∃ after compared, outcome = .ok (after, compared) ∧
    compared.result = result ∧ compared.bytesCompared ≠ 0 ∧
    (compared.result ≠ 0 ∨ compared.keySizeRemaining = 0)

theorem finishTurn_bytes {ctx after : IBTLSCompareContext} {cmpBytes : KeyBytes}
    {cmpOffset outBytes : Nat} {nbytes cmpResult : Int}
    {compared : SchemaCompared}
    (finished : finishTurn ctx cmpBytes cmpOffset outBytes nbytes cmpResult =
      .ok (.returns after compared)) :
    compared.bytesCompared = outBytes + (cmpBytes.lwnd + nbytes.toNat) := by
  unfold finishTurn at finished
  dsimp only at finished
  split at finished
  · cases finished
    rfl
  · split at finished
    · split at finished
      · cases finished
      · split at finished
        · cases finished
          rfl
        · cases finished
    · split at finished
      · cases finished
        rfl
      · split at finished <;>
          · cases finished
            rfl

/-- The bytes of the column are found behind their length. -/
theorem cmpbytes_column (storedFits : (stored ++ more).length + 4 < 2 ^ 31) :
    ∃ hasMore, cmpbytes (columnContext searched .zero)
        (le32 stored.length ++ (stored ++ more)) 0 0 =
      .ok (columnContext searched
        ⟨le32 stored.length, stored.length, true, 0⟩,
          ⟨(stored.length : Nat), 4, false, hasMore⟩) := by
  rw [List.length_append] at storedFits
  have lengths : (le32 stored.length ++ (stored ++ more)).length =
      4 + (stored.length + more.length) := by
    rw [List.length_append, List.length_append, le32_length]
  have consumed : consumeVarsizeBytes .zero
      (le32 stored.length ++ (stored ++ more)) 0 =
        (⟨le32 stored.length, stored.length, true, 0⟩, 4) := by
    unfold consumeVarsizeBytes VarsizeKeyState.zero
    simp only [Bool.false_eq_true, if_false, List.nil_append, List.length_nil,
      List.drop_zero, Nat.sub_zero]
    rw [List.take_left' (le32_length _), le32_length, if_pos rfl, fromLe_le32,
      Nat.mod_eq_of_lt (show stored.length < 2 ^ 32 by omega)]
  have configured : configureKey (columnContext searched .zero)
      (le32 stored.length ++ (stored ++ more)) 0 =
        .ok (⟨le32 stored.length, stored.length, true, 0⟩, 4) := by
    rw [← consumed]
    rfl
  have count : intMinimum
      (u32Sub (le32 stored.length ++ (stored ++ more)).length 4)
      (u32Sub stored.length 0) = (stored.length : Nat) := by
    rw [u32Sub_eq (by omega) (by omega), u32Sub_eq (by omega) (by omega),
      intMinimum_eq (by omega) (by omega)]
    congr 1
    omega
  unfold cmpbytes
  rw [show skipHeader (columnContext searched .zero)
    (le32 stored.length ++ (stored ++ more)) 0 0 = some 0 from rfl]
  simp only [configured, bind, Except.bind, pure, Except.pure, if_true, count]
  exact ⟨_, rfl⟩

/-- The first turn finds the column and compares what both sides have. -/
theorem compareTurn_column (storedFits : (stored ++ more).length + 4 < 2 ^ 31)
    (searchedFits : searched.length < 2 ^ 31) :
    ∃ hasMore, compareTurn memcmp (columnContext searched .zero)
        (le32 stored.length ++ (stored ++ more))
        (le32 searched.length ++ (searched ++ tail)) 0 0 0 =
      finishTurn (columnContext searched
          ⟨le32 stored.length, stored.length, true, 0⟩)
        ⟨(stored.length : Nat), 4, false, hasMore⟩ 0 0
        (min searched.length stored.length : Nat)
        (memcmp.run (stored.take (min searched.length stored.length))
          (searched.take (min searched.length stored.length))) := by
  obtain ⟨hasMore, found⟩ := @cmpbytes_column stored more searched storedFits
  rw [List.length_append] at storedFits
  have most : intMinimum (u32Sub searched.length 0)
      (BitVec.ofInt 32 ((stored.length : Nat) : Int)).toNat =
        (min searched.length stored.length : Nat) := by
    rw [toNat_ofInt_small (by omega), u32Sub_eq (by omega) (by omega),
      intMinimum_eq (by omega) (by omega), Nat.sub_zero]
  have compares : memcmpBytes memcmp
      ((le32 stored.length ++ (stored ++ more)).drop 4)
      ((le32 searched.length ++ (searched ++ tail)).drop 4)
      ((min searched.length stored.length : Nat) : Int) =
        .ok (memcmp.run (stored.take (min searched.length stored.length))
          (searched.take (min searched.length stored.length))) := by
    rw [List.drop_left' (le32_length _), List.drop_left' (le32_length _)]
    unfold memcmpBytes
    rw [if_pos ⟨by omega, by rw [List.length_append]; omega,
      by rw [List.length_append]; omega⟩, Int.toNat_natCast,
      List.take_append_of_le_length (by omega),
      List.take_append_of_le_length (by omega)]
  generalize stateEq : (⟨le32 stored.length, stored.length, true, 0⟩ :
    VarsizeKeyState) = state at found ⊢
  have rkey : (columnContext searched state).rkey
      (columnContext searched state).currKey = ⟨searched.length, 4⟩ := rfl
  have consumed : ((columnContext searched state).varkey
      (columnContext searched state).currKey).consumedSize = 0 := by
    rw [← stateEq]
    rfl
  refine ⟨hasMore, ?_⟩
  rw [compareTurn_found found rfl]
  unfold compareBytes
  simp only [rkey, consumed, most, Nat.add_zero, compares, bind, Except.bind]

/-- A record that begins with the column and a key with a column: the column
decides, if it is not a part of the key's column. -/
theorem ibtlsCompare_column (exact : memcmp.Exact)
    (storedFits : (stored ++ more).length + 4 < 2 ^ 31)
    (searchedFits : searched.length < 2 ^ 31)
    (apart : stored = searched ∨ ¬ stored <+: searched) :
    Decides (ibtlsCompare memcmp
        (ibtlsInitCompareContextFromSchema varsizeSchema type)
        (le32 stored.length ++ (stored ++ more))
        (le32 searched.length ++ (searched ++ tail)) 0)
      (signOf (compare stored searched)) := by
  obtain ⟨hasMore, turnEq⟩ :=
    @compareTurn_column memcmp stored more searched tail storedFits searchedFits
  generalize ctxEq : columnContext searched
    ⟨le32 stored.length, stored.length, true, 0⟩ = ctx at turnEq
  have rkey : (ctx.rkey ctx.currKey).rkeySize = searched.length := by
    rw [← ctxEq]
    rfl
  have consumedEq : ctx.consumedKey (min searched.length stored.length) =
      ⟨le32 stored.length, stored.length, true,
        min searched.length stored.length⟩ := by
    rw [← ctxEq]
    change VarsizeKeyState.mk _ _ _ (0 + _) = _
    rw [Nat.zero_add]
    rfl
  -- a turn that returns ends the loop
  have ends : ∀ {after : IBTLSCompareContext} {compared : SchemaCompared},
      finishTurn ctx ⟨stored.length, 4, false, hasMore⟩ 0 0
        (min searched.length stored.length : Nat)
        (memcmp.run (stored.take (min searched.length stored.length))
          (searched.take (min searched.length stored.length))) =
        .ok (.returns after compared) →
      compared.result = signOf (compare stored searched) →
      (compared.result ≠ 0 ∨ compared.keySizeRemaining = 0) →
      Decides (ibtlsCompare memcmp
          (ibtlsInitCompareContextFromSchema varsizeSchema type)
          (le32 stored.length ++ (stored ++ more))
          (le32 searched.length ++ (searched ++ tail)) 0)
        (signOf (compare stored searched)) := by
    intro after compared finished result last
    refine ⟨after, compared, ?_, result, ?_, last⟩
    · unfold ibtlsCompare
      rw [initIfNot_column searchedFits, compareLoop, turnEq, finished]
      rfl
    · rw [finishTurn_bytes finished]
      dsimp only
      omega
  by_cases piece : stored.take (min searched.length stored.length) =
      searched.take (min searched.length stored.length)
  · have equal : memcmp.run
        (stored.take (min searched.length stored.length))
        (searched.take (min searched.length stored.length)) = 0 := by
      rw [piece]
      exact (memcmp.zero_iff rfl).mpr Std.ReflOrd.compare_self
    -- the key's column ends first, or both at once
    have keyEnds : searched.length ≤ stored.length := by
      by_contra longer
      have whole : min searched.length stored.length = stored.length := by
        omega
      rw [whole, List.take_length] at piece
      rcases apart with same | notPrefix
      · rw [same] at longer
        exact longer (Nat.le_refl _)
      · refine notPrefix ?_
        rw [piece]
        exact List.take_prefix _ _
    have whole : min searched.length stored.length = searched.length := by
      omega
    have isPrefix : searched <+: stored := by
      rw [whole, List.take_length] at piece
      rw [← piece]
      exact List.take_prefix _ _
    have ended : (ctx.consumedKey
        (min searched.length stored.length)).consumedSize =
          (ctx.rkey ctx.currKey).rkeySize := by
      rw [consumedEq, rkey]
      exact whole
    have next : (ctx.consume (min searched.length stored.length)).currKey =
        (ctx.consume (min searched.length stored.length)).nvarkeys := by
      unfold IBTLSCompareContext.consume
      dsimp only
      rw [if_pos ended]
      rw [← ctxEq]
      rfl
    obtain ⟨bytes, finishEq⟩ := @finishTurn_last ctx
      ⟨stored.length, 4, false, hasMore⟩ 0 0
      (min searched.length stored.length) ended next
    refine ends (by rw [equal]; exact finishEq) ?_ (Or.inr rfl)
    dsimp only
    rw [consumedEq]
    dsimp only
    rw [whole]
    obtain ⟨rest, rfl⟩ := isPrefix
    cases rest with
    | nil =>
        rw [List.append_nil, if_pos rfl, Std.ReflOrd.compare_self]
        rfl
    | cons byte rest =>
        have order := @compare_append_same UInt8 _ _ searched (byte :: rest) []
        rw [List.append_nil] at order
        rw [order, if_neg (by rw [List.length_append, List.length_cons]; omega)]
        rfl
  · have lengths : (stored.take (min searched.length stored.length)).length =
        (searched.take (min searched.length stored.length)).length := by
      rw [List.length_take, List.length_take]
      omega
    have start : stored.take 0 = searched.take 0 := by
      rw [List.take_zero, List.take_zero]
    have order : compare stored searched =
        compare (stored.take (min searched.length stored.length))
          (searched.take (min searched.length stored.length)) :=
      compare_piece_apart start (by omega) (by omega) piece
    have undecided : memcmp.run
        (stored.take (min searched.length stored.length))
        (searched.take (min searched.length stored.length)) ≠ 0 := by
      intro isZero
      exact piece (Std.LawfulEqOrd.eq_of_compare
        ((memcmp.zero_iff lengths).mp isZero))
    obtain ⟨after, bytes, remaining, finishEq⟩ := @finishTurn_apart ctx
      ⟨stored.length, 4, false, hasMore⟩ 0 0
      (min searched.length stored.length) _ undecided
    refine ends finishEq ?_ (Or.inl undecided)
    rw [order]
    exact exact lengths

/-- The cell of such a record in a node. -/
theorem ibtlsCompareCell_column {disk : Disk} {node : BTreeNode}
    {index key : Nat} (exact : memcmp.Exact) (ok : NodeOk node)
    (here : node.entries[index]? = some ⟨key, cellTypeCode .cellTypeInline,
      le32 stored.length ++ (stored ++ more)⟩)
    (storedFits : (stored ++ more).length + 4 < 2 ^ 31)
    (searchedFits : searched.length < 2 ^ 31)
    (apart : stored = searched ∨ ¬ stored <+: searched) :
    ∃ after, ibtlsCompareCell memcmp
        (ibtlsInitCompareContextFromSchema varsizeSchema type) node index
        (le32 searched.length ++ (searched ++ tail)) disk =
      (.ok (after, signOf (compare stored searched)), disk) := by
  obtain ⟨back, _, windowEq, sizeEq, _, _⟩ :=
    @ibtreeKeyof_resolves disk node index _ _ [] ok here .inline
  obtain ⟨after, compared, comparedEq, result, some, last⟩ :=
    @ibtlsCompare_column memcmp type stored more searched tail exact storedFits
      searchedFits apart
  refine ⟨after, ?_⟩
  have window : (ibtreeKeyof node index).payload.take
      (ibtreeKeyof node index).size =
        le32 stored.length ++ (stored ++ more) := by
    rw [sizeEq]
    exact windowEq
  unfold ibtlsCompareCell
  dsimp only
  rw [window, comparedEq]
  change (if _ then _ else _ : BtM _) disk = _
  rw [if_neg some, if_pos last, result]
  rfl

end Column

end BtreeDb
