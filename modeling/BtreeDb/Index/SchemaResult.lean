import BtreeDb.Index.SchemaOrder

/-!
# What the comparison in windows says

A fresh context stands at the first column, and every window leaves it standing
where the window ended, until the comparison is decided: so the windows of a
record give the order of its columns.
-/

namespace BtreeDb

open Bytes

/-! ## A fresh context -/

theorem keyBytes_cons (column : ComparedColumn) (rest : List ComparedColumn) :
    keyBytes (column :: rest) =
      encodeColumn column.definition column.key ++ keyBytes rest :=
  List.flatMap_cons

/-- Where `initialize_rkey_offsets` finds the columns of the key. -/
theorem rkeyStates_at {payload : List UInt8} :
    ∀ {columns : List ComparedColumn} {offset : Nat},
      payload.drop offset = keyBytes columns →
      (∀ column ∈ columns, column.Compared) →
      ∀ {other : Nat} {column : ComparedColumn},
        columns[other]? = some column →
        KeyAt payload column ((rkeyStates payload
          (columns.map ComparedColumn.definition) offset).getD other ⟨0, 0⟩)
  | [], _, _, _, _, _, here => by simp at here
  | first :: rest, offset, bytes, compared, other, column, here => by
      have firstCompared := compared first List.mem_cons_self
      have restCompared (column : ComparedColumn) (member : column ∈ rest) :=
        compared column (List.mem_cons_of_mem _ member)
      rw [keyBytes_cons] at bytes
      unfold encodeColumn at bytes
      rw [List.map_cons]
      unfold rkeyStates
      by_cases varsize : first.definition.type = .varsize
      · rw [if_pos varsize, List.append_assoc] at bytes
        have length : u32At payload offset = first.key.length := by
          have small := firstCompared.key_small
          unfold u32At slice
          rw [bytes, List.take_left' (le32_length _), fromLe_le32]
          exact Nat.mod_eq_of_lt (by omega)
        have behindLength : payload.drop (offset + 4) =
            first.key ++ keyBytes rest := by
          rw [← List.drop_drop, bytes, List.drop_left' (le32_length _)]
        have behind : payload.drop (offset + 4 + first.key.length) =
            keyBytes rest := by
          rw [← List.drop_drop, behindLength, List.drop_left]
        simp only [if_pos varsize, length]
        cases other with
        | zero =>
            obtain rfl : first = column := Option.some.inj here
            refine ⟨fun _ => ⟨rfl, ?_⟩, fun fixed => ?_⟩
            · show (payload.drop (offset + 4)).take _ = _
              rw [behindLength, List.take_left]
            · rw [varsize] at fixed
              exact absurd fixed (by decide)
        | succ other => exact rkeyStates_at behind restCompared here
      · have fixed : first.definition.type = .fixed := by
          cases type : first.definition.type with
          | fixed => rfl
          | varsize => exact absurd type varsize
          | invalid => exact absurd type firstCompared.typed
        rw [if_neg varsize] at bytes
        have behind : payload.drop (offset + first.definition.size) =
            keyBytes rest := by
          rw [← List.drop_drop, bytes, ← firstCompared.key_fixed fixed,
            List.drop_left]
        simp only [if_neg varsize]
        cases other with
        | zero =>
            obtain rfl : first = column := Option.some.inj here
            exact ⟨fun type => absurd type varsize, fun _ => rfl⟩
        | succ other => exact rkeyStates_at behind restCompared here

theorem rkeyStates_length (payload : List UInt8) :
    ∀ (definitions : List IBTLSKeyDef) (offset : Nat),
      (rkeyStates payload definitions offset).length = definitions.length
  | [], _ => rfl
  | definition :: rest, offset => by
      unfold rkeyStates
      by_cases varsize : definition.type = .varsize
      · simp only [if_pos varsize, List.length_cons,
          rkeyStates_length payload rest]
      · simp only [if_neg varsize, List.length_cons,
          rkeyStates_length payload rest]

section Fresh

variable {schema : IBTreeLayoutSchema} {columns : List ComparedColumn}
  (type : PayloadCompareType)
  (definitions : schema.keyDefinitions =
    columns.map ComparedColumn.definition)
  (few : columns.length ≤ 4) (compared : ∀ column ∈ columns, column.Compared)

include definitions few compared

theorem fresh_stands :
    Stands (keyBytes columns) columns schema.keyOffset
      (initIfNot (ibtlsInitCompareContextFromSchema schema type)
        (keyBytes columns)) 0 .zero := by
  have zero (other : Nat) :
      (List.replicate 4 VarsizeKeyState.zero).getD other .zero = .zero := by
    rw [List.getD_eq_getElem?_getD, List.getElem?_replicate]
    split <;> rfl
  refine ⟨rfl, rfl, definitions, ?_, rfl, ?_, zero 0, fun _ => zero _, ?_⟩
  · show schema.keyDefinitions.length = columns.length
    rw [definitions, List.length_map]
  · show columns.length ≤ (List.replicate 4 VarsizeKeyState.zero).length
    rw [List.length_replicate]
    exact few
  · intro other column here
    have state := @rkeyStates_at (keyBytes columns) columns 0
      List.drop_zero compared other column here
    have bound := (List.getElem?_eq_some_iff.mp here).1
    have inside : other < (rkeyStates (keyBytes columns)
        schema.keyDefinitions 0).length := by
      rw [rkeyStates_length, definitions, List.length_map]
      exact bound
    rw [← definitions, List.getD_eq_getElem?_getD] at state
    have found : (initIfNot (ibtlsInitCompareContextFromSchema schema type)
        (keyBytes columns)).rkey other =
        (rkeyStates (keyBytes columns) schema.keyDefinitions 0 ++
          (List.replicate 4 (⟨0, 0⟩ : RKeyState)).drop
            (rkeyStates (keyBytes columns)
              schema.keyDefinitions 0).length).getD other ⟨0, 0⟩ := rfl
    rw [found, List.getD_eq_getElem?_getD, List.getElem?_append_left inside]
    exact state

end Fresh

section Again

variable {payload : List UInt8} {columns : List ComparedColumn}
  {keyOffset index : Nat} {ctx : IBTLSCompareContext}
  {current : VarsizeKeyState}

theorem Stands.waits
    (stands : Stands payload columns keyOffset ctx 0 .zero)
    (some : columns ≠ []) : Waits payload columns keyOffset 0 0 ctx := by
  obtain ⟨column, here⟩ : ∃ column, columns[0]? = .some column :=
    ⟨_, List.getElem?_eq_getElem (List.length_pos_iff.mpr some)⟩
  by_cases noHeader : keyOffset = 0
  · refine .inColumn stands (fun _ member => ?_) here (progress_zero column)
      ?_ (by omega)
    · rw [List.take_zero] at member
      exact absurd member List.not_mem_nil
    · show 0 = keyOffset + 0 + 0
      omega
  · exact .inHeader stands here (by omega) rfl

/-- A context that is reset stands at the first column again. -/
theorem Stands.reset
    (stands : Stands payload columns keyOffset ctx index current)
    (few : columns.length ≤ 4) (inside : index < columns.length) :
    Stands payload columns keyOffset (ibtlsResetCompare ctx) 0 .zero := by
  have room := stands.room
  have count := stands.count
  have cleared (other : Nat) :
      (ibtlsResetCompare ctx).varkey other = .zero := by
    unfold ibtlsResetCompare IBTLSCompareContext.varkey
    simp only
    rw [List.getD_eq_getElem?_getD]
    by_cases front : other < min ctx.nvarkeys 4
    · rw [List.getElem?_append_left (by rw [List.length_replicate]; exact front),
        List.getElem?_replicate, if_pos front]
      rfl
    · have later := @Stands.later _ _ _ _ _ _ stands other (by omega)
      unfold IBTLSCompareContext.varkey at later
      rw [List.getD_eq_getElem?_getD] at later
      rw [List.getElem?_append_right (by
        rw [List.length_replicate]
        omega), List.length_replicate, List.getElem?_drop,
        show ctx.nvarkeys + (other - min ctx.nvarkeys 4) = other by omega]
      exact later
  refine ⟨stands.initted, stands.keyOffset_eq, stands.definitions, count, rfl,
    ?_, cleared 0, fun _ => cleared _, stands.key⟩
  unfold ibtlsResetCompare
  simp only [List.length_append, List.length_replicate, List.length_drop]
  omega

end Again

/-! ## All windows -/

theorem cutsOf_le :
    ∀ {windows : List (List UInt8)} {start cut : Nat},
      cut ∈ cutsOf windows start → start ≤ cut
  | [], _, _, isCut => absurd isCut List.not_mem_nil
  | window :: rest, start, cut, isCut => by
      rcases List.mem_cons.mp isCut with here | behind
      · omega
      · have after := cutsOf_le behind
        omega

section Windows

variable {memcmp : Memcmp} {payload header more : List UInt8}
  {columns : List ComparedColumn} {cuts : List Nat}
  (compares : ComparesInWindows memcmp columns header.length cuts)
  (compared : ∀ column ∈ columns, column.Compared)

include compares compared

/-- The record has ended, and no column is left to be compared. -/
theorem Waits.ended {position bytesCompared : Nat} {ctx : IBTLSCompareContext}
    (waits : Waits payload columns header.length position bytesCompared ctx)
    (ended : (header ++ (storedBytes columns ++ more)).length ≤ position) :
    compareColumns columns = .eq := by
  rw [List.length_append, List.length_append] at ended
  cases waits with
  | inHeader stands here inside => omega
  | @inColumn index seen column current stands before here progress place =>
      have parts := congrArg List.length (record_drop header more here)
      rw [List.length_drop, List.length_append, List.length_append,
        List.length_append] at parts
      have column_ok := compares.column before here
      have seenLe := progress.le
      have start : header.length ≤ columnStart columns header.length index :=
        Nat.le_add_right _ _
      have seenAll : seen =
          (encodeColumn column.definition column.stored).length := by
        omega
      cases type : column.definition.type with
      | invalid =>
          exact absurd type
            (compared column (List.mem_of_getElem? here)).typed
      | fixed =>
          obtain ⟨last, same⟩ := column_ok.fixed_last type
          rw [compareColumns_last before here last, same]
          exact Std.ReflOrd.compare_self
      | varsize =>
          unfold encodeColumn at seenAll
          rw [if_pos type, List.length_append, le32_length] at seenAll
          cases progress with
          | inLength few => omega
          | inBytes typed begun short => omega

theorem compareWindows_run :
    ∀ (earlier : List Nat) {windows : List (List UInt8)}
      {position bytesCompared : Nat} {ctx : IBTLSCompareContext},
      cuts = earlier ++ cutsOf windows position →
      (∀ cut ∈ earlier, cut ≤ position) →
      windows.flatten =
        (header ++ (storedBytes columns ++ more)).drop position →
      (∀ window ∈ windows, window ≠ []) →
      (header ++ (storedBytes columns ++ more)).length < 2 ^ 31 →
      Waits payload columns header.length position bytesCompared ctx →
        compareWindows memcmp payload windows ctx bytesCompared =
          .ok (signOf (compareColumns columns))
  | _, [], position, _, _, _, _, stream, _, _, waits => by
      have ended : (header ++ (storedBytes columns ++ more)).length ≤
          position := List.drop_eq_nil_iff.mp stream.symm
      unfold compareWindows
      rw [waits.ended compares compared ended]
      rfl
  | earlier, window :: rest, position, bytesCompared, ctx, cutsEq, before,
      stream, nonempty, small, waits => by
      rw [List.flatten_cons] at stream
      have lengths := congrArg List.length stream
      rw [List.length_append, List.length_drop] at lengths
      have cut : position + window.length ∈ cuts := by
        rw [cutsEq]
        exact List.mem_append_right _ List.mem_cons_self
      have apart (cut : Nat) (isCut : cut ∈ cuts) :
          cut ≤ position ∨ position + window.length ≤ cut := by
        rw [cutsEq] at isCut
        rcases List.mem_append.mp isCut with old | new
        · exact .inl (before cut old)
        · rcases List.mem_cons.mp new with here | behind
          · omega
          · exact .inr (cutsOf_le behind)
      obtain ⟨after, compared', run, outcome⟩ := ibtlsCompare_run compares
        compared stream cut (by omega) waits apart
        (nonempty window List.mem_cons_self)
      unfold compareWindows
      simp only [run, bind, Except.bind]
      cases outcome with
      | decided last =>
          simp only
          rw [if_pos last]
          rfl
      | waits nextWaits undecided =>
          simp only
          rw [if_neg (fun ended => ended.elim (fun apart => apart rfl)
            undecided)]
          refine compareWindows_run (earlier ++ [position + window.length])
            ?_ ?_ ?_ ?_ small nextWaits
          · rw [cutsEq, List.append_assoc]
            rfl
          · intro cut isCut
            rcases List.mem_append.mp isCut with old | last
            · have le := before cut old
              omega
            · rw [List.mem_singleton.mp last]
          · have onward := congrArg (List.drop window.length) stream
            rw [List.drop_left, List.drop_drop] at onward
            exact onward
          · exact fun other member =>
              nonempty other (List.mem_cons_of_mem _ member)

end Windows

/-- A context that had stood in some column is good for another record, once it
is reset. -/
theorem compareWindows_reset {memcmp : Memcmp} {payload : List UInt8}
    {columns : List ComparedColumn} {header more : List UInt8}
    {windows : List (List UInt8)} {ctx : IBTLSCompareContext} {index : Nat}
    {current : VarsizeKeyState}
    (stands : Stands payload columns header.length ctx index current)
    (few : columns.length ≤ 4) (inside : index < columns.length)
    (compared : ∀ column ∈ columns, column.Compared)
    (record : windows.flatten = header ++ (storedBytes columns ++ more))
    (nonempty : ∀ window ∈ windows, window ≠ [])
    (small : windows.flatten.length < 2 ^ 31)
    (compares : ComparesInWindows memcmp columns header.length
      (cutsOf windows 0)) :
    compareWindows memcmp payload windows (ibtlsResetCompare ctx) 0 =
      .ok (signOf (compareColumns columns)) := by
  have some : columns ≠ [] := List.length_pos_iff.mp (by omega)
  rw [record] at small
  exact compareWindows_run compares compared [] rfl
    (fun _ member => absurd member List.not_mem_nil) record nonempty small
    ((stands.reset few inside).waits some)

theorem initIfNot_again (ctx : IBTLSCompareContext) (payload : List UInt8) :
    initIfNot (initIfNot ctx payload) payload = initIfNot ctx payload := by
  unfold initIfNot
  by_cases initted : ctx.initted = true
  · rw [if_pos initted, if_pos initted]
  · rw [if_neg initted, if_pos rfl]

/-- The first window of a fresh context sets it up. -/
theorem compareWindows_initIfNot (memcmp : Memcmp) (payload : List UInt8)
    (ctx : IBTLSCompareContext) (bytesCompared : Nat) :
    ∀ windows : List (List UInt8),
      compareWindows memcmp payload windows ctx bytesCompared =
        compareWindows memcmp payload windows (initIfNot ctx payload)
          bytesCompared
  | [] => rfl
  | window :: rest => by
      unfold compareWindows ibtlsCompare
      rw [initIfNot_again]

/-- A value is not longer than all columns. -/
theorem value_length_le {columns : List ComparedColumn}
    {column : ComparedColumn} (member : column ∈ columns)
    (value : ComparedColumn → List UInt8) :
    (value column).length ≤ (columns.flatMap fun column =>
      encodeColumn column.definition (value column)).length := by
  have within : (encodeColumn column.definition (value column)).length ≤
      (columns.flatMap fun column =>
        encodeColumn column.definition (value column)).length := by
    rw [List.flatMap_def]
    have mapped := List.mem_map_of_mem
      (f := fun column => encodeColumn column.definition (value column)) member
    exact (List.sublist_flatten_of_mem mapped).length_le
  refine Nat.le_trans ?_ within
  unfold encodeColumn
  split
  · rw [List.length_append]
    omega
  · omega

/-- A fresh context compares the record with the key column by column, however
the record arrives, when its columns and windows are ones of
`ComparesInWindows`. -/
theorem compareWindows_order {memcmp : Memcmp} {schema : IBTreeLayoutSchema}
    {type : PayloadCompareType} {columns : List ComparedColumn}
    {header more : List UInt8} {windows : List (List UInt8)}
    (definitions : schema.keyDefinitions =
      columns.map ComparedColumn.definition)
    (keyOffset : schema.keyOffset = header.length)
    (some : columns ≠ []) (few : columns.length ≤ 4)
    (fits : ∀ column ∈ columns, column.Fits)
    (record : windows.flatten = header ++ (storedBytes columns ++ more))
    (nonempty : ∀ window ∈ windows, window ≠ [])
    (recordSmall : windows.flatten.length < 2 ^ 31)
    (keySmall : (keyBytes columns).length < 2 ^ 31)
    (compares : ComparesInWindows memcmp columns header.length
      (cutsOf windows 0)) :
    compareWindows memcmp (keyBytes columns) windows
        (ibtlsInitCompareContextFromSchema schema type) 0 =
      .ok (signOf (compareColumns columns)) := by
  have compared (column : ComparedColumn) (member : column ∈ columns) :
      column.Compared := by
    have storedLe : column.stored.length ≤ (storedBytes columns).length :=
      value_length_le member ComparedColumn.stored
    have keyLe : column.key.length ≤ (keyBytes columns).length :=
      value_length_le member ComparedColumn.key
    have recordLength := congrArg List.length record
    rw [List.length_append, List.length_append] at recordLength
    exact { fits column member with
      stored_small := by omega
      key_small := by omega }
  have stands := fresh_stands type definitions few compared
  rw [keyOffset] at stands
  rw [record] at recordSmall
  rw [compareWindows_initIfNot]
  exact compareWindows_run compares compared [] rfl
    (fun _ member => absurd member List.not_mem_nil) record nonempty
    recordSmall (stands.waits some)

/-! ### Two columns in three windows -/

def pairSchema : IBTreeLayoutSchema :=
  ⟨2, [⟨.varsize, 0⟩, ⟨.varsize, 0⟩]⟩

/-- Equal first columns, and second ones that differ. -/
def pairColumns : List ComparedColumn :=
  [⟨⟨.varsize, 0⟩, [97, 98], [97, 98]⟩, ⟨⟨.varsize, 0⟩, [98], [99]⟩]

/-- The first cut is in the length of the first column, the second one in that
of the second column. -/
def pairWindows : List (List UInt8) :=
  [[9, 9, 2], [0, 0, 0, 97, 98, 1, 0, 0], [0, 98, 7]]

theorem pair_compares :
    ComparesInWindows signMemcmp pairColumns 2 (cutsOf pairWindows 0) where
  column := by
    intro index column _ here
    match index, here with
    | 0, here =>
        obtain rfl := Option.some.inj here
        exact ⟨.inl rfl, fun _ _ => by decide, fun apart => absurd rfl apart⟩
    | 1, here =>
        obtain rfl := Option.some.inj here
        exact ⟨.inl rfl, fun same => absurd same (by decide),
          fun _ => .inl ⟨by decide, by decide, signMemcmp_exact⟩⟩
    | index + 2, here => exact absurd here (by simp [pairColumns])
  behindLength := by
    intro index column _ here _ isCut
    match index, here with
    | 0, _ => exact absurd isCut (by decide)
    | 1, _ => exact absurd isCut (by decide)
    | index + 2, here => exact absurd here (by simp [pairColumns])
  thirdColumn := by
    intro index _ inside
    exact absurd inside (by simp [pairColumns])

theorem pair_in_order :
    compareWindows signMemcmp (keyBytes pairColumns) pairWindows
        (ibtlsInitCompareContextFromSchema pairSchema .key) 0 = .ok (-1) := by
  have order := @compareWindows_order signMemcmp pairSchema .key pairColumns
    [9, 9] [7] pairWindows rfl rfl (by decide) (by decide)
    (fun column member => by
      rcases List.mem_cons.mp member with rfl | member
      · exact ⟨by decide, fun fixed => absurd fixed (by decide),
          fun fixed => absurd fixed (by decide)⟩
      · rw [List.mem_singleton.mp member]
        exact ⟨by decide, fun fixed => absurd fixed (by decide),
          fun fixed => absurd fixed (by decide)⟩)
    (by decide) (by decide) (by decide) (by decide) pair_compares
  rw [order]
  decide

/-- A stored `"a"` is taken to be equal to a searched `"ab"`: the record has
ended before the bytes of the key, and no window is left to find that out. -/
theorem stored_prefix_taken_for_equal :
    let columns : List ComparedColumn := [⟨⟨.varsize, 0⟩, [97], [97, 98]⟩]
    compareWindows signMemcmp (keyBytes columns) [storedBytes columns]
        (ibtlsInitCompareContextFromSchema ⟨0, [⟨.varsize, 0⟩]⟩ .key) 0 =
      .ok 0 ∧ compareColumns columns = .lt := by
  decide +kernel

end BtreeDb
