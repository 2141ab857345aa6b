import BtreeDb.Lib.ByteOrder
import BtreeDb.Node.Moving
import BtreeDb.Pager.Cache

/-!
# Comparing stored payloads with a key

`btree_node_compare_cell` compares the part of a payload that is in the node,
and then page by page the rest, until it is decided.  A cell that keeps no byte
of its payload in the node ends the comparison before it begins.
-/

namespace BtreeDb

open Bytes

/-! ## The code -/

/-- What a comparison gives: its result, `out_bytes_compared` and
`out_key_size_remaining`. -/
structure Compared where
  result : Int
  bytesCompared : Nat
  keySizeRemaining : Nat
  deriving DecidableEq, Repr

/-- `min`, which takes `int`s. -/
def intMin (left right : Nat) : Nat :=
  if asInt left < asInt right then left else right

/-- `ibtree_compare`.  What stands behind its assertion for the same condition
is never reached. -/
def ibtreeCompare (memcmp : Memcmp) (left : List UInt8)
    (leftSize cmpTotalSize : Nat) (right : List UInt8) (bytesCompared : Nat) :
    Except Stop Compared :=
  if right.length > bytesCompared then
    let outBytesCompared := intMin leftSize (right.length - bytesCompared)
    let newTotalBytesCompared := bytesCompared + outBytesCompared
    let outKeySizeRemaining := right.length - newTotalBytesCompared
    let cmp := memcmp.run (left.take outBytesCompared)
      ((right.drop bytesCompared).take outBytesCompared)
    let result :=
      if cmp = 0 then
        if outKeySizeRemaining = 0 ∧ newTotalBytesCompared < cmpTotalSize then
          1
        else if outKeySizeRemaining ≠ 0 ∧
            newTotalBytesCompared = cmpTotalSize then
          -1
        else cmp
      else if cmp < 0 then -1 else 1
    .ok ⟨result, outBytesCompared, outKeySizeRemaining⟩
  else
    .error .assertFailed

/-- What `keyof` gives: where the payload is, the bytes of it there, its size
and the page where it goes on. -/
structure KeyOf where
  payload : List UInt8
  size : Nat
  totalSize : Nat
  followPage : Nat
  deriving DecidableEq, Repr

/-- `ibtree_keyof`. -/
def ibtreeKeyof (node : BTreeNode) (index : Nat) : KeyOf :=
  let cellData := btuGetCellBuffer node index
  if pkeyIsCellType (node.keyAt index).flags .cellTypeOverflow then
    let readCell := cellReadOverflow cellData
    { payload := readCell.inlinePayload
      size := cellOverflowCalcInlinePayloadSize readCell.inlineSize
      totalSize := readCell.totalSize
      followPage := readCell.overflowPageId }
  else
    let cell := cellReadInline cellData
    { payload := cell.payload
      size := cell.inlineSize
      totalSize := cell.inlineSize
      followPage := 0 }

/-- The functions of a `struct BTreeCompareContext`. -/
structure BTreeCompareContext where
  compare : List UInt8 → Nat → Nat → List UInt8 → Nat → Except Stop Compared
  keyof : BTreeNode → Nat → KeyOf

/-- The functions that `ibtree_init` is given for plain byte strings. -/
def ibtreeContext (memcmp : Memcmp) : BTreeCompareContext where
  compare := ibtreeCompare memcmp
  keyof := ibtreeKeyof

@[simp]
theorem ibtreeContext_compare (memcmp : Memcmp) :
    (ibtreeContext memcmp).compare = ibtreeCompare memcmp := rfl

@[simp]
theorem ibtreeContext_keyof (memcmp : Memcmp) :
    (ibtreeContext memcmp).keyof = ibtreeKeyof := rfl

/-- The loop of `btree_node_compare_cell` over the overflow pages.  A chain
that comes back to a page without a byte in between never ends. -/
def compareOverflowPages (ctx : BTreeCompareContext) (key : List UInt8)
    (cmpTotalSize : Nat) : Nat → Nat → Nat → BtM Int
  | 0, _, _ => BtM.stop .diverges
  | fuel + 1, nextPageId, bytesCompared => do
      let ov ← btreeOverflowPeek nextPageId
      let compared ← BtM.ofExcept (ctx.compare ov.payload ov.payloadBytes
        cmpTotalSize key bytesCompared)
      let bytesCompared := bytesCompared + compared.bytesCompared
      if compared.result ≠ 0 then
        pure compared.result
      else if ov.nextPageId ≠ 0 ∧ bytesCompared < cmpTotalSize ∧
          compared.keySizeRemaining ≠ 0 then
        compareOverflowPages ctx key cmpTotalSize fuel ov.nextPageId
          bytesCompared
      else
        pure compared.result

/-- `btree_node_compare_cell`: its `out_result`. -/
def btreeNodeCompareCell (ctx : BTreeCompareContext) (node : BTreeNode)
    (index : Nat) (key : List UInt8) : BtM Int := do
  let cmp := ctx.keyof node index
  let compared ← BtM.ofExcept (ctx.compare cmp.payload cmp.size cmp.totalSize
    key 0)
  if compared.bytesCompared = 0 then
    BtM.fail .errUnk
  else if compared.result ≠ 0 ∨ compared.keySizeRemaining = 0 then
    pure compared.result
  else if cmp.followPage = 0 then
    pure compared.result
  else
    compareOverflowPages ctx key cmp.totalSize
      (((← BtM.getDisk).maxPage + 1) * (cmp.totalSize + 1)) cmp.followPage
      compared.bytesCompared

/-! ## One window -/

theorem intMin_eq {left right : Nat} (leftFits : left < 2 ^ 31)
    (rightFits : right < 2 ^ 31) : intMin left right = min left right := by
  unfold intMin asInt
  rw [if_pos leftFits, if_pos rightFits]
  split <;> omega

/-- A window decides the comparison of the rest of the payload with the rest of
the key, or the key goes on behind it and so does the payload. -/
inductive WindowOutcome (part tail rest : List UInt8) (compared : Compared) :
    Prop where
  | decided
      (result_eq : compared.result = signOf (compare (part ++ tail) rest))
      (last : compared.result ≠ 0 ∨ compared.keySizeRemaining = 0)
  | undecided (more : List UInt8) (rest_eq : rest = part ++ more)
      (moreKey : more ≠ []) (moreBytes : tail ≠ [])
      (result_eq : compared.result = 0)
      (bytes_eq : compared.bytesCompared = part.length)
      (remaining_eq : compared.keySizeRemaining = more.length)

/-- One window of the payload, behind bytes that the key has as well. -/
theorem ibtreeCompare_window (memcmp : Memcmp)
    {left done part tail rest : List UInt8} {total : Nat}
    (window : left.take part.length = part) (partFits : part.length < 2 ^ 31)
    (keyFits : (done ++ rest).length < 2 ^ 31) (moreKey : rest ≠ [])
    (totalEq : total = done.length + (part ++ tail).length) :
    ∃ compared, ibtreeCompare memcmp left part.length total (done ++ rest)
        done.length = .ok compared ∧
      compared.bytesCompared = min part.length rest.length ∧
      WindowOutcome part tail rest compared := by
  have positive := List.length_pos_iff.mpr moreKey
  have keyLength : (done ++ rest).length = done.length + rest.length :=
    List.length_append
  rw [List.length_append] at totalEq
  have restLength : (done ++ rest).length - done.length = rest.length := by
    omega
  have takeLeft : left.take (min part.length rest.length) =
      part.take rest.length := by
    rw [← window, List.take_take, Nat.min_comm]
    congr 1
    have fits := congrArg List.length window
    rw [List.length_take] at fits ⊢
    omega
  have takeRight : rest.take (min part.length rest.length) =
      rest.take part.length := by
    rcases Nat.le_total part.length rest.length with shorter | longer
    · rw [Nat.min_eq_left shorter]
    · rw [Nat.min_eq_right longer, List.take_of_length_le (Nat.le_refl _),
        List.take_of_length_le longer]
  have sameLength : (part.take rest.length).length =
      (rest.take part.length).length := by
    rw [List.length_take, List.length_take, Nat.min_comm]
  have zero := memcmp.zero_iff sameLength
  have whole : compare (part ++ tail) rest =
      (compare (part.take rest.length) (rest.take part.length)).then
        (compare (part.drop rest.length ++ tail) (rest.drop part.length)) := by
    rw [← compare_append _ _ sameLength, ← List.append_assoc,
      List.take_append_drop, List.take_append_drop]
  unfold ibtreeCompare
  rw [if_pos (by omega), restLength, intMin_eq partFits (by omega),
    List.drop_left]
  simp only [takeLeft, takeRight]
  refine ⟨_, rfl, rfl, ?_⟩
  by_cases same : memcmp.run (part.take rest.length)
      (rest.take part.length) = 0
  · have equal := zero.mp same
    have sameBytes : part.take rest.length = rest.take part.length :=
      Std.LawfulEqOrd.eq_of_compare equal
    rw [equal] at whole
    by_cases keyEnds : rest.length ≤ part.length
    · -- The key ends in the window; the payload may go on.
      rw [List.drop_of_length_le keyEnds] at whole
      have minEq : min part.length rest.length = rest.length :=
        Nat.min_eq_right keyEnds
      simp only [same, if_true, minEq]
      by_cases bytesLeft : rest.length < part.length + tail.length
      · refine .decided ?_ (.inr (by simp only; omega))
        simp only
        rw [if_pos ⟨by omega, by omega⟩, whole]
        cases bytes : part.drop rest.length ++ tail with
        | nil =>
            have none := congrArg List.length bytes
            rw [List.length_append, List.length_drop, List.length_nil] at none
            omega
        | cons byte more => rfl
      · refine .decided ?_ (.inr (by simp only; omega))
        simp only
        rw [if_neg (fun both => bytesLeft (by omega)),
          if_neg (fun both => both.1 (by omega)), whole]
        have noTail : tail = [] := List.eq_nil_of_length_eq_zero (by omega)
        rw [noTail, List.append_nil, List.drop_of_length_le (by omega)]
        rfl
    · -- The window ends in the key.
      have partShort : part.length ≤ rest.length := by omega
      have minEq : min part.length rest.length = part.length :=
        Nat.min_eq_left partShort
      rw [List.drop_of_length_le partShort, List.nil_append] at whole
      rw [List.take_of_length_le partShort] at sameBytes
      simp only [same, if_true, minEq]
      have moreLength : (rest.drop part.length).length =
          rest.length - part.length := List.length_drop
      rw [if_neg (fun both => keyEnds (by omega))]
      by_cases bytesLeft : tail = []
      · refine .decided ?_ (.inl ?_)
        · simp only
          rw [bytesLeft, List.length_nil] at totalEq
          rw [if_pos ⟨by omega, by omega⟩, whole, bytesLeft]
          cases more : rest.drop part.length with
          | nil =>
              rw [more, List.length_nil] at moreLength
              omega
          | cons byte more => rfl
        · simp only
          rw [bytesLeft, List.length_nil] at totalEq
          rw [if_pos ⟨by omega, by omega⟩]
          decide
      · have tailPos := List.length_pos_iff.mpr bytesLeft
        refine .undecided (rest.drop part.length) ?_ ?_ bytesLeft ?_ rfl ?_
        · calc rest = rest.take part.length ++ rest.drop part.length :=
                (List.take_append_drop _ _).symm
            _ = part ++ rest.drop part.length := by rw [← sameBytes]
        · exact List.length_pos_iff.mp (by omega)
        · simp only
          rw [if_neg (fun both => absurd both.2 (by omega))]
        · simp only
          omega
  · have apart : compare (part.take rest.length) (rest.take part.length) ≠ .eq :=
      fun equal => same (zero.mpr equal)
    have sign := memcmp.sign_eq sameLength same
    have wholeEq : compare (part ++ tail) rest =
        compare (part.take rest.length) (rest.take part.length) := by
      rw [whole]
      cases order : compare (part.take rest.length) (rest.take part.length) with
      | eq => exact absurd order apart
      | lt => rfl
      | gt => rfl
    refine .decided ?_ (.inl ?_)
    · simp only
      rw [if_neg same, sign, wholeEq]
    · simp only
      rw [if_neg same, sign]
      exact fun none => apart (signOf_eq_zero.mp none)

/-! ## The overflow pages -/

theorem OverflowChain.follows {disk : Disk} {page : Nat} {chain : List Nat}
    {bytes : List UInt8} (pages : OverflowChain disk page chain bytes)
    (moreBytes : bytes ≠ []) : page ≠ 0 := by
  cases chain with
  | nil => exact absurd pages.2 moreBytes
  | cons first rest =>
      rw [pages.1]
      exact pages.2.1

theorem compareOverflowPages_chain (memcmp : Memcmp) {disk : Disk}
    {total : Nat} (sizeFits : disk.pageSize < 2 ^ 31) :
    ∀ {chain : List Nat} {page fuel : Nat} {bytes done rest : List UInt8},
      OverflowChain disk page chain bytes → bytes ≠ [] → rest ≠ [] →
      (done ++ rest).length < 2 ^ 31 →
      total = done.length + bytes.length → chain.length ≤ fuel →
      compareOverflowPages (ibtreeContext memcmp) (done ++ rest) total fuel page
        done.length disk = (.ok (signOf (compare bytes rest)), disk)
  | [], _, _, _, _, _, ⟨_, noBytes⟩, moreBytes, _, _, _, _ =>
      absurd noBytes moreBytes
  | _ :: _, _, 0, _, _, _, _, _, _, _, _, enough =>
      absurd enough (Nat.not_succ_le_zero _)
  | first :: others, page, fuel + 1, bytes, done, rest, ⟨here, _, buffer, part,
      tail, found, size, content, _, small, whole, later⟩, _, moreKey, keyFits,
      totalEq, enough => by
      rw [whole] at totalEq
      obtain ⟨compared, compareEq, bytesEq, outcome⟩ :=
        ibtreeCompare_window memcmp content (Nat.lt_trans small sizeFits)
          keyFits moreKey totalEq
      unfold compareOverflowPages
      rw [here, BtM.bind_ok (btreeOverflowPeek_page found size small)]
      simp only [ibtreeContext_compare, compareEq]
      rw [BtM.bind_ok (BtM.ofExcept_ok compared disk)]
      cases outcome with
      | decided resultEq last =>
          rw [whole, ← resultEq]
          by_cases apart : compared.result ≠ 0
          · rw [if_pos apart]
            rfl
          · have ended := last.resolve_left apart
            rw [if_neg apart, if_neg (fun all => all.2.2 ended)]
            rfl
      | undecided more restEq moreKey moreBytes resultEq partEq remainingEq =>
          have morePos := List.length_pos_iff.mpr moreKey
          have tailPos := List.length_pos_iff.mpr moreBytes
          rw [List.length_append] at totalEq
          have doneLength : (done ++ part).length =
              done.length + part.length := List.length_append
          have laterEq := compareOverflowPages_chain memcmp sizeFits later
            moreBytes moreKey
            (by rw [List.append_assoc, ← restEq]; exact keyFits)
            (show total = (done ++ part).length + tail.length by omega)
            (Nat.le_of_succ_le_succ enough)
          rw [doneLength, List.append_assoc, ← restEq] at laterEq
          rw [if_neg (fun apart => apart resultEq),
            if_pos ⟨later.follows moreBytes, by omega, by omega⟩, partEq,
            laterEq, whole, restEq, compare_append_same]

/-! ## The cell -/

/-- The bytes of the payload that are in the node. -/
def Entry.inlinePayload (entry : Entry) : List UInt8 :=
  if pkeyIsCellType entry.flags .cellTypeOverflow then entry.cell.drop 8
  else entry.cell

/-- The first window: `keyof` gives the inline part, the size of the payload
and the first page of the rest. -/
theorem ibtreeKeyof_resolves {disk : Disk} {node : BTreeNode} {index : Nat}
    {entry : Entry} {payload : List UInt8} {chain : List Nat}
    (ok : NodeOk node) (here : node.entries[index]? = some entry)
    (resolves : Resolves disk entry payload chain) :
    ∃ back, payload = entry.inlinePayload ++ back ∧
      (ibtreeKeyof node index).payload.take entry.inlinePayload.length =
        entry.inlinePayload ∧
      (ibtreeKeyof node index).size = entry.inlinePayload.length ∧
      (ibtreeKeyof node index).totalSize = payload.length ∧
      OverflowChain disk (ibtreeKeyof node index).followPage chain back := by
  have reads := ok.reads here
  have sizeEq := reads.size_eq
  cases resolves with
  | inline =>
      have notOverflow : pkeyIsCellType (node.keyAt index).flags
          .cellTypeOverflow = false := by
        rw [reads.flags_eq]
        rfl
      unfold ibtreeKeyof
      simp only [notOverflow, Bool.false_eq_true, if_false]
      exact ⟨[], (List.append_nil _).symm, reads.cell_eq, sizeEq, sizeEq,
        rfl, rfl⟩
  | @overflow key page _ front back pages pageFits sizeFits =>
      obtain ⟨totalEq, pageEq, inlineEq⟩ := reads.overflow sizeFits pageFits
      have isOverflow : pkeyIsCellType (node.keyAt index).flags
          .cellTypeOverflow = true := by
        rw [reads.flags_eq]
        rfl
      have frontEq : Entry.inlinePayload ⟨key, cellTypeCode .cellTypeOverflow,
          overflowCell (front ++ back).length page front⟩ = front := rfl
      simp only at sizeEq
      rw [overflowCell_length] at sizeEq
      unfold cellInlineSize at sizeEq
      unfold ibtreeKeyof
      simp only [isOverflow, if_true, cellReadOverflow, totalEq, pageEq, sizeEq]
      refine ⟨back, rfl, inlineEq, ?_, trivial, pages⟩
      unfold cellOverflowCalcInlinePayloadSize cellOverflowMinDiskSize
      rw [frontEq]
      omega

/-- The comparison gives `BTREE_OK` and the sign of the comparison of the whole
payload with the key. -/
def ComparesWhole (memcmp : Memcmp) (disk : Disk) (node : BTreeNode)
    (index : Nat) (payload key : List UInt8) : Prop :=
  btreeNodeCompareCell (ibtreeContext memcmp) node index key disk =
    (.ok (signOf (compare payload key)), disk)

/-- The comparison is right exactly when the cell keeps a byte of its payload
in the node. -/
theorem compareCell_iff (memcmp : Memcmp) {disk : Disk} {node : BTreeNode}
    {index : Nat} {entry : Entry} {payload key : List UInt8} {chain : List Nat}
    (sizeFits : disk.pageSize < 2 ^ 31)
    (samePageSize : node.pageSize = disk.pageSize) (ok : NodeOk node)
    (here : node.entries[index]? = some entry)
    (resolves : Resolves disk entry payload chain) (moreKey : key ≠ [])
    (keyFits : key.length < 2 ^ 31) :
    ComparesWhole memcmp disk node index payload key ↔
      entry.inlinePayload ≠ [] := by
  obtain ⟨back, payloadEq, windowEq, sizeEq, totalEq, pages⟩ :=
    ibtreeKeyof_resolves ok here resolves
  have keyPos := List.length_pos_iff.mpr moreKey
  have inlineFits : entry.inlinePayload.length < 2 ^ 31 := by
    have entryFits := entry_length_le ok here
    unfold Entry.inlinePayload
    split
    · rw [List.length_drop]
      omega
    · omega
  obtain ⟨compared, compareEq, bytesEq, outcome⟩ :=
    @ibtreeCompare_window memcmp _ [] entry.inlinePayload back key
      (ibtreeKeyof node index).totalSize windowEq inlineFits keyFits moreKey
      (by rw [totalEq, payloadEq, List.length_nil, Nat.zero_add])
  rw [List.nil_append, List.length_nil, ← sizeEq, ← ibtreeContext_compare,
    ← ibtreeContext_keyof memcmp] at compareEq
  unfold ComparesWhole btreeNodeCompareCell
  simp only [compareEq]
  rw [BtM.bind_ok (BtM.ofExcept_ok compared disk)]
  constructor
  · intro whole noBytes
    rw [noBytes, List.length_nil, Nat.zero_min] at bytesEq
    rw [if_pos bytesEq] at whole
    cases (Prod.mk.inj whole).1
  · intro inlineBytes
    have inlinePos := List.length_pos_iff.mpr inlineBytes
    rw [if_neg (by omega)]
    cases outcome with
    | decided resultEq last =>
        rw [if_pos last, payloadEq, ← resultEq]
        rfl
    | undecided more keyEq moreKey moreBytes resultEq partEq remainingEq =>
        have morePos := List.length_pos_iff.mpr moreKey
        have chainFits := pages.length_le
        have laterEq := @compareOverflowPages_chain memcmp disk
          (ibtreeKeyof node index).totalSize sizeFits chain
          (ibtreeKeyof node index).followPage
          ((disk.maxPage + 1) * ((ibtreeKeyof node index).totalSize + 1)) back
          entry.inlinePayload more pages moreBytes moreKey
          (by rw [← keyEq]; exact keyFits)
          (by rw [totalEq, payloadEq, List.length_append])
          (by
            rw [totalEq, payloadEq, List.length_append]
            refine Nat.le_trans ?_ (Nat.le_mul_of_pos_left _ (Nat.succ_pos _))
            omega)
        rw [if_neg (by
          rintro (apart | ended)
          · exact apart resultEq
          · omega), if_neg (by
          rw [ibtreeContext_keyof]
          exact pages.follows moreBytes), partEq,
          BtM.bind_ok (BtM.getDisk_apply disk)]
        rw [← keyEq] at laterEq
        rw [payloadEq, keyEq, compare_append_same, ← keyEq]
        exact laterEq

/-! ## Long records in the two leaves -/

/-- The record on page 2 keeps bytes in the node. -/
theorem long_record_compared :
    ∃ stored after,
      btreeNodeWriteAt (loadedNode twoLeavesDisk 2) ⟨.limIndex, 1⟩ 7 longRecord
        twoLeavesDisk = (.ok stored, after) ∧
      ComparesWhole signMemcmp after stored 1 longRecord
        (longRecord.take 280) := by
  have checked : CheckedStore twoLeavesDisk [] := by decide +kernel
  have keeps : ((btreeNodeWriteAt (loadedNode twoLeavesDisk 2) ⟨.limIndex, 1⟩ 7
      longRecord twoLeavesDisk).1.toOption.bind fun stored =>
        stored.entries[1]?.map Entry.inlinePayload) ≠ some [] := by
    decide +kernel
  obtain ⟨stored, after, left, entry, new, writeEq, whole⟩ :=
    @btreeNodeWriteAt_stored twoLeavesDisk [] (loadedNode twoLeavesDisk 2)
      ⟨.limIndex, 1⟩ 7 longRecord ⟨by decide, by decide⟩ checked.store
      (by decide +kernel) ⟨by decide +kernel, fun _ => by decide +kernel⟩
      (by decide +kernel) (by decide +kernel) (by decide) (by decide +kernel)
      (by decide +kernel) (by decide +kernel)
  have here : stored.entries[1]? = some entry := by
    rw [whole.reentered.entries_eq]
    exact (List.getElem?_insertIdx_self).trans (if_pos (by decide +kernel))
  have inlineBytes : entry.inlinePayload ≠ [] := by
    intro none
    rw [writeEq] at keeps
    refine keeps ?_
    simp only [Except.toOption, Option.bind_some]
    rw [here, ← none]
    rfl
  have iff := compareCell_iff signMemcmp
    (by rw [whole.updates.pageSize]; decide)
    (whole.holds.pageSize_eq whole.updates.store) whole.holds.ok here
    whole.resolves (by decide +kernel : longRecord.take 280 ≠ [])
    (by decide +kernel)
  exact ⟨stored, after, writeEq, iff.mpr inlineBytes⟩

/-- The record on page 1 keeps no byte in the node, and comparing it fails. -/
theorem record_behind_empty_part_not_compared :
    ∃ stored after,
      btreeNodeWriteAt (loadedNode twoLeavesDisk 1) ⟨.limIndex, 1⟩ 7 longRecord
        twoLeavesDisk = (.ok stored, after) ∧
      ¬ ComparesWhole signMemcmp after stored 1 longRecord [1] := by
  have fails : ((btreeNodeWriteAt (loadedNode twoLeavesDisk 1) ⟨.limIndex, 1⟩ 7
      longRecord twoLeavesDisk).1.toOption.map fun stored =>
        (btreeNodeCompareCell (ibtreeContext signMemcmp) stored 1 [1]
          (btreeNodeWriteAt (loadedNode twoLeavesDisk 1) ⟨.limIndex, 1⟩ 7
            longRecord twoLeavesDisk).2).1.isOk) = some false := by
    decide +kernel
  cases writeEq : btreeNodeWriteAt (loadedNode twoLeavesDisk 1) ⟨.limIndex, 1⟩ 7
      longRecord twoLeavesDisk with
  | mk result after =>
      rw [writeEq] at fails
      cases result with
      | error stop => cases fails
      | ok stored =>
          refine ⟨stored, after, rfl, ?_⟩
          intro compares
          unfold ComparesWhole at compares
          simp only [Except.toOption, Option.map_some] at fails
          rw [compares] at fails
          cases fails

end BtreeDb
