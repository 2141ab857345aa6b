import BtreeDb.Lib.ByteOrder

/-!
# Comparing records under a schema

`ibtree_layout_schema_cmp.c`: a record behind a header is compared with a key
column by column, while the record arrives in windows.  The context remembers
between the calls which column is next, what is known of its length and how
much of it is compared.
-/

namespace BtreeDb

open Bytes

/-! ## Schemas and contexts -/

/-- `enum ibtlsk_type_e`. -/
inductive IbtlskType where
  | invalid
  | fixed
  | varsize
  deriving DecidableEq, Repr

/-- `struct IBTLSKeyDef`; the size counts for `fixed` only. -/
structure IBTLSKeyDef where
  type : IbtlskType
  size : Nat
  deriving DecidableEq, Repr

/-- `struct IBTreeLayoutSchema`; `nkey_definitions` is the length of the
list. -/
structure IBTreeLayoutSchema where
  keyOffset : Nat
  keyDefinitions : List IBTLSKeyDef
  deriving DecidableEq, Repr

/-- `struct VarsizeKeyState`; `len_len` is the length of `lenBytes`. -/
structure VarsizeKeyState where
  lenBytes : List UInt8
  keySize : Nat
  ready : Bool
  consumedSize : Nat
  deriving DecidableEq, Repr

/-- A column of which nothing has been seen. -/
def VarsizeKeyState.zero : VarsizeKeyState := ⟨[], 0, false, 0⟩

/-- `struct RKeyState`. -/
structure RKeyState where
  rkeySize : Nat
  rkeyOffset : Nat
  deriving DecidableEq, Repr

/-- `enum payload_compare_type_e`. -/
inductive PayloadCompareType where
  | invalid
  | record
  | key
  deriving DecidableEq, Repr

/-- `struct IBTLSCompareContext`. -/
structure IBTLSCompareContext where
  initted : Bool
  type : PayloadCompareType
  schema : IBTreeLayoutSchema
  varkeys : List VarsizeKeyState
  rkeys : List RKeyState
  nvarkeys : Nat
  currKey : Nat
  deriving DecidableEq, Repr

/-- `ibtls_init_compare_context_from_schema`, which does not look at its
`type`. -/
def ibtlsInitCompareContextFromSchema (schema : IBTreeLayoutSchema)
    (_ : PayloadCompareType) : IBTLSCompareContext where
  initted := false
  type := .key
  schema := schema
  varkeys := List.replicate 4 .zero
  rkeys := List.replicate 4 ⟨0, 0⟩
  nvarkeys := 0
  currKey := 0

/-- `ibtls_reset_compare`. -/
def ibtlsResetCompare (ctx : IBTLSCompareContext) : IBTLSCompareContext :=
  { ctx with
    varkeys := List.replicate (min ctx.nvarkeys 4) .zero ++
      ctx.varkeys.drop ctx.nvarkeys
    currKey := 0 }

/-- `initialize_rkey_offsets` from a key definition on: where the bytes of each
column are in the key.  A `fixed` column leaves its state cleared. -/
def rkeyStates (payload : List UInt8) :
    List IBTLSKeyDef → Nat → List RKeyState
  | [], _ => []
  | definition :: rest, offset =>
      if definition.type = .varsize then
        let rkeySize := u32At payload offset
        ⟨rkeySize, offset + 4⟩ ::
          rkeyStates payload rest (offset + 4 + rkeySize)
      else
        ⟨0, 0⟩ :: rkeyStates payload rest (offset + definition.size)

/-- `init_if_not`. -/
def initIfNot (ctx : IBTLSCompareContext) (payload : List UInt8) :
    IBTLSCompareContext :=
  if ctx.initted then ctx
  else
    let offset := if ctx.type = .record then ctx.schema.keyOffset else 0
    let states := rkeyStates payload ctx.schema.keyDefinitions offset
    { ctx with
      rkeys := states ++ ctx.rkeys.drop states.length
      nvarkeys := ctx.schema.keyDefinitions.length
      initted := true }

/-! ## Comparing one window -/

/-- How a comparison can go wrong: a failed assertion, a read past the end of a
buffer, or a loop that does not end. -/
inductive CompareStop where
  | assertFailed
  | outOfBounds
  | diverges
  deriving DecidableEq, Repr

/-- Subtraction of `u32`s. -/
def u32Sub (left right : Nat) : Nat := (left + 2 ^ 32 - right) % 2 ^ 32

/-- `min`, which takes `int`s and gives an `int`. -/
def intMinimum (left right : Nat) : Int :=
  min (BitVec.ofNat 32 left).toInt (BitVec.ofNat 32 right).toInt

/-- `struct KeyBytes` of the window: where its bytes are in the window, and how
many. -/
structure KeyBytes where
  nbytes : Int
  lwnd : Nat
  notInWindow : Bool
  hasMore : Bool
  deriving DecidableEq, Repr

/-- `consume_varsize_bytes`: the bytes of the length that are in the window. -/
def consumeVarsizeBytes (keystate : VarsizeKeyState) (window : List UInt8)
    (lwnd : Nat) : VarsizeKeyState × Nat :=
  if keystate.ready then (keystate, lwnd)
  else
    let taken := (window.drop lwnd).take (4 - keystate.lenBytes.length)
    let lenBytes := keystate.lenBytes ++ taken
    if lenBytes.length = 4 then
      (⟨lenBytes, fromLe lenBytes, true, keystate.consumedSize⟩,
        lwnd + taken.length)
    else ({ keystate with lenBytes := lenBytes }, lwnd + taken.length)

def IBTLSCompareContext.varkey (ctx : IBTLSCompareContext) (index : Nat) :
    VarsizeKeyState :=
  ctx.varkeys.getD index .zero

def IBTLSCompareContext.rkey (ctx : IBTLSCompareContext) (index : Nat) :
    RKeyState :=
  ctx.rkeys.getD index ⟨0, 0⟩

def IBTLSCompareContext.setVarkey (ctx : IBTLSCompareContext)
    (keystate : VarsizeKeyState) : IBTLSCompareContext :=
  { ctx with varkeys := ctx.varkeys.set ctx.currKey keystate }

/-- The start of `cmpbytes`: where the window is behind the header, if it
reaches so far. -/
def skipHeader (ctx : IBTLSCompareContext) (window : List UInt8)
    (bytesCompared cmpOffset : Nat) : Option Nat :=
  let absLwnd := bytesCompared + cmpOffset
  if absLwnd < ctx.schema.keyOffset then
    if absLwnd + window.length ≥ ctx.schema.keyOffset then
      some (cmpOffset + (ctx.schema.keyOffset - absLwnd))
    else none
  else some cmpOffset

/-- The middle of `cmpbytes`: what the type of the column asks for. -/
def configureKey (ctx : IBTLSCompareContext) (window : List UInt8)
    (lwnd : Nat) : Except CompareStop (VarsizeKeyState × Nat) :=
  match (ctx.schema.keyDefinitions.getD ctx.currKey ⟨.invalid, 0⟩).type with
  | .varsize =>
      .ok (consumeVarsizeBytes (ctx.varkey ctx.currKey) window lwnd)
  | .fixed =>
      .ok ({ ctx.varkey ctx.currKey with
        keySize := (ctx.rkey ctx.currKey).rkeySize
        ready := true }, lwnd)
  | .invalid => .error .assertFailed

/-- `cmpbytes`. -/
def cmpbytes (ctx : IBTLSCompareContext) (window : List UInt8)
    (bytesCompared cmpOffset : Nat) :
    Except CompareStop (IBTLSCompareContext × KeyBytes) :=
  match skipHeader ctx window bytesCompared cmpOffset with
  | none => .ok (ctx, ⟨0, 0, true, false⟩)
  | some lwnd => do
      let (keystate, lwnd) ← configureKey ctx window lwnd
      let ctx := ctx.setVarkey keystate
      if keystate.ready then
        let nbytes := intMinimum (u32Sub window.length lwnd)
          (u32Sub keystate.keySize keystate.consumedSize)
        pure (ctx,
          { nbytes := nbytes
            lwnd := lwnd
            notInWindow := false
            hasMore := decide
              ((lwnd + (BitVec.ofInt 32 nbytes).toNat) % 2 ^ 32 <
                window.length) })
      else
        pure (ctx, ⟨0, lwnd, true, false⟩)

/-- `memcmp` with a count, on buffers that have to be as long. -/
def memcmpBytes (memcmp : Memcmp) (left right : List UInt8) (count : Int) :
    Except CompareStop Int :=
  if 0 ≤ count ∧ count ≤ left.length ∧ count ≤ right.length then
    .ok (memcmp.run (left.take count.toNat) (right.take count.toNat))
  else .error .outOfBounds

/-- What `ibtls_compare` gives: its result, `out_bytes_compared` and
`out_key_size_remaining`. -/
structure SchemaCompared where
  result : Int
  bytesCompared : Nat
  keySizeRemaining : Nat
  deriving DecidableEq, Repr

/-- How a turn of the loop of `ibtls_compare` ends. -/
inductive CompareTurn where
  | returns (ctx : IBTLSCompareContext) (compared : SchemaCompared)
  | again (ctx : IBTLSCompareContext) (cmpOffset bytesCompared : Nat)
  deriving DecidableEq, Repr

/-- The state of the column that so many bytes more are compared of. -/
def IBTLSCompareContext.consumedKey (ctx : IBTLSCompareContext)
    (nbytes : Nat) : VarsizeKeyState :=
  { ctx.varkey ctx.currKey with
    consumedSize := (ctx.varkey ctx.currKey).consumedSize + nbytes }

/-- So many bytes more are compared; when they are the last ones of the key's
column, the next column is the current one. -/
def IBTLSCompareContext.consume (ctx : IBTLSCompareContext) (nbytes : Nat) :
    IBTLSCompareContext :=
  let after := ctx.setVarkey (ctx.consumedKey nbytes)
  if (ctx.consumedKey nbytes).consumedSize = (ctx.rkey ctx.currKey).rkeySize
  then { after with currKey := after.currKey + 1 }
  else after

/-- The end of a turn: what is left of the column on either side, and whether
that decides the comparison. -/
def finishTurn (ctx : IBTLSCompareContext) (cmpBytes : KeyBytes)
    (cmpOffset outBytesCompared : Nat) (nbytes cmpResult : Int) :
    Except CompareStop CompareTurn :=
  let cmpKeystate := ctx.consumedKey nbytes.toNat
  let rKeystate := ctx.rkey ctx.currKey
  let ctx := ctx.consume nbytes.toNat
  let rkeyRemaining := ¬ (cmpKeystate.consumedSize = rKeystate.rkeySize ∧
    ctx.currKey = ctx.nvarkeys)
  let cmpRemaining := ¬ (cmpKeystate.consumedSize = cmpKeystate.keySize ∧
    ctx.currKey = ctx.nvarkeys)
  let bytesCompared := outBytesCompared + (cmpBytes.lwnd + nbytes.toNat)
  let keySizeRemaining := if rkeyRemaining then 1 else 0
  if cmpResult ≠ 0 then
    .ok (.returns ctx ⟨cmpResult, bytesCompared, keySizeRemaining⟩)
  else if rkeyRemaining ∧ cmpRemaining then
    -- there are remaining bytes for both keys
    if cmpBytes.hasMore ∧ nbytes ≠ 0 then
      .ok (.again ctx (cmpOffset + (cmpBytes.lwnd + nbytes.toNat))
        bytesCompared)
    else if nbytes ≠ 0 then
      .ok (.returns ctx ⟨0, bytesCompared, keySizeRemaining⟩)
    else .error .assertFailed
  else if rkeyRemaining then
    .ok (.returns ctx ⟨-1, bytesCompared, keySizeRemaining⟩)
  else if cmpRemaining then
    .ok (.returns ctx ⟨1, bytesCompared, keySizeRemaining⟩)
  else .ok (.returns ctx ⟨0, bytesCompared, keySizeRemaining⟩)

/-- The turn after `cmpbytes` found bytes to compare; `keybytes` gives the
bytes of the key that belong to them. -/
def compareBytes (memcmp : Memcmp) (ctx : IBTLSCompareContext)
    (window payload : List UInt8) (cmpOffset outBytesCompared : Nat)
    (cmpBytes : KeyBytes) : Except CompareStop CompareTurn := do
  let cmpKeystate := ctx.varkey ctx.currKey
  let rKeystate := ctx.rkey ctx.currKey
  let nbytes := intMinimum
    (u32Sub rKeystate.rkeySize cmpKeystate.consumedSize)
    (BitVec.ofInt 32 cmpBytes.nbytes).toNat
  let cmpResult ← memcmpBytes memcmp (window.drop cmpBytes.lwnd)
    (payload.drop (rKeystate.rkeyOffset + cmpKeystate.consumedSize)) nbytes
  finishTurn ctx cmpBytes cmpOffset outBytesCompared nbytes cmpResult

/-- One turn of the loop of `ibtls_compare`. -/
def compareTurn (memcmp : Memcmp) (ctx : IBTLSCompareContext)
    (window payload : List UInt8)
    (bytesCompared cmpOffset outBytesCompared : Nat) :
    Except CompareStop CompareTurn := do
  let (ctx, cmpBytes) ← cmpbytes ctx window bytesCompared cmpOffset
  if cmpBytes.notInWindow then
    pure (.returns ctx ⟨0, window.length, 1⟩)
  else
    compareBytes memcmp ctx window payload cmpOffset outBytesCompared cmpBytes

/-- The loop of `ibtls_compare`. -/
def compareLoop (memcmp : Memcmp) (window payload : List UInt8)
    (bytesCompared : Nat) : Nat → IBTLSCompareContext → Nat → Nat →
    Except CompareStop (IBTLSCompareContext × SchemaCompared)
  | 0, _, _, _ => .error .diverges
  | fuel + 1, ctx, cmpOffset, outBytesCompared => do
      match ← compareTurn memcmp ctx window payload bytesCompared cmpOffset
          outBytesCompared with
      | .returns ctx compared => pure (ctx, compared)
      | .again ctx cmpOffset outBytesCompared =>
          compareLoop memcmp window payload bytesCompared fuel ctx cmpOffset
            outBytesCompared

/-- `ibtls_compare`.  Every turn of its loop but the last compares a byte. -/
def ibtlsCompare (memcmp : Memcmp) (ctx : IBTLSCompareContext)
    (window payload : List UInt8) (bytesCompared : Nat) :
    Except CompareStop (IBTLSCompareContext × SchemaCompared) :=
  compareLoop memcmp window payload bytesCompared (window.length + 1)
    (initIfNot ctx payload) 0 0

/-- A caller that hands over window after window, until the comparison is
decided or the record has ended. -/
def compareWindows (memcmp : Memcmp) (payload : List UInt8) :
    List (List UInt8) → IBTLSCompareContext → Nat → Except CompareStop Int
  | [], _, _ => .ok 0
  | window :: rest, ctx, bytesCompared => do
      let (ctx, compared) ← ibtlsCompare memcmp ctx window payload bytesCompared
      if compared.result ≠ 0 ∨ compared.keySizeRemaining = 0 then
        pure compared.result
      else
        compareWindows memcmp payload rest ctx
          (bytesCompared + compared.bytesCompared)

end BtreeDb
