import BtreeDb.Tree.Cursor

/-!
# Calls on a cursor

A cursor function reports an error code and still leaves its cursor
somewhere, which its caller then goes on with.  `CursorM` is such a call.  An
error ends the functions around it until one of them looks at the code
(`attempt`).
-/

namespace BtreeDb

/-- A cursor function: its result and the cursor as it leaves it. -/
abbrev CursorM (α : Type) : Type :=
  Cursor → BtM (Except BTreeE α × Cursor)

namespace CursorM

variable {α β : Type}

instance : Monad CursorM where
  pure value cursor := pure (.ok value, cursor)
  bind call next cursor := do
    match ← call cursor with
    | (.ok value, later) => next value later
    | (.error code, later) => pure (.error code, later)

def fail (code : BTreeE) : CursorM α := fun cursor =>
  pure (.error code, cursor)

def getCursor : CursorM Cursor := fun cursor => pure (.ok cursor, cursor)

def setCursor (cursor : Cursor) : CursorM Unit := fun _ =>
  pure (.ok (), cursor)

/-- A call that does not know the cursor. -/
def lift (call : BtM α) : CursorM α := fun cursor => do
  pure (← BtM.attempt call, cursor)

/-- Move the cursor; a failed move leaves it alone. -/
def move (step : Cursor → Except Stop (α × Cursor)) : CursorM α :=
  fun cursor => do
    match ← BtM.attempt (BtM.ofExcept (step cursor)) with
    | .ok (value, later) => pure (.ok value, later)
    | .error code => pure (.error code, cursor)

/-- Run a call and look at its result code. -/
def attempt (call : CursorM α) : CursorM (Except BTreeE α) :=
  fun cursor => do
    let (result, later) ← call cursor
    pure (.ok result, later)

/-- Return a result code. -/
def ofResult (result : Except BTreeE α) : CursorM α := fun cursor =>
  pure (result, cursor)

section Rules

variable {cursor later : Cursor} {disk after : Disk}

@[simp]
theorem pure_apply (value : α) :
    (pure value : CursorM α) cursor disk = (.ok (.ok value, cursor), disk) :=
  rfl

@[simp]
theorem fail_apply (code : BTreeE) :
    (fail code : CursorM α) cursor disk =
      (.ok (.error code, cursor), disk) := rfl

@[simp]
theorem ofResult_apply (result : Except BTreeE α) :
    ofResult result cursor disk = (.ok (result, cursor), disk) := rfl

theorem bind_ok {call : CursorM α} {next : α → CursorM β} {value : α}
    (first : call cursor disk = (.ok (.ok value, later), after)) :
    (call >>= next) cursor disk = next value later after := by
  change (call cursor >>= _) disk = _
  rw [BtM.bind_ok first]

theorem bind_error {call : CursorM α} {next : α → CursorM β} {code : BTreeE}
    (first : call cursor disk = (.ok (.error code, later), after)) :
    (call >>= next) cursor disk = (.ok (.error code, later), after) := by
  change (call cursor >>= _) disk = _
  rw [BtM.bind_ok first]
  rfl

theorem getCursor_apply :
    getCursor cursor disk = (.ok (.ok cursor, cursor), disk) := rfl

theorem setCursor_apply (next : Cursor) :
    setCursor next cursor disk = (.ok (.ok (), next), disk) := rfl

theorem lift_ok {call : BtM α} {value : α}
    (first : call disk = (.ok value, after)) :
    lift call cursor disk = (.ok (.ok value, cursor), after) := by
  unfold lift
  rw [BtM.bind_ok (BtM.attempt_ok first)]
  rfl

theorem lift_error {call : BtM α} {code : BTreeE}
    (first : call disk = (.error (.err code), after)) :
    lift call cursor disk = (.ok (.error code, cursor), after) := by
  unfold lift
  rw [BtM.bind_ok (BtM.attempt_error first)]
  rfl

theorem move_ok {step : Cursor → Except Stop (α × Cursor)} {value : α}
    (first : step cursor = .ok (value, later)) :
    move step cursor disk = (.ok (.ok value, later), disk) := by
  unfold move
  rw [first]
  rfl

theorem attempt_of {call : CursorM α} {result : Except BTreeE α}
    (first : call cursor disk = (.ok (result, later), after)) :
    attempt call cursor disk = (.ok (.ok result, later), after) := by
  unfold attempt
  rw [BtM.bind_ok first]
  rfl

end Rules

end CursorM

/-! ## Pushing and popping -/

def moved (step : Except Stop Cursor) : Except Stop (Unit × Cursor) :=
  step.map fun cursor => ((), cursor)

/-- `cursor_push` on the way through a cursor function. -/
def push : CursorM Unit := CursorM.move fun cursor => moved (cursorPush cursor)

def pushCrumb (crumb : CursorBreadcrumb) : CursorM Unit :=
  CursorM.move fun cursor => moved (cursorPushCrumb cursor crumb)

def pop : CursorM CursorBreadcrumb := CursorM.move cursorPop

def peek : CursorM CursorBreadcrumb :=
  CursorM.move fun cursor =>
    (cursorPeek cursor).map fun crumb => (crumb, cursor)

/-- `cursor_pop_n`. -/
def cursorPopN : Nat → CursorM (List CursorBreadcrumb)
  | 0 => pure []
  | count + 1 => do
      let crumb ← pop
      let crumbs ← cursorPopN count
      pure (crumb :: crumbs)

/-- `cursor_restore`: the crumbs go back in the order they were popped in
reverse. -/
def cursorRestore : List CursorBreadcrumb → CursorM Unit
  | [] => pure ()
  | crumb :: deeper => do
      cursorRestore deeper
      pushCrumb crumb

/-- A cursor that stands where its last crumb says. -/
def cursorAt (crumbs : List CursorBreadcrumb) : Cursor :=
  match crumbs with
  | [] => ⟨0, ⟨.limEnd, 0⟩, []⟩
  | crumb :: _ => ⟨crumb.pageId, crumb.keyIndex, crumbs⟩

@[simp]
theorem cursorAt_breadcrumbs (crumbs : List CursorBreadcrumb) :
    (cursorAt crumbs).breadcrumbs = crumbs := by
  cases crumbs <;> rfl

section Rules

variable {cursor : Cursor} {disk : Disk} {crumb : CursorBreadcrumb}
variable {crumbs rest : List CursorBreadcrumb}

theorem pop_apply (stack : cursor.breadcrumbs = crumb :: rest) :
    pop cursor disk = (.ok (.ok crumb, cursorAt rest), disk) := by
  refine CursorM.move_ok ?_
  unfold cursorPop
  rw [stack]
  cases rest with
  | nil => rfl
  | cons below lower => rfl

theorem push_apply (room : cursor.breadcrumbs.length < maxBreadcrumbs) :
    push cursor disk =
      (.ok (.ok (), cursorAt
        (⟨cursor.currentKeyIndex, cursor.currentPageId⟩ ::
          cursor.breadcrumbs)), disk) := by
  refine CursorM.move_ok ?_
  unfold moved cursorPush
  rw [if_neg (Nat.ne_of_lt room)]
  rfl

theorem pushCrumb_apply (room : cursor.breadcrumbs.length < maxBreadcrumbs) :
    pushCrumb crumb cursor disk =
      (.ok (.ok (), cursorAt (crumb :: cursor.breadcrumbs)), disk) := by
  refine CursorM.move_ok ?_
  unfold moved cursorPushCrumb
  rw [if_neg (Nat.ne_of_lt room)]
  rfl

theorem cursorPopN_apply : ∀ {crumbs : List CursorBreadcrumb} {cursor : Cursor},
    cursor.breadcrumbs = crumbs ++ rest → cursor = cursorAt cursor.breadcrumbs →
      cursorPopN crumbs.length cursor disk =
        (.ok (.ok crumbs, cursorAt rest), disk)
  | [], cursor, stack, standing => by
      rw [List.nil_append] at stack
      rw [← stack, ← standing]
      rfl
  | crumb :: deeper, cursor, stack, _ => by
      rw [List.cons_append] at stack
      rw [List.length_cons, cursorPopN]
      rw [CursorM.bind_ok (pop_apply stack)]
      rw [CursorM.bind_ok (cursorPopN_apply
        (cursorAt_breadcrumbs _) (congrArg cursorAt
          (cursorAt_breadcrumbs _).symm))]
      rfl

theorem cursorRestore_apply : ∀ {crumbs : List CursorBreadcrumb},
    crumbs.length + rest.length ≤ maxBreadcrumbs →
      cursorRestore crumbs (cursorAt rest) disk =
        (.ok (.ok (), cursorAt (crumbs ++ rest)), disk)
  | [], _ => rfl
  | crumb :: deeper, room => by
      rw [List.length_cons] at room
      rw [cursorRestore,
        CursorM.bind_ok (cursorRestore_apply (by omega))]
      rw [pushCrumb_apply (by
        rw [cursorAt_breadcrumbs, List.length_append]
        omega), cursorAt_breadcrumbs]
      rfl

end Rules

end BtreeDb
