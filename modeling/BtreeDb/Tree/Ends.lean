import BtreeDb.Index.Insert
import BtreeDb.Tree.Iterate
import BtreeDb.Tree.Merging

/-!
# Calls that end

`Ends` says of a call that it returns or fails an assertion on every disk, and
`Leaves` says it of a call on a cursor, with what it leaves the cursor like.
The calls on the way of the cursor's loops end, and they leave no more crumbs
than there were, or as many more as they have pushed.
-/

namespace BtreeDb

/-! ## Calls that end -/

/-- A computation does not give up on a loop. -/
def Settled {α : Type} (outcome : Except Stop α) : Prop :=
  outcome ≠ .error .diverges

/-- A call returns or fails an assertion, whatever the disk. -/
def BtM.Ends {α : Type} (call : BtM α) : Prop :=
  ∀ disk, Settled (call disk).1

section Ends

variable {α β : Type}

theorem settled_ok (value : α) : Settled (.ok value) := by
  intro same
  cases same

theorem settled_error {reason : Stop} (other : reason ≠ .diverges) :
    Settled (.error reason : Except Stop α) := by
  intro same
  cases same
  exact other rfl

theorem settled_err (code : BTreeE) :
    Settled (.error (.err code) : Except Stop α) :=
  settled_error (by intro same; cases same)

theorem settled_assertFailed :
    Settled (.error .assertFailed : Except Stop α) :=
  settled_error (by intro same; cases same)

namespace BtM.Ends

theorem pure (value : α) : Ends (Pure.pure value : BtM α) := by
  intro disk
  exact settled_ok value

/-- One run of a sequence. -/
theorem bind_at {call : BtM α} {next : α → BtM β} {disk : Disk}
    (first : Settled (call disk).1)
    (rest : ∀ value after, call disk = (.ok value, after) →
      Settled (next value after).1) : Settled ((call >>= next) disk).1 := by
  rw [BtM.bind_apply]
  cases outcome : call disk with
  | mk result after =>
      cases result with
      | ok value => exact rest value after outcome
      | error reason =>
          rw [outcome] at first
          apply settled_error
          rintro rfl
          exact first rfl

theorem bind {call : BtM α} {next : α → BtM β} (first : Ends call)
    (rest : ∀ value, Ends (next value)) : Ends (call >>= next) := by
  intro disk
  apply bind_at (first disk)
  intro value after _
  exact rest value after

theorem stop {reason : Stop} (other : reason ≠ .diverges) :
    Ends (BtM.stop reason : BtM α) := by
  intro disk
  exact settled_error other

theorem fail (code : BTreeE) : Ends (BtM.fail code : BtM α) := by
  intro disk
  exact settled_err code

theorem getDisk : Ends BtM.getDisk := by
  intro disk
  exact settled_ok disk

theorem assert (condition : Bool) : Ends (BtM.assert condition) := by
  unfold BtM.assert
  split
  · exact pure ()
  · intro disk
    exact settled_assertFailed

theorem attempt {call : BtM α} (ends : Ends call) :
    Ends (BtM.attempt call) := by
  intro disk
  have here := ends disk
  unfold BtM.attempt
  split
  · exact settled_ok _
  · exact settled_ok _
  · next reason after notErr outcome =>
      rw [outcome] at here
      apply settled_error
      rintro rfl
      exact here rfl

theorem ofExcept {outcome : Except Stop α} (settled : Settled outcome) :
    Ends (BtM.ofExcept outcome) := by
  intro disk
  cases outcome with
  | ok value => exact settled_ok value
  | error reason =>
      apply settled_error
      rintro rfl
      exact settled rfl

/-- What follows a computation has to end for its value only. -/
theorem bind_ofExcept {outcome : Except Stop α} {next : α → BtM β}
    (settled : Settled outcome)
    (rest : ∀ value, outcome = .ok value → Ends (next value)) :
    Ends (BtM.ofExcept outcome >>= next) := by
  intro disk
  apply bind_at (ofExcept settled disk)
  intro value after same
  exact rest value (BtM.ofExcept_eq_ok same).1 after

theorem ofPager (call : PagerM Disk α) : Ends (BtM.ofPager call) := by
  intro disk
  unfold BtM.ofPager
  split
  · exact settled_ok _
  · exact settled_assertFailed

end BtM.Ends

end Ends

open BtM

/-! ## Nodes and pages -/

section Nodes

variable {node : BTreeNode} {position : ChildListIndex} {key : Nat}

theorem btpageErr_settled (result : PagerE) : Settled (btpageErr result) := by
  cases result
  case ok => exact settled_ok _
  all_goals exact settled_err _

theorem readPage_ends (pageId : Nat) : Ends (readPage pageId) := by
  apply Ends.bind (Ends.ofPager _)
  intro read
  apply Ends.bind (Ends.ofExcept (btpageErr_settled _))
  intro _
  exact Ends.pure _

theorem writePage_ends (page : Page) : Ends (writePage page) := by
  apply Ends.bind (Ends.ofPager _)
  intro written
  apply Ends.bind (Ends.ofExcept (btpageErr_settled _))
  intro _
  exact Ends.pure _

theorem nodercAcquire_ends : Ends nodercAcquire := by
  apply Ends.bind Ends.getDisk
  intro disk
  exact Ends.pure _

theorem nodercReinitAs_ends (pageNumber : Nat) :
    Ends (nodercReinitAs pageNumber) := by
  apply Ends.bind Ends.getDisk
  intro disk
  exact Ends.pure _

theorem nodercReinitRead_ends (pageId : Nat) :
    Ends (nodercReinitRead pageId) := by
  apply Ends.bind (readPage_ends pageId)
  intro page
  exact Ends.pure _

/-- Loading a node leaves the disk alone. -/
theorem nodercReinitRead_disk (pageId : Nat) (disk : Disk) :
    (nodercReinitRead pageId disk).2 = disk := by
  unfold nodercReinitRead
  cases found : disk.page? pageId with
  | some image => rw [BtM.bind_ok (readPage_present found)]; rfl
  | none => rw [BtM.bind_error (readPage_absent found)]

theorem nodercPersist_ends (node : BTreeNode) : Ends (nodercPersist node) := by
  apply Ends.bind (writePage_ends _)
  intro page
  exact Ends.pure _

theorem nodercPersistN_ends (nodes : List BTreeNode) :
    Ends (nodercPersistN nodes) := by
  induction nodes with
  | nil => exact Ends.pure []
  | cons node nodes inductionHypothesis =>
      apply Ends.bind (nodercPersist_ends node)
      intro stored
      apply Ends.bind inductionHypothesis
      intro rest
      exact Ends.pure _

theorem freelistPushPage_ends (page : Page) : Ends (freelistPushPage page) := by
  apply Ends.bind (Ends.ofPager _)
  intro pushed
  exact Ends.ofExcept (btpageErr_settled _)

theorem writePageKey_settled {cellSize flags : Nat} :
    Settled (writePageKey node position key cellSize flags) := by
  unfold writePageKey
  simp only
  split
  · exact settled_ok _
  · exact settled_assertFailed

theorem nodeInsertInlineEx_settled {cell : BTreeCellInline} {flags : Nat} :
    Settled (nodeInsertInlineEx node position key cell flags) := by
  unfold nodeInsertInlineEx
  simp only
  split
  · exact settled_err _
  · exact writePageKey_settled

theorem nodeInsertOverflow_settled {cell : BTreeCellOverflow} :
    Settled (nodeInsertOverflow node position key cell) := by
  unfold nodeInsertOverflow
  simp only
  split
  · exact settled_err _
  · exact writePageKey_settled

theorem btreeNodeRemove_settled : Settled (btreeNodeRemove node position) := by
  unfold btreeNodeRemove
  split
  · exact settled_assertFailed
  · split
    · exact settled_err _
    · split
      · exact settled_err _
      · exact settled_ok _
  · split
    · exact settled_ok _
    · exact settled_assertFailed

theorem btreeNodeCopy_settled (dest src : BTreeNode) :
    Settled (btreeNodeCopy dest src) := by
  unfold btreeNodeCopy
  split
  · exact settled_ok _
  · exact settled_assertFailed

theorem readCellPage_settled (tree : BTree) (node : BTreeNode) (index : Nat) :
    Settled (readCellPage tree node index) := by
  unfold readCellPage
  split
  · exact settled_ok _
  · split
    · simp only
      split
      · exact settled_err _
      · exact settled_ok _
    · exact settled_ok _

end Nodes

/-! ## Writing records -/

section Writing

variable {node : BTreeNode} {position : ChildListIndex} {key : Nat}

theorem btreeOverflowWrite_ends (data : List UInt8) (followPageId : Nat) :
    Ends (btreeOverflowWrite data followPageId) := by
  apply Ends.bind Ends.getDisk
  intro disk
  split
  · exact Ends.fail _
  · apply Ends.bind (writePage_ends _)
    intro page
    exact Ends.pure _

theorem btreeNodeMoveCellFromData_ends {flags size : Nat}
    {buffer : List UInt8} :
    Ends (btreeNodeMoveCellFromData node position key flags buffer size) := by
  unfold btreeNodeMoveCellFromData
  simp only
  split
  · exact Ends.ofExcept nodeInsertInlineEx_settled
  · apply Ends.bind (btreeOverflowWrite_ends _ _)
    intro pageId
    exact Ends.ofExcept nodeInsertOverflow_settled

theorem btreeNodeMoveCell_ends (source dest : BTreeNode) (index : Nat) :
    Ends (btreeNodeMoveCell source dest index) :=
  btreeNodeMoveCellFromData_ends

theorem moveEveryCell_ends (source : BTreeNode) (indexes : List Nat) :
    ∀ dest, Ends (moveEveryCell source indexes dest) := by
  induction indexes with
  | nil =>
      intro dest
      exact Ends.pure dest
  | cons index indexes inductionHypothesis =>
      intro dest
      apply Ends.bind (btreeNodeMoveCell_ends source dest index)
      intro moved
      exact inductionHypothesis moved

theorem moveCellUnchecked_ends (source dest : BTreeNode) (index : Nat) :
    Ends (moveCellUnchecked source dest index) := by
  apply Ends.bind (Ends.attempt (btreeNodeMoveCell_ends source dest index))
  intro moved
  cases moved with
  | ok after => exact Ends.pure after
  | error code => exact Ends.pure dest

theorem moveCells_ends (source : BTreeNode) (indexes : List Nat) :
    ∀ dest, Ends (moveCells source indexes dest) := by
  induction indexes with
  | nil =>
      intro dest
      exact Ends.pure dest
  | cons index indexes inductionHypothesis =>
      intro dest
      apply Ends.bind (moveCellUnchecked_ends source dest index)
      intro moved
      exact inductionHypothesis moved

/-- The loop over the overflow pages is over their number. -/
theorem writeOverflowPages_ends (data : List UInt8)
    (inlinePayloadSize writable pages : Nat) :
    ∀ offset size lastPageId written,
      Ends (writeOverflowPages data inlinePayloadSize writable pages offset
        size lastPageId written) := by
  induction pages with
  | zero =>
      intro offset size lastPageId written
      apply Ends.bind (btreeOverflowWrite_ends _ _)
      intro pageId
      apply Ends.stop
      intro same
      cases same
  | succ pages inductionHypothesis =>
      intro offset size lastPageId written
      apply Ends.bind (btreeOverflowWrite_ends _ _)
      intro pageId
      simp only
      split
      · exact inductionHypothesis _ _ _ _
      · exact Ends.pure _

theorem btreeNodeWriteAt_ends (data : List UInt8) :
    Ends (btreeNodeWriteAt node position key data) := by
  unfold btreeNodeWriteAt
  simp only
  split
  · apply Ends.bind (Ends.ofExcept nodeInsertInlineEx_settled)
    intro grown
    exact nodercPersist_ends grown
  · unfold btreeNodeWriteOverflow
    simp only
    split
    · exact Ends.fail _
    · apply Ends.bind Ends.getDisk
      intro disk
      apply Ends.bind (writeOverflowPages_ends _ _ _ _ _ _ _ _)
      intro written
      apply Ends.bind (readPage_ends _)
      intro page
      apply Ends.bind (Ends.ofExcept nodeInsertOverflow_settled)
      intro grown
      exact nodercPersist_ends grown

theorem btreeNodeWriteCell_ends {flags : Nat} {cell : List UInt8} :
    Ends (btreeNodeWriteCell node position key flags cell) := by
  apply Ends.bind btreeNodeMoveCellFromData_ends
  intro grown
  exact nodercPersist_ends grown

end Writing

/-! ## Calls on a cursor -/

/-- The number of crumbs. -/
def Cursor.depth (cursor : Cursor) : Nat := cursor.breadcrumbs.length

/-- A call on a cursor ends, whatever the disk, with such a result and such a
cursor. -/
def Leaves {α : Type} (call : CursorM α) (cursor : Cursor)
    (post : Except BTreeE α → Cursor → Prop) : Prop :=
  ∀ disk, match (call cursor disk).1 with
    | .ok (result, later) => post result later
    | .error reason => reason ≠ .diverges

/-- At most so many crumbs after the call. -/
def AtMost {α : Type} (bound : Nat) (_ : Except BTreeE α) (later : Cursor) :
    Prop :=
  later.depth ≤ bound

namespace Leaves

variable {α β : Type} {cursor : Cursor}
variable {post middle : Except BTreeE α → Cursor → Prop}

theorem weaken {call : CursorM α} (leaves : Leaves call cursor middle)
    (implies : ∀ result later, middle result later → post result later) :
    Leaves call cursor post := by
  intro disk
  have here := leaves disk
  cases outcome : (call cursor disk).1 with
  | ok ended =>
      rw [outcome] at here
      exact implies _ _ here
  | error reason =>
      rw [outcome] at here
      exact here

theorem pure {value : α} (here : post (.ok value) cursor) :
    Leaves (Pure.pure value) cursor post := by
  intro disk
  exact here

theorem fail {code : BTreeE} (here : post (.error code) cursor) :
    Leaves (CursorM.fail code) cursor post := by
  intro disk
  exact here

theorem ofResult {result : Except BTreeE α} (here : post result cursor) :
    Leaves (CursorM.ofResult result) cursor post := by
  intro disk
  exact here

theorem bind {call : CursorM α} {next : α → CursorM β}
    {after : Except BTreeE β → Cursor → Prop}
    (first : Leaves call cursor middle)
    (onError : ∀ code later, middle (.error code) later →
      after (.error code) later)
    (onOk : ∀ value later, middle (.ok value) later →
      Leaves (next value) later after) :
    Leaves (call >>= next) cursor after := by
  intro disk
  have firstHere := first disk
  cases outcome : call cursor disk with
  | mk result last =>
      rw [outcome] at firstHere
      cases result with
      | error reason =>
          have whole : (call >>= next) cursor disk = (.error reason, last) := by
            change (call cursor >>= _) disk = _
            rw [BtM.bind_error outcome]
          rw [whole]
          exact firstHere
      | ok ended =>
          obtain ⟨value, later⟩ := ended
          cases value with
          | error code =>
              rw [CursorM.bind_error outcome]
              exact onError code later firstHere
          | ok value =>
              rw [CursorM.bind_ok outcome]
              exact onOk value later firstHere last

/-- The result of a call becomes a value. -/
theorem attempt {call : CursorM α} (leaves : Leaves call cursor middle) :
    Leaves (CursorM.attempt call) cursor
      (fun result later => ∃ inner, result = .ok inner ∧
        middle inner later) := by
  intro disk
  have here := leaves disk
  cases outcome : call cursor disk with
  | mk result last =>
      rw [outcome] at here
      unfold CursorM.attempt
      cases result with
      | error reason =>
          rw [BtM.bind_error outcome]
          exact here
      | ok ended =>
          rw [BtM.bind_ok outcome]
          exact ⟨ended.1, rfl, here⟩

theorem getCursor :
    Leaves CursorM.getCursor cursor
      (fun result later => result = .ok cursor ∧ later = cursor) := by
  intro disk
  exact ⟨rfl, rfl⟩

theorem setCursor (next : Cursor) :
    Leaves (CursorM.setCursor next) cursor
      (fun result later => result = .ok () ∧ later = next) := by
  intro disk
  exact ⟨rfl, rfl⟩

/-- A call that does not know the cursor leaves it where it is. -/
theorem lift {call : BtM α} (ends : BtM.Ends call) :
    Leaves (CursorM.lift call) cursor (fun _ later => later = cursor) := by
  intro disk
  have here := Ends.attempt ends disk
  unfold CursorM.lift
  cases outcome : BtM.attempt call disk with
  | mk result last =>
      rw [outcome] at here
      cases result with
      | error reason =>
          rw [BtM.bind_error outcome]
          rintro rfl
          exact here rfl
      | ok value =>
          rw [BtM.bind_ok outcome]
          rfl

theorem move {step : Cursor → Except Stop (α × Cursor)}
    (settled : Settled (step cursor))
    (onOk : ∀ value later, step cursor = .ok (value, later) →
      post (.ok value) later)
    (onError : ∀ code, step cursor = .error (.err code) →
      post (.error code) cursor) :
    Leaves (CursorM.move step) cursor post := by
  intro disk
  unfold CursorM.move
  cases outcome : step cursor with
  | ok ended => exact onOk ended.1 ended.2 outcome
  | error reason =>
      rw [outcome] at settled
      cases reason with
      | err code => exact onError code outcome
      | assertFailed =>
          intro same
          cases same
      | diverges => exact absurd rfl settled

/-- Running a call and then another one that goes on from the same cursor. -/
theorem bind_lift {call : BtM α} {next : α → CursorM β}
    {after : Except BTreeE β → Cursor → Prop} (ends : BtM.Ends call)
    (onError : ∀ code, after (.error code) cursor)
    (onOk : ∀ value, Leaves (next value) cursor after) :
    Leaves (CursorM.lift call >>= next) cursor after := by
  apply bind (lift ends)
  · rintro code later rfl
    exact onError code
  · rintro value later rfl
    exact onOk value

theorem bind_getCursor {next : Cursor → CursorM β}
    {after : Except BTreeE β → Cursor → Prop}
    (rest : Leaves (next cursor) cursor after) :
    Leaves (CursorM.getCursor >>= next) cursor after := by
  apply bind getCursor
  · rintro code later ⟨same, _⟩
    cases same
  · rintro value later ⟨same, rfl⟩
    cases same
    exact rest

theorem bind_setCursor {moved : Cursor} {next : Unit → CursorM β}
    {after : Except BTreeE β → Cursor → Prop}
    (rest : Leaves (next ()) moved after) :
    Leaves (CursorM.setCursor moved >>= next) cursor after := by
  apply bind (setCursor moved)
  · rintro code later ⟨same, _⟩
    cases same
  · rintro value later ⟨_, rfl⟩
    exact rest

end Leaves

/-! ## Pushing and popping -/

section Stack

variable {cursor : Cursor} {depth : Nat}

theorem cursorPush_settled (cursor : Cursor) : Settled (cursorPush cursor) := by
  unfold cursorPush
  split
  · exact settled_err _
  · exact settled_ok _

theorem cursorPushCrumb_settled (cursor : Cursor) (crumb : CursorBreadcrumb) :
    Settled (cursorPushCrumb cursor crumb) := by
  unfold cursorPushCrumb
  split
  · exact settled_err _
  · exact settled_ok _

theorem cursorPush_depth {cursor later : Cursor}
    (pushed : cursorPush cursor = .ok later)
    (inside : cursor.depth ≤ maxBreadcrumbs) :
    later.depth = cursor.depth + 1 ∧ later.depth ≤ maxBreadcrumbs := by
  unfold cursorPush at pushed
  split at pushed
  · cases pushed
  · next notFull =>
      cases pushed
      exact ⟨rfl, Nat.lt_of_le_of_ne inside notFull⟩

theorem cursorPushCrumb_depth {cursor later : Cursor}
    {crumb : CursorBreadcrumb} (pushed : cursorPushCrumb cursor crumb = .ok later)
    (inside : cursor.depth ≤ maxBreadcrumbs) :
    later.depth = cursor.depth + 1 ∧ later.depth ≤ maxBreadcrumbs := by
  unfold cursorPushCrumb at pushed
  split at pushed
  · cases pushed
  · next notFull =>
      cases pushed
      exact ⟨rfl, Nat.lt_of_le_of_ne inside notFull⟩

theorem cursorPop_settled (cursor : Cursor) : Settled (cursorPop cursor) := by
  unfold cursorPop
  split
  · exact settled_err _
  · split
    · exact settled_ok _
    · exact settled_ok _

theorem cursorPop_depth {cursor later : Cursor} {crumb : CursorBreadcrumb}
    (popped : cursorPop cursor = .ok (crumb, later)) :
    later.depth + 1 = cursor.depth := by
  unfold cursorPop at popped
  unfold Cursor.depth
  split at popped
  · cases popped
  · next first rest crumbs =>
      rw [crumbs]
      cases rest with
      | nil =>
          cases popped
          rfl
      | cons below lower =>
          cases popped
          rfl

/-- What a push leaves: one crumb more, of eight at most, or the stack as it
was. -/
def Pushed (cursor : Cursor) : Except BTreeE Unit → Cursor → Prop
  | .ok _, later =>
      later.depth = cursor.depth + 1 ∧ later.depth ≤ maxBreadcrumbs
  | .error _, later => later = cursor

theorem moved_leaves {step : Cursor → Except Stop Cursor}
    (settled : Settled (step cursor))
    (depth : ∀ later, step cursor = .ok later →
      later.depth = cursor.depth + 1 ∧ later.depth ≤ maxBreadcrumbs) :
    Leaves (CursorM.move fun cursor => moved (step cursor)) cursor
      (Pushed cursor) := by
  have outcomes : moved (step cursor) =
      (step cursor).map fun later => ((), later) := rfl
  apply Leaves.move
  · rw [outcomes]
    cases outcome : step cursor with
    | ok later => exact settled_ok _
    | error reason =>
        rw [outcome] at settled
        apply settled_error
        rintro rfl
        exact settled rfl
  · intro value later same
    rw [outcomes] at same
    cases outcome : step cursor with
    | ok last =>
        rw [outcome] at same
        cases same
        exact depth later outcome
    | error reason =>
        rw [outcome] at same
        cases same
  · intro code _
    rfl

theorem push_leaves (inside : cursor.depth ≤ maxBreadcrumbs) :
    Leaves push cursor (Pushed cursor) :=
  moved_leaves (cursorPush_settled cursor)
    fun _ pushed => cursorPush_depth pushed inside

theorem pushCrumb_leaves (crumb : CursorBreadcrumb)
    (inside : cursor.depth ≤ maxBreadcrumbs) :
    Leaves (pushCrumb crumb) cursor (Pushed cursor) :=
  @moved_leaves cursor (fun cursor => cursorPushCrumb cursor crumb)
    (cursorPushCrumb_settled cursor crumb)
    fun _ pushed => cursorPushCrumb_depth pushed inside

/-- A pop takes a crumb off, or there is none. -/
def Popped {α : Type} (cursor : Cursor) : Except BTreeE α → Cursor → Prop
  | .ok _, later => later.depth + 1 = cursor.depth
  | .error _, later => later = cursor

theorem pop_leaves : Leaves pop cursor (Popped cursor) := by
  apply Leaves.move (cursorPop_settled cursor)
  · intro crumb later popped
    exact cursorPop_depth popped
  · intro code _
    rfl

theorem push_atMost {bound : Nat} (room : cursor.depth + 1 ≤ bound)
    (inside : bound ≤ maxBreadcrumbs) : Leaves push cursor (AtMost bound) := by
  apply Leaves.weaken (push_leaves (by omega))
  intro result later pushed
  cases result with
  | ok _ =>
      obtain ⟨more, _⟩ := pushed
      change later.depth ≤ bound
      omega
  | error code =>
      have same : later = cursor := pushed
      change later.depth ≤ bound
      rw [same]
      omega

theorem bind_atMost {α β : Type} {call : CursorM α} {next : α → CursorM β}
    {bound : Nat} (first : Leaves call cursor (AtMost bound))
    (rest : ∀ value later, later.depth ≤ bound →
      Leaves (next value) later (AtMost bound)) :
    Leaves (call >>= next) cursor (AtMost bound) :=
  Leaves.bind first (fun _ _ within => within) rest

theorem bind_lift_atMost {α β : Type} {call : BtM α} {next : α → CursorM β}
    {bound : Nat} (ends : BtM.Ends call) (within : cursor.depth ≤ bound)
    (rest : ∀ value, Leaves (next value) cursor (AtMost bound)) :
    Leaves (CursorM.lift call >>= next) cursor (AtMost bound) :=
  Leaves.bind_lift ends (fun _ => within) rest

/-- After a push there is one crumb more. -/
theorem bind_push {β : Type} {next : Unit → CursorM β} {bound : Nat}
    (room : cursor.depth + 1 ≤ bound) (inside : bound ≤ maxBreadcrumbs)
    (rest : ∀ later, later.depth = cursor.depth + 1 →
      Leaves (next ()) later (AtMost bound)) :
    Leaves (push >>= next) cursor (AtMost bound) := by
  apply Leaves.bind (push_leaves (by omega))
  · rintro code later rfl
    change later.depth ≤ bound
    omega
  · rintro value later ⟨more, _⟩
    exact rest later more

theorem pushCrumb_atMost (crumb : CursorBreadcrumb) {bound : Nat}
    (room : cursor.depth + 1 ≤ bound) (inside : bound ≤ maxBreadcrumbs) :
    Leaves (pushCrumb crumb) cursor (AtMost bound) := by
  apply Leaves.weaken (pushCrumb_leaves crumb (by omega))
  intro result later pushed
  cases result with
  | ok _ =>
      obtain ⟨more, _⟩ := pushed
      change later.depth ≤ bound
      omega
  | error code =>
      have same : later = cursor := pushed
      change later.depth ≤ bound
      rw [same]
      omega

/-- After a pop there is room for a crumb. -/
theorem bind_pop {β : Type} {next : CursorBreadcrumb → CursorM β} {bound : Nat}
    (inside : cursor.depth ≤ bound)
    (rest : ∀ crumb later, later.depth + 1 ≤ bound →
      Leaves (next crumb) later (AtMost bound)) :
    Leaves (pop >>= next) cursor (AtMost bound) := by
  apply Leaves.bind pop_leaves
  · rintro code later rfl
    exact inside
  · intro crumb later lower
    have lower : later.depth + 1 = cursor.depth := lower
    exact rest crumb later (by omega)

theorem peek_leaves :
    Leaves peek cursor (fun _ later => later = cursor) := by
  unfold peek
  apply Leaves.move
  · unfold cursorPeek
    split
    · exact settled_err _
    · exact settled_ok _
  · intro value later same
    unfold cursorPeek at same
    split at same
    · cases same
    · cases same
      rfl
  · intro code _
    rfl

/-- What taking off so many crumbs leaves. -/
def PoppedN (count : Nat) (cursor : Cursor) :
    Except BTreeE (List CursorBreadcrumb) → Cursor → Prop
  | .ok crumbs, later =>
      crumbs.length = count ∧ later.depth + count = cursor.depth
  | .error _, later => later.depth ≤ cursor.depth

theorem cursorPopN_leaves (count : Nat) : ∀ {cursor : Cursor},
    Leaves (cursorPopN count) cursor (PoppedN count cursor) := by
  induction count with
  | zero =>
      intro cursor
      exact Leaves.pure ⟨rfl, rfl⟩
  | succ count inductionHypothesis =>
      intro cursor
      apply Leaves.bind pop_leaves
      · rintro code later rfl
        exact Nat.le_refl _
      · intro crumb later lower
        have lower : later.depth + 1 = cursor.depth := lower
        apply Leaves.bind inductionHypothesis
        · intro code last below
          have below : last.depth ≤ later.depth := below
          change last.depth ≤ cursor.depth
          omega
        · rintro crumbs last ⟨length, below⟩
          apply Leaves.pure
          refine ⟨?_, ?_⟩
          · rw [List.length_cons, length]
          · omega

theorem bind_popTwo {β : Type} {next : List CursorBreadcrumb → CursorM β}
    {bound : Nat} (inside : cursor.depth ≤ bound)
    (rest : ∀ crumbs later, crumbs.length = 2 → later.depth + 2 ≤ bound →
      Leaves (next crumbs) later (AtMost bound)) :
    Leaves (cursorPopN 2 >>= next) cursor (AtMost bound) := by
  apply Leaves.bind (cursorPopN_leaves 2)
  · intro code later below
    exact Nat.le_trans below inside
  · rintro crumbs later ⟨length, below⟩
    exact rest crumbs later length (by omega)

/-- Restoring puts the crumbs back at most. -/
theorem cursorRestore_atMost (crumbs : List CursorBreadcrumb) :
    ∀ {cursor : Cursor} {bound : Nat}, cursor.depth + crumbs.length ≤ bound →
    bound ≤ maxBreadcrumbs →
    Leaves (cursorRestore crumbs) cursor (AtMost bound) := by
  induction crumbs with
  | nil =>
      intro cursor bound room _
      exact Leaves.pure room
  | cons crumb deeper inductionHypothesis =>
      intro cursor bound room inside
      rw [List.length_cons] at room
      have fewer : cursor.depth + deeper.length ≤ bound - 1 := by omega
      apply Leaves.bind (inductionHypothesis fewer (by omega))
      · intro code later within
        have within : later.depth ≤ bound - 1 := within
        change later.depth ≤ bound
        omega
      · intro value later within
        have within : later.depth ≤ bound - 1 := within
        exact pushCrumb_atMost crumb (by omega) inside

end Stack

/-! ## Siblings -/

section Siblings

variable {tree : BTree} {cursor : Cursor} {bound : Nat}

theorem cursorSibling_atMost (sibling : CursorSibling)
    (within : cursor.depth ≤ bound) (inside : bound ≤ maxBreadcrumbs) :
    Leaves (cursorSibling tree sibling) cursor (AtMost bound) := by
  apply Leaves.bind_getCursor
  split
  · exact Leaves.fail within
  · apply bind_popTwo within
    intro crumbs later two room
    match crumbs, two with
    | [child, parent], _ =>
        apply Leaves.bind_lift (nodercReinitRead_ends _)
        · intro code
          change later.depth ≤ bound
          omega
        · intro node
          split
          · apply Leaves.bind (cursorRestore_atMost [child, parent] room inside)
            · intro code last restored
              exact restored
            · intro value last restored
              exact Leaves.fail restored
          · apply Leaves.bind_getCursor
            apply Leaves.bind_setCursor
            refine bind_push ?_ inside ?_
            · change later.depth + 1 ≤ bound
              omega
            · intro last pushed
              have pushed : last.depth = later.depth + 1 := pushed
              apply Leaves.bind_lift
                (Ends.ofExcept (readCellPage_settled tree node _))
              · intro code
                change last.depth ≤ bound
                omega
              · intro page
                apply Leaves.bind_getCursor
                apply Leaves.bind_setCursor
                apply push_atMost _ inside
                change last.depth + 1 ≤ bound
                omega

theorem cursorReadCurrent_atMost (within : cursor.depth ≤ bound) :
    Leaves cursorReadCurrent cursor (AtMost bound) := by
  apply Leaves.bind_getCursor
  apply Leaves.weaken (Leaves.lift (nodercReinitRead_ends _))
  rintro result later rfl
  exact within

theorem cursorReadParent_atMost (within : cursor.depth ≤ bound)
    (inside : bound ≤ maxBreadcrumbs) :
    Leaves cursorReadParent cursor (AtMost bound) := by
  apply bind_pop within
  intro crumb later room
  apply Leaves.bind_getCursor
  apply Leaves.bind_lift (nodercReinitRead_ends _)
  · intro code
    change later.depth ≤ bound
    omega
  · intro node
    apply Leaves.bind (pushCrumb_atMost crumb room inside)
    · intro code last pushed
      exact pushed
    · intro value last pushed
      exact Leaves.pure pushed

/-- `cursor_parent_index` and `cursor_parent_crumb`: a look below the last
crumb. -/
theorem peekBelow_atMost {α : Type} (result : CursorBreadcrumb → α)
    (within : cursor.depth ≤ bound) (inside : bound ≤ maxBreadcrumbs) :
    Leaves (do
      let child ← pop
      let crumb ← peek
      pushCrumb child
      pure (result crumb)) cursor (AtMost bound) := by
  apply bind_pop within
  intro child later room
  apply Leaves.bind peek_leaves
  · rintro code last rfl
    change last.depth ≤ bound
    omega
  · rintro crumb last rfl
    apply Leaves.bind (pushCrumb_atMost child room inside)
    · intro code last pushed
      exact pushed
    · intro value last pushed
      exact Leaves.pure pushed

theorem btaCheckSibling_atMost (sibling : CursorSibling)
    (within : cursor.depth ≤ bound) (inside : bound ≤ maxBreadcrumbs) :
    Leaves (btaCheckSibling tree sibling) cursor (AtMost bound) := by
  apply bind_popTwo within
  intro crumbs later two room
  have check : Leaves (do
      cursorSibling tree sibling
      let cursor ← CursorM.getCursor
      let node ← CursorM.lift (nodercReinitRead cursor.currentPageId)
      if node.numKeys ≤ tree.underflow then
        CursorM.fail .errNodeNotEnoughSpace
      else
        pure ()) later (AtMost (bound - 2)) := by
    apply Leaves.bind (cursorSibling_atMost sibling
      (show later.depth ≤ bound - 2 by omega) (by omega))
    · intro code last moved
      exact moved
    · intro value last moved
      apply Leaves.bind_getCursor
      apply Leaves.bind_lift (nodercReinitRead_ends _)
      · intro code
        exact moved
      · intro node
        split
        · exact Leaves.fail moved
        · exact Leaves.pure moved
  apply Leaves.bind (Leaves.attempt check)
  · rintro code last ⟨inner, same, _⟩
    cases same
  · rintro result last ⟨inner, _, checked⟩
    have checked : last.depth ≤ bound - 2 := checked
    apply Leaves.bind (cursorRestore_atMost crumbs
      (show last.depth + crumbs.length ≤ bound by omega) inside)
    · intro code restored atMost
      exact atMost
    · intro value restored atMost
      exact Leaves.ofResult atMost

theorem btaDecideRebalanceMode_atMost (within : cursor.depth ≤ bound)
    (inside : bound ≤ maxBreadcrumbs) :
    Leaves (btaDecideRebalanceMode tree) cursor (AtMost bound) := by
  apply Leaves.bind
    (Leaves.attempt (btaCheckSibling_atMost .right within inside))
  · rintro code later ⟨inner, same, _⟩
    cases same
  · rintro right later ⟨_, _, checked⟩
    cases right with
    | ok _ => exact Leaves.pure checked
    | error rightCode =>
        simp only
        split
        · exact Leaves.pure checked
        · apply Leaves.bind
            (Leaves.attempt (btaCheckSibling_atMost .left checked inside))
          · rintro code last ⟨inner, same, _⟩
            cases same
          · rintro left last ⟨_, _, looked⟩
            cases left with
            | ok _ => exact Leaves.pure looked
            | error leftCode =>
                simp only
                split
                · exact Leaves.pure looked
                · apply Leaves.bind_lift (Ends.assert _)
                  · intro code
                    exact looked
                  · intro _
                    split
                    · exact Leaves.pure looked
                    · exact Leaves.pure looked

end Siblings

end BtreeDb
