import BtreeDb.Index.Insert
import BtreeDb.Index.Tree
import BtreeDb.Node.RoundTrip
import BtreeDb.Table.Lookup
import BtreeDb.Table.Ops
import BtreeDb.Table.Records

/-!
# Selections

`btree_op_select.c`: a selection is prepared by moving its cursor to a record,
and the commit reads the record there.  The commit does not look at the step
that the preparation has left, and the preparation leaves the same one whatever
it finds.
-/

namespace BtreeDb

open BinarySearch PagedTree

/-! ## The operation -/

inductive OpSelectionStep where
  | uninit
  | init
  | prepared
  | notFound
  | done
  deriving DecidableEq, Repr

structure OpSelection where
  lastStatus : Option BTreeE
  dataSize : Nat
  cursor : Cursor
  step : OpSelectionStep
  deriving DecidableEq, Repr

/-- `btree_op_select_acquire_tbl` and `btree_op_select_acquire_index`; the key
goes into the search of a node. -/
def btreeOpSelectAcquire (tree : BTree) : OpSelection where
  lastStatus := none
  dataSize := 0
  cursor := cursorCreate tree
  step := .init

/-- `cursor_traverse_to_ex` on a cursor that is left where an error stops it. -/
def traverseTo (tree : BTree) (searchKeys : BTreeNode → BtM (Bool × Nat)) :
    Nat → Bool → CursorM Bool
  | 0, _ => CursorM.lift (BtM.stop .diverges)
  | fuel + 1, found => do
      let cursor ← CursorM.getCursor
      let node ← CursorM.lift (nodercReinitRead cursor.currentPageId)
      let (hit, childKeyIndex) ← CursorM.lift (searchKeys node)
      let found := found || hit
      CursorM.setCursor { cursor with
        currentKeyIndex := initKeylistindexFromIndex node childKeyIndex }
      push
      if !node.isLeaf && (tree.type != .index || !found) then
        let page ← CursorM.lift
          (BtM.ofExcept (readCellPage tree node childKeyIndex))
        let cursor ← CursorM.getCursor
        CursorM.setCursor { cursor with currentPageId := page }
        traverseTo tree searchKeys fuel found
      else
        pure found

/-- `btree_op_select_prepare` up to its common exit: the size of the payload. -/
def opSelectPrepareBody (tree : BTree)
    (searchKeys : BTreeNode → BtM (Bool × Nat)) : CursorM Nat := do
  let found ← traverseTo tree searchKeys (maxBreadcrumbs + 1) false
  if !found then
    CursorM.fail .errKeyNotFound
  else
    let cursor ← CursorM.getCursor
    let node ← CursorM.lift (nodercReinitRead cursor.currentPageId)
    CursorM.lift
      (BtM.assert (cursor.currentKeyIndex.index != node.numKeys))
    pure (btreeNodePayloadSizeAt node cursor.currentKeyIndex.index)

/-- `btree_op_select_prepare`: the step that it sets for a missing key is
overwritten at the common exit. -/
def btreeOpSelectPrepare (tree : BTree)
    (searchKeys : BTreeNode → BtM (Bool × Nat)) (op : OpSelection) :
    BtM OpSelection := do
  BtM.assert (op.step == .init)
  match ← opSelectPrepareBody tree searchKeys op.cursor with
  | (.ok size, cursor) => pure ⟨none, size, cursor, .prepared⟩
  | (.error code, cursor) => pure ⟨some code, op.dataSize, cursor, .prepared⟩

/-- `btree_op_select_commit` up to its common exit. -/
def opSelectCommitBody (op : OpSelection) (bufferSize : Nat) :
    BtM (List UInt8) := do
  let node ← nodercReinitRead op.cursor.currentPageId
  BtM.assert (op.cursor.currentKeyIndex.index != node.numKeys)
  btreeNodeReadAt node op.cursor.currentKeyIndex.index bufferSize

/-- `btree_op_select_commit`: what is written to a buffer of the given size. -/
def btreeOpSelectCommit (op : OpSelection) (bufferSize : Nat) :
    BtM (OpSelection × List UInt8) := do
  let result ← BtM.attempt (opSelectCommitBody op bufferSize)
  pure (match result with
    | .ok written => ({ op with step := .done, lastStatus := none }, written)
    | .error code => ({ op with step := .done, lastStatus := some code }, []))

/-- `op_select_size`. -/
def opSelectSize (op : OpSelection) : Except Stop Nat :=
  if op.step != .init && op.step != .uninit && op.step != .notFound then
    .ok op.dataSize
  else .error .assertFailed

/-! ## The traversal -/

/-- The search of every node of a tree gives an index and leaves the disk as it
is. -/
def SearchesTree (tree : BTree) (disk : Disk) (top : Nat)
    (searchKeys : BTreeNode → BtM (Bool × Nat)) : Prop :=
  ∀ height page crumbs, WayDown tree disk top height page crumbs →
    ∃ hit index, index ≤ keysOn disk page ∧
      searchKeys (loadedNode disk page) disk = (.ok (hit, index), disk)

/-- Every cell of a tree's nodes can be read. -/
def CellsReadable (tree : BTree) (disk : Disk) (top : Nat) : Prop :=
  ∀ height page crumbs index, WayDown tree disk top height page crumbs →
    index < keysOn disk page →
      ∃ payload, ReadsBack disk (loadedNode disk page) index payload

/-- The cursor stands where a search has put it on a page of the tree. -/
structure Lands (tree : BTree) (disk : Disk)
    (searchKeys : BTreeNode → BtM (Bool × Nat)) (hit : Bool) (cursor : Cursor)
    (index : Nat) : Prop where
  bound : index ≤ keysOn disk cursor.currentPageId
  searched : searchKeys (loadedNode disk cursor.currentPageId) disk =
    (.ok (hit, index), disk)
  indexEq : cursor.currentKeyIndex =
    initKeylistindexFromIndex (loadedNode disk cursor.currentPageId) index

/-- A node in memory and the page it is loaded from have the same cells. -/
theorem ReadsBack.loaded {disk : Disk} {free chain : List Nat}
    {node : BTreeNode} {index : Nat} {entry : Entry} {payload : List UInt8}
    (store : Store disk free) (holds : Holds disk node)
    (here : node.entries[index]? = some entry)
    (resolves : Resolves disk entry payload chain) :
    ReadsBack disk (loadedNode disk node.pageNumber) index payload := by
  obtain ⟨metaBytes, loadedEq⟩ := holds.loadedNode_eq store
  rw [loadedEq]
  exact .of_resolves (holds.ok.withMeta metaBytes) here resolves

theorem Holds.keysOn_eq {disk : Disk} {free : List Nat} {node : BTreeNode}
    (holds : Holds disk node) (store : Store disk free) :
    keysOn disk node.pageNumber = node.entries.length := by
  obtain ⟨metaBytes, loadedEq⟩ := holds.loadedNode_eq store
  unfold keysOn
  rw [loadedEq, entries_length]

section Traversal

variable {tree : BTree} {disk : Disk} {top : Nat}
variable {searchKeys : BTreeNode → BtM (Bool × Nat)}

/-- One turn of the loop up to the push. -/
theorem traverseTo_turn {fuel height page index : Nat} {found hit : Bool}
    {crumbs : List CursorBreadcrumb} {cursor : Cursor}
    (whole : WellShaped tree disk top tree.rootPageId)
    (way : WayDown tree disk top height page crumbs)
    (atPage : cursor.currentPageId = page)
    (searched : searchKeys (loadedNode disk page) disk =
      (.ok (hit, index), disk)) :
    traverseTo tree searchKeys (fuel + 1) found cursor disk =
      (do
        push
        if !(loadedNode disk page).isLeaf &&
            (tree.type != .index || !(found || hit)) then
          let page ← CursorM.lift
            (BtM.ofExcept (readCellPage tree (loadedNode disk page) index))
          let cursor ← CursorM.getCursor
          CursorM.setCursor { cursor with currentPageId := page }
          traverseTo tree searchKeys fuel (found || hit)
        else
          pure (found || hit) : CursorM Bool)
        { cursor with
          currentKeyIndex :=
            initKeylistindexFromIndex (loadedNode disk page) index } disk := by
  have read := nodercReinitRead_onDisk (way.shape whole).onDisk
  rw [← atPage] at read
  rw [traverseTo, CursorM.bind_ok CursorM.getCursor_apply,
    CursorM.bind_ok (CursorM.lift_ok read), atPage,
    CursorM.bind_ok (CursorM.lift_ok searched)]
  exact CursorM.bind_ok (CursorM.setCursor_apply _)

theorem push_full {cursor : Cursor}
    (full : cursor.breadcrumbs.length = maxBreadcrumbs) :
    push cursor disk =
      (.ok (.error .errCursorDepthExceeded, cursor), disk) := by
  have refused : cursorPush cursor =
      .error (.err .errCursorDepthExceeded) := by
    unfold cursorPush
    rw [if_pos full]
  unfold push CursorM.move moved
  dsimp only
  rw [refused]
  rfl

/-- The traversal ends at a page of the tree, or where its stack is full. -/
theorem traverseTo_lands (whole : WellShaped tree disk top tree.rootPageId)
    (searches : SearchesTree tree disk top searchKeys) :
    ∀ {fuel height page : Nat} {crumbs : List CursorBreadcrumb}
      {cursor : Cursor} {found : Bool},
      WayDown tree disk top height page crumbs →
      cursor.currentPageId = page →
      cursor.breadcrumbs = crumbs ++ [rootCrumb tree] →
      crumbs.length + 1 ≤ maxBreadcrumbs →
      maxBreadcrumbs ≤ crumbs.length + fuel - 1 →
      ∃ later hit index height crumbs,
        WayDown tree disk top height later.currentPageId crumbs ∧
        Lands tree disk searchKeys hit later index ∧
        (traverseTo tree searchKeys fuel found cursor disk =
            (.ok (.error .errCursorDepthExceeded, later), disk) ∨
          ∃ foundHere,
            traverseTo tree searchKeys fuel found cursor disk =
              (.ok (.ok foundHere, later), disk) ∧
            crumbs.length + 2 ≤ maxBreadcrumbs ∧
            ((loadedNode disk later.currentPageId).isLeaf = true ∨
              tree.type = .index ∧ foundHere = true) ∧
            (tree.type = .index → found = false → foundHere = hit)) := by
  intro fuel
  induction fuel with
  | zero =>
      intro height page crumbs cursor found _ _ _ few enough
      omega
  | succ fuel inductionHypothesis =>
      intro height page crumbs cursor found way atPage stack few enough
      obtain ⟨hit, index, bound, searched⟩ := searches _ _ _ way
      have turn := @traverseTo_turn tree disk top searchKeys fuel _ _ _ found
        _ _ _ whole way atPage searched
      subst atPage
      have lands : Lands tree disk searchKeys hit
          { cursor with
            currentKeyIndex := initKeylistindexFromIndex
              (loadedNode disk cursor.currentPageId) index } index :=
        ⟨bound, searched, rfl⟩
      by_cases full : cursor.breadcrumbs.length = maxBreadcrumbs
      · refine ⟨{ cursor with
            currentKeyIndex := initKeylistindexFromIndex
              (loadedNode disk cursor.currentPageId) index },
          hit, index, height, crumbs, way, lands, Or.inl ?_⟩
        rw [turn]
        exact CursorM.bind_error (push_full full)
      · have room : cursor.breadcrumbs.length < maxBreadcrumbs := by
          rw [stack, List.length_append, List.length_singleton] at full ⊢
          omega
        have pushed := @push_apply
          { cursor with
            currentKeyIndex := initKeylistindexFromIndex
              (loadedNode disk cursor.currentPageId) index } disk room
        rw [turn, CursorM.bind_ok pushed]
        rw [stack, List.length_append, List.length_singleton] at room
        by_cases goesOn : (!(loadedNode disk cursor.currentPageId).isLeaf &&
            (tree.type != .index || !(found || hit))) = true
        · rw [if_pos goesOn]
          obtain ⟨inner, notFound⟩ := Bool.and_eq_true_iff.mp goesOn
          cases height with
          | zero =>
              rw [(way.shape whole).2] at inner
              cases inner
          | succ height =>
              obtain ⟨readEq, _, _⟩ := (way.shape whole).2.2 index bound
              rw [CursorM.bind_ok (CursorM.lift_ok
                  (by rw [readEq]; exact BtM.ofExcept_ok _ _)),
                CursorM.bind_ok CursorM.getCursor_apply,
                CursorM.bind_ok (CursorM.setCursor_apply _)]
              obtain ⟨later, hit', index', height', crumbs', way', lands',
                outcome⟩ := @inductionHypothesis height _ _
                  ⟨childPage tree disk cursor.currentPageId index,
                    initKeylistindexFromIndex
                      (loadedNode disk cursor.currentPageId) index,
                    ⟨initKeylistindexFromIndex
                      (loadedNode disk cursor.currentPageId) index,
                      cursor.currentPageId⟩ :: cursor.breadcrumbs⟩
                  (found || hit) (.child way bound) rfl
                  (by rw [stack]; rfl)
                  (by rw [List.length_cons]; omega)
                  (by rw [List.length_cons]; omega)
              refine ⟨later, hit', index', height', crumbs', way', lands', ?_⟩
              rcases outcome with deep | ⟨foundHere, ended, few', stops, same⟩
              · exact Or.inl deep
              · refine Or.inr ⟨foundHere, ended, few', stops, ?_⟩
                intro isIndex none
                apply same isIndex
                rw [isIndex] at notFound
                revert notFound
                cases found || hit <;> simp
        · rw [if_neg goesOn]
          refine ⟨cursorAt
              (⟨initKeylistindexFromIndex
                (loadedNode disk cursor.currentPageId) index,
                cursor.currentPageId⟩ :: cursor.breadcrumbs),
            hit, index, height, crumbs, way, ⟨bound, searched, rfl⟩,
            Or.inr ⟨found || hit, rfl, by omega, ?_, ?_⟩⟩
          · change (loadedNode disk cursor.currentPageId).isLeaf = true ∨ _
            revert goesOn
            cases (loadedNode disk cursor.currentPageId).isLeaf <;>
              cases tree.type <;> cases found || hit <;> simp
          · intro _ none
            rw [none, Bool.false_or]

end Traversal

/-! ## Preparing and committing -/

section Runs

variable {tree : BTree} {disk : Disk} {top : Nat}
variable {searchKeys : BTreeNode → BtM (Bool × Nat)}
variable {later : Cursor} {hit : Bool} {index height : Nat}
variable {crumbs : List CursorBreadcrumb} {op : OpSelection}

theorem Lands.number (lands : Lands tree disk searchKeys hit later index) :
    later.currentKeyIndex.index = index := by
  rw [lands.indexEq]
  exact initKeylistindexFromIndex_index lands.bound

theorem acquired_isInit :
    ((btreeOpSelectAcquire tree).step == OpSelectionStep.init) = true :=
  rfl

/-- The traversal of a selection. -/
def selectTraversal (tree : BTree)
    (searchKeys : BTreeNode → BtM (Bool × Nat)) (disk : Disk) :
    Except Stop (Except BTreeE Bool × Cursor) × Disk :=
  traverseTo tree searchKeys (maxBreadcrumbs + 1) false (cursorCreate tree) disk

theorem prepare_error {code : BTreeE}
    (stopped : opSelectPrepareBody tree searchKeys (cursorCreate tree) disk =
      (.ok (.error code, later), disk)) :
    btreeOpSelectPrepare tree searchKeys (btreeOpSelectAcquire tree) disk =
      (.ok ⟨some code, 0, later, .prepared⟩, disk) := by
  unfold btreeOpSelectPrepare
  rw [BtM.bind_ok (BtM.assert_of acquired_isInit disk)]
  exact BtM.bind_ok stopped

theorem prepare_deep (traversed : selectTraversal tree searchKeys disk =
      (.ok (.error .errCursorDepthExceeded, later), disk)) :
    btreeOpSelectPrepare tree searchKeys (btreeOpSelectAcquire tree) disk =
      (.ok ⟨some .errCursorDepthExceeded, 0, later, .prepared⟩, disk) :=
  prepare_error (CursorM.bind_error traversed)

/-- A missing key leaves the same step as a key that is there. -/
theorem prepare_missing (traversed : selectTraversal tree searchKeys disk =
      (.ok (.ok false, later), disk)) :
    btreeOpSelectPrepare tree searchKeys (btreeOpSelectAcquire tree) disk =
      (.ok ⟨some .errKeyNotFound, 0, later, .prepared⟩, disk) :=
  prepare_error (CursorM.bind_ok traversed)

theorem prepareBody_found (whole : WellShaped tree disk top tree.rootPageId)
    (way : WayDown tree disk top height later.currentPageId crumbs)
    (traversed : selectTraversal tree searchKeys disk =
      (.ok (.ok true, later), disk)) :
    opSelectPrepareBody tree searchKeys (cursorCreate tree) disk =
      (do
        CursorM.lift (BtM.assert (later.currentKeyIndex.index !=
          (loadedNode disk later.currentPageId).numKeys))
        pure (btreeNodePayloadSizeAt (loadedNode disk later.currentPageId)
          later.currentKeyIndex.index) : CursorM Nat) later disk := by
  have read := nodercReinitRead_onDisk (way.shape whole).onDisk
  unfold opSelectPrepareBody
  rw [CursorM.bind_ok traversed, if_neg (by simp),
    CursorM.bind_ok CursorM.getCursor_apply,
    CursorM.bind_ok (CursorM.lift_ok read)]

/-- A key that is found past the end of a node fails the assertion. -/
theorem prepare_end (whole : WellShaped tree disk top tree.rootPageId)
    (way : WayDown tree disk top height later.currentPageId crumbs)
    (lands : Lands tree disk searchKeys hit later index)
    (atEnd : index = keysOn disk later.currentPageId)
    (traversed : selectTraversal tree searchKeys disk =
      (.ok (.ok true, later), disk)) :
    btreeOpSelectPrepare tree searchKeys (btreeOpSelectAcquire tree) disk =
      (.error .assertFailed, disk) := by
  have fails : (later.currentKeyIndex.index !=
      (loadedNode disk later.currentPageId).numKeys) = false := by
    rw [lands.number, atEnd]
    exact bne_self_eq_false _
  have body := prepareBody_found whole way traversed
  rw [fails] at body
  unfold btreeOpSelectPrepare
  rw [BtM.bind_ok (BtM.assert_of acquired_isInit disk)]
  exact BtM.bind_error body

theorem prepare_found (whole : WellShaped tree disk top tree.rootPageId)
    (way : WayDown tree disk top height later.currentPageId crumbs)
    (lands : Lands tree disk searchKeys hit later index)
    (inside : index < keysOn disk later.currentPageId)
    (traversed : selectTraversal tree searchKeys disk =
      (.ok (.ok true, later), disk)) :
    btreeOpSelectPrepare tree searchKeys (btreeOpSelectAcquire tree) disk =
      (.ok ⟨none, btreeNodePayloadSizeAt (loadedNode disk later.currentPageId)
        index, later, .prepared⟩, disk) := by
  have passes : (later.currentKeyIndex.index !=
      (loadedNode disk later.currentPageId).numKeys) = true := by
    rw [lands.number, bne_iff_ne]
    exact Nat.ne_of_lt inside
  have body := prepareBody_found whole way traversed
  rw [CursorM.bind_ok (CursorM.lift_ok (BtM.assert_of passes disk)),
    lands.number] at body
  unfold btreeOpSelectPrepare
  rw [BtM.bind_ok (BtM.assert_of acquired_isInit disk)]
  exact BtM.bind_ok body

/-- The commit past the end of a node fails the assertion. -/
theorem commit_end (whole : WellShaped tree disk top tree.rootPageId)
    (way : WayDown tree disk top height op.cursor.currentPageId crumbs)
    (lands : Lands tree disk searchKeys hit op.cursor index)
    (atEnd : index = keysOn disk op.cursor.currentPageId) (bufferSize : Nat) :
    btreeOpSelectCommit op bufferSize disk = (.error .assertFailed, disk) := by
  have read := nodercReinitRead_onDisk (way.shape whole).onDisk
  have fails : (op.cursor.currentKeyIndex.index !=
      (loadedNode disk op.cursor.currentPageId).numKeys) = false := by
    rw [lands.number, atEnd]
    exact bne_self_eq_false _
  have body : opSelectCommitBody op bufferSize disk =
      (.error .assertFailed, disk) := by
    unfold opSelectCommitBody
    rw [BtM.bind_ok read, fails]
    rfl
  unfold btreeOpSelectCommit
  apply BtM.bind_error
  unfold BtM.attempt
  rw [body]

theorem commitBody_inside (whole : WellShaped tree disk top tree.rootPageId)
    (way : WayDown tree disk top height op.cursor.currentPageId crumbs)
    (lands : Lands tree disk searchKeys hit op.cursor index)
    (inside : index < keysOn disk op.cursor.currentPageId)
    (bufferSize : Nat) :
    opSelectCommitBody op bufferSize disk =
      btreeNodeReadAt (loadedNode disk op.cursor.currentPageId) index
        bufferSize disk := by
  have read := nodercReinitRead_onDisk (way.shape whole).onDisk
  have passes : (op.cursor.currentKeyIndex.index !=
      (loadedNode disk op.cursor.currentPageId).numKeys) = true := by
    rw [lands.number, bne_iff_ne]
    exact Nat.ne_of_lt inside
  unfold opSelectCommitBody
  rw [BtM.bind_ok read, BtM.bind_ok (BtM.assert_of passes disk), lands.number]

/-- The commit reads the cell at the cursor, whatever the step is. -/
theorem commit_reads (whole : WellShaped tree disk top tree.rootPageId)
    (way : WayDown tree disk top height op.cursor.currentPageId crumbs)
    (lands : Lands tree disk searchKeys hit op.cursor index)
    (inside : index < keysOn disk op.cursor.currentPageId)
    {payload : List UInt8}
    (readsBack : ReadsBack disk (loadedNode disk op.cursor.currentPageId) index
      payload) {bufferSize : Nat} (room : payload.length ≤ bufferSize) :
    btreeOpSelectCommit op bufferSize disk =
      (.ok ({ op with step := .done, lastStatus := none }, payload), disk) := by
  have body := commitBody_inside whole way lands inside bufferSize
  rw [readsBack.whole bufferSize room] at body
  unfold btreeOpSelectCommit
  exact BtM.bind_ok (BtM.attempt_ok body)

theorem commit_small (whole : WellShaped tree disk top tree.rootPageId)
    (way : WayDown tree disk top height op.cursor.currentPageId crumbs)
    (lands : Lands tree disk searchKeys hit op.cursor index)
    (inside : index < keysOn disk op.cursor.currentPageId)
    {payload : List UInt8}
    (readsBack : ReadsBack disk (loadedNode disk op.cursor.currentPageId) index
      payload) {bufferSize : Nat} (small : bufferSize < payload.length) :
    btreeOpSelectCommit op bufferSize disk =
      (.ok ({ op with step := .done, lastStatus := some .errBufferTooSmall },
        []), disk) := by
  have body := commitBody_inside whole way lands inside bufferSize
  rw [readsBack.tooSmall bufferSize small] at body
  unfold btreeOpSelectCommit
  exact BtM.bind_ok (BtM.attempt_error body)

end Runs

/-! ## Only the requested record -/

/-- The run of a selection ends.  After a missing key the step says so, and the
commit is an error whatever the disk has; and a commit that returns `BTREE_OK`
comes after a key that was found, gives the payload that was asked for, and its
size. -/
structure SelectsRequested (tree : BTree)
    (searchKeys : BTreeNode → BtM (Bool × Nat))
    (requested : List UInt8 → Prop) (disk : Disk) (bufferSize : Nat) :
    Prop where
  run : ∃ prepared committed written,
    btreeOpSelectPrepare tree searchKeys (btreeOpSelectAcquire tree) disk =
      (.ok prepared, disk) ∧
    btreeOpSelectCommit prepared bufferSize disk =
      (.ok (committed, written), disk) ∧
    (prepared.lastStatus = some .errKeyNotFound →
      prepared.step = .notFound ∧ committed.lastStatus ≠ none ∧
      ∀ other, btreeOpSelectCommit prepared bufferSize other =
        (.ok (committed, written), other)) ∧
    (committed.lastStatus = none →
      prepared.lastStatus = none ∧ requested written ∧
      opSelectSize committed = .ok written.length)

section Requested

variable {tree : BTree} {disk : Disk} {top : Nat}
variable {searchKeys : BTreeNode → BtM (Bool × Nat)}
variable {requested : List UInt8 → Prop}

/-- Where the cursor has been left at a record, that record is the requested
one. -/
theorem prepared_found (whole : WellShaped tree disk top tree.rootPageId)
    (readable : CellsReadable tree disk top) {prepared : OpSelection}
    {hit : Bool} {index height : Nat} {crumbs : List CursorBreadcrumb}
    (prepareEq : btreeOpSelectPrepare tree searchKeys
      (btreeOpSelectAcquire tree) disk = (.ok prepared, disk))
    (way : WayDown tree disk top height prepared.cursor.currentPageId crumbs)
    (lands : Lands tree disk searchKeys hit prepared.cursor index)
    (selects : ∀ bufferSize,
      SelectsRequested tree searchKeys requested disk bufferSize) :
    index < keysOn disk prepared.cursor.currentPageId ∧
      prepared.lastStatus = none ∧ ∃ payload, requested payload := by
  have inside : index < keysOn disk prepared.cursor.currentPageId := by
    apply Nat.lt_of_le_of_ne lands.bound
    intro atEnd
    obtain ⟨prepared', committed, written, prepareIs, commitIs, _⟩ :=
      (selects 0).run
    have same : prepared = prepared' :=
      Except.ok.inj (Prod.mk.inj (prepareEq.symm.trans prepareIs)).1
    rw [← same, commit_end whole way lands atEnd] at commitIs
    cases commitIs
  obtain ⟨payload, readsBack⟩ := readable _ _ _ index way inside
  obtain ⟨prepared', committed, written, prepareIs, commitIs, _, ok⟩ :=
    (selects payload.length).run
  have same : prepared = prepared' :=
    Except.ok.inj (Prod.mk.inj (prepareEq.symm.trans prepareIs)).1
  rw [← same, commit_reads whole way lands inside readsBack (Nat.le_refl _)]
    at commitIs
  have result := Prod.mk.inj (Except.ok.inj (Prod.mk.inj commitIs).1)
  rw [← result.1] at ok
  obtain ⟨found, asked, _⟩ := ok rfl
  rw [← same] at found
  exact ⟨inside, found, written, asked⟩

/-- A selection that gives the requested record only has found it. -/
theorem selectsRequested_found
    (whole : WellShaped tree disk top tree.rootPageId)
    (searches : SearchesTree tree disk top searchKeys)
    (readable : CellsReadable tree disk top)
    (selects : ∀ bufferSize,
      SelectsRequested tree searchKeys requested disk bufferSize) :
    ∃ cursor hit index height crumbs,
      WayDown tree disk top height cursor.currentPageId crumbs ∧
      Lands tree disk searchKeys hit cursor index ∧
      index < keysOn disk cursor.currentPageId ∧
      crumbs.length + 2 ≤ maxBreadcrumbs ∧
      ((loadedNode disk cursor.currentPageId).isLeaf = true ∨
        tree.type = .index) ∧
      (tree.type = .index → hit = true) ∧ ∃ payload, requested payload := by
  obtain ⟨later, hit, index, height, crumbs, way, lands, outcome⟩ :=
    @traverseTo_lands tree disk top searchKeys whole searches
      (maxBreadcrumbs + 1) _ _ _ (cursorCreate tree) false .root rfl rfl
      (by decide) (by decide)
  rcases outcome with deep | ⟨foundHere, ended, few, stops, same⟩
  · exfalso
    obtain ⟨_, found, _⟩ := prepared_found whole readable (prepare_deep deep)
      way lands selects
    cases found
  · cases foundHere with
    | false =>
        exfalso
        obtain ⟨_, found, _⟩ := prepared_found whole readable
          (prepare_missing ended) way lands selects
        cases found
    | true =>
        have inside : index < keysOn disk later.currentPageId := by
          apply Nat.lt_of_le_of_ne lands.bound
          intro atEnd
          obtain ⟨prepared, committed, written, prepareIs, _⟩ :=
            (selects 0).run
          rw [prepare_end whole way lands atEnd ended] at prepareIs
          cases prepareIs
        obtain ⟨_, _, asked⟩ := prepared_found whole readable
          (prepare_found whole way lands inside ended) way lands selects
        refine ⟨later, hit, index, height, crumbs, way, lands, inside, few,
          ?_, ?_, asked⟩
        · rcases stops with leaf | ⟨isIndex, _⟩
          · exact Or.inl leaf
          · exact Or.inr isIndex
        · intro isIndex
          exact (same isIndex rfl).symm

/-- A record that the traversal finds is the one that is read. -/
theorem selectsRequested_of_found
    (whole : WellShaped tree disk top tree.rootPageId) {cursor : Cursor}
    {hit : Bool} {index height : Nat} {crumbs : List CursorBreadcrumb}
    {payload : List UInt8}
    (traversed : selectTraversal tree searchKeys disk =
      (.ok (.ok true, cursor), disk))
    (way : WayDown tree disk top height cursor.currentPageId crumbs)
    (lands : Lands tree disk searchKeys hit cursor index)
    (inside : index < keysOn disk cursor.currentPageId)
    (readsBack : ReadsBack disk (loadedNode disk cursor.currentPageId) index
      payload) (asked : requested payload) (bufferSize : Nat) :
    SelectsRequested tree searchKeys requested disk bufferSize := by
  have prepareEq := prepare_found whole way lands inside traversed
  by_cases room : payload.length ≤ bufferSize
  · have commitEq := @commit_reads tree disk top searchKeys hit index height
      crumbs ⟨none, btreeNodePayloadSizeAt
        (loadedNode disk cursor.currentPageId) index, cursor, .prepared⟩
      whole way lands inside payload readsBack bufferSize room
    refine ⟨_, _, _, prepareEq, commitEq, nofun, ?_⟩
    intro _
    refine ⟨rfl, asked, ?_⟩
    exact congrArg Except.ok readsBack.size_eq
  · have commitEq := @commit_small tree disk top searchKeys hit index height
      crumbs ⟨none, btreeNodePayloadSizeAt
        (loadedNode disk cursor.currentPageId) index, cursor, .prepared⟩
      whole way lands inside payload readsBack bufferSize
      (Nat.lt_of_not_le room)
    exact ⟨_, _, _, prepareEq, commitEq, nofun, nofun⟩

end Requested

end BtreeDb
