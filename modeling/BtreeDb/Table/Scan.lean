import BtreeDb.Node.RoundTrip
import BtreeDb.Table.Ops
import BtreeDb.Table.Insert
import BtreeDb.Table.Records
import BtreeDb.Tree.Check
import BtreeDb.Tree.LeafWalk
import BtreeDb.Tree.Selection
import BtreeDb.Tree.WalkRecords

/-!
# Scanning a table

`btree_op_scan_prepare` takes a first leaf without a record for the end of the
table, and `btree_op_scan_next` stops in a later one as if it had a record.  A
scan therefore gives the records of a table whose leaves all have one, or none
of which has.
-/

namespace BtreeDb

open PagedTree

/-! ## A read-only scan -/

/-- `btree_op_scan_current`, with a buffer of the size that the operation
gives, and `btree_op_scan_next`, until `btree_op_scan_done` or an error: the
payloads and the last status. -/
def scanOn (tree : BTree) :
    Nat → OpScan → BtM (List (List UInt8) × Option BTreeE)
  | 0, _ => BtM.stop .diverges
  | fuel + 1, op =>
      if btreeOpScanDone op then pure ([], none)
      else do
        let (payload, op) ← btreeOpScanCurrent op op.dataSize
        if op.lastStatus.isSome then pure ([], op.lastStatus)
        else
          let op ← btreeOpScanNext tree op
          if op.lastStatus.isSome then pure ([payload], op.lastStatus)
          else
            let (payloads, status) ← scanOn tree fuel op
            pure (payload :: payloads, status)

/-- One read-only scan of a table. -/
def btreeScan (tree : BTree) (fuel : Nat) :
    BtM (List (List UInt8) × Option BTreeE) := do
  let op ← btreeOpScanPrepare tree (btreeOpScanAcquire tree)
  if op.lastStatus.isSome then pure ([], op.lastStatus)
  else scanOn tree fuel op

/-- A scan ends and gives the payloads of the records, in order and each
once. -/
def ScanYields (tree : BTree) (disk : Disk) (records : List TableRecord) :
    Prop :=
  ∃ enough, ∀ fuel, enough ≤ fuel →
    btreeScan tree fuel disk =
      (.ok (records.map TableRecord.payload, none), disk)

/-! ## Reading writes nothing -/

/-- A call leaves the disk as it is, whatever it returns. -/
def LeavesDisk {α : Type} (call : BtM α) : Prop :=
  ∀ disk, (call disk).2 = disk

section LeavesDisk

variable {α β : Type}

theorem leavesDisk_pure (value : α) : LeavesDisk (pure value) := fun _ => rfl

theorem leavesDisk_stop (outcome : Stop) :
    LeavesDisk (BtM.stop outcome : BtM α) := fun _ => rfl

theorem leavesDisk_assert (condition : Bool) :
    LeavesDisk (BtM.assert condition) := by
  intro disk
  cases condition <;> rfl

theorem leavesDisk_bind {call : BtM α} {next : α → BtM β}
    (first : LeavesDisk call) (second : ∀ value, LeavesDisk (next value)) :
    LeavesDisk (call >>= next) := by
  intro disk
  have same := first disk
  rw [BtM.bind_apply]
  cases callEq : call disk with
  | mk outcome after =>
      rw [callEq] at same
      simp only at same
      subst same
      cases outcome with
      | ok value => exact second value _
      | error reason => rfl

theorem leavesDisk_attempt {call : BtM α} (leaves : LeavesDisk call) :
    LeavesDisk (BtM.attempt call) := by
  intro disk
  have same := leaves disk
  unfold BtM.attempt
  cases callEq : call disk with
  | mk outcome after =>
      rw [callEq] at same
      cases outcome with
      | ok value => exact same
      | error reason =>
          cases reason <;> exact same

theorem readPage_leavesDisk (pageId : Nat) : LeavesDisk (readPage pageId) := by
  intro disk
  cases found : disk.page? pageId with
  | some image => rw [readPage_present found]
  | none => rw [readPage_absent found]

theorem btreeOverflowRead_leavesDisk (pageId bufferSize : Nat) :
    LeavesDisk (btreeOverflowRead pageId bufferSize) := by
  unfold btreeOverflowRead btreeOverflowPeek
  refine leavesDisk_bind (leavesDisk_bind (readPage_leavesDisk _) fun page =>
    leavesDisk_bind (fun _ => rfl) fun disk =>
      leavesDisk_bind (leavesDisk_assert _) fun _ => leavesDisk_pure _) ?_
  intro out
  by_cases large : out.payloadBytes > bufferSize
  · rw [if_pos large]
    exact leavesDisk_stop _
  · rw [if_neg large]
    exact leavesDisk_pure _

theorem readOverflowPages_leavesDisk (bufferSize : Nat) :
    ∀ {fuel nextPageId : Nat} {written : List UInt8},
      LeavesDisk (readOverflowPages bufferSize fuel nextPageId written) := by
  intro fuel
  induction fuel with
  | zero => exact fun {_ _} => leavesDisk_stop _
  | succ fuel inductionHypothesis =>
      intro nextPageId written
      rw [readOverflowPages]
      by_cases goesOn : nextPageId ≠ 0 ∧ bufferSize > written.length
      · rw [if_pos goesOn]
        exact leavesDisk_bind (btreeOverflowRead_leavesDisk _ _)
          fun _ => inductionHypothesis
      · rw [if_neg goesOn]
        exact leavesDisk_pure _

theorem btreeNodeReadAt_leavesDisk (node : BTreeNode)
    (keyIndex bufferSize : Nat) :
    LeavesDisk (btreeNodeReadAt node keyIndex bufferSize) := by
  unfold btreeNodeReadAt
  by_cases isOverflow : pkeyIsCellType (btuGetCellFlags node keyIndex)
      .cellTypeOverflow = true
  · simp only [if_pos isOverflow]
    split
    · exact leavesDisk_stop _
    · exact readOverflowPages_leavesDisk bufferSize
  · simp only [if_neg isOverflow]
    split
    · exact leavesDisk_stop _
    · exact leavesDisk_pure _

end LeavesDisk

/-! ## One record -/

section Current

variable {op : OpScan} {disk : Disk} {size : Nat}

theorem btreeOpScanCurrent_leavesDisk :
    LeavesDisk (btreeOpScanCurrent op size) := by
  unfold btreeOpScanCurrent
  by_cases iterating : op.step = .iterating
  · rw [if_pos iterating]
    refine leavesDisk_bind (leavesDisk_attempt ?_) fun _ => leavesDisk_pure _
    exact leavesDisk_bind
      (leavesDisk_bind (readPage_leavesDisk _) fun _ => leavesDisk_pure _)
      fun _ => btreeNodeReadAt_leavesDisk _ _ _
  · rw [if_neg iterating]
    exact leavesDisk_pure _

/-- The operation stays where it is. -/
theorem btreeOpScanCurrent_op {payload : List UInt8} {later : OpScan}
    {after : Disk}
    (read : btreeOpScanCurrent op size disk = (.ok (payload, later), after)) :
    later = { op with lastStatus := later.lastStatus } := by
  unfold btreeOpScanCurrent at read
  by_cases iterating : op.step = .iterating
  · rw [if_pos iterating] at read
    obtain ⟨result, between, _, resultEq⟩ := BtM.bind_eq_ok read
    have same := (Prod.mk.inj (Except.ok.inj (Prod.mk.inj resultEq).1))
    cases result with
    | ok written => rw [← same.2]
    | error code => rw [← same.2]
  · rw [if_neg iterating] at read
    have same := (Prod.mk.inj (Except.ok.inj (Prod.mk.inj read).1)).2
    rw [← same]

/-- A cell that can be read is what the operation gives. -/
theorem btreeOpScanCurrent_reads {payload : List UInt8}
    (iterating : op.step = .iterating)
    (present : OnDisk disk op.cursor.currentPageId)
    (reads : ReadsBack disk (loadedNode disk op.cursor.currentPageId)
      op.cursor.currentKeyIndex.index payload)
    (room : payload.length ≤ size) :
    btreeOpScanCurrent op size disk =
      (.ok (payload, { op with lastStatus := none }), disk) := by
  have body : btreeOpScanCurrent.currentBody op size disk =
      (.ok payload, disk) := by
    unfold btreeOpScanCurrent.currentBody
    rw [BtM.bind_ok (nodercReinitRead_onDisk present)]
    exact reads.whole size room
  unfold btreeOpScanCurrent
  rw [if_pos iterating, BtM.bind_ok (BtM.attempt_ok body)]
  rfl

end Current

/-! ## One step -/

/-- A scan in a slot of a leaf. -/
structure ScanAt (tree : BTree) (disk : Disk) (top leaf index : Nat)
    (later : List Nat) (op : OpScan) : Prop where
  iterating : op.step = .iterating
  inLeaf : InLeaf tree disk top leaf index later op.cursor
  size_eq : op.dataSize = btreeNodePayloadSizeAt (loadedNode disk leaf) index

section Next

variable {tree : BTree} {disk : Disk} {top leaf index : Nat}
variable {later : List Nat} {op : OpScan}

theorem ScanAt.currentPageId
    (scanAt : ScanAt tree disk top leaf index later op) :
    op.cursor.currentPageId = leaf :=
  congrArg Prod.fst scanAt.inLeaf.position

theorem ScanAt.currentIndex
    (scanAt : ScanAt tree disk top leaf index later op) :
    op.cursor.currentKeyIndex = ⟨.limIndex, index⟩ :=
  congrArg Prod.snd scanAt.inLeaf.position

theorem opScanNextBody_ok {cursor next : Cursor}
    (moved : cursorIterNext tree cursor disk = (.ok (.ok (), next), disk))
    (inLeaf : InLeaf tree disk top leaf index later next) :
    opScanNextBody tree cursor disk =
      (.ok (.ok (btreeNodePayloadSizeAt (loadedNode disk leaf) index), next),
        disk) := by
  have position := inLeaf.position
  have atLeaf : next.currentPageId = leaf := congrArg Prod.fst position
  have atIndex : next.currentKeyIndex = ⟨.limIndex, index⟩ :=
    congrArg Prod.snd position
  have present : OnDisk disk next.currentPageId := by
    rw [atLeaf]
    exact inLeaf.shape.onDisk
  unfold opScanNextBody
  rw [CursorM.bind_ok moved, CursorM.bind_ok CursorM.getCursor_apply,
    CursorM.bind_ok (CursorM.lift_ok (nodercReinitRead_onDisk present)),
    atLeaf, atIndex]
  rfl

theorem btreeOpScanNext_ok {next : Cursor} {size : Nat}
    (iterating : op.step = .iterating)
    (body : opScanNextBody tree op.cursor disk =
      (.ok (.ok size, next), disk)) :
    btreeOpScanNext tree op disk =
      (.ok { op with lastStatus := none, dataSize := size, cursor := next },
        disk) := by
  unfold btreeOpScanNext
  rw [if_pos iterating, BtM.bind_ok body]
  rfl

/-- To the next record of the same leaf. -/
theorem ScanAt.inside (isTable : tree.type = .table)
    (room : top + 1 ≤ maxBreadcrumbs)
    (scanAt : ScanAt tree disk top leaf index later op)
    (more : index + 1 < keysOn disk leaf) :
    ∃ next, btreeOpScanNext tree op disk = (.ok next, disk) ∧
      next.lastStatus = none ∧
      ScanAt tree disk top leaf (index + 1) later next := by
  obtain ⟨cursor, moved, inLeaf⟩ := scanAt.inLeaf.next isTable room more
  have body := opScanNextBody_ok moved inLeaf
  exact ⟨_, btreeOpScanNext_ok scanAt.iterating body, rfl, scanAt.iterating,
    inLeaf, rfl⟩

/-- A call goes to the first slot of the next leaf, or ends the scan. -/
def ScansNext (tree : BTree) (disk : Disk) (top : Nat) (op : OpScan) :
    List Nat → Prop
  | [] => ∃ next, btreeOpScanNext tree op disk = (.ok next, disk) ∧
      next.lastStatus = none ∧ next.step = .done
  | leaf :: later => ∃ next,
      btreeOpScanNext tree op disk = (.ok next, disk) ∧
        next.lastStatus = none ∧ ScanAt tree disk top leaf 0 later next

theorem ScanAt.leave (isTable : tree.type = .table)
    (room : top + 1 ≤ maxBreadcrumbs)
    (scanAt : ScanAt tree disk top leaf index later op)
    (last : keysOn disk leaf ≤ index + 1) :
    ScansNext tree disk top op later := by
  have enters := scanAt.inLeaf.leave isTable room last
  cases later with
  | nil =>
      obtain ⟨cursor, ended⟩ := enters
      have body : opScanNextBody tree op.cursor disk =
          (.ok (.error .errIterDone, cursor), disk) := by
        unfold opScanNextBody
        exact CursorM.bind_error ended
      refine ⟨{ op with lastStatus := none, cursor := cursor, step := .done },
        ?_, rfl, rfl⟩
      unfold btreeOpScanNext
      rw [if_pos scanAt.iterating, BtM.bind_ok body]
      rfl
  | cons next later =>
      obtain ⟨cursor, moved, inLeaf⟩ := enters
      have body := opScanNextBody_ok moved inLeaf
      exact ⟨_, btreeOpScanNext_ok scanAt.iterating body, rfl,
        scanAt.iterating, inLeaf, rfl⟩

end Next

/-! ## How many payloads a scan gives -/

/-- The slots that a scan stops in: those of a leaf from an index on, or one
where there is none, and those of the later leaves. -/
def stopsFrom (disk : Disk) (leaf index : Nat) (later : List Nat) : Nat :=
  keysOn disk leaf - (index + 1) + 1 +
    (later.map fun page => keysOn disk page - 1 + 1).sum

section Count

variable {tree : BTree} {disk : Disk} {top leaf index : Nat}
variable {later : List Nat} {op : OpScan}

theorem scanOn_done {fuel : Nat} (done : op.step = .done) :
    scanOn tree (fuel + 1) op disk = (.ok ([], none), disk) := by
  have isDone : btreeOpScanDone op = true := by
    unfold btreeOpScanDone
    rw [done]
    rfl
  rw [scanOn, if_pos isDone]
  rfl

/-- What a turn of the loop comes from, if the loop ends without an error. -/
theorem scanOn_turn {fuel : Nat} {payloads : List (List UInt8)} {after : Disk}
    (scanAt : ScanAt tree disk top leaf index later op)
    (scanned : scanOn tree (fuel + 1) op disk =
      (.ok (payloads, none), after)) :
    ∃ payload rest current, payloads = payload :: rest ∧
      ScanAt tree disk top leaf index later current ∧
      ∀ next, btreeOpScanNext tree current disk = (.ok next, disk) →
        next.lastStatus = none →
          scanOn tree fuel next disk = (.ok (rest, none), after) := by
  have notDone : ¬ btreeOpScanDone op = true := by
    unfold btreeOpScanDone
    rw [scanAt.iterating]
    decide
  rw [scanOn, if_neg notDone] at scanned
  obtain ⟨⟨payload, current⟩, between, read, nextRun⟩ := BtM.bind_eq_ok scanned
  have same := @btreeOpScanCurrent_leavesDisk op op.dataSize disk
  rw [read] at same
  simp only at same nextRun
  subst same
  have currentEq := btreeOpScanCurrent_op read
  have currentAt : ScanAt tree between top leaf index later current := by
    rw [currentEq]
    exact ⟨scanAt.iterating, scanAt.inLeaf, scanAt.size_eq⟩
  by_cases failed : current.lastStatus.isSome = true
  · rw [if_pos failed] at nextRun
    have status := (Prod.mk.inj (Except.ok.inj (Prod.mk.inj nextRun).1)).2
    rw [status] at failed
    cases failed
  · rw [if_neg failed] at nextRun
    obtain ⟨next, afterNext, nextEq, restRun⟩ := BtM.bind_eq_ok nextRun
    by_cases nextFailed : next.lastStatus.isSome = true
    · rw [if_pos nextFailed] at restRun
      have status := (Prod.mk.inj (Except.ok.inj (Prod.mk.inj restRun).1)).2
      rw [status] at nextFailed
      cases nextFailed
    · rw [if_neg nextFailed] at restRun
      obtain ⟨⟨rest, status⟩, last, restEq, result⟩ := BtM.bind_eq_ok restRun
      obtain ⟨listEq, statusEq⟩ :=
        Prod.mk.inj (Except.ok.inj (Prod.mk.inj result).1)
      refine ⟨payload, rest, current, listEq.symm, currentAt, ?_⟩
      intro other otherEq _
      rw [nextEq] at otherEq
      obtain ⟨nextIs, diskIs⟩ := Prod.mk.inj otherEq
      simp only at statusEq
      rw [← Except.ok.inj nextIs, ← diskIs, restEq, statusEq,
        (Prod.mk.inj result).2]

/-- A scan that ends without an error gives a payload for every slot that it
stops in. -/
theorem scanOn_length (isTable : tree.type = .table)
    (room : top + 1 ≤ maxBreadcrumbs) :
    ∀ {fuel leaf index : Nat} {later : List Nat} {op : OpScan}
      {payloads : List (List UInt8)} {after : Disk},
      ScanAt tree disk top leaf index later op →
      scanOn tree fuel op disk = (.ok (payloads, none), after) →
        payloads.length = stopsFrom disk leaf index later := by
  intro fuel
  induction fuel with
  | zero =>
      intro leaf index later op payloads after _ scanned
      cases scanned
  | succ fuel inductionHypothesis =>
      intro leaf index later op payloads after scanAt scanned
      obtain ⟨payload, rest, current, rfl, currentAt, restOf⟩ :=
        scanOn_turn scanAt scanned
      rw [List.length_cons]
      by_cases more : index + 1 < keysOn disk leaf
      · obtain ⟨next, nextEq, status, nextAt⟩ :=
          currentAt.inside isTable room more
        have count := inductionHypothesis nextAt (restOf next nextEq status)
        unfold stopsFrom at count ⊢
        omega
      · have leaves := currentAt.leave isTable room (by omega)
        cases later with
        | nil =>
            obtain ⟨next, nextEq, status, done⟩ := leaves
            have ended := restOf next nextEq status
            cases fuel with
            | zero => cases ended
            | succ turns =>
                rw [scanOn_done done] at ended
                have none := (Prod.mk.inj
                  (Except.ok.inj (Prod.mk.inj ended).1)).1
                rw [← none]
                unfold stopsFrom
                simp only [List.length_nil, List.map_nil, List.sum_nil]
                omega
        | cons page later =>
            obtain ⟨next, nextEq, status, nextAt⟩ := leaves
            have count := inductionHypothesis nextAt (restOf next nextEq status)
            unfold stopsFrom at count ⊢
            rw [List.map_cons, List.sum_cons, count]
            omega

end Count

/-! ## What a scan gives -/

section Reads

variable {tree : BTree} {disk : Disk} {top : Nat}

/-- Every entry of a leaf can be read as the payload it has. -/
def LeafReads (disk : Disk) (page : Nat) : Prop :=
  ∀ index entry payload chain,
    (loadedNode disk page).entries[index]? = some entry →
      Resolves disk entry payload chain →
        ReadsBack disk (loadedNode disk page) index payload

/-- A turn of the loop in a slot with a record. -/
theorem scanOn_reads {fuel leaf index : Nat} {later : List Nat} {op : OpScan}
    {payload : List UInt8} (scanAt : ScanAt tree disk top leaf index later op)
    (reads : ReadsBack disk (loadedNode disk leaf) index payload) :
    ∃ current, ScanAt tree disk top leaf index later current ∧
      ∀ next payloads, btreeOpScanNext tree current disk = (.ok next, disk) →
        next.lastStatus = none →
        scanOn tree fuel next disk = (.ok (payloads, none), disk) →
          scanOn tree (fuel + 1) op disk =
            (.ok (payload :: payloads, none), disk) := by
  have present : OnDisk disk op.cursor.currentPageId := by
    rw [scanAt.currentPageId]
    exact scanAt.inLeaf.shape.onDisk
  have readsHere : ReadsBack disk
      (loadedNode disk op.cursor.currentPageId)
      op.cursor.currentKeyIndex.index payload := by
    rw [scanAt.currentPageId, scanAt.currentIndex]
    exact reads
  have enough : payload.length ≤ op.dataSize := by
    rw [scanAt.size_eq, reads.size_eq]
  have current := btreeOpScanCurrent_reads scanAt.iterating present readsHere
    enough
  have notDone : ¬ btreeOpScanDone op = true := by
    unfold btreeOpScanDone
    rw [scanAt.iterating]
    decide
  refine ⟨{ op with lastStatus := none },
    ⟨scanAt.iterating, scanAt.inLeaf, scanAt.size_eq⟩, ?_⟩
  intro next payloads nextEq status restEq
  have noError : ¬ next.lastStatus.isSome = true := by
    rw [status]
    decide
  rw [scanOn, if_neg notDone, BtM.bind_ok current]
  simp only [Option.isSome_none, Bool.false_eq_true, if_false]
  rw [BtM.bind_ok nextEq, if_neg noError, BtM.bind_ok restEq]
  rfl

/-- From a record on, a scan gives the payloads of the entries still to come,
where no leaf is without one. -/
theorem scanOn_payloads (isTable : tree.type = .table)
    (room : top + 1 ≤ maxBreadcrumbs) :
    ∀ {payloads : List (List UInt8)} {fuel leaf index : Nat}
      {later : List Nat} {op : OpScan},
      ScanAt tree disk top leaf index later op → index < keysOn disk leaf →
      LeafReads disk leaf →
      (∀ page ∈ later, 0 < keysOn disk page ∧ LeafReads disk page) →
      List.Forall₂ (fun entry payload => ∃ chain,
          Resolves disk entry payload chain)
        ((loadedNode disk leaf).entries.drop index ++
          later.flatMap fun page => (loadedNode disk page).entries) payloads →
      payloads.length < fuel →
        scanOn tree fuel op disk = (.ok (payloads, none), disk) := by
  intro payloads
  induction payloads with
  | nil =>
      intro fuel leaf index later op _ inside _ _ resolved _
      have none := resolved.length_eq
      have keys : keysOn disk leaf = (loadedNode disk leaf).entries.length := by
        rw [entries_length]
        rfl
      rw [List.length_append, List.length_drop, List.length_nil] at none
      omega
  | cons payload payloads inductionHypothesis =>
      intro fuel leaf index later op scanAt inside reads laterReads resolved
        enough
      obtain ⟨turns, rfl⟩ := Nat.exists_eq_succ_of_ne_zero
        (Nat.pos_iff_ne_zero.mp (Nat.zero_lt_of_lt enough))
      have keys : keysOn disk leaf = (loadedNode disk leaf).entries.length := by
        rw [entries_length]
        rfl
      rw [keys] at inside
      rw [List.drop_eq_getElem_cons inside, List.cons_append] at resolved
      obtain ⟨⟨chain, resolves⟩, restResolved⟩ :=
        List.forall₂_cons.mp resolved
      have readsBack := reads index _ payload chain
        (List.getElem?_eq_getElem inside) resolves
      obtain ⟨current, currentAt, restOf⟩ :=
        @scanOn_reads tree disk top turns leaf index later op payload scanAt
          readsBack
      rw [List.length_cons] at enough
      by_cases more : index + 1 < keysOn disk leaf
      · obtain ⟨next, nextEq, status, nextAt⟩ :=
          currentAt.inside isTable room more
        exact restOf next payloads nextEq status
          (inductionHypothesis nextAt more reads laterReads restResolved
            (by omega))
      · have leaves := currentAt.leave isTable room (by omega)
        have dropped : (loadedNode disk leaf).entries.drop (index + 1) = [] :=
          List.drop_eq_nil_of_le (by omega)
        rw [dropped, List.nil_append] at restResolved
        cases later with
        | nil =>
            obtain ⟨next, nextEq, status, done⟩ := leaves
            cases restResolved
            obtain ⟨last, rfl⟩ := Nat.exists_eq_succ_of_ne_zero
              (show turns ≠ 0 by
                rw [List.length_nil] at enough
                omega)
            exact restOf next [] nextEq status (scanOn_done done)
        | cons page later =>
            obtain ⟨next, nextEq, status, nextAt⟩ := leaves
            obtain ⟨keyed, pageReads⟩ := laterReads page List.mem_cons_self
            rw [List.flatMap_cons] at restResolved
            exact restOf next payloads nextEq status
              (inductionHypothesis nextAt keyed pageReads
                (fun other member =>
                  laterReads other (List.mem_cons_of_mem _ member))
                restResolved (by omega))

end Reads

/-! ## The leaves of a table -/

section Leaves

variable {tree : BTree} {disk : Disk} {free pages chains : List Nat}
variable {height top : Nat} {flat : List Mark} {records : List TableRecord}

/-- The leaves are at the ends of the ways down. -/
theorem leavesBelow_way :
    ∀ {height page leaf : Nat} {crumbs : List CursorBreadcrumb},
      WayDown tree disk top height page crumbs →
      leaf ∈ leavesBelow tree disk height page →
        ∃ lower, WayDown tree disk top 0 leaf lower := by
  intro height
  induction height with
  | zero =>
      intro page leaf crumbs way member
      rw [leavesBelow, List.mem_singleton] at member
      rw [member]
      exact ⟨crumbs, way⟩
  | succ height inductionHypothesis =>
      intro page leaf crumbs way member
      obtain ⟨index, inRange, below⟩ := List.mem_flatMap.mp member
      have bound := (List.mem_range'_1.mp inRange).2
      exact inductionHypothesis (way.child (by omega)) below

/-- The positions of a table's records are those of its leaves. -/
theorem inOrder_leaves (isTable : tree.type = .table) :
    ∀ {height page : Nat},
      inOrder tree disk height page =
        (leavesBelow tree disk height page).flatMap fun leaf =>
          leafFrom leaf (keysOn disk leaf) 0 := by
  intro height
  induction height with
  | zero =>
      intro page
      rw [inOrder, leavesBelow, List.flatMap_cons, List.flatMap_nil,
        List.append_nil]
  | succ height inductionHypothesis =>
      intro page
      have own : ∀ index, ownPosition tree page index = [] := by
        intro index
        unfold ownPosition
        rw [isTable]
      have slots : ∀ (count index : Nat) (below : Nat → List Position),
          slotsFrom (ownPosition tree page) below count index =
            (List.range' index (count + 1)).flatMap below := by
        intro count
        induction count with
        | zero =>
            intro index below
            rw [slotsFrom, Nat.zero_add, List.range'_one, List.flatMap_cons,
              List.flatMap_nil, List.append_nil]
        | succ count ofCount =>
            intro index below
            rw [slotsFrom, own, List.nil_append, ofCount, ← List.flatMap_cons,
              ← List.range'_succ]
      rw [inOrder, slots, leavesBelow, List.flatMap_assoc]
      exact List.flatMap_congr fun index _ => inductionHypothesis

/-- The entries of a table are those of its leaves. -/
theorem TableTree.entries_leaves (isTable : tree.type = .table)
    (valid : TableTree disk free tree.rootPageId height pages flat) :
    (leavesBelow tree disk height tree.rootPageId).flatMap
        (fun leaf => (loadedNode disk leaf).entries) = entriesOf flat := by
  have values := inOrder_values
    (TableHolds.readsRecords isTable valid.store) valid.tree
  rw [inOrder_leaves isTable, List.map_flatMap] at values
  rw [← values]
  exact List.flatMap_congr fun leaf _ => leafFrom_entries.symm

theorem TableTree.leafReads (isTable : tree.type = .table)
    (valid : TableTree disk free tree.rootPageId height pages flat)
    {leaf : Nat} (member : leaf ∈ leavesBelow tree disk height tree.rootPageId) :
    LeafReads disk leaf := by
  intro index entry payload chain here resolves
  obtain ⟨lower, way⟩ := leavesBelow_way .root member
  obtain ⟨_, _, _, _, _, _, _, below, _, _⟩ :=
    way.path (TableHolds.readsAs isTable valid.store) valid.tree
  obtain ⟨contents, _⟩ := below
  cases contents with
  | @leaf node holds atLeaf isLeaf small =>
      subst atLeaf
      obtain ⟨metaBytes, loadedEq⟩ := holds.loadedNode_eq valid.store
      have sameEntries : (loadedNode disk node.pageNumber).entries =
          node.entries := by
        rw [loadedEq]
        rfl
      rw [sameEntries] at here
      exact .loaded valid.store holds here resolves

theorem RecordsOf.payloads {entries : List Entry}
    (holds : RecordsOf disk entries records chains) :
    List.Forall₂ (fun entry payload => ∃ chain,
      Resolves disk entry payload chain) entries
        (records.map TableRecord.payload) := by
  induction holds with
  | nil => exact List.Forall₂.nil
  | cons resolves _ inductionHypothesis =>
      exact List.Forall₂.cons ⟨_, resolves⟩ inductionHypothesis

theorem TableStore.records_length (isTable : tree.type = .table)
    (store : TableStore disk free tree.rootPageId height pages flat chains
      records) :
    records.length =
      ((leavesBelow tree disk height tree.rootPageId).map
        (keysOn disk)).sum := by
  rw [store.holds.length_eq, ← store.valid.entries_leaves isTable,
    List.length_flatMap]
  congr 1
  refine List.map_congr_left fun leaf _ => ?_
  rw [entries_length]
  rfl

/-- One more stop for every leaf without a record. -/
theorem stops_eq_keys_iff {leaves : List Nat} :
    (leaves.map fun page => keysOn disk page - 1 + 1).sum =
        (leaves.map (keysOn disk)).sum ↔
      ∀ page ∈ leaves, 0 < keysOn disk page := by
  have least : ∀ leaves : List Nat, (leaves.map (keysOn disk)).sum ≤
      (leaves.map fun page => keysOn disk page - 1 + 1).sum := by
    intro leaves
    refine List.sum_le_sum fun page _ => ?_
    omega
  induction leaves with
  | nil => simp
  | cons page leaves inductionHypothesis =>
      have others := least leaves
      rw [List.map_cons, List.map_cons, List.sum_cons, List.sum_cons,
        List.forall_mem_cons]
      constructor
      · intro same
        exact ⟨by omega, inductionHypothesis.mp (by omega)⟩
      · rintro ⟨keyed, allKeyed⟩
        have same := inductionHypothesis.mpr allKeyed
        omega

end Leaves

/-! ## The scan -/

/-- Every leaf of a table has a record, or none has. -/
def EvenlyFilled (tree : BTree) (disk : Disk) (height : Nat) : Prop :=
  (∀ leaf ∈ leavesBelow tree disk height tree.rootPageId,
    0 < keysOn disk leaf) ∨
  ∀ leaf ∈ leavesBelow tree disk height tree.rootPageId, keysOn disk leaf = 0

instance (tree : BTree) (disk : Disk) (height : Nat) :
    Decidable (EvenlyFilled tree disk height) :=
  inferInstanceAs (Decidable (_ ∨ _))

section Scan

variable {tree : BTree} {disk : Disk} {free pages chains : List Nat}
variable {height : Nat} {flat : List Mark} {records : List TableRecord}

/-- A scan is prepared in the first leaf, unless that one has no record. -/
theorem btreeOpScanPrepare_begins
    (whole : WellShaped tree disk height tree.rootPageId)
    (room : height + 1 ≤ maxBreadcrumbs) :
    ∃ leaf later op,
      leaf :: later = leavesBelow tree disk height tree.rootPageId ∧
      btreeOpScanPrepare tree (btreeOpScanAcquire tree) disk = (.ok op, disk) ∧
      op.lastStatus = none ∧
      (keysOn disk leaf = 0 → op.step = .done) ∧
      (keysOn disk leaf ≠ 0 → ScanAt tree disk height leaf 0 later op) := by
  obtain ⟨leaf, later, cursor, begun, inLeaf, leavesEq⟩ :=
    cursorIterBegin_leaf whole room
  have position := inLeaf.position
  have atLeaf : cursor.currentPageId = leaf := congrArg Prod.fst position
  have atIndex : cursor.currentKeyIndex = ⟨.limIndex, 0⟩ :=
    congrArg Prod.snd position
  have present : OnDisk disk cursor.currentPageId := by
    rw [atLeaf]
    exact inLeaf.shape.onDisk
  have asserted : BtM.assert
      ((btreeOpScanAcquire tree).step == .init) disk = (.ok (), disk) := rfl
  have keys : keysOn disk leaf = (loadedNode disk leaf).numKeys := rfl
  have startsAt : (btreeOpScanAcquire tree).cursor = cursorCreate tree := rfl
  have body : opScanPrepareBody tree (cursorCreate tree) disk =
      (if (loadedNode disk leaf).numKeys = 0 then
        (.ok (.error .errIterDone, cursor), disk)
      else (.ok (.ok (btreeNodePayloadSizeAt (loadedNode disk leaf) 0), cursor),
        disk)) := by
    unfold opScanPrepareBody
    rw [CursorM.bind_ok begun, CursorM.bind_ok CursorM.getCursor_apply,
      CursorM.bind_ok (CursorM.lift_ok (nodercReinitRead_onDisk present)),
      atLeaf, atIndex]
    split <;> rfl
  by_cases empty : keysOn disk leaf = 0
  · rw [keys] at empty
    rw [if_pos empty] at body
    refine ⟨leaf, later, ⟨none, 0, cursor, .done⟩, leavesEq, ?_, rfl,
      fun _ => rfl, fun keyed => absurd empty keyed⟩
    unfold btreeOpScanPrepare
    rw [BtM.bind_ok asserted, startsAt, BtM.bind_ok body]
    rfl
  · rw [keys] at empty
    rw [if_neg empty] at body
    refine ⟨leaf, later, ⟨none, btreeNodePayloadSizeAt (loadedNode disk leaf) 0,
      cursor, .iterating⟩, leavesEq, ?_, rfl, fun none => absurd none empty,
      fun _ => ⟨rfl, inLeaf, rfl⟩⟩
    unfold btreeOpScanPrepare
    rw [BtM.bind_ok asserted, startsAt, BtM.bind_ok body]
    rfl

/-- A scan starts in the first leaf, unless that one has no record. -/
theorem btreeScan_begins
    (whole : WellShaped tree disk height tree.rootPageId)
    (room : height + 1 ≤ maxBreadcrumbs) :
    ∃ leaf later,
      leaf :: later = leavesBelow tree disk height tree.rootPageId ∧
      (keysOn disk leaf = 0 → ∀ fuel,
        btreeScan tree (fuel + 1) disk = (.ok ([], none), disk)) ∧
      (keysOn disk leaf ≠ 0 → ∃ op,
        ScanAt tree disk height leaf 0 later op ∧
          ∀ fuel, btreeScan tree fuel disk = scanOn tree fuel op disk) := by
  obtain ⟨leaf, later, op, leavesEq, prepared, status, fromEmpty, fromKeyed⟩ :=
    btreeOpScanPrepare_begins whole room
  have started : ∀ fuel, btreeScan tree fuel disk = scanOn tree fuel op disk := by
    intro fuel
    unfold btreeScan
    rw [BtM.bind_ok prepared, status]
    rfl
  refine ⟨leaf, later, leavesEq, ?_, fun keyed => ⟨op, fromKeyed keyed, started⟩⟩
  intro empty fuel
  rw [started]
  exact scanOn_done (fromEmpty empty)

/-- A scan gives the records of a table exactly where every leaf has a record
or none has. -/
theorem scanYields_iff (isTable : tree.type = .table)
    (store : TableStore disk free tree.rootPageId height pages flat chains
      records)
    (shallow : height + 1 ≤ maxBreadcrumbs) :
    ScanYields tree disk records ↔ EvenlyFilled tree disk height := by
  obtain ⟨leaf, later, leavesEq, fromEmpty, fromKeyed⟩ :=
    btreeScan_begins (store.valid.wellShaped isTable) shallow
  have count := store.records_length isTable
  have reads : ∀ page ∈ leaf :: later, LeafReads disk page := by
    intro page member
    rw [leavesEq] at member
    exact store.valid.leafReads isTable member
  unfold EvenlyFilled
  rw [← leavesEq] at count ⊢
  rw [List.map_cons, List.sum_cons] at count
  by_cases empty : keysOn disk leaf = 0
  · have given : ScanYields tree disk records ↔ records.length = 0 := by
      constructor
      · rintro ⟨enough, yields⟩
        have scanned := yields (enough + 1) (Nat.le_succ _)
        rw [fromEmpty empty] at scanned
        have same := (Prod.mk.inj (Except.ok.inj (Prod.mk.inj scanned).1)).1
        rw [← List.length_map TableRecord.payload, ← same]
        rfl
      · intro none
        refine ⟨1, fun fuel enough => ?_⟩
        obtain ⟨turns, rfl⟩ := Nat.exists_eq_succ_of_ne_zero
          (Nat.pos_iff_ne_zero.mp enough)
        rw [fromEmpty empty, List.eq_nil_of_length_eq_zero none]
        rfl
    rw [given]
    constructor
    · intro none
      right
      have nothing : (later.map (keysOn disk)).sum = 0 := by omega
      intro page member
      rcases List.mem_cons.mp member with rfl | inLater
      · exact empty
      · exact List.sum_eq_zero_iff.mp nothing _
          (List.mem_map_of_mem inLater)
    · rintro (keyed | allEmpty)
      · have here := keyed leaf List.mem_cons_self
        omega
      · have nothing : (later.map (keysOn disk)).sum = 0 := by
          refine List.sum_eq_zero_iff.mpr fun keys member => ?_
          obtain ⟨page, inLater, rfl⟩ := List.mem_map.mp member
          exact allEmpty page (List.mem_cons_of_mem _ inLater)
        omega
  · obtain ⟨op, scanAt, sameRun⟩ := fromKeyed empty
    constructor
    · rintro ⟨enough, yields⟩
      left
      have scanned := yields enough (Nat.le_refl _)
      rw [sameRun] at scanned
      have stops := scanOn_length isTable shallow scanAt scanned
      rw [List.length_map] at stops
      unfold stopsFrom at stops
      have laterKeyed := (@stops_eq_keys_iff disk later).mp (by omega)
      intro page member
      rcases List.mem_cons.mp member with rfl | inLater
      · omega
      · exact laterKeyed page inLater
    · rintro (keyed | allEmpty)
      · refine ⟨records.length + 1, fun fuel enough => ?_⟩
        rw [sameRun]
        refine scanOn_payloads isTable shallow scanAt (by omega)
          (reads leaf List.mem_cons_self) ?_ ?_
          (by rw [List.length_map]; omega)
        · intro page member
          exact ⟨keyed page (List.mem_cons_of_mem _ member),
            reads page (List.mem_cons_of_mem _ member)⟩
        · have entriesEq := store.valid.entries_leaves isTable
          rw [← leavesEq, List.flatMap_cons] at entriesEq
          rw [List.drop_zero, entriesEq]
          exact store.holds.payloads
      · exact absurd (allEmpty leaf List.mem_cons_self) empty

end Scan

/-! ## Five records in two leaves -/

def scannedTree : BTree := ⟨2, .table, 0⟩

def scannedRecord (key : Nat) : TableRecord :=
  ⟨key, List.replicate 30 (UInt8.ofNat key)⟩

def scannedMark (key : Nat) : Mark :=
  .record ⟨key, cellTypeCode .cellTypeInline, (scannedRecord key).payload⟩

/-- The records `1 .. 5`, inserted into an empty root. -/
def filledDisk : Disk :=
  [1, 2, 3, 4, 5].foldl
    (fun disk key =>
      (btreeInsert scannedTree key (scannedRecord key).payload disk).2)
    (diskOfNodes 216 [(true, 0, []), (true, 0, [])])

/-- One use of `btree_op_scan_delete`, on the first record. -/
def deleteFirst (disk : Disk) : Disk :=
  ((do
    let op ← btreeOpScanPrepare scannedTree (btreeOpScanAcquire scannedTree)
    btreeOpScanDelete scannedTree op : BtM OpScan) disk).2

/-- The first leaf is left without a record. -/
def emptiedDisk : Disk := deleteFirst (deleteFirst filledDisk)

theorem filledDisk_checked :
    checkTable filledDisk [] scannedTree.rootPageId 1 =
        some ([2, 3, 4], [scannedMark 1, scannedMark 2, .separator 2,
          scannedMark 3, scannedMark 4, scannedMark 5]) ∧
      checkTable emptiedDisk [] scannedTree.rootPageId 1 =
        some ([2, 3, 4], [.separator 2, scannedMark 3, scannedMark 4,
          scannedMark 5]) ∧
      leavesBelow scannedTree emptiedDisk 1 scannedTree.rootPageId = [3, 4] ∧
      keysOn emptiedDisk 3 = 0 ∧
      EvenlyFilled scannedTree filledDisk 1 := by
  decide +kernel

theorem filledDisk_store :
    TableStore filledDisk [] scannedTree.rootPageId 1 [2, 3, 4]
      [scannedMark 1, scannedMark 2, .separator 2, scannedMark 3,
        scannedMark 4, scannedMark 5] []
      ([1, 2, 3, 4, 5].map scannedRecord) :=
  ⟨checkTable_sound filledDisk_checked.1,
    .cons .inline (.cons .inline (.cons .inline (.cons .inline
      (.cons .inline .nil)))), by decide, by decide⟩

theorem filledDisk_scanned :
    ScanYields scannedTree filledDisk ([1, 2, 3, 4, 5].map scannedRecord) :=
  (scanYields_iff rfl filledDisk_store (by decide)).mpr
    filledDisk_checked.2.2.2.2

theorem emptiedDisk_store :
    TableStore emptiedDisk [] scannedTree.rootPageId 1 [2, 3, 4]
      [.separator 2, scannedMark 3, scannedMark 4, scannedMark 5] []
      ([3, 4, 5].map scannedRecord) :=
  ⟨checkTable_sound filledDisk_checked.2.1,
    .cons .inline (.cons .inline (.cons .inline .nil)), by decide, by decide⟩

/-- Behind a first leaf without a record a scan gives nothing. -/
theorem emptied_leaf_ends_scan :
    TableStore emptiedDisk [] scannedTree.rootPageId 1 [2, 3, 4]
        [.separator 2, scannedMark 3, scannedMark 4, scannedMark 5] []
        ([3, 4, 5].map scannedRecord) ∧
      ¬ ScanYields scannedTree emptiedDisk
        ([3, 4, 5].map scannedRecord) := by
  refine ⟨emptiedDisk_store, ?_⟩
  rintro ⟨enough, yields⟩
  obtain ⟨leaf, later, leavesEq, fromEmpty, _⟩ :=
    btreeScan_begins (emptiedDisk_store.valid.wellShaped rfl) (by decide)
  rw [filledDisk_checked.2.2.1] at leavesEq
  have first := (List.cons.inj leavesEq).1
  have empty : keysOn emptiedDisk leaf = 0 := by
    rw [first]
    exact filledDisk_checked.2.2.2.1
  have scanned := yields (enough + 1) (Nat.le_succ _)
  rw [fromEmpty empty] at scanned
  have same := (Prod.mk.inj (Except.ok.inj (Prod.mk.inj scanned).1)).1
  cases same

end BtreeDb
