import BtreeDb.Lib.Sweep
import BtreeDb.Node.Stacked
import BtreeDb.Table.Deletion
import BtreeDb.Table.Scan
import BtreeDb.Table.Selection
import BtreeDb.Tree.LeafChange
import Mathlib.Data.List.SplitLengths

/-!
# Deleting in a scan

The loop of a statement reads each record, deletes it with
`btree_op_scan_delete` or writes it again with `btree_op_scan_update`, and goes
on with `btree_op_scan_next`.  A deletion moves the next record of the leaf into
the place of the deleted one, and the loop passes over it.
-/

namespace BtreeDb

open PagedTree Sweep

/-! ## The code -/

/-- What a statement does with the record that its scan is at. -/
inductive RowStep where
  | keep
  | delete
  | write (payload : List UInt8)
  deriving DecidableEq, Repr

def RowStep.run (tree : BTree) (op : OpScan) : RowStep → BtM OpScan
  | .keep => pure op
  | .delete => btreeOpScanDelete tree op
  | .write payload => btreeOpScanUpdate tree op payload

/-- The size of the buffer after the step: `sqldb_scan_update` makes room in it
for the row that it writes. -/
def RowStep.buffered (size : Nat) : RowStep → Nat
  | .write payload => max size payload.length
  | _ => size

/-- The step that deletes what is chosen. -/
def RowStep.ofChosen (isChosen : Bool) : RowStep :=
  if isChosen then .delete else .keep

/-- The loop of a statement over a prepared scan.  Each payload is read into a
buffer that has the size of the longest one so far, and `visit` says what the
payload in the buffer gives and what is done with the record, or how the loop
ends.  The status of a deletion or of an update is dropped. -/
def visitOn {ρ ε : Type} (tree : BTree) (fault : BTreeE → ε)
    (visit : List UInt8 → Nat → Except ε (ρ × RowStep)) :
    Nat → Nat → OpScan → BtM (List ρ × Except ε Unit)
  | 0, _, _ => BtM.stop .diverges
  | fuel + 1, size, op =>
      if btreeOpScanDone op then pure ([], .ok ())
      else do
        let size := max size op.dataSize
        let (payload, op) ← btreeOpScanCurrent op size
        match op.lastStatus with
        | some code => pure ([], .error (fault code))
        | none =>
            match visit payload size with
            | .error reason => pure ([], .error reason)
            | .ok (row, step) => do
                let op ← step.run tree op
                let op ← btreeOpScanNext tree op
                match op.lastStatus with
                | some code => pure ([row], .error (fault code))
                | none => do
                    let (rows, status) ← visitOn tree fault visit fuel
                      (step.buffered size) op
                    pure (row :: rows, status)

/-- One scan of a table by a statement: what the records gave, and the status at
the end. -/
def btreeVisit {ρ ε : Type} (tree : BTree) (fault : BTreeE → ε)
    (visit : List UInt8 → Nat → Except ε (ρ × RowStep)) (fuel : Nat) :
    BtM (List ρ × Except ε Unit) := do
  let op ← btreeOpScanPrepare tree (btreeOpScanAcquire tree)
  match op.lastStatus with
  | some code => pure ([], .error (fault code))
  | none => visitOn tree fault visit fuel 0 op

/-- A statement says something of the record and deletes it if it is chosen, or
it ends there. -/
def VisitsAs {ρ ε : Type} (visit : List UInt8 → Nat → Except ε (ρ × RowStep))
    (say : List UInt8 → Except ε ρ) (chosen : List UInt8 → Bool)
    (record : TableRecord) : Prop :=
  ∀ size, record.payload.length ≤ size → visit record.payload size =
    (say record.payload).map fun row =>
      (row, RowStep.ofChosen (chosen record.payload))

/-- One scan that gives the payloads and deletes the chosen ones. -/
def btreeSweep (tree : BTree) (chosen : List UInt8 → Bool) (fuel : Nat) :
    BtM (List (List UInt8) × Except BTreeE Unit) :=
  btreeVisit tree id
    (fun payload _ => .ok (payload, RowStep.ofChosen (chosen payload))) fuel

section Turn

variable {ρ ε : Type} {tree : BTree} {fault : BTreeE → ε}
variable {visit : List UInt8 → Nat → Except ε (ρ × RowStep)}
variable {disk middle after : Disk} {size fuel : Nat} {op changed next : OpScan}
variable {payload : List UInt8} {row : ρ} {rows : List ρ} {step : RowStep}

theorem visitOn_done (done : op.step = .done) :
    visitOn tree fault visit (fuel + 1) size op disk =
      (.ok ([], .ok ()), disk) := by
  have isDone : btreeOpScanDone op = true := by
    unfold btreeOpScanDone
    rw [done]
    rfl
  rw [visitOn, if_pos isDone]
  rfl

/-- One turn of the loop. -/
theorem visitOn_turn {status : Except ε Unit} (iterating : op.step = .iterating)
    (current : btreeOpScanCurrent op (max size op.dataSize) disk =
      (.ok (payload, { op with lastStatus := none }), disk))
    (visits : visit payload (max size op.dataSize) = .ok (row, step))
    (stepEq : step.run tree { op with lastStatus := none } disk =
      (.ok changed, middle))
    (nextEq : btreeOpScanNext tree changed middle = (.ok next, middle))
    (noFault : next.lastStatus = none)
    (rest : visitOn tree fault visit fuel
      (step.buffered (max size op.dataSize)) next middle =
        (.ok (rows, status), after)) :
    visitOn tree fault visit (fuel + 1) size op disk =
      (.ok (row :: rows, status), after) := by
  have notDone : ¬ btreeOpScanDone op = true := by
    unfold btreeOpScanDone
    rw [iterating]
    decide
  rw [visitOn, if_neg notDone]
  dsimp only
  rw [BtM.bind_ok current]
  simp only [visits]
  rw [BtM.bind_ok stepEq, BtM.bind_ok nextEq, noFault]
  dsimp only
  rw [BtM.bind_ok rest]
  rfl

/-- The turn of the loop that ends it. -/
theorem visitOn_ends {reason : ε} (iterating : op.step = .iterating)
    (current : btreeOpScanCurrent op (max size op.dataSize) disk =
      (.ok (payload, { op with lastStatus := none }), disk))
    (visits : visit payload (max size op.dataSize) = .error reason) :
    visitOn tree fault visit (fuel + 1) size op disk =
      (.ok ([], .error reason), disk) := by
  have notDone : ¬ btreeOpScanDone op = true := by
    unfold btreeOpScanDone
    rw [iterating]
    decide
  rw [visitOn, if_neg notDone]
  dsimp only
  rw [BtM.bind_ok current]
  simp only [visits]
  rfl

end Turn

/-! ## The leaves with their records -/

/-- The records of a table, leaf by leaf. -/
def leafRows (tree : BTree) (disk : Disk) (height : Nat)
    (records : List TableRecord) : List (List TableRecord) :=
  ((leavesBelow tree disk height tree.rootPageId).map
    (keysOn disk)).splitLengths records

/-- The records with none of the keys. -/
def dropRecords (keys : List Nat) (records : List TableRecord) :
    List TableRecord :=
  records.filter fun record => record.key ∉ keys

theorem dropRecords_nil (records : List TableRecord) :
    dropRecords [] records = records :=
  List.filter_eq_self.mpr fun _ _ => by simp

theorem dropRecords_cons (key : Nat) (keys : List Nat)
    (records : List TableRecord) :
    dropRecords (key :: keys) records =
      dropRecords keys (dropRecord key records) := by
  unfold dropRecords dropRecord
  rw [List.filter_filter]
  refine List.filter_congr fun record _ => ?_
  simp only [List.mem_cons, not_or, Bool.decide_and, Bool.and_comm, ne_eq]

section Leaf

variable {tree : BTree} {disk : Disk} {free pages chains : List Nat}
variable {height page : Nat} {flat : List Mark}

theorem TableTree.loadedLeafAt (isTable : tree.type = .table)
    (valid : TableTree disk free tree.rootPageId height pages flat)
    (member : page ∈ leavesBelow tree disk height tree.rootPageId) :
    (loadedNode disk page).pageNumber = page ∧
      MetaFresh free (loadedNode disk page) ∧
      ∃ outside before behind, LeafAt disk tree.rootPageId height pages flat
        (loadedNode disk page) outside before behind := by
  obtain ⟨lower, way⟩ := leavesBelow_way .root member
  obtain ⟨steps, outside, own, before, part, behind, path, below, flatEq,
    pagesEq⟩ := way.path (TableHolds.readsAs isTable valid.store) valid.tree
  obtain ⟨contents, rfl⟩ := below
  cases contents with
  | @leaf node holds atLeaf isLeaf small =>
      subst atLeaf
      obtain ⟨metaBytes, readEq, metaFresh⟩ :=
        nodercReinitRead_holds holds valid.store
      rw [nodercReinitRead_onDisk holds.present] at readEq
      have loadedEq := Except.ok.inj (Prod.mk.inj readEq).1
      rw [loadedEq]
      exact ⟨rfl, metaFresh, outside, before, behind, holds.withMeta _, isLeaf,
        small, ⟨steps, path⟩, flatEq, pagesEq⟩

end Leaf

/-! ## The position of the loop -/

/-- A cursor with an index in a leaf, whether a key is there or not. -/
structure LeafCursor (tree : BTree) (disk : Disk) (top leaf index : Nat)
    (later : List Nat) (cursor : Cursor) : Prop where
  place : ∃ above, cursor = cursorAt (⟨⟨.limIndex, index⟩, leaf⟩ :: above) ∧
    WellShaped tree disk 0 leaf ∧ LeafStack tree disk top 1 above ∧
    leavesBehind tree disk 1 above = later

section Position

variable {tree : BTree} {disk after : Disk} {top leaf index : Nat}
variable {later : List Nat} {cursor : Cursor} {op : OpScan}

theorem InLeaf.leafCursor
    (inLeaf : InLeaf tree disk top leaf index later cursor) :
    LeafCursor tree disk top leaf index later cursor := by
  obtain ⟨above, cursorEq, stack, behindEq⟩ := inLeaf.place
  exact ⟨above, cursorEq, stack.shape, stack.above, behindEq⟩

theorem LeafCursor.inLeaf
    (position : LeafCursor tree disk top leaf index later cursor)
    (inside : index < keysOn disk leaf) :
    InLeaf tree disk top leaf index later cursor := by
  obtain ⟨above, cursorEq, shape, stack, behindEq⟩ := position.place
  exact ⟨above, cursorEq, .crumb shape (Or.inl ⟨rfl, Or.inl inside⟩) stack,
    behindEq⟩

/-- The cursor stands where it stood when its leaf has changed. -/
theorem LeafCursor.changed
    (position : LeafCursor tree disk top leaf index later cursor)
    (changed : LeafChanged disk after leaf) :
    LeafCursor tree after top leaf index later cursor := by
  obtain ⟨above, cursorEq, shape, stack, behindEq⟩ := position.place
  refine ⟨above, cursorEq, changed.wellShaped shape,
    changed.stack stack Nat.one_pos, ?_⟩
  rw [changed.leavesBehind_eq stack]
  exact behindEq

/-- Where a call of `btree_op_scan_next` goes: to the next index of the leaf
while there is a key, and then to the next leaf. -/
theorem btreeOpScanNext_run (isTable : tree.type = .table)
    (room : top + 1 ≤ maxBreadcrumbs) (iterating : op.step = .iterating)
    (position : LeafCursor tree disk top leaf index later op.cursor) :
    ∃ next, btreeOpScanNext tree op disk = (.ok next, disk) ∧
      next.lastStatus = none ∧
      (index + 1 < keysOn disk leaf →
        ScanAt tree disk top leaf (index + 1) later next) ∧
      (keysOn disk leaf ≤ index + 1 →
        (later = [] → next.step = .done) ∧
        ∀ page pages, later = page :: pages →
          ScanAt tree disk top page 0 pages next) := by
  by_cases more : index + 1 < keysOn disk leaf
  · obtain ⟨next, moved, inLeaf⟩ :=
      (position.inLeaf (by omega)).next isTable room more
    have body := opScanNextBody_ok moved inLeaf
    exact ⟨_, btreeOpScanNext_ok iterating body, rfl,
      fun _ => ⟨iterating, inLeaf, rfl⟩, fun last => by omega⟩
  · obtain ⟨above, cursorEq, shape, stack, behindEq⟩ := position.place
    have enters := @leaf_leave tree disk top index leaf isTable room above shape
      stack (by omega)
    rw [← cursorEq, behindEq] at enters
    cases later with
    | nil =>
        obtain ⟨last, ended⟩ := enters
        have body : opScanNextBody tree op.cursor disk =
            (.ok (.error .errIterDone, last), disk) := by
          unfold opScanNextBody
          exact CursorM.bind_error ended
        refine ⟨{ op with lastStatus := none, cursor := last, step := .done },
          ?_, rfl, fun inside => absurd inside more, fun _ => ⟨fun _ => rfl, ?_⟩⟩
        · unfold btreeOpScanNext
          rw [if_pos iterating, BtM.bind_ok body]
          rfl
        · intro page pages some
          cases some
    | cons page pages =>
        obtain ⟨next, moved, inLeaf⟩ := enters
        have body := opScanNextBody_ok moved inLeaf
        refine ⟨_, btreeOpScanNext_ok iterating body, rfl,
          fun inside => absurd inside more, fun _ => ⟨nofun, ?_⟩⟩
        rintro _ _ ⟨rfl, rfl⟩
        exact ⟨iterating, inLeaf, rfl⟩

end Position

/-! ## The records still to come -/

/-- What the loop has in front of it: the records of the leaf from an index on,
and those of the later leaves. -/
structure Pending (tree : BTree) (chosen : List UInt8 → Bool) (disk : Disk)
    (free : List Nat) (height : Nat) (pages : List Nat) (flat : List Mark)
    (chains : List Nat) (records : List TableRecord) (leaf index : Nat)
    (later : List Nat) (row : List TableRecord)
    (rows : List (List TableRecord)) : Prop where
  table : TableStore disk free tree.rootPageId height pages flat chains records
  leaves : ∀ page ∈ leaf :: later,
    page ∈ leavesBelow tree disk height tree.rootPageId
  rowKeys : row.map TableRecord.key =
    ((loadedNode disk leaf).entries.drop index).map Entry.key
  laterRows : List.Forall₂ (fun page row => row ≠ [] ∧
    row.map TableRecord.key = (loadedNode disk page).entries.map Entry.key ∧
    SweepsSafely (row.map fun record => chosen record.payload)
      (loadedNode disk page) 0) later rows
  members : ∀ record ∈ row ++ rows.flatten, record ∈ records
  distinct : ((row ++ rows.flatten).map TableRecord.key).Nodup

section Pending

variable {tree : BTree} {chosen : List UInt8 → Bool} {disk : Disk}
variable {free pages chains later : List Nat} {height leaf index : Nat}
variable {flat : List Mark} {records row : List TableRecord}
variable {rows : List (List TableRecord)} {record : TableRecord}

/-- How many keys there are in the leaf. -/
theorem Pending.keysOn_eq
    (pending : Pending tree chosen disk free height pages flat chains records
      leaf index later (record :: row) rows) :
    keysOn disk leaf = index + 1 + row.length := by
  have lengths := congrArg List.length pending.rowKeys
  rw [List.length_map, List.length_map, List.length_drop, entries_length,
    List.length_cons] at lengths
  unfold keysOn BTreeNode.numKeys
  omega

/-- Behind a record of the leaf. -/
theorem Pending.tail
    (pending : Pending tree chosen disk free height pages flat chains records
      leaf index later row rows) :
    Pending tree chosen disk free height pages flat chains records leaf
      (index + 1) later row.tail rows := by
  have fewer : (row.tail ++ rows.flatten).Sublist (row ++ rows.flatten) :=
    (List.tail_sublist row).append_right _
  refine ⟨pending.table, pending.leaves, ?_, pending.laterRows,
    fun record member => pending.members record (fewer.subset member),
    pending.distinct.sublist (fewer.map _)⟩
  rw [List.map_tail, pending.rowKeys, ← List.map_tail, List.tail_drop]

/-- From the end of a leaf to the next one. -/
theorem Pending.nextLeaf {page : Nat}
    (pending : Pending tree chosen disk free height pages flat chains records
      leaf index (page :: later) row rows) :
    ∃ next others, rows = next :: others ∧ next ≠ [] ∧
      SweepsSafely (next.map fun record => chosen record.payload)
        (loadedNode disk page) 0 ∧
      Pending tree chosen disk free height pages flat chains records page 0
        later next others := by
  obtain ⟨next, others, ⟨some, keysEq, safe⟩, laterRows, rfl⟩ :=
    List.forall₂_cons_left_iff.mp pending.laterRows
  have fewer : (next ++ others.flatten).Sublist
      (row ++ (next :: others).flatten) := by
    rw [List.flatten_cons]
    exact List.sublist_append_right _ _
  refine ⟨next, others, rfl, some, safe, pending.table,
    fun other member => pending.leaves other (List.mem_cons_of_mem _ member),
    keysEq, laterRows,
    fun record member => pending.members record (fewer.subset member),
    pending.distinct.sublist (fewer.map _)⟩

/-- The record at the index is what can be read there. -/
theorem Pending.recordAt (isTable : tree.type = .table)
    (pending : Pending tree chosen disk free height pages flat chains records
      leaf index later (record :: row) rows) :
    ∃ entry chain before behind, entry.key = record.key ∧
      (loadedNode disk leaf).pageNumber = leaf ∧
      MetaFresh free (loadedNode disk leaf) ∧
      RecordAt disk tree.rootPageId height pages flat chains records
        (loadedNode disk leaf) index entry record.payload chain before
        behind ∧
      ReadsBack disk (loadedNode disk leaf) index record.payload := by
  have table := pending.table
  have inLeaves := pending.leaves leaf List.mem_cons_self
  obtain ⟨number, metaFresh, outside, before, behind, leafAt⟩ :=
    table.valid.loadedLeafAt isTable inLeaves
  have inside : index < (loadedNode disk leaf).entries.length := by
    have count := pending.keysOn_eq
    unfold keysOn BTreeNode.numKeys at count
    rw [entries_length]
    omega
  have here := List.getElem?_eq_getElem inside
  have rowKeys := pending.rowKeys
  rw [List.drop_eq_getElem_cons inside, List.map_cons, List.map_cons] at rowKeys
  have keyEq := (List.cons.inj rowKeys).1
  obtain ⟨payload, chain, recordAt⟩ := leafAt.recordAt table here
  have increase : (records.map TableRecord.key).Nodup := by
    rw [table.holds.keys_eq]
    have ordered := keysIncrease_entriesOf table.valid.ordered
    exact (List.pairwise_map.mpr ordered).imp Nat.ne_of_lt
  have stored := List.mem_of_getElem? recordAt.recordHere
  have same : record = ⟨_, payload⟩ := List.inj_on_of_nodup_map increase
    (pending.members record List.mem_cons_self) stored keyEq
  refine ⟨_, chain, before, behind, keyEq.symm, number, metaFresh, ?_, ?_⟩
  · rw [same]
    exact recordAt
  · rw [same]
    exact table.valid.leafReads isTable inLeaves _ _ _ _ here recordAt.resolves

/-- What `btree_op_scan_current` reads there. -/
theorem Pending.reads {op : OpScan} (isTable : tree.type = .table)
    (pending : Pending tree chosen disk free height pages flat chains records
      leaf index later (record :: row) rows)
    (size : Nat) (scanAt : ScanAt tree disk height leaf index later op) :
    record.payload.length ≤ max size op.dataSize ∧
      btreeOpScanCurrent op (max size op.dataSize) disk =
        (.ok (record.payload, { op with lastStatus := none }), disk) := by
  obtain ⟨_, _, _, _, _, _, _, _, reads⟩ := pending.recordAt isTable
  have present : OnDisk disk op.cursor.currentPageId := by
    rw [scanAt.currentPageId]
    exact scanAt.inLeaf.shape.onDisk
  have fitsIn : record.payload.length ≤ max size op.dataSize := by
    rw [scanAt.size_eq, reads.size_eq]
    exact Nat.le_max_right _ _
  refine ⟨fitsIn, btreeOpScanCurrent_reads scanAt.iterating present ?_ fitsIn⟩
  rw [scanAt.currentPageId, scanAt.currentIndex]
  exact reads

/-- No later leaf is the one that the cursor is in. -/
theorem Pending.apart
    (pending : Pending tree chosen disk free height pages flat chains records
      leaf index later (record :: row) rows)
    {page : Nat} {other : List TableRecord} (member : other ∈ rows)
    (keysEq : other.map TableRecord.key =
      (loadedNode disk page).entries.map Entry.key) : page ≠ leaf := by
  rintro rfl
  have first : record.key ∈ (loadedNode disk page).entries.map Entry.key := by
    have inRow : record.key ∈ (record :: row).map TableRecord.key :=
      List.mem_cons_self
    rw [pending.rowKeys] at inRow
    exact ((List.drop_sublist _ _).map Entry.key).subset inRow
  rw [← keysEq] at first
  obtain ⟨twin, twinMember, sameKey⟩ := List.mem_map.mp first
  have distinct := pending.distinct
  rw [List.cons_append, List.map_cons] at distinct
  refine (List.nodup_cons.mp distinct).1 (List.mem_map.mpr ⟨twin, ?_, sameKey⟩)
  exact List.mem_append_right _ (List.mem_flatten.mpr ⟨other, member, twinMember⟩)

/-- Deleting the record at the index. -/
theorem Pending.delete {op : OpScan} (isTable : tree.type = .table)
    (pending : Pending tree chosen disk free height pages flat chains records
      leaf index later (record :: row) rows)
    (safe : GcSafe (loadedNode disk leaf) index)
    (atLeaf : op.cursor.currentPageId = leaf)
    (atIndex : op.cursor.currentKeyIndex = ⟨.limIndex, index⟩) :
    ∃ after marks freed more,
      btreeOpScanDelete tree op disk =
        (.ok { op with lastStatus := none }, after) ∧
      LeafChanged disk after leaf ∧ (freed ++ more).Perm chains ∧
      SameCells (nodeRemoveAt (loadedNode disk leaf) index)
        (loadedNode after leaf) ∧
      Pending tree chosen after (freed ++ free) height pages marks more
        (dropRecord record.key records) leaf index later row rows ∧
      Within disk free (pages ++ chains) after (freed ++ free)
        (pages ++ more) := by
  obtain ⟨entry, chain, before, behind, keyEq, number, metaFresh, recordAt, _⟩ :=
    pending.recordAt isTable
  have table := pending.table
  have shape := table.valid.wellShaped isTable
  obtain ⟨outside, leafAt⟩ := recordAt.leafAt
  obtain ⟨apart, notFirst⟩ := recordAt.apart table
  obtain ⟨stored, after, deleteEq, deleted⟩ := @btreeNodeDelete_run tree disk
    free (loadedNode disk leaf) index entry record.payload chain
    table.valid.roomy table.valid.store leafAt.holds metaFresh recordAt.here
    recordAt.resolves apart notFirst safe
  have written := btreeNodeDelete_stored table.valid.store leafAt.holds
    recordAt.here recordAt.resolves apart notFirst deleteEq
  obtain ⟨more, fewer, kept, within⟩ := RecordAt.removed table recordAt deleted
    (List.reverse_perm chain).subperm
  rw [keyEq] at kept
  have storedNumber : stored.pageNumber = leaf :=
    deleted.reentered.pageNumber_eq.trans number
  obtain ⟨metaBytes, loadedEq⟩ := deleted.holds.loadedNode_eq deleted.store
  rw [storedNumber] at loadedEq
  have present : OnDisk disk leaf := by
    have holds := leafAt.holds.present
    rw [number] at holds
    exact holds
  have changed : LeafChanged disk after leaf := by
    refine ⟨deleted.maxPage, leafAt.isLeaf, ?_, fun page other =>
      deleted.kept page (by rw [number]; exact other)⟩
    rw [loadedEq]
    exact deleted.reentered.isLeaf_eq.trans leafAt.isLeaf
  have entriesEq : (loadedNode after leaf).entries =
      (loadedNode disk leaf).entries.eraseIdx index := by
    rw [loadedEq]
    exact deleted.reentered.entries_eq
  have inside := (List.getElem?_eq_some_iff.mp recordAt.here).1
  have distinct := pending.distinct
  rw [List.cons_append, List.map_cons] at distinct
  obtain ⟨out, tailDistinct⟩ := List.nodup_cons.mp distinct
  refine ⟨after, _, chain.reverse, more, ?_, changed, ?_, ?_,
    ⟨kept, ?_, ?_, ?_, ?_, tailDistinct⟩, within⟩
  · unfold btreeOpScanDelete
    have body : btreeOpScanDelete.deleteBody tree op disk =
        (.ok stored, after) := by
      unfold btreeOpScanDelete.deleteBody
      rw [atLeaf, atIndex, BtM.bind_ok (nodercReinitRead_onDisk present)]
      exact deleteEq
    rw [BtM.bind_ok (BtM.attempt_ok body)]
    rfl
  · exact ((List.reverse_perm chain).append_right more).trans fewer
  · rw [loadedEq]
    exact ⟨written.keys, written.heap⟩
  · intro page member
    rw [changed.leavesBelow_eq shape]
    exact pending.leaves page member
  · rw [entriesEq, List.eraseIdx_eq_take_drop_succ,
      List.drop_append_of_le_length (by rw [List.length_take]; omega),
      List.drop_take, Nat.sub_self, List.take_zero, List.nil_append]
    exact pending.tail.rowKeys
  · rw [List.forall₂_iff_zip]
    obtain ⟨lengths, each⟩ := List.forall₂_iff_zip.mp pending.laterRows
    refine ⟨lengths, fun {page other} member => ?_⟩
    obtain ⟨some, keysEq, safely⟩ := each member
    have pageIn := pending.leaves page
      (List.mem_cons_of_mem _ (List.of_mem_zip member).1)
    obtain ⟨ownNumber, _, _, _, _, pageAt⟩ :=
      table.valid.loadedLeafAt isTable pageIn
    have holds := pageAt.holds.present
    rw [ownNumber] at holds
    obtain ⟨metaBytes, sameNode⟩ := loadedNode_congr holds (changed.kept page
      (pending.apart (List.of_mem_zip member).2 keysEq))
    have cells : SameCells (loadedNode disk page) (loadedNode after page) := by
      rw [sameNode]
      exact ⟨rfl, rfl⟩
    refine ⟨some, ?_, cells.sweepsSafely safely⟩
    rw [sameNode]
    exact keysEq
  · intro other member
    refine List.mem_filter.mpr
      ⟨pending.members other (List.mem_cons_of_mem _ member), ?_⟩
    refine decide_eq_true fun same => out ?_
    exact List.mem_map.mpr ⟨other, member, same⟩

end Pending

/-! ## The loop -/

/-- The records that the loop comes to. -/
def visitedRecords (chosen : List UInt8 → Bool) (row : List TableRecord)
    (rows : List (List TableRecord)) : List TableRecord :=
  visited (fun record => chosen record.payload) row ++
    rows.flatMap (visited fun record => chosen record.payload)

theorem visitedRecords_of_chosen {chosen : List UInt8 → Bool}
    {record : TableRecord} {row : List TableRecord}
    {rows : List (List TableRecord)}
    (isChosen : chosen record.payload = true) :
    visitedRecords chosen (record :: row) rows =
      record :: visitedRecords chosen row.tail rows := by
  unfold visitedRecords
  rw [@visited_cons_of_chosen _ (fun record : TableRecord =>
    chosen record.payload) record row isChosen]
  rfl

theorem visitedRecords_of_not {chosen : List UInt8 → Bool}
    {record : TableRecord} {row : List TableRecord}
    {rows : List (List TableRecord)}
    (notChosen : chosen record.payload = false) :
    visitedRecords chosen (record :: row) rows =
      record :: visitedRecords chosen row rows := by
  unfold visitedRecords
  rw [@visited_cons_of_not _ (fun record : TableRecord =>
    chosen record.payload) record row (by
      rw [notChosen]
      exact Bool.false_ne_true)]
  rfl

/-- The loop comes to the record that it is at. -/
theorem visitedRecords_cons (chosen : List UInt8 → Bool) (record : TableRecord)
    (row : List TableRecord) (rows : List (List TableRecord)) :
    ∃ others, visitedRecords chosen (record :: row) rows = record :: others := by
  cases isChosen : chosen record.payload with
  | true => exact ⟨_, visitedRecords_of_chosen isChosen⟩
  | false => exact ⟨_, visitedRecords_of_not isChosen⟩

/-- What it says of them. -/
def saidOf {ε ρ : Type} (say : List UInt8 → Except ε ρ)
    (records : List TableRecord) : List ρ × Except ε Unit :=
  said (fun record => say record.payload) records

/-- The keys that it deletes when it comes to the records: those of the chosen
ones before its end. -/
def deletedKeys {ε ρ : Type} (say : List UInt8 → Except ε ρ)
    (chosen : List UInt8 → Bool) (records : List TableRecord) : List Nat :=
  ((reached (fun record => say record.payload) records).filter
    fun record => chosen record.payload).map TableRecord.key

section Said

variable {ρ ε : Type} {say : List UInt8 → Except ε ρ}
variable {chosen : List UInt8 → Bool} {record : TableRecord}
variable {records : List TableRecord} {answer : ρ} {reason : ε}

theorem saidOf_ok (answers : say record.payload = .ok answer) :
    saidOf say (record :: records) =
      (answer :: (saidOf say records).1, (saidOf say records).2) :=
  @said_cons_ok _ _ _ (fun record : TableRecord => say record.payload) _ _ _
    answers

theorem saidOf_error (stops : say record.payload = .error reason) :
    saidOf say (record :: records) = ([], .error reason) :=
  @said_cons_error _ _ _ (fun record : TableRecord => say record.payload) _ _ _
    stops

theorem deletedKeys_error (stops : say record.payload = .error reason) :
    deletedKeys say chosen (record :: records) = [] := by
  unfold deletedKeys
  rw [@reached_cons_error _ _ _ (fun record : TableRecord =>
    say record.payload) _ _ _ stops]
  rfl

theorem deletedKeys_ok (answers : say record.payload = .ok answer) :
    deletedKeys say chosen (record :: records) =
      if chosen record.payload then
        record.key :: deletedKeys say chosen records
      else deletedKeys say chosen records := by
  unfold deletedKeys
  rw [@reached_cons_ok _ _ _ (fun record : TableRecord =>
    say record.payload) _ _ _ answers, List.filter_cons]
  split <;> rfl

end Said

/-- What a call leaves that goes through the records and deletes those with the
keys: the overflow pages of the deleted ones are on the free list, and nothing
outside of the tree is touched, or nothing at all where there are no keys. -/
def Swept {ρ ε : Type} (call : Nat → BtM (List ρ × Except ε Unit)) (disk : Disk)
    (free : List Nat) (root height : Nat) (pages chains : List Nat)
    (records : List TableRecord) (outcome : List ρ × Except ε Unit)
    (keys : List Nat) : Prop :=
  ∃ after freed marks more,
    (∀ extra, call extra disk = (.ok outcome, after)) ∧
    TableStore after (freed ++ free) root height pages marks more
      (dropRecords keys records) ∧
    (freed ++ more).Perm chains ∧
    Within disk free (pages ++ chains) after (freed ++ free) (pages ++ more) ∧
    (keys = [] → after = disk)

/-- So many turns are enough from every record on. -/
def SweepsOn {ρ ε : Type} (tree : BTree) (fault : BTreeE → ε)
    (visit : List UInt8 → Nat → Except ε (ρ × RowStep))
    (say : List UInt8 → Except ε ρ) (chosen : List UInt8 → Bool) (height : Nat)
    (pages : List Nat) (fuel : Nat) : Prop :=
  ∀ {disk free flat chains records leaf index later record row rows op} size,
    ScanAt tree disk height leaf index later op →
    Pending tree chosen disk free height pages flat chains records leaf index
      later (record :: row) rows →
    SweepsSafely ((record :: row).map fun record => chosen record.payload)
      (loadedNode disk leaf) index →
    (∀ record ∈ records, VisitsAs visit say chosen record) →
    ((record :: row) ++ rows.flatten).length < fuel →
    Swept (fun extra => visitOn tree fault visit (fuel + extra) size op) disk
      free tree.rootPageId height pages chains records
      (saidOf say (visitedRecords chosen (record :: row) rows))
      (deletedKeys say chosen (visitedRecords chosen (record :: row) rows))

section Loop

variable {ρ ε : Type} {tree : BTree} {fault : BTreeE → ε}
variable {visit : List UInt8 → Nat → Except ε (ρ × RowStep)}
variable {say : List UInt8 → Except ε ρ} {chosen : List UInt8 → Bool}
variable {disk : Disk}
variable {free pages chains later : List Nat}
variable {height leaf index fuel : Nat} {flat : List Mark}
variable {records row : List TableRecord}
variable {rows : List (List TableRecord)} {record : TableRecord} {op : OpScan}
variable (isTable : tree.type = .table) (room : height + 1 ≤ maxBreadcrumbs)

include isTable room

/-- From an index that is done with to the end. -/
theorem SweepsOn.goesOn (size : Nat)
    (runs : SweepsOn tree fault visit say chosen height pages fuel)
    (iterating : op.step = .iterating)
    (position : LeafCursor tree disk height leaf index later op.cursor)
    (pending : Pending tree chosen disk free height pages flat chains records
      leaf index later row rows)
    (safe : SweepsSafely (row.tail.map fun record => chosen record.payload)
      (loadedNode disk leaf) (index + 1))
    (visits : ∀ record ∈ records, VisitsAs visit say chosen record)
    (enough : (row.tail ++ rows.flatten).length < fuel) :
    ∃ next, btreeOpScanNext tree op disk = (.ok next, disk) ∧
      next.lastStatus = none ∧
      Swept (fun extra => visitOn tree fault visit (fuel + extra) size next)
        disk free tree.rootPageId height pages chains records
        (saidOf say (visitedRecords chosen row.tail rows))
        (deletedKeys say chosen (visitedRecords chosen row.tail rows)) := by
  obtain ⟨next, nextEq, status, inside, leaves⟩ :=
    btreeOpScanNext_run isTable room iterating position
  refine ⟨next, nextEq, status, ?_⟩
  have lengths := congrArg List.length pending.rowKeys
  rw [List.length_map, List.length_map, List.length_drop, entries_length]
    at lengths
  have count : keysOn disk leaf - index = row.length := lengths.symm
  have tailLength := @List.length_tail _ row
  have behind := pending.tail
  cases tailEq : row.tail with
  | cons second rest =>
      rw [tailEq] at behind safe enough tailLength
      rw [List.length_cons] at tailLength
      exact runs size (inside (by omega)) behind safe visits enough
  | nil =>
      rw [tailEq, List.length_nil] at tailLength
      obtain ⟨done, enters⟩ := leaves (by omega)
      cases later with
      | nil =>
          have noRows := List.forall₂_nil_left_iff.mp pending.laterRows
          subst noRows
          obtain ⟨turns, rfl⟩ := Nat.exists_eq_succ_of_ne_zero
            (Nat.pos_iff_ne_zero.mp (Nat.zero_lt_of_lt enough))
          refine ⟨disk, [], flat, chains, ?_, ?_, List.Perm.refl _,
            Within.refl _ _ _, fun _ => rfl⟩
          · intro extra
            dsimp only
            rw [Nat.succ_add]
            exact visitOn_done (done rfl)
          · change TableStore disk _ _ _ _ _ _ (dropRecords [] records)
            rw [dropRecords_nil]
            exact pending.table
      | cons page others =>
          obtain ⟨first, more, rfl, some, safely, nextPending⟩ :=
            pending.nextLeaf
          obtain ⟨head, tail, rfl⟩ := List.exists_cons_of_ne_nil some
          rw [tailEq, List.nil_append, List.flatten_cons] at enough
          exact runs size (enters page others rfl) nextPending safely visits
            enough

omit room in
/-- A record that the loop can say nothing of ends it, and nothing is
deleted. -/
theorem swept_ends {reason : ε} (size : Nat)
    (scanAt : ScanAt tree disk height leaf index later op)
    (pending : Pending tree chosen disk free height pages flat chains records
      leaf index later (record :: row) rows)
    (visits : ∀ record ∈ records, VisitsAs visit say chosen record)
    (stops : say record.payload = .error reason) :
    Swept (fun extra => visitOn tree fault visit (fuel + 1 + extra) size op)
      disk free tree.rootPageId height pages chains records
      (saidOf say (visitedRecords chosen (record :: row) rows))
      (deletedKeys say chosen (visitedRecords chosen (record :: row) rows)) := by
  obtain ⟨fitsIn, current⟩ := pending.reads isTable size scanAt
  have visitsHere := visits record
    (pending.members record List.mem_cons_self) _ fitsIn
  rw [stops] at visitsHere
  obtain ⟨others, othersEq⟩ := visitedRecords_cons chosen record row rows
  rw [othersEq]
  refine ⟨disk, [], flat, chains, ?_, ?_, List.Perm.refl _,
    Within.refl _ _ _, fun _ => rfl⟩
  · intro extra
    dsimp only
    rw [Nat.add_right_comm, saidOf_error stops]
    exact visitOn_ends scanAt.iterating current visitsHere
  · rw [deletedKeys_error stops, dropRecords_nil]
    exact pending.table

/-- A deleted record: the one behind it is passed over. -/
theorem SweepsOn.deletes {answer : ρ} (size : Nat)
    (runs : SweepsOn tree fault visit say chosen height pages fuel)
    (scanAt : ScanAt tree disk height leaf index later op)
    (pending : Pending tree chosen disk free height pages flat chains records
      leaf index later (record :: row) rows)
    (safe : SweepsSafely ((record :: row).map fun record =>
      chosen record.payload) (loadedNode disk leaf) index)
    (visits : ∀ record ∈ records, VisitsAs visit say chosen record)
    (enough : ((record :: row) ++ rows.flatten).length < fuel + 1)
    (answers : say record.payload = .ok answer)
    (isChosen : chosen record.payload = true) :
    Swept (fun extra => visitOn tree fault visit (fuel + 1 + extra) size op)
      disk free tree.rootPageId height pages chains records
      (saidOf say (visitedRecords chosen (record :: row) rows))
      (deletedKeys say chosen (visitedRecords chosen (record :: row) rows)) := by
  obtain ⟨fitsIn, current⟩ := pending.reads isTable size scanAt
  have visitsHere := visits record
    (pending.members record List.mem_cons_self) _ fitsIn
  rw [answers, isChosen] at visitsHere
  rw [List.cons_append, List.length_cons, List.length_append] at enough
  have safeHere : GcSafe (loadedNode disk leaf) index ∧
      SweepsSafely (row.tail.map fun record => chosen record.payload)
        (nodeRemoveAt (loadedNode disk leaf) index) (index + 1) := by
    rw [List.map_cons, isChosen] at safe
    cases row with
    | nil => exact ⟨safe rfl, trivial⟩
    | cons second rest => exact safe
  obtain ⟨after, marks, freed, more, deleteEq, changed, fewer, cells, left,
    within⟩ := @Pending.delete _ _ _ _ _ _ _ _ _ _ _ _ _ _ _
      { op with lastStatus := none } isTable pending safeHere.1
      scanAt.currentPageId scanAt.currentIndex
  obtain ⟨next, nextEq, status, last, freed', marks', more', runEq, swept, rest,
    later, _⟩ := runs.goesOn isTable room (max size op.dataSize)
      (show ({ op with lastStatus := none } : OpScan).step = .iterating
        from scanAt.iterating)
      (scanAt.inLeaf.leafCursor.changed changed) left
      (cells.sweepsSafely safeHere.2)
      (fun other member => visits other (List.mem_of_mem_filter member))
      (by
        rw [List.length_append, List.length_tail]
        omega)
  rw [visitedRecords_of_chosen isChosen, deletedKeys_ok answers,
    if_pos isChosen, saidOf_ok answers]
  have wholeWithin := within.trans later
  rw [← List.append_assoc] at swept wholeWithin
  refine ⟨last, freed' ++ freed, marks', more', ?_, ?_, ?_, wholeWithin,
    fun absurdity => absurd absurdity (List.cons_ne_nil _ _)⟩
  · intro extra
    dsimp only
    rw [Nat.add_right_comm]
    exact visitOn_turn scanAt.iterating current visitsHere deleteEq nextEq
      status (runEq extra)
  · rw [dropRecords_cons]
    exact swept
  · refine List.perm_iff_count.mpr fun page => ?_
    have first := fewer.count_eq page
    have second := rest.count_eq page
    rw [List.count_append] at first second
    rw [List.count_append, List.count_append]
    omega

/-- A record that stays. -/
theorem SweepsOn.keeps {answer : ρ} (size : Nat)
    (runs : SweepsOn tree fault visit say chosen height pages fuel)
    (scanAt : ScanAt tree disk height leaf index later op)
    (pending : Pending tree chosen disk free height pages flat chains records
      leaf index later (record :: row) rows)
    (safe : SweepsSafely ((record :: row).map fun record =>
      chosen record.payload) (loadedNode disk leaf) index)
    (visits : ∀ record ∈ records, VisitsAs visit say chosen record)
    (enough : ((record :: row) ++ rows.flatten).length < fuel + 1)
    (answers : say record.payload = .ok answer)
    (notChosen : chosen record.payload = false) :
    Swept (fun extra => visitOn tree fault visit (fuel + 1 + extra) size op)
      disk free tree.rootPageId height pages chains records
      (saidOf say (visitedRecords chosen (record :: row) rows))
      (deletedKeys say chosen (visitedRecords chosen (record :: row) rows)) := by
  obtain ⟨fitsIn, current⟩ := pending.reads isTable size scanAt
  have visitsHere := visits record
    (pending.members record List.mem_cons_self) _ fitsIn
  rw [answers, notChosen] at visitsHere
  rw [List.cons_append, List.length_cons, List.length_append] at enough
  have safeNext : SweepsSafely (row.map fun record => chosen record.payload)
      (loadedNode disk leaf) (index + 1) := by
    rw [List.map_cons, notChosen] at safe
    cases row with
    | nil => trivial
    | cons second rest => exact safe
  obtain ⟨next, nextEq, status, last, freed, marks, more, runEq, swept, rest,
    within, same⟩ := runs.goesOn isTable room (max size op.dataSize)
      (show ({ op with lastStatus := none } : OpScan).step = .iterating
        from scanAt.iterating) scanAt.inLeaf.leafCursor pending safeNext visits
      (by
        rw [List.tail_cons, List.length_append]
        omega)
  rw [visitedRecords_of_not notChosen, deletedKeys_ok answers,
    if_neg (by rw [notChosen]; exact Bool.false_ne_true), saidOf_ok answers]
  refine ⟨last, freed, marks, more, ?_, swept, rest, within, same⟩
  intro extra
  dsimp only
  rw [Nat.add_right_comm]
  exact visitOn_turn scanAt.iterating current visitsHere
    (BtM.pure_apply _ disk) nextEq status (runEq extra)

/-- One turn after another. -/
theorem sweepsOn :
    ∀ fuel, SweepsOn tree fault visit say chosen height pages fuel := by
  intro fuel
  induction fuel with
  | zero => exact fun _ _ _ _ _ enough => absurd enough (Nat.not_lt_zero _)
  | succ fuel inductionHypothesis =>
      intro disk free flat chains records leaf index later record row rows op
        size scanAt pending safe visits enough
      cases answers : say record.payload with
      | error reason =>
          exact swept_ends isTable size scanAt pending visits answers
      | ok answer =>
          cases isChosen : chosen record.payload with
          | true =>
              exact inductionHypothesis.deletes isTable room size scanAt pending
                safe visits enough answers isChosen
          | false =>
              exact inductionHypothesis.keeps isTable room size scanAt pending
                safe visits enough answers isChosen

end Loop

/-! ## The whole scan -/

section Scan

variable {tree : BTree} {chosen : List UInt8 → Bool} {disk : Disk}
variable {free pages chains : List Nat} {height : Nat} {flat : List Mark}
variable {records : List TableRecord}

theorem leafRows_flatten (isTable : tree.type = .table)
    (store : TableStore disk free tree.rootPageId height pages flat chains
      records) : (leafRows tree disk height records).flatten = records := by
  unfold leafRows
  exact List.flatten_splitLengths _ _
    (Nat.le_of_eq (store.records_length isTable))

/-- The rows are the records of the leaves. -/
theorem leafRows_forall₂ (isTable : tree.type = .table)
    (store : TableStore disk free tree.rootPageId height pages flat chains
      records) :
    List.Forall₂ (fun page row =>
      row.map TableRecord.key = (loadedNode disk page).entries.map Entry.key)
      (leavesBelow tree disk height tree.rootPageId)
      (leafRows tree disk height records) := by
  have entriesEq := store.valid.entries_leaves isTable
  have keysEq := store.holds.keys_eq
  rw [← entriesEq] at keysEq
  unfold leafRows
  clear entriesEq store
  generalize leavesBelow tree disk height tree.rootPageId = leaves at keysEq ⊢
  induction leaves generalizing records with
  | nil => exact List.Forall₂.nil
  | cons page leaves inductionHypothesis =>
      have count : keysOn disk page =
          ((loadedNode disk page).entries.map Entry.key).length := by
        rw [List.length_map, entries_length]
        rfl
      rw [List.flatMap_cons, List.map_append] at keysEq
      rw [List.map_cons, List.splitLengths_cons]
      refine List.Forall₂.cons ?_ (inductionHypothesis ?_)
      · rw [List.map_take, keysEq, count, List.take_left]
      · rw [List.map_drop, keysEq, count, List.drop_left]

/-- The removals of a scan that deletes the chosen payloads move no cell onto
another. -/
def SweepFits (tree : BTree) (chosen : List UInt8 → Bool) (disk : Disk)
    (height : Nat) (records : List TableRecord) : Prop :=
  ∀ place ∈ (leavesBelow tree disk height tree.rootPageId).zip
      (leafRows tree disk height records),
    SweepsSafely (place.2.map fun record => chosen record.payload)
      (loadedNode disk place.1) 0

instance (tree : BTree) (chosen : List UInt8 → Bool) (disk : Disk)
    (height : Nat) (records : List TableRecord) :
    Decidable (SweepFits tree chosen disk height records) :=
  inferInstanceAs (Decidable (∀ place ∈ _, _))

/-- What the loop of a DELETE leaves of a table. -/
def sweptRecords (tree : BTree) (chosen : List UInt8 → Bool) (disk : Disk)
    (height : Nat) (records : List TableRecord) : List TableRecord :=
  (leafRows tree disk height records).flatMap
    (sweep fun record => chosen record.payload)

/-- The records that the loop comes to. -/
def seenRecords (tree : BTree) (chosen : List UInt8 → Bool) (disk : Disk)
    (height : Nat) (records : List TableRecord) : List TableRecord :=
  (leafRows tree disk height records).flatMap
    (visited fun record => chosen record.payload)

/-- The loop of a statement over a table: it ends at the first record that it
can say nothing of, and has deleted the chosen ones that it came to before. -/
theorem btreeVisit_run {ρ ε : Type} {fault : BTreeE → ε}
    {visit : List UInt8 → Nat → Except ε (ρ × RowStep)}
    {say : List UInt8 → Except ε ρ} (isTable : tree.type = .table)
    (store : TableStore disk free tree.rootPageId height pages flat chains
      records)
    (shallow : height + 1 ≤ maxBreadcrumbs)
    (filled : EvenlyFilled tree disk height)
    (fits : SweepFits tree chosen disk height records)
    (visits : ∀ record ∈ records, VisitsAs visit say chosen record) :
    let seen := seenRecords tree chosen disk height records
    ∃ after freed marks more,
      (∀ fuel, records.length < fuel → btreeVisit tree fault visit fuel disk =
        (.ok (saidOf say seen), after)) ∧
      TableStore after (freed ++ free) tree.rootPageId height pages marks more
        (dropRecords (deletedKeys say chosen seen) records) ∧
      (freed ++ more).Perm chains ∧
      Within disk free (pages ++ chains) after (freed ++ free)
        (pages ++ more) ∧
      (deletedKeys say chosen seen = [] → after = disk) := by
  obtain ⟨leaf, later, op, leavesEq, prepared, status, fromEmpty, fromKeyed⟩ :=
    btreeOpScanPrepare_begins (store.valid.wellShaped isTable) shallow
  have started : ∀ fuel, btreeVisit tree fault visit fuel disk =
      visitOn tree fault visit fuel 0 op disk := by
    intro fuel
    unfold btreeVisit
    rw [BtM.bind_ok prepared, status]
  have flattened := leafRows_flatten isTable store
  have rowsOf := leafRows_forall₂ isTable store
  by_cases empty : keysOn disk leaf = 0
  · have noRecords : records = [] := by
      refine List.length_eq_zero_iff.mp ?_
      rw [store.records_length isTable, List.sum_eq_zero_iff]
      intro keys member
      obtain ⟨page, inLeaves, rfl⟩ := List.mem_map.mp member
      rcases filled with keyed | allEmpty
      · have first := keyed leaf (leavesEq ▸ List.mem_cons_self)
        omega
      · exact allEmpty page inLeaves
    subst noRecords
    have noRows : ∀ row ∈ leafRows tree disk height [], row = [] :=
      List.flatten_eq_nil_iff.mp flattened
    have noneSeen : seenRecords tree chosen disk height [] = [] := by
      refine List.flatMap_eq_nil_iff.mpr fun row member => ?_
      rw [noRows row member]
      rfl
    refine ⟨disk, [], flat, chains, ?_, ?_, List.Perm.refl _,
      Within.refl _ _ _, fun _ => rfl⟩
    · intro fuel enough
      obtain ⟨turns, rfl⟩ := Nat.exists_eq_succ_of_ne_zero
        (Nat.pos_iff_ne_zero.mp (Nat.zero_lt_of_lt enough))
      rw [started, noneSeen]
      exact visitOn_done (fromEmpty empty)
    · rw [noneSeen]
      exact store
  · have keyed : ∀ page ∈ leaf :: later, 0 < keysOn disk page := by
      rcases filled with keyed | allEmpty
      · rw [leavesEq]
        exact keyed
      · exact absurd (allEmpty leaf (leavesEq ▸ List.mem_cons_self)) empty
    unfold SweepFits at fits
    unfold seenRecords
    generalize leafRows tree disk height records = lists at *
    rw [← leavesEq] at rowsOf fits
    have all : List.Forall₂ (fun page row => row ≠ [] ∧
        row.map TableRecord.key =
          (loadedNode disk page).entries.map Entry.key ∧
        SweepsSafely (row.map fun record => chosen record.payload)
          (loadedNode disk page) 0) (leaf :: later) lists := by
      rw [List.forall₂_iff_zip] at rowsOf ⊢
      refine ⟨rowsOf.1, fun {page row} member => ?_⟩
      have keysEq := rowsOf.2 member
      refine ⟨?_, keysEq, fits (page, row) member⟩
      rintro rfl
      have count := congrArg List.length keysEq
      rw [List.length_map, List.length_map, entries_length] at count
      have some := keyed page (List.of_mem_zip member).1
      unfold keysOn BTreeNode.numKeys at some
      rw [← count] at some
      cases some
    obtain ⟨row, rows, ⟨nonempty, keysEq, safe⟩, laterRows, rfl⟩ :=
      List.forall₂_cons_left_iff.mp all
    obtain ⟨record, rest, rfl⟩ := List.exists_cons_of_ne_nil nonempty
    rw [List.flatten_cons] at flattened
    have distinct : (records.map TableRecord.key).Nodup := by
      rw [store.holds.keys_eq]
      have ordered := keysIncrease_entriesOf store.valid.ordered
      exact (List.pairwise_map.mpr ordered).imp Nat.ne_of_lt
    have pending : Pending tree chosen disk free height pages flat chains
        records leaf 0 later (record :: rest) rows := by
      refine ⟨store, ?_, keysEq, laterRows, ?_, ?_⟩
      · intro page member
        rw [← leavesEq]
        exact member
      · intro other member
        rw [← flattened]
        exact member
      · rw [flattened]
        exact distinct
    obtain ⟨after, freed, marks, more, runEq, swept, perm, within, same⟩ :=
      sweepsOn isTable shallow (records.length + 1) 0 (fromKeyed empty) pending
        safe visits (by
          rw [flattened]
          exact Nat.lt_succ_self _)
    refine ⟨after, freed, marks, more, ?_, swept, perm, within, same⟩
    intro fuel enough
    obtain ⟨extra, rfl⟩ := Nat.exists_eq_add_of_le (Nat.succ_le_of_lt enough)
    rw [started]
    exact runEq extra

/-- What the loop leaves when it says something of every record. -/
theorem dropRecords_deletedKeys {ρ ε : Type} {say : List UInt8 → Except ε ρ}
    (isTable : tree.type = .table)
    (store : TableStore disk free tree.rootPageId height pages flat chains
      records)
    {answer : List UInt8 → ρ}
    (answers : ∀ record ∈ records,
      say record.payload = .ok (answer record.payload)) :
    let seen := seenRecords tree chosen disk height records
    saidOf say seen = (seen.map fun record => answer record.payload, .ok ()) ∧
      dropRecords (deletedKeys say chosen seen) records =
        sweptRecords tree chosen disk height records := by
  have flattened := leafRows_flatten isTable store
  have distinct : (records.map TableRecord.key).Nodup := by
    rw [store.holds.keys_eq]
    have ordered := keysIncrease_entriesOf store.valid.ordered
    exact (List.pairwise_map.mpr ordered).imp Nat.ne_of_lt
  have members : ∀ record ∈ seenRecords tree chosen disk height records,
      record ∈ records := by
    intro record member
    obtain ⟨row, inRows, inRow⟩ := List.mem_flatMap.mp member
    rw [← flattened]
    exact List.mem_flatten.mpr ⟨row, inRows, (visited_sublist row).subset inRow⟩
  obtain ⟨saidEq, reachedEq⟩ := @said_of_ok TableRecord ε ρ
    (fun record => say record.payload)
    (seenRecords tree chosen disk height records)
    (fun record => answer record.payload)
    fun record member => answers record (members record member)
  refine ⟨saidEq, ?_⟩
  unfold deletedKeys
  rw [reachedEq]
  unfold seenRecords sweptRecords
  rw [@flatMap_filter_visited _ (fun record : TableRecord =>
    chosen record.payload)]
  have left := @filter_taken_flatten _
    (fun record : TableRecord => chosen record.payload) _ _ TableRecord.key
    (leafRows tree disk height records) (by
      rw [flattened]
      exact distinct)
  rw [flattened] at left
  exact left

/-- Nothing is moved where nothing is chosen. -/
theorem sweepsSafely_of_none : ∀ {flags : List Bool} {node : BTreeNode}
    {index : Nat}, (∀ flag ∈ flags, flag = false) →
      SweepsSafely flags node index
  | [], _, _, _ => trivial
  | [last], _, _, nothing => by
      intro isChosen
      rw [nothing last List.mem_cons_self] at isChosen
      cases isChosen
  | true :: _ :: _, _, _, nothing => by cases nothing true List.mem_cons_self
  | false :: second :: rest, _, _, nothing =>
      @sweepsSafely_of_none (second :: rest) _ _
        fun flag member => nothing flag (List.mem_cons_of_mem _ member)

/-- A loop that only reads. -/
theorem btreeVisit_reads {ρ ε : Type} {fault : BTreeE → ε}
    {visit : List UInt8 → Nat → Except ε (ρ × RowStep)}
    {say : List UInt8 → Except ε ρ} (isTable : tree.type = .table)
    (store : TableStore disk free tree.rootPageId height pages flat chains
      records)
    (shallow : height + 1 ≤ maxBreadcrumbs)
    (filled : EvenlyFilled tree disk height)
    (visits : ∀ record ∈ records, VisitsAs visit say (fun _ => false) record)
    {fuel : Nat} (enough : records.length < fuel) :
    btreeVisit tree fault visit fuel disk = (.ok (saidOf say records), disk) := by
  have fits : SweepFits tree (fun _ => false) disk height records := by
    intro place _
    refine sweepsSafely_of_none fun flag member => ?_
    obtain ⟨_, _, rfl⟩ := List.mem_map.mp member
    rfl
  have seenEq : seenRecords tree (fun _ => false) disk height records =
      records := by
    unfold seenRecords
    rw [@flatMap_visited_eq_flatten _ (fun _ : TableRecord => false) _
      fun _ _ => rfl]
    exact leafRows_flatten isTable store
  obtain ⟨after, _, _, _, runEq, _, _, _, same⟩ :=
    @btreeVisit_run tree _ disk free pages chains height flat records _ _ fault
      visit say isTable store shallow filled fits visits
  rw [seenEq] at runEq same
  rw [runEq fuel enough, same]
  unfold deletedKeys
  rw [List.filter_eq_nil_iff.mpr (by simp)]
  rfl

theorem btreeSweep_run (isTable : tree.type = .table)
    (store : TableStore disk free tree.rootPageId height pages flat chains
      records)
    (shallow : height + 1 ≤ maxBreadcrumbs)
    (filled : EvenlyFilled tree disk height)
    (fits : SweepFits tree chosen disk height records) :
    ∃ after freed marks more,
      (∀ fuel, records.length < fuel → btreeSweep tree chosen fuel disk =
        (.ok ((seenRecords tree chosen disk height records).map
          TableRecord.payload, .ok ()), after)) ∧
      TableStore after (freed ++ free) tree.rootPageId height pages marks more
        (sweptRecords tree chosen disk height records) ∧
      (freed ++ more).Perm chains ∧
      Within disk free (pages ++ chains) after (freed ++ free)
        (pages ++ more) := by
  obtain ⟨after, freed, marks, more, runEq, swept, perm, within, _⟩ :=
    @btreeVisit_run tree chosen disk free pages chains height flat records _ _
      id (fun payload _ => .ok (payload, RowStep.ofChosen (chosen payload)))
      Except.ok isTable store shallow filled fits fun _ _ _ _ => rfl
  obtain ⟨saidEq, leftEq⟩ := @dropRecords_deletedKeys tree chosen disk free
    pages chains height flat records _ BTreeE Except.ok isTable store id
    fun _ _ => rfl
  rw [leftEq] at swept
  rw [saidEq] at runEq
  exact ⟨after, freed, marks, more, runEq, swept, perm, within⟩

/-- Cells in key order make every such scan safe. -/
theorem SweepFits.of_stacked (isTable : tree.type = .table)
    (store : TableStore disk free tree.rootPageId height pages flat chains
      records)
    (stacked : ∀ page ∈ leavesBelow tree disk height tree.rootPageId,
      Stacked (loadedNode disk page)) :
    SweepFits tree chosen disk height records := by
  intro place member
  have inLeaves := (List.of_mem_zip member).1
  obtain ⟨number, _, _, _, _, leafAt⟩ :=
    store.valid.loadedLeafAt isTable inLeaves
  have keysEq := (List.forall₂_iff_zip.mp (leafRows_forall₂ isTable store)).2
    member
  have count := congrArg List.length keysEq
  rw [List.length_map, List.length_map, entries_length] at count
  have size := leafAt.holds.pageSize_eq store.valid.store
  refine Stacked.sweepsSafely leafAt.holds.ok
    (leafAt.holds.ok.wide (by rw [size]; exact store.valid.roomy.least))
    (stacked _ inLeaves) ?_
  rw [List.length_map, count, Nat.zero_add]

end Scan

/-- The records `1`, `4` and `5` are chosen. -/
def chosenRecord (payload : List UInt8) : Bool :=
  [1, 4, 5].contains (payload.headD 0)

theorem filledDisk_rows :
    SweepFits scannedTree chosenRecord filledDisk 1
        ([1, 2, 3, 4, 5].map scannedRecord) ∧
      seenRecords scannedTree chosenRecord filledDisk 1
        ([1, 2, 3, 4, 5].map scannedRecord) = [1, 3, 4].map scannedRecord ∧
      sweptRecords scannedTree chosenRecord filledDisk 1
        ([1, 2, 3, 4, 5].map scannedRecord) = [2, 3, 5].map scannedRecord := by
  decide +kernel

end BtreeDb
