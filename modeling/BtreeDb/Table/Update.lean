import BtreeDb.Node.RoundTrip
import BtreeDb.Table.Rewrite
import BtreeDb.Tree.Check

/-!
# Updating a record in its place

A record that is rewritten gets the key that is read at its index after the
deletion.  It is the record's own key only for the last record of a leaf, and
only when the bytes behind the key array happen to spell it.
-/

namespace BtreeDb

open Bytes PagedTree

/-- A call returns `BTREE_OK` and leaves the table with another payload for a
key and as it was otherwise. -/
def ReplacesPayload {σ : Type} (tree : BTree) (disk : Disk)
    (records : List TableRecord) (key : Nat) (payload : List UInt8)
    (status : σ → Option BTreeE) (call : BtM σ) : Prop :=
  ∃ result after, call disk = (.ok result, after) ∧ status result = none ∧
    HasTable after tree.rootPageId (putPayload key payload records)

/-- A record is the last one of its leaf, and the bytes behind the key array
spell its key. -/
def RereadsOwnKey (leaf : BTreeNode) (index key : Nat) : Prop :=
  index + 1 = leaf.numKeys ∧ u32At leaf.heap 0 = key

section Update

variable {tree : BTree} {disk : Disk} {free pages chains : List Nat}
variable {height index : Nat} {flat : List Mark} {leaf : BTreeNode}
variable {entry : Entry} {payload : List UInt8} {records : List TableRecord}

theorem RecordPlace.increase {root : Nat}
    (place : RecordPlace disk pages leaf index entry)
    (valid : TableTree disk free root height pages flat) :
    KeysIncrease leaf.entries := by
  obtain ⟨outside, before, behind, leafAt⟩ :=
    valid.leafAt place.holds place.isLeaf place.page_mem
  have ordered := valid.ordered
  rw [leafAt.flatEq] at ordered
  exact keysIncrease_of_before (List.pairwise_append.mp
    (List.pairwise_append.mp ordered).2.1).1

/-- The key read after a deletion is the deleted one at the end of a leaf
only. -/
theorem RecordPlace.rereadKey_iff {root : Nat}
    (place : RecordPlace disk pages leaf index entry)
    (valid : TableTree disk free root height pages flat) :
    rereadKey leaf index = entry.key ↔
      RereadsOwnKey leaf index entry.key := by
  have increase := place.increase valid
  have bound := (List.getElem?_eq_some_iff.mp place.here).1
  rw [entries_length] at bound
  unfold rereadKey RereadsOwnKey BTreeNode.numKeys
  by_cases more : index + 1 < leaf.keys.length
  · rw [if_pos more]
    obtain ⟨next, nextHere⟩ : ∃ next, leaf.entries[index + 1]? = some next :=
      ⟨_, List.getElem?_eq_getElem (by rw [entries_length]; exact more)⟩
    have nextKey := (place.holds.ok.reads nextHere).key_eq
    constructor
    · intro same
      rw [nextKey] at same
      have sameIndex := increase.index_unique nextHere place.here same
      omega
    · rintro ⟨last, _⟩
      omega
  · rw [if_neg more]
    constructor
    · intro same
      exact ⟨by omega, same⟩
    · rintro ⟨_, same⟩
      exact same

/-- Rewriting a record keeps its key exactly when that is read again. -/
theorem rewriteRecord_keeps_iff
    (table : TableStore disk free tree.rootPageId height pages flat chains
      records)
    (place : RecordPlace disk pages leaf index entry)
    (metaFresh : MetaFresh free leaf) (safe : GcSafe leaf index)
    (fits : FitsAfterRemoval disk leaf entry payload) :
    ∃ stored after,
      rewriteRecord tree leaf ⟨.limIndex, index⟩ payload disk =
        (.ok stored, after) ∧
      (HasTable after tree.rootPageId (putPayload entry.key payload records) ↔
        rereadKey leaf index = entry.key) := by
  obtain ⟨outside, before, behind, leafAt⟩ :=
    table.valid.leafAt place.holds place.isLeaf place.page_mem
  have entryHere := leafAt.entry_here place.here
  obtain ⟨old, chain, frontChains, backChains, recordHere, resolves, chainsEq,
    front, back⟩ := table.holds.around entryHere
  have apart : (pages ++ (frontChains ++ backChains) ++
      (chain ++ free)).Nodup := by
    refine (List.Perm.nodup_iff ?_).mp table.apart
    rw [chainsEq]
    refine List.perm_iff_count.mpr ?_
    intro page
    simp only [List.count_append]
    omega
  have present : ∀ page ∈ pages ++ (frontChains ++ backChains),
      page ≤ disk.maxPage := by
    intro page member
    rcases List.mem_append.mp member with inTree | inChains
    · exact (treeAt_present table.valid.tree page inTree).2
    · have found : (disk.buffer? page).isSome := by
        rcases List.mem_append.mp inChains with inFront | inBack
        · exact front.present page inFront
        · exact back.present page inBack
      unfold Disk.buffer? at found
      rw [Option.isSome_map] at found
      exact (page?_isSome_iff.mp found).2
  have notFirst : 1 ∉ chain := fun member => table.notFirst (by
    rw [chainsEq]
    exact List.mem_append_right _ (List.mem_append_left _ member))
  obtain ⟨stored, after, left, newEntry, new, runEq, rewritten⟩ :=
    rewriteRecord_run table.valid.roomy table.valid.store place.holds
      metaFresh place.here resolves apart
      (List.mem_append_left _ place.page_mem) present notFirst safe fits
  refine ⟨stored, after, runEq, ?_, ?_⟩
  · intro kept
    exact rewritten.sameKey table leafAt place.here kept
  · intro sameKey
    refine rewritten.hasTable table leafAt place.here recordHere front back ?_
      sameKey
    intro page member
    rw [chainsEq]
    rcases List.mem_append.mp member with inFront | inBack
    · exact List.mem_append_left _ inFront
    · exact List.mem_append_right _ (List.mem_append_right _ inBack)

/-- The node of a record as it is read from disk. -/
theorem RecordPlace.reread (place : RecordPlace disk pages leaf index entry)
    (store : Store disk free) :
    ∃ metaBytes,
      nodercReinitRead leaf.pageNumber disk =
        (.ok { leaf with metaBytes := metaBytes }, disk) ∧
      MetaFresh free { leaf with metaBytes := metaBytes } ∧
      RecordPlace disk pages { leaf with metaBytes := metaBytes } index
        entry := by
  obtain ⟨metaBytes, readEq, fresh⟩ :=
    nodercReinitRead_holds place.holds store
  exact ⟨metaBytes, readEq, fresh, place.holds.withMeta metaBytes,
    place.isLeaf, place.page_mem, place.here⟩

theorem btreeOpUpdatePrepare_of {op later : OpUpdate} {after : Disk}
    (bodyEq : opUpdatePrepareBody tree op disk = (.ok later, after)) :
    btreeOpUpdatePrepare tree op disk =
      (.ok { later with step := .prepared }, after) := by
  unfold btreeOpUpdatePrepare
  rw [BtM.bind_ok (BtM.attempt_ok bodyEq)]
  rfl

theorem btreeOpUpdateCommit_of {op : OpUpdate} {after : Disk}
    {result : Except BTreeE BTreeNode} (prepared : op.step = .prepared)
    (bodyEq : BtM.attempt (opUpdateCommitBody tree op payload) disk =
      (.ok result, after)) :
    btreeOpUpdateCommit tree op payload disk =
      (.ok { op with step := .done, lastStatus := statusOf result }, after) := by
  unfold btreeOpUpdateCommit
  rw [BtM.bind_ok (BtM.assert_of (by rw [prepared]; rfl) disk),
    BtM.bind_ok bodyEq]
  rfl

theorem btreeOpUpdate_replaces_iff (isTable : tree.type = .table)
    (table : TableStore disk free tree.rootPageId height pages flat chains
      records)
    (shallow : height + 1 < maxBreadcrumbs)
    (place : RecordPlace disk pages leaf index entry)
    (safe : GcSafe leaf index)
    (fits : FitsAfterRemoval disk leaf entry payload) :
    ReplacesPayload tree disk records entry.key payload OpUpdate.lastStatus
        (btreeOpUpdate tree entry.key payload) ↔
      RereadsOwnKey leaf index entry.key := by
  obtain ⟨cursor, traverseEq, onPage, onIndex⟩ :=
    place.lookup isTable table.valid shallow
  obtain ⟨metaBytes, readEq, fresh, again⟩ := place.reread table.valid.store
  obtain ⟨stored, after, rewriteEq, keeps⟩ :=
    @rewriteRecord_keeps_iff tree disk free pages chains height index flat
      { leaf with metaBytes := metaBytes } entry payload records table
      again fresh safe ⟨fits.takes, fits.sized, fits.room⟩
  have start : cursorTraverseTo tree
      (btreeOpUpdateAcquireTbl tree entry.key).cursor
      (btreeOpUpdateAcquireTbl tree entry.key).smKeyBuf disk =
        (.ok (true, cursor), disk) := traverseEq
  obtain ⟨later, prepareEq, sameCursor, found⟩ : ∃ later : OpUpdate,
      opUpdatePrepareBody tree (btreeOpUpdateAcquireTbl tree entry.key) disk =
        (.ok later, disk) ∧ later.cursor = cursor ∧
        later.notFound = false := by
    unfold opUpdatePrepareBody
    rw [BtM.bind_ok start]
    simp only [Bool.not_true, Bool.false_eq_true, if_false]
    rw [onPage, BtM.bind_ok readEq]
    exact ⟨_, rfl, rfl, rfl⟩
  have commitEq : opUpdateCommitBody tree { later with step := .prepared }
      payload disk = (.ok stored, after) := by
    unfold opUpdateCommitBody
    simp only [sameCursor, found, Bool.false_eq_true, if_false]
    rw [onPage, BtM.bind_ok readEq, onIndex]
    exact rewriteEq
  have runEq : btreeOpUpdate tree entry.key payload disk =
      (.ok { later with step := .done, lastStatus := none }, after) := by
    unfold btreeOpUpdate
    rw [BtM.bind_ok (btreeOpUpdatePrepare_of prepareEq)]
    exact btreeOpUpdateCommit_of rfl (BtM.attempt_ok commitEq)
  rw [← place.rereadKey_iff table.valid]
  constructor
  · rintro ⟨result, last, callEq, -, hasTable⟩
    rw [runEq] at callEq
    rw [← (Prod.mk.inj callEq).2] at hasTable
    exact keeps.mp hasTable
  · intro same
    exact ⟨_, after, runEq, rfl, keeps.mpr same⟩

theorem btreeOpScanUpdate_replaces_iff
    (table : TableStore disk free tree.rootPageId height pages flat chains
      records)
    (place : RecordPlace disk pages leaf index entry)
    (safe : GcSafe leaf index)
    (fits : FitsAfterRemoval disk leaf entry payload) {op : OpScan}
    (standing : op.cursor.position = (leaf.pageNumber, ⟨.limIndex, index⟩)) :
    ReplacesPayload tree disk records entry.key payload OpScan.lastStatus
        (btreeOpScanUpdate tree op payload) ↔
      RereadsOwnKey leaf index entry.key := by
  obtain ⟨onPage, onIndex⟩ := Prod.mk.inj standing
  obtain ⟨metaBytes, readEq, fresh, again⟩ := place.reread table.valid.store
  obtain ⟨stored, after, rewriteEq, keeps⟩ :=
    @rewriteRecord_keeps_iff tree disk free pages chains height index flat
      { leaf with metaBytes := metaBytes } entry payload records table
      again fresh safe ⟨fits.takes, fits.sized, fits.room⟩
  have bodyEq : btreeOpScanUpdate.updateBody tree op payload disk =
      (.ok stored, after) := by
    unfold btreeOpScanUpdate.updateBody
    rw [onPage, BtM.bind_ok readEq, onIndex]
    exact rewriteEq
  have runEq : btreeOpScanUpdate tree op payload disk =
      (.ok { op with lastStatus := none }, after) := by
    unfold btreeOpScanUpdate
    rw [BtM.bind_ok (BtM.attempt_ok bodyEq)]
    rfl
  rw [← place.rereadKey_iff table.valid]
  constructor
  · rintro ⟨result, last, callEq, -, hasTable⟩
    rw [runEq] at callEq
    rw [← (Prod.mk.inj callEq).2] at hasTable
    exact keeps.mp hasTable
  · intro same
    exact ⟨_, after, runEq, rfl, keeps.mpr same⟩

/-- Where a removal moves no cell onto a later one, replacing a payload, by an
update or by a scan that stands on the record, keeps the key exactly for a
last record whose key is spelt behind the key array. -/
theorem update_keeps_keys_iff (isTable : tree.type = .table)
    (table : TableStore disk free tree.rootPageId height pages flat chains
      records)
    (shallow : height + 1 < maxBreadcrumbs)
    (place : RecordPlace disk pages leaf index entry)
    (safe : GcSafe leaf index)
    (fits : FitsAfterRemoval disk leaf entry payload) :
    (ReplacesPayload tree disk records entry.key payload OpUpdate.lastStatus
        (btreeOpUpdate tree entry.key payload) ↔
      RereadsOwnKey leaf index entry.key) ∧
    ∀ op : OpScan,
      op.cursor.position = (leaf.pageNumber, ⟨.limIndex, index⟩) →
        (ReplacesPayload tree disk records entry.key payload
            OpScan.lastStatus (btreeOpScanUpdate tree op payload) ↔
          RereadsOwnKey leaf index entry.key) :=
  ⟨btreeOpUpdate_replaces_iff isTable table shallow place safe fits,
    fun _ standing =>
      btreeOpScanUpdate_replaces_iff table place safe fits standing⟩

end Update

/-! ## Two records in a leaf -/

def twoRecordsTree : BTree := ⟨1, .table, 1⟩

theorem twoRecords_checked :
    checkTable twoRecordsDisk [] 1 0 =
        some ([1], [.record ⟨1, 1, [10]⟩, .record ⟨2, 1, [20]⟩]) ∧
      (Holds twoRecordsDisk twoRecordsLeaf ∧
        twoRecordsLeaf.isLeaf = true ∧ twoRecordsLeaf.pageNumber ∈ [1] ∧
        twoRecordsLeaf.entries = [⟨1, 1, [10]⟩, ⟨2, 1, [20]⟩]) ∧
      GcSafe twoRecordsLeaf 0 := by
  decide +kernel

theorem twoRecords_store :
    TableStore twoRecordsDisk [] twoRecordsTree.rootPageId 0 [1]
      [.record ⟨1, 1, [10]⟩, .record ⟨2, 1, [20]⟩] []
      [⟨1, [10]⟩, ⟨2, [20]⟩] :=
  ⟨checkTable_sound twoRecords_checked.1, .cons .inline (.cons .inline .nil),
    by decide, by decide⟩

theorem twoRecords_place :
    RecordPlace twoRecordsDisk [1] twoRecordsLeaf 0 ⟨1, 1, [10]⟩ := by
  obtain ⟨holds, isLeaf, member, entriesEq⟩ := twoRecords_checked.2.1
  exact ⟨holds, isLeaf, member, by rw [entriesEq]; rfl⟩

theorem twoRecords_fits :
    FitsAfterRemoval twoRecordsDisk twoRecordsLeaf ⟨1, 1, [10]⟩ [30] :=
  ⟨by decide +kernel, by decide, by decide +kernel⟩

theorem twoRecords_update_iff :
    (ReplacesPayload twoRecordsTree twoRecordsDisk [⟨1, [10]⟩, ⟨2, [20]⟩] 1
        [30] OpUpdate.lastStatus (btreeOpUpdate twoRecordsTree 1 [30]) ↔
      RereadsOwnKey twoRecordsLeaf 0 1) ∧
    ∀ op : OpScan,
      op.cursor.position = (twoRecordsLeaf.pageNumber, ⟨.limIndex, 0⟩) →
        (ReplacesPayload twoRecordsTree twoRecordsDisk
            [⟨1, [10]⟩, ⟨2, [20]⟩] 1 [30] OpScan.lastStatus
            (btreeOpScanUpdate twoRecordsTree op [30]) ↔
          RereadsOwnKey twoRecordsLeaf 0 1) := by
  obtain ⟨_, _, safe⟩ := twoRecords_checked
  have keepsIff := update_keeps_keys_iff rfl twoRecords_store (by decide)
    twoRecords_place safe twoRecords_fits
  exact keepsIff

/-- The first of two records is written back with the key of the second. -/
theorem first_record_gets_second_key :
    TableStore twoRecordsDisk [] twoRecordsTree.rootPageId 0 [1]
      [.record ⟨1, 1, [10]⟩, .record ⟨2, 1, [20]⟩] []
      [⟨1, [10]⟩, ⟨2, [20]⟩] ∧
    RecordPlace twoRecordsDisk [1] twoRecordsLeaf 0 ⟨1, 1, [10]⟩ ∧
    FitsAfterRemoval twoRecordsDisk twoRecordsLeaf ⟨1, 1, [10]⟩ [30] ∧
    ¬ ReplacesPayload twoRecordsTree twoRecordsDisk
      [⟨1, [10]⟩, ⟨2, [20]⟩] 1 [30] OpUpdate.lastStatus
      (btreeOpUpdate twoRecordsTree 1 [30]) := by
  obtain ⟨_, ⟨_, _, _, entriesEq⟩, safe⟩ := twoRecords_checked
  refine ⟨twoRecords_store, twoRecords_place, twoRecords_fits, ?_⟩
  intro replaces
  have keepsIff := btreeOpUpdate_replaces_iff rfl twoRecords_store (by decide)
    twoRecords_place safe twoRecords_fits
  have last := (keepsIff.mp replaces).1
  have count := congrArg List.length entriesEq
  rw [entries_length, List.length_cons, List.length_singleton] at count
  unfold BTreeNode.numKeys at last
  omega

end BtreeDb
