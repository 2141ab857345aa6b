import BtreeDb.Table.Entering
import BtreeDb.Table.Update

/-!
# Upserting an absent key

An update of a key that is not in the table stores the new record in its leaf.
It never splits a node, and a separator with the key is taken for the record.
-/

namespace BtreeDb

open PagedTree

/-- The operation reports the key as missing, its commit returns `BTREE_OK`,
and the table has the record afterwards. -/
def Upserts (tree : BTree) (disk : Disk) (records : List TableRecord)
    (key : Nat) (payload : List UInt8) : Prop :=
  ∃ op middle later after,
    btreeOpUpdatePrepare tree (btreeOpUpdateAcquireTbl tree key) disk =
        (.ok op, middle) ∧
      op.lastStatus = some .errKeyNotFound ∧
      btreeOpUpdateCommit tree op payload middle = (.ok later, after) ∧
      later.lastStatus = none ∧
      HasTable after tree.rootPageId (addRecord key payload records)

section Upsert

variable {tree : BTree} {disk : Disk} {free pages chains outside : List Nat}
variable {height key : Nat} {flat before behind : List Mark}
variable {leaf : BTreeNode} {steps : List Step} {payload : List UInt8}
variable {records : List TableRecord}
variable (isTable : tree.type = .table)
  (table : TableStore disk free tree.rootPageId height pages flat chains
    records)
  (shallow : height + 1 < maxBreadcrumbs)
  (landing : Landing disk tree.rootPageId height key pages flat leaf steps
    outside before behind)
  (absent : ∀ record ∈ records, record.key ≠ key)

include table absent in
/-- Of an absent key only separators are left in the tree. -/
theorem mark_of_absent :
    (∃ mark ∈ flat, mark.key = key) ↔ Mark.separator key ∈ flat := by
  constructor
  · rintro ⟨mark, member, same⟩
    cases mark with
    | separator other =>
        rw [← same]
        exact member
    | record entry =>
        exfalso
        have inKeys : entry.key ∈ records.map TableRecord.key := by
          rw [table.holds.keys_eq]
          exact List.mem_map_of_mem (mem_entriesOf.mpr member)
        obtain ⟨record, recordMember, recordKey⟩ := List.mem_map.mp inKeys
        exact absent record recordMember (recordKey.trans same)
  · intro member
    exact ⟨_, member, rfl⟩

include isTable table shallow landing absent

/-- What the preparation gives: the operation stands at the place of the key,
and takes it for missing unless a separator has it. -/
theorem btreeOpUpdatePrepare_absent :
    ∃ op, btreeOpUpdatePrepare tree (btreeOpUpdateAcquireTbl tree key) disk =
        (.ok op, disk) ∧
      op.step = .prepared ∧ op.smKeyBuf = key ∧
      op.cursor.currentPageId = leaf.pageNumber ∧
      op.cursor.currentKeyIndex.index = keyPlace leaf.entries key ∧
      (Mark.separator key ∉ flat →
        op.notFound = true ∧ op.lastStatus = some .errKeyNotFound) ∧
      (Mark.separator key ∈ flat → op.lastStatus = none) := by
  obtain ⟨hit, other, crumbs, _, _, _, traverseEq, another, hitIff⟩ :=
    cursorTraverseTo_landing isTable table.valid shallow key
  rw [mark_of_absent table absent] at hitIff
  have samePage := landing.page_unique another
  have sameEntries : other.entries = leaf.entries :=
    landing.holds.entries_unique another.holds samePage
  have placeEq : (landingIndex other key).index =
      keyPlace leaf.entries key := by
    unfold landingIndex
    rw [sameEntries, initKeylistindexFromIndex_index]
    have bound := keyPlace_le other.entries key
    rw [entries_length, sameEntries] at bound
    exact bound
  have start : cursorTraverseTo tree (btreeOpUpdateAcquireTbl tree key).cursor
      (btreeOpUpdateAcquireTbl tree key).smKeyBuf disk = _ := traverseEq
  by_cases isHit : hit = true
  · obtain ⟨metaBytes, readEq, _⟩ :=
      nodercReinitRead_holds another.holds table.valid.store
    obtain ⟨later, bodyEq, keyEq, pageEq, indexEq, statusEq⟩ :
        ∃ later : OpUpdate, opUpdatePrepareBody tree
          (btreeOpUpdateAcquireTbl tree key) disk = (.ok later, disk) ∧
          later.smKeyBuf = key ∧
          later.cursor.currentPageId = other.pageNumber ∧
          later.cursor.currentKeyIndex = landingIndex other key ∧
          later.lastStatus = none := by
      unfold opUpdatePrepareBody
      rw [BtM.bind_ok start]
      simp only [isHit, Bool.not_true, Bool.false_eq_true, if_false]
      rw [BtM.bind_ok readEq]
      exact ⟨_, rfl, rfl, rfl, rfl, rfl⟩
    refine ⟨_, btreeOpUpdatePrepare_of bodyEq, rfl, keyEq,
      pageEq.trans samePage, ?_, ?_, fun _ => statusEq⟩
    · rw [← placeEq]
      exact congrArg ChildListIndex.index indexEq
    · exact fun notSeparator => absurd (hitIff.mp isHit) notSeparator
  · have missed : hit = false := Bool.eq_false_iff.mpr isHit
    obtain ⟨later, bodyEq, keyEq, pageEq, indexEq, notFound, statusEq⟩ :
        ∃ later : OpUpdate, opUpdatePrepareBody tree
          (btreeOpUpdateAcquireTbl tree key) disk = (.ok later, disk) ∧
          later.smKeyBuf = key ∧
          later.cursor.currentPageId = other.pageNumber ∧
          later.cursor.currentKeyIndex = landingIndex other key ∧
          later.notFound = true ∧
          later.lastStatus = some .errKeyNotFound := by
      unfold opUpdatePrepareBody
      rw [BtM.bind_ok start]
      simp only [missed, Bool.not_false, if_true]
      exact ⟨_, rfl, rfl, rfl, rfl, rfl, rfl⟩
    refine ⟨_, btreeOpUpdatePrepare_of bodyEq, rfl, keyEq,
      pageEq.trans samePage, ?_, fun _ => ⟨notFound, statusEq⟩, ?_⟩
    · rw [← placeEq]
      exact congrArg ChildListIndex.index indexEq
    · exact fun isSeparator => absurd (hitIff.mpr isSeparator) isHit

/-- Upserting an absent key comes out right exactly when no separator has the
key and the leaf in which it belongs takes the payload without a split. -/
theorem upsert_adds_iff (keyFits : key < 2 ^ 32)
    (sizeFits : payload.length < 2 ^ 32)
    (room : disk.maxPage + recordPages (btreeNodeMaxCellSize leaf)
      leaf.freeHeap disk.pageSize payload.length < pageIdLimit) :
    Upserts tree disk records key payload ↔
      Mark.separator key ∉ flat ∧
        Takes (btreeNodeMaxCellSize leaf) leaf.freeHeap payload.length := by
  obtain ⟨op, prepareEq, prepared, keyEq, pageEq, indexEq, missing, found⟩ :=
    btreeOpUpdatePrepare_absent isTable table shallow landing absent
  obtain ⟨metaBytes, readEq, metaFresh⟩ :=
    nodercReinitRead_holds landing.holds table.valid.store
  have leafPage : leaf.pageNumber ∈ pages :=
    landing.pagesEq.mem_iff.mp (List.mem_append_right _ (by simp))
  have used : leaf.pageNumber ∉ free := by
    intro isFree
    exact (List.nodup_append.mp table.valid.apart).2.2 _ leafPage _ isFree rfl
  have bodyEq (notFound : op.notFound = true) :
      opUpdateCommitBody tree op payload disk =
        btreeNodeWriteAt { leaf with metaBytes := metaBytes }
          ⟨.limIndex, keyPlace leaf.entries key⟩ key payload disk := by
    unfold opUpdateCommitBody
    rw [pageEq, BtM.bind_ok readEq]
    simp only [notFound, if_true, indexEq, keyEq]
  constructor
  · rintro ⟨first, middle, later, after, firstEq, isMissing, commitEq, isOk, _⟩
    rw [prepareEq] at firstEq
    obtain ⟨firstEq, middleEq⟩ := Prod.mk.inj firstEq
    obtain rfl := Except.ok.inj firstEq
    subst middleEq
    have noSeparator : Mark.separator key ∉ flat := by
      intro isSeparator
      rw [found isSeparator] at isMissing
      cases isMissing
    refine ⟨noSeparator, ?_⟩
    by_contra full
    have fails := bodyEq (missing noSeparator).1
    rw [btreeNodeWriteAt_full table.valid.roomy
      ((landing.holds.withMeta metaBytes).pageSize_eq table.valid.store)
      full] at fails
    rw [btreeOpUpdateCommit_of prepared (BtM.attempt_error fails)] at commitEq
    obtain rfl := Except.ok.inj (Prod.mk.inj commitEq).1
    cases isOk
  · rintro ⟨noSeparator, takes⟩
    obtain ⟨notFound, isMissing⟩ := missing noSeparator
    obtain ⟨stored, after, left, entry, new, writeEq, whole⟩ :=
      @btreeNodeWriteAt_stored disk free { leaf with metaBytes := metaBytes }
        ⟨.limIndex, keyPlace leaf.entries key⟩ key payload table.valid.roomy
        table.valid.store (landing.holds.withMeta metaBytes) metaFresh used
        (by
          have bound := keyPlace_le leaf.entries key
          rwa [entries_length] at bound)
        keyFits takes sizeFits room
    have commitEq := btreeOpUpdateCommit_of prepared
      (BtM.attempt_ok ((bodyEq notFound).trans writeEq))
    exact ⟨op, disk, _, after, prepareEq, isMissing, commitEq, rfl,
      whole.hasTable table (landing.withMeta metaBytes) absent⟩

end Upsert

/-! ## A leaf with room and a full one -/

theorem twoRecords_landing :
    Landing twoRecordsDisk 1 0 3 [1]
      [.record ⟨1, 1, [10]⟩, .record ⟨2, 1, [20]⟩] twoRecordsLeaf [] [] []
      [] := by
  obtain ⟨holds, isLeaf, member, entriesEq⟩ := twoRecords_checked.2.1
  have onRoot := List.mem_singleton.mp member
  obtain ⟨_, small⟩ := twoRecords_store.valid.leafHolds holds isLeaf member
  refine ⟨holds, isLeaf, small, ?_, ?_, by simp, by simp, ?_⟩
  · rw [onRoot]
    exact .here
  · rw [entriesEq]
    rfl
  · rw [onRoot]
    exact List.Perm.refl _

theorem twoRecords_upsert :
    Upserts twoRecordsTree twoRecordsDisk [⟨1, [10]⟩, ⟨2, [20]⟩] 3 [30] := by
  have addsIff := @upsert_adds_iff twoRecordsTree twoRecordsDisk [] [1] [] []
    0 3 _ [] [] twoRecordsLeaf [] [30] _ rfl twoRecords_store (by decide)
    twoRecords_landing (by decide) (by decide) (by decide) (by decide +kernel)
  exact addsIff.mpr ⟨by decide, by decide +kernel⟩

def fullTree : BTree := ⟨2, .table, 0⟩

/-- Four records of 30 bytes in the root leaf on page 2. -/
def fullDisk : Disk :=
  diskOfNodes 216 [(true, 0, []),
    (true, 0, [(1, List.replicate 30 1), (2, List.replicate 30 2),
      (3, List.replicate 30 3), (4, List.replicate 30 4)])]

def fullRecords : List TableRecord :=
  [⟨1, List.replicate 30 1⟩, ⟨2, List.replicate 30 2⟩,
    ⟨3, List.replicate 30 3⟩, ⟨4, List.replicate 30 4⟩]

/-- A record that is stored in its cell. -/
def inlineMark (record : TableRecord) : Mark :=
  .record ⟨record.key, cellTypeCode .cellTypeInline, record.payload⟩

def fifthPayload : List UInt8 := List.replicate 30 5

/-- The tree before, after `btree_insert`, which splits the leaf, and the
status of the update. -/
theorem fullDisk_checked :
    checkTable fullDisk [] fullTree.rootPageId 0 =
        some ([2], fullRecords.map inlineMark) ∧
      checkTable (btreeInsert fullTree 5 fifthPayload fullDisk).2 []
        fullTree.rootPageId 1 =
          some ([2, 3, 4], (fullRecords.take 2).map inlineMark ++
            .separator 2 :: ((fullRecords.drop 2).map inlineMark ++
              [inlineMark ⟨5, fifthPayload⟩])) ∧
      (btreeOpUpdate fullTree 5 fifthPayload fullDisk).1.map
        OpUpdate.lastStatus = .ok (some .errNodeNotEnoughSpace) := by
  decide +kernel

theorem fullDisk_store :
    TableStore fullDisk [] fullTree.rootPageId 0 [2]
      (fullRecords.map inlineMark) [] fullRecords :=
  ⟨checkTable_sound fullDisk_checked.1,
    .cons .inline (.cons .inline (.cons .inline (.cons .inline .nil))),
    by decide, by decide⟩

theorem fifth_inserted :
    HasTable (btreeInsert fullTree 5 fifthPayload fullDisk).2
      fullTree.rootPageId (addRecord 5 fifthPayload fullRecords) :=
  ⟨[], 1, [2, 3, 4], _, [], checkTable_sound fullDisk_checked.2.1,
    .cons .inline (.cons .inline (.cons .inline (.cons .inline
      (.cons .inline .nil)))), by decide, by decide⟩

/-- The update reports that there is not enough space instead. -/
theorem fifth_not_upserted :
    TableStore fullDisk [] fullTree.rootPageId 0 [2]
      (fullRecords.map inlineMark) [] fullRecords ∧
    HasTable (btreeInsert fullTree 5 fifthPayload fullDisk).2
      fullTree.rootPageId (addRecord 5 fifthPayload fullRecords) ∧
    ¬ Upserts fullTree fullDisk fullRecords 5 fifthPayload := by
  refine ⟨fullDisk_store, fifth_inserted, ?_⟩
  rintro ⟨op, middle, later, after, prepareEq, -, commitEq, isOk, -⟩
  have fails := fullDisk_checked.2.2
  unfold btreeOpUpdate at fails
  rw [BtM.bind_ok prepareEq, commitEq] at fails
  have status := Except.ok.inj fails
  rw [isOk] at status
  cases status

end BtreeDb
