import BtreeDb.Table.Around
import BtreeDb.Table.InsertStep
import BtreeDb.Table.Opening
import BtreeDb.Table.Selection
import BtreeDb.Table.Upsert

/-!
# Upserting into a table of one leaf

The way of an INSERT statement: the tree is opened, an update is prepared, and
it is committed where the key is missing.  It splits no page, so that the tables
of the statements are single leaves.
-/

namespace BtreeDb

open PagedTree

/-! ## Opening -/

/-- A root that is on disk is only read. -/
theorem btreeInit_present {disk : Disk} {rootPageId : Nat} (roomy : Roomy disk)
    (present : OnDisk disk rootPageId) :
    btreeInit rootPageId disk = (.ok (), disk) := by
  have found := page?_isSome_iff.mpr present
  obtain ⟨image, imageEq⟩ := Option.isSome_iff_exists.mp found
  have read : pagerReadPage rootPageId (blankPage disk pageCreateNewPage) disk =
      some ((.ok, ⟨rootPageId, image.metaBytes, image.pageBuffer⟩), disk) :=
    diskRead_present imageEq _
  have large : ¬ disk.pageSize < btreeMinPageSize := Nat.not_lt.mpr roomy.least
  unfold btreeInit
  rw [BtM.bind_ok (show BtM.getDisk disk = (.ok disk, disk) from rfl),
    if_neg large]
  unfold btreeInitRootPage
  rw [BtM.bind_ok (show BtM.getDisk disk = (.ok disk, disk) from rfl),
    BtM.bind_ok (BtM.ofPager_some read)]
  rfl

section Leaf

variable {tree : BTree} {disk : Disk} {free pages chains : List Nat}
variable {key : Nat} {flat : List Mark}
variable {records : List TableRecord}

/-- In a single leaf every key is that of a record. -/
theorem TableStore.no_separator
    (table : TableStore disk free tree.rootPageId 0 pages flat chains records)
    (key : Nat) : Mark.separator key ∉ flat := by
  obtain ⟨holds, _⟩ := table.valid.tree
  cases holds with
  | leaf holds _ _ _ =>
      intro member
      obtain ⟨_, _, isRecord⟩ := List.mem_map.mp member
      cases isRecord

variable (isTable : tree.type = .table)
  (table : TableStore disk free tree.rootPageId 0 pages flat chains records)

include isTable table

/-- A key that is there is found. -/
theorem btreeOpUpdatePrepare_found (present : ∃ record ∈ records,
    record.key = key) :
    ∃ op, btreeOpUpdatePrepare tree (btreeOpUpdateAcquireTbl tree key) disk =
        (.ok op, disk) ∧ op.lastStatus = none := by
  obtain ⟨record, member, keyEq⟩ := present
  obtain ⟨entry, _, inFlat, entryKey, _⟩ := table.entry_of member
  obtain ⟨hit, leaf, crumbs, _, _, _, traverseEq, landing, hitIff⟩ :=
    cursorTraverseTo_landing isTable table.valid (by decide) key
  have isHit : hit = true :=
    hitIff.mpr ⟨_, mem_entriesOf.mp inFlat, entryKey.trans keyEq⟩
  have start : cursorTraverseTo tree (btreeOpUpdateAcquireTbl tree key).cursor
      (btreeOpUpdateAcquireTbl tree key).smKeyBuf disk = _ := traverseEq
  have readEq := nodercReinitRead_onDisk landing.holds.present
  obtain ⟨later, bodyEq, status⟩ : ∃ later : OpUpdate,
      opUpdatePrepareBody tree (btreeOpUpdateAcquireTbl tree key) disk =
        (.ok later, disk) ∧ later.lastStatus = none := by
    unfold opUpdatePrepareBody
    rw [BtM.bind_ok start]
    simp only [isHit, Bool.not_true, Bool.false_eq_true, if_false]
    rw [BtM.bind_ok readEq]
    exact ⟨_, rfl, rfl⟩
  exact ⟨_, btreeOpUpdatePrepare_of bodyEq, status⟩

/-- A key that is missing is stored if the leaf takes the payload, and nothing
is changed otherwise. -/
theorem btreeOpUpdate_missing (absent : ∀ record ∈ records, record.key ≠ key)
    (keyFits : key < 2 ^ 32) :
    ∃ op, btreeOpUpdatePrepare tree (btreeOpUpdateAcquireTbl tree key) disk =
        (.ok op, disk) ∧ op.lastStatus = some .errKeyNotFound ∧
      ∀ payload : List UInt8, payload.length < 2 ^ 32 →
      disk.maxPage + payload.length + 1 < pageIdLimit →
      (Takes (btreeNodeMaxCellSize (loadedNode disk tree.rootPageId))
          (loadedNode disk tree.rootPageId).freeHeap payload.length →
        ∃ later after left marks more,
          btreeOpUpdateCommit tree op payload disk = (.ok later, after) ∧
          later.lastStatus = none ∧
          TableStore after left tree.rootPageId 0 pages marks more
            (addRecord key payload records) ∧
          Within disk free (pages ++ chains) after left (pages ++ more)) ∧
      (¬ Takes (btreeNodeMaxCellSize (loadedNode disk tree.rootPageId))
          (loadedNode disk tree.rootPageId).freeHeap payload.length →
        ∃ later, btreeOpUpdateCommit tree op payload disk = (.ok later, disk) ∧
          later.lastStatus = some .errNodeNotEnoughSpace) := by
  obtain ⟨hit, leaf, crumbs, outside, before, behind, cursor, landing, loadedEq,
    metaFresh, _, rootIff, _, _⟩ :=
    stackPages_landing isTable table (by decide) key
  have depth := landing.path.length
  rw [List.length_map] at depth
  have atRoot : leaf.pageNumber = tree.rootPageId :=
    rootIff.mpr (List.length_eq_zero_iff.mp depth)
  have rootLoaded : loadedNode disk tree.rootPageId = leaf := by
    rw [← atRoot, loadedEq]
  rw [rootLoaded]
  obtain ⟨op, prepareEq, prepared, keyEq, pageEq, indexEq, missing, _⟩ :=
    btreeOpUpdatePrepare_absent isTable table (by decide) landing absent
  obtain ⟨notFound, status⟩ := missing (table.no_separator key)
  have readEq := nodercReinitRead_onDisk landing.holds.present
  rw [loadedEq] at readEq
  refine ⟨op, prepareEq, status, ?_⟩
  intro payload sizeFits room
  have fewPages := recordPages_le (btreeNodeMaxCellSize leaf) leaf.freeHeap
    disk.pageSize payload.length
  have bodyEq : opUpdateCommitBody tree op payload disk =
      btreeNodeWriteAt leaf ⟨.limIndex, keyPlace leaf.entries key⟩ key payload
        disk := by
    unfold opUpdateCommitBody
    rw [pageEq, BtM.bind_ok readEq]
    simp only [notFound, if_true, indexEq, keyEq]
  refine ⟨fun takes => ?_, fun full => ?_⟩
  · obtain ⟨stored, after, left, entry, new, writeEq, whole⟩ :=
      @btreeNodeWriteAt_stored disk free leaf
        ⟨.limIndex, keyPlace leaf.entries key⟩ key payload table.valid.roomy
        table.valid.store landing.holds metaFresh (table.leaf_used landing)
        (by
          have bound := keyPlace_le leaf.entries key
          rwa [entries_length] at bound)
        keyFits takes sizeFits (by omega)
    obtain ⟨more, moreEq, grown⟩ := whole.tableStore table landing absent
    refine ⟨_, after, left, _, more, btreeOpUpdateCommit_of prepared
      (BtM.attempt_ok (bodyEq.trans writeEq)), rfl, grown,
      whole.updates.within ?_ ?_⟩
    · intro page member
      rw [List.mem_singleton.mp member]
      exact List.mem_append_left _ landing.leaf_mem
    · exact @within_pages pages pages chains more [] new
        (by rw [List.append_nil]) moreEq
  · have fails := bodyEq.trans (btreeNodeWriteAt_full table.valid.roomy
      (landing.holds.pageSize_eq table.valid.store) full)
    exact ⟨_, btreeOpUpdateCommit_of prepared (BtM.attempt_error fails), rfl⟩

end Leaf

end BtreeDb
