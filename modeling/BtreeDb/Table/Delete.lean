import BtreeDb.Table.Deletion
import BtreeDb.Table.InsertRun
import BtreeDb.Table.Rebalance
import BtreeDb.Table.Scan
import BtreeDb.Table.Selection
import BtreeDb.Tree.LeafChange
import BtreeDb.Tree.Rebalance

/-!
# Deleting by key

`btree_delete` takes the record with a key out of its leaf and rebalances only
when the leaf is left without a record.  Below the root the rebalancing finds
no parent for the leaf's parent and looks at the root, so that the empty leaf
stays; in a table of one leaf it fails an assertion.
-/

namespace BtreeDb

open PagedTree

/-! ## The code -/

/-- `delete_single` of `btree.c`: the leaf has no record left, and the cursor.
The overflow pages of the record are not freed. -/
def deleteSingle (tree : BTree) (key : Nat) : BtM (Bool × Cursor) := do
  let (found, cursor) ← cursorTraverseTo tree (cursorCreate tree) key
  if !found then
    pure (false, cursor)
  else
    let crumb ← BtM.ofExcept (cursorPeek cursor)
    let node ← nodercReinitRead crumb.pageId
    let node ← BtM.ofExcept (btreeNodeRemove node crumb.keyIndex)
    let node ← nodercPersist node
    pure (decide (node.numKeys = 0), cursor)

/-- `btree_delete`. -/
def btreeDelete (tree : BTree) (key : Nat) : BtM Unit := do
  let (underflow, cursor) ← deleteSingle tree key
  if underflow then
    match ← btaRebalance tree cursor with
    | (.ok (), _) => pure ()
    | (.error code, _) => BtM.fail code
  else
    pure ()

/-! ## The removal -/

section Single

variable {tree : BTree} {disk : Disk} {free pages chains : List Nat}
variable {height key : Nat} {flat : List Mark} {records : List TableRecord}
variable (isTable : tree.type = .table)
  (table : TableStore disk free tree.rootPageId height pages flat chains
    records)
  (shallow : height + 1 < maxBreadcrumbs)

include isTable table shallow

/-- Where no mark has the key, nothing happens. -/
theorem btreeDelete_absent (absent : ∀ mark ∈ flat, mark.key ≠ key) :
    btreeDelete tree key disk = (.ok (), disk) := by
  obtain ⟨hit, leaf, crumbs, outside, before, behind, traverseEq, _,
    hitIff⟩ := cursorTraverseTo_landing isTable table.valid shallow key
  have missed : hit = false := by
    rw [Bool.eq_false_iff]
    intro isHit
    obtain ⟨mark, member, same⟩ := hitIff.mp isHit
    exact absent mark member same
  obtain ⟨cursor, single⟩ : ∃ cursor,
      deleteSingle tree key disk = (.ok (false, cursor), disk) := by
    unfold deleteSingle
    rw [BtM.bind_ok traverseEq]
    simp only [missed, Bool.not_false, if_true]
    exact ⟨_, rfl⟩
  unfold btreeDelete
  rw [BtM.bind_ok single]
  rfl

omit isTable table shallow in
/-- In the leaf in which a key belongs, every record is below a separator with
that key. -/
theorem Landing.below_separator {top : Nat} {leaf : BTreeNode}
    {steps : List Step} {outside : List Nat} {before behind : List Mark}
    (landing : Landing disk tree.rootPageId top key pages flat leaf steps
      outside before behind)
    (ordered : flat.Pairwise Before) (isSeparator : Mark.separator key ∈ flat)
    (noRecord : ∀ entry ∈ entriesOf flat, entry.key ≠ key) :
    keyPlace leaf.entries key = leaf.entries.length := by
  have less : ∀ entry ∈ leaf.entries, entry.key < key := by
    intro entry member
    rw [landing.flatEq] at isSeparator ordered
    have differs : entry.key ≠ key := by
      refine noRecord entry (mem_entriesOf.mpr ?_)
      rw [landing.flatEq]
      exact List.mem_append_right _
        (List.mem_append_left _ (List.mem_map_of_mem member))
    have inBack : Mark.separator key ∈ behind := by
      rcases List.mem_append.mp isSeparator with inFront | later
      · have low := landing.below _ inFront
        have rankEq : (Mark.separator key).rank = 2 * key + 1 := rfl
        omega
      · rcases List.mem_append.mp later with inLeaf | inBack
        · obtain ⟨other, _, isRecord⟩ := List.mem_map.mp inLeaf
          cases isRecord
        · exact inBack
    have first := (List.pairwise_append.mp
      (List.pairwise_append.mp ordered).2.1).2.2 _
        (List.mem_map_of_mem member) _ inBack
    have low : 2 * entry.key < 2 * key + 1 := first
    omega
  have place := @keyPlace_append_above leaf.entries [] key less
  rw [List.append_nil] at place
  rw [place]
  rfl

/-- Where only a separator has the key, the cursor is at the end of a leaf, in
which there is nothing to remove. -/
theorem btreeDelete_separator (isSeparator : Mark.separator key ∈ flat)
    (noRecord : ∀ entry ∈ entriesOf flat, entry.key ≠ key) :
    btreeDelete tree key disk = (.error .assertFailed, disk) := by
  obtain ⟨hit, leaf, crumbs, outside, before, behind, traverseEq, landing,
    hitIff⟩ := cursorTraverseTo_landing isTable table.valid shallow key
  have isHit : hit = true := hitIff.mpr ⟨_, isSeparator, rfl⟩
  have atEnd : landingIndex leaf key = ⟨.limEnd, leaf.numKeys⟩ := by
    unfold landingIndex
    rw [landing.below_separator table.valid.ordered isSeparator noRecord,
      entries_length]
    unfold initKeylistindexFromIndex BTreeNode.numKeys
    rw [if_neg (Nat.lt_irrefl _), landing.isLeaf]
    rfl
  rw [atEnd] at traverseEq
  have readEq := nodercReinitRead_onDisk landing.holds.present
  have stopped : deleteSingle tree key disk = (.error .assertFailed, disk) := by
    unfold deleteSingle
    rw [BtM.bind_ok traverseEq]
    simp only [isHit, Bool.not_true, Bool.false_eq_true, if_false]
    unfold cursorPeek
    simp only
    rw [BtM.bind_ok (BtM.ofExcept_ok _ disk), BtM.bind_ok readEq]
    rfl
  unfold btreeDelete
  rw [BtM.bind_error stopped]

/-- The record with a key is taken out of its leaf; its overflow pages are
lost. -/
theorem deleteSingle_run {entry : Entry} (member : entry ∈ entriesOf flat)
    (same : entry.key = key) :
    ∃ leaf crumbs cursor,
      stackPages tree disk key = leaf.pageNumber ::
        (crumbs.map CursorBreadcrumb.pageId ++ [tree.rootPageId]) ∧
      loadedNode disk leaf.pageNumber = leaf ∧
      (∃ outside before behind, LeafAt disk tree.rootPageId height pages flat
        leaf outside before behind) ∧
      leaf.entries[keyPlace leaf.entries key]? = some entry ∧
      crumbs.length = height ∧
      cursor = cursorAt (⟨⟨.limIndex, keyPlace leaf.entries key⟩,
        leaf.pageNumber⟩ :: (crumbs ++ [rootCrumb tree])) ∧
      (GcSafe leaf (keyPlace leaf.entries key) →
        ∃ after marks chain more,
          deleteSingle tree key disk =
            (.ok (decide (leaf.numKeys = 1), cursor), after) ∧
          (∃ payload, Resolves disk entry payload chain) ∧
          (chain ++ more).Perm chains ∧
          TableStore after free tree.rootPageId height pages marks more
            (dropRecord key records) ∧
          Within disk free (pages ++ chains) after free (pages ++ more) ∧
          ∀ page, page ≠ leaf.pageNumber →
            after.buffer? page = disk.buffer? page) := by
  obtain ⟨hit, leaf, crumbs, outside, before, behind, cursor, landing,
    loadedEq, metaFresh, stackEq, _, traverseEq, stack⟩ :=
    stackPages_landing isTable table shallow key
  obtain ⟨hit', leaf', crumbs', outside', before', behind', traverseEq',
    landing', hitIff⟩ := cursorTraverseTo_landing isTable table.valid shallow key
  have depth := landing.path.length
  rw [List.length_map, Nat.add_zero] at depth
  rw [traverseEq] at traverseEq'
  obtain ⟨sameHit, sameCursor⟩ := Prod.mk.inj (Except.ok.inj
    (Prod.mk.inj traverseEq').1)
  have isHit : hit = true := by
    rw [sameHit]
    exact hitIff.mpr ⟨_, mem_entriesOf.mp member, same⟩
  have here := landing.record_here table.valid member same
  have inside := (List.getElem?_eq_some_iff.mp here).1
  rw [entries_length] at inside
  have indexEq : landingIndex leaf key =
      ⟨.limIndex, keyPlace leaf.entries key⟩ := by
    unfold landingIndex initKeylistindexFromIndex
    exact if_pos inside
  rw [indexEq] at stack
  have cursorEq : cursor = cursorAt (⟨⟨.limIndex, keyPlace leaf.entries key⟩,
      leaf.pageNumber⟩ :: (crumbs ++ [rootCrumb tree])) := by
    rw [← stack, sameCursor]
    rfl
  refine ⟨leaf, crumbs, cursor, stackEq, loadedEq,
    ⟨outside, before, behind, landing.leafAt⟩, here, depth, cursorEq, ?_⟩
  intro safe
  obtain ⟨payload, chain, recordAt⟩ := landing.leafAt.recordAt table here
  have used : leaf.pageNumber ∉ free := by
    have apart := (List.nodup_cons.mp (recordAt.apart table).1).1
    exact fun isFree => apart (List.mem_append_right _ isFree)
  obtain ⟨stored, after, removeEq, deleted⟩ :=
    @removeAndPersist_run tree disk free leaf _ entry table.valid.roomy
      table.valid.store landing.holds metaFresh used here safe
  obtain ⟨more, fewer, kept, within⟩ := @RecordAt.removed _ _ _ _ _ _ _ _ _ _ _ _ _ _ _ _ _
    table recordAt [] deleted (List.nil_subperm)
  rw [same] at kept
  refine ⟨after, _, chain, more, ?_, ⟨payload, recordAt.resolves⟩, fewer, kept,
    within, deleted.kept⟩
  have peekEq : cursorPeek cursor =
      .ok ⟨⟨.limIndex, keyPlace leaf.entries key⟩, leaf.pageNumber⟩ := by
    unfold cursorPeek
    rw [stack]
  have readEq := nodercReinitRead_onDisk landing.holds.present
  rw [loadedEq] at readEq
  have emptied : decide (stored.numKeys = 0) = decide (leaf.numKeys = 1) := by
    have lengths := congrArg List.length deleted.reentered.entries_eq
    rw [entries_length, List.length_eraseIdx_of_lt
      (by rw [entries_length]; exact inside), entries_length] at lengths
    unfold BTreeNode.numKeys at *
    rw [decide_eq_decide]
    omega
  have removed : btreeNodeRemove leaf ⟨.limIndex, keyPlace leaf.entries key⟩ =
      .ok (nodeRemoveAt leaf (keyPlace leaf.entries key)) := if_pos inside
  have persistEq : nodercPersist (nodeRemoveAt leaf
      (keyPlace leaf.entries key)) disk = (.ok stored, after) := by
    unfold btreeNodeDelete.removeAndPersist removeFromNode at removeEq
    rw [isTable] at removeEq
    simp only [removed] at removeEq
    rw [BtM.bind_ok (BtM.ofExcept_ok _ disk)] at removeEq
    exact removeEq
  unfold deleteSingle
  rw [BtM.bind_ok traverseEq]
  simp only [isHit, Bool.not_true, Bool.false_eq_true, if_false]
  rw [peekEq, BtM.bind_ok (BtM.ofExcept_ok _ disk), BtM.bind_ok readEq]
  simp only [removed]
  rw [BtM.bind_ok (BtM.ofExcept_ok _ disk), BtM.bind_ok persistEq, emptied]
  rfl

end Single

/-! ## Rebalancing below the root -/

section Rebalancing

variable {tree : BTree} {disk : Disk} {own above : CursorBreadcrumb}

theorem btaCheckSibling_alone {sibling : CursorSibling} :
    btaCheckSibling tree sibling (cursorAt [own, above]) disk =
      (.ok (.error .errCursorNoParent, cursorAt [own, above]), disk) := by
  unfold btaCheckSibling
  have tooShort : cursorSibling tree sibling (cursorAt []) disk =
      (.ok (.error .errCursorNoParent, cursorAt []), disk) := rfl
  rw [CursorM.bind_ok (cursorPopN_two own above),
    CursorM.bind_ok (CursorM.attempt_of (CursorM.bind_error tooShort)),
    CursorM.bind_ok (cursorRestore_apply (by
      simp only [List.length_cons, List.length_nil]
      decide))]
  rfl

theorem CursorM.lift_assertFailed {α : Type} {call : BtM α} {cursor : Cursor}
    {after : Disk} (first : call disk = (.error .assertFailed, after)) :
    CursorM.lift call cursor disk = (.error .assertFailed, after) := by
  have stopped : BtM.attempt call disk = (.error .assertFailed, after) := by
    rw [BtM.attempt, first]
  unfold CursorM.lift
  rw [BtM.bind_error stopped]

/-- Without a parent to look at, only the root is looked at. -/
theorem btaRebalance_noParent {cursor : Cursor}
    (check : btaCheckSibling tree .right cursor disk =
      (.ok (.error .errCursorNoParent, cursor), disk)) :
    btaRebalance tree cursor disk =
      CursorM.lift (btaRebalanceRoot tree) cursor disk := by
  have decided := btaDecideRebalanceMode_of_code check rfl
  unfold btaRebalance
  rw [rebalanceLoop, CursorM.bind_ok decided]
  rfl

theorem btaRebalanceRoot_leaf (present : OnDisk disk tree.rootPageId)
    (isLeaf : (loadedNode disk tree.rootPageId).isLeaf = true) :
    btaRebalanceRoot tree disk = (.error .assertFailed, disk) := by
  unfold btaRebalanceRoot
  rw [BtM.bind_ok (nodercReinitRead_onDisk present), isLeaf]
  rfl

theorem btaRebalanceRoot_keyed (present : OnDisk disk tree.rootPageId)
    (isInner : (loadedNode disk tree.rootPageId).isLeaf = false)
    (keyed : 0 < keysOn disk tree.rootPageId) :
    btaRebalanceRoot tree disk = (.ok (), disk) := by
  unfold btaRebalanceRoot
  rw [BtM.bind_ok (nodercReinitRead_onDisk present), isInner]
  rw [BtM.bind_ok (BtM.assert_of (show (!false) = true from rfl) disk),
    if_pos (show (loadedNode disk tree.rootPageId).numKeys > 0 from keyed)]
  rfl

end Rebalancing

/-! ## The whole call -/

/-- The cell of a key can be taken out, and its leaf keeps a record, or is below
a root with a key. -/
def DeleteFits (tree : BTree) (disk : Disk) (key : Nat) : Prop :=
  let leaf := loadedNode disk ((stackPages tree disk key).headD 0)
  GcSafe leaf (keyPlace leaf.entries key) ∧
    (leaf.numKeys ≠ 1 ∨
      (stackPages tree disk key).length = 3 ∧ 0 < keysOn disk tree.rootPageId)

instance (tree : BTree) (disk : Disk) (key : Nat) :
    Decidable (DeleteFits tree disk key) :=
  inferInstanceAs (Decidable (_ ∧ _))

section Delete

variable {tree : BTree} {disk : Disk} {free pages chains : List Nat}
variable {height key : Nat} {flat : List Mark} {records : List TableRecord}
variable (isTable : tree.type = .table)

include isTable

/-- The record with the key is gone, and every other one is kept.  Its overflow
pages are not free afterwards, and no record has them; nothing outside of the
tree is touched. -/
theorem btreeDelete_run
    (table : TableStore disk free tree.rootPageId height pages flat chains
      records)
    (shallow : height + 1 < maxBreadcrumbs)
    (present : ∃ record ∈ records, record.key = key)
    (fits : DeleteFits tree disk key) :
    ∃ after marks lost more, btreeDelete tree key disk = (.ok (), after) ∧
      TableStore after free tree.rootPageId height pages marks more
        (dropRecord key records) ∧
      Within disk free (pages ++ chains) after free (pages ++ more) ∧
      (lost ++ more).Perm chains ∧
      ∃ entry ∈ entriesOf flat, entry.key = key ∧
        ∃ payload, Resolves disk entry payload lost := by
  obtain ⟨record, recordMember, recordKey⟩ := present
  obtain ⟨entry, _, member, entryKey, _⟩ := table.entry_of recordMember
  obtain ⟨leaf, crumbs, cursor, stackEq, loadedEq, ⟨_, _, _, leafAt⟩, _, depth,
    cursorEq, single⟩ :=
    deleteSingle_run isTable table shallow member (entryKey.trans recordKey)
  unfold DeleteFits at fits
  simp only [stackEq, List.headD_cons, loadedEq] at fits
  obtain ⟨safe, keeps⟩ := fits
  obtain ⟨after, marks, chain, more, singleEq, resolves, fewer, kept,
    within, others⟩ :=
    single safe
  refine ⟨after, marks, chain, more, ?_, kept, within, fewer, entry, member,
    entryKey.trans recordKey, resolves⟩
  unfold btreeDelete
  rw [BtM.bind_ok singleEq]
  by_cases emptied : leaf.numKeys = 1
  · -- only below a keyed root, which the rebalancing leaves alone
    obtain ⟨levels, keyed⟩ := keeps.resolve_left fun several => several emptied
    rw [List.length_cons, List.length_append, List.length_map,
      List.length_singleton, depth] at levels
    obtain rfl : height = 1 := by omega
    obtain ⟨above, rfl⟩ := List.length_eq_one_iff.mp depth
    have shape := table.valid.wellShaped isTable
    have shapeAfter := kept.valid.wellShaped isTable
    have rootApart : tree.rootPageId ≠ leaf.pageNumber := by
      intro same
      have isInner := shape.2.1
      rw [same, loadedEq, leafAt.isLeaf] at isInner
      cases isInner
    obtain ⟨metaBytes, rootEq⟩ :=
      loadedNode_congr shape.onDisk (others _ rootApart)
    have keyedAfter : 0 < keysOn after tree.rootPageId := by
      unfold keysOn BTreeNode.numKeys at *
      rw [rootEq]
      exact keyed
    have balanced : btaRebalance tree cursor after =
        (.ok (.ok (), cursor), after) := by
      rw [cursorEq]
      refine (btaRebalance_noParent (btaCheckSibling_noParent _ _)).trans ?_
      exact CursorM.lift_ok (btaRebalanceRoot_keyed shapeAfter.onDisk
        shapeAfter.2.1 keyedAfter)
    simp only [emptied, decide_true, if_true]
    rw [BtM.bind_ok balanced]
    rfl
  · simp only [emptied, decide_false, Bool.false_eq_true, if_false]
    rfl

/-- The only record of a table of one leaf is taken out, and then an assertion
fails. -/
theorem btreeDelete_only {payload : List UInt8}
    (table : TableStore disk free tree.rootPageId 0 pages flat chains
      [⟨key, payload⟩]) :
    ∃ after marks more,
      btreeDelete tree key disk = (.error .assertFailed, after) ∧
        TableStore after free tree.rootPageId 0 pages marks more [] := by
  obtain ⟨entry, _, member, entryKey, _⟩ :=
    table.entry_of (List.mem_singleton_self _)
  obtain ⟨leaf, crumbs, cursor, stackEq, loadedEq,
    ⟨outside, before, behind, leafAt⟩, here, depth, cursorEq, single⟩ :=
    deleteSingle_run isTable table (by decide) member entryKey
  obtain rfl := List.length_eq_zero_iff.mp depth
  have onlyKey : leaf.numKeys = 1 := by
    have few := congrArg List.length leafAt.entriesOf_eq
    rw [← table.holds.length_eq] at few
    simp only [List.length_append, List.length_singleton] at few
    have inside := (List.getElem?_eq_some_iff.mp here).1
    rw [entries_length] at few inside
    unfold BTreeNode.numKeys
    omega
  have safe : GcSafe leaf (keyPlace leaf.entries key) := by
    have inside := (List.getElem?_eq_some_iff.mp here).1
    rw [entries_length] at inside
    have none : leaf.keys.eraseIdx (keyPlace leaf.entries key) = [] := by
      refine List.length_eq_zero_iff.mp ?_
      rw [List.length_eraseIdx_of_lt inside]
      unfold BTreeNode.numKeys at onlyKey
      omega
    unfold GcSafe
    rw [none]
    exact List.Pairwise.nil
  obtain ⟨after, marks, chain, more, singleEq, _, _, kept, _, _⟩ := single safe
  have nothing : dropRecord key [⟨key, payload⟩] = [] := by
    unfold dropRecord
    simp
  rw [nothing] at kept
  refine ⟨after, marks, more, ?_, kept⟩
  have shape := kept.valid.wellShaped isTable
  have stopped : btaRebalance tree cursor after =
      (.error .assertFailed, after) := by
    rw [cursorEq]
    refine (btaRebalance_noParent btaCheckSibling_alone).trans ?_
    exact CursorM.lift_assertFailed
      (btaRebalanceRoot_leaf shape.onDisk shape.2)
  unfold btreeDelete
  rw [BtM.bind_ok singleEq]
  simp only [onlyKey, decide_true, if_true]
  rw [BtM.bind_error stopped]

/-- `btree_delete` takes out exactly the record with the key, and touches
nothing outside of the tree.  It does nothing where no mark has the key; it
fails an assertion where only a separator has it, and, behind the removal, where
no record is left in a root that is a leaf. -/
theorem btreeDelete_outcomes
    (table : TableStore disk free tree.rootPageId height pages flat chains
      records)
    (shallow : height + 1 < maxBreadcrumbs) :
    ((∃ record ∈ records, record.key = key) → DeleteFits tree disk key →
      ∃ after marks lost more, btreeDelete tree key disk = (.ok (), after) ∧
        TableStore after free tree.rootPageId height pages marks more
          (dropRecord key records) ∧
        Within disk free (pages ++ chains) after free (pages ++ more) ∧
        (lost ++ more).Perm chains ∧
        ∃ entry ∈ entriesOf flat, entry.key = key ∧
          ∃ payload, Resolves disk entry payload lost) ∧
    ((∀ mark ∈ flat, mark.key ≠ key) →
      btreeDelete tree key disk = (.ok (), disk)) ∧
    ((∀ record ∈ records, record.key ≠ key) → Mark.separator key ∈ flat →
      btreeDelete tree key disk = (.error .assertFailed, disk)) ∧
    (∀ payload, height = 0 → records = [⟨key, payload⟩] →
      ∃ after marks more,
        btreeDelete tree key disk = (.error .assertFailed, after) ∧
          TableStore after free tree.rootPageId 0 pages marks more []) := by
  refine ⟨btreeDelete_run isTable table shallow,
    btreeDelete_absent isTable table shallow, ?_, ?_⟩
  · intro noRecord isSeparator
    refine btreeDelete_separator isTable table shallow isSeparator ?_
    intro entry member same
    have keys := congrArg (key ∈ ·) table.holds.keys_eq
    refine absurd (keys.mpr (List.mem_map.mpr ⟨entry, member, same⟩)) ?_
    intro isKey
    obtain ⟨record, recordMember, recordKey⟩ := List.mem_map.mp isKey
    exact noRecord record recordMember recordKey
  · rintro payload rfl rfl
    exact btreeDelete_only isTable table

end Delete

theorem filledDisk_deleteFits : DeleteFits scannedTree filledDisk 3 := by
  decide +kernel

/-- The record `3` of two leaves is deleted; where the first leaf is empty, the
key `2` is only that of the separator. -/
theorem filledDisk_delete :
    (∃ after marks lost more,
      btreeDelete scannedTree 3 filledDisk = (.ok (), after) ∧
        TableStore after [] scannedTree.rootPageId 1 [2, 3, 4] marks more
          ([1, 2, 4, 5].map scannedRecord) ∧
        (lost ++ more).Perm []) ∧
      btreeDelete scannedTree 2 emptiedDisk =
        (.error .assertFailed, emptiedDisk) := by
  constructor
  · have stored : scannedRecord 3 ∈ [1, 2, 3, 4, 5].map scannedRecord :=
      List.mem_map_of_mem (by decide)
    obtain ⟨after, marks, lost, more, run, kept, _, fewer, _⟩ :=
      (btreeDelete_outcomes rfl filledDisk_store (by decide)).1
        ⟨_, stored, rfl⟩ filledDisk_deleteFits
    have others : dropRecord (scannedRecord 3).key
        ([1, 2, 3, 4, 5].map scannedRecord) =
        [1, 2, 4, 5].map scannedRecord := by
      unfold dropRecord
      rw [List.filter_map]
      exact congrArg (List.map scannedRecord) (by decide)
    rw [others] at kept
    exact ⟨after, marks, lost, more, run, kept, fewer⟩
  · refine (btreeDelete_outcomes rfl emptiedDisk_store (by decide)).2.2.1 ?_ ?_
    · decide
    · decide

end BtreeDb
