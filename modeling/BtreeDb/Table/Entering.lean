import BtreeDb.Table.Places
import BtreeDb.Lib.ListEdit

/-!
# A new record in its leaf

The leaf in which a key belongs is one page (`Landing.page_unique`).  Storing a
record there, at the place of its key, adds the record to the table.
-/

namespace BtreeDb

open PagedTree

/-- The records with one more, in the order of the keys. -/
def addRecord (key : Nat) (payload : List UInt8)
    (records : List TableRecord) : List TableRecord :=
  records.takeWhile (fun record => record.key < key) ++
    ⟨key, payload⟩ :: records.dropWhile fun record => record.key < key

theorem addRecord_between {key : Nat} {payload : List UInt8}
    {front back : List TableRecord} (below : ∀ record ∈ front, record.key < key)
    (above : ∀ record ∈ back, ¬ record.key < key) :
    addRecord key payload (front ++ back) =
      front ++ ⟨key, payload⟩ :: back := by
  have frontAll : ∀ record ∈ front, decide (record.key < key) = true :=
    fun record member => decide_eq_true (below record member)
  have backNone : back.takeWhile (fun record => record.key < key) = [] ∧
      back.dropWhile (fun record => record.key < key) = back := by
    cases back with
    | nil => exact ⟨rfl, rfl⟩
    | cons record rest =>
        have notBelow := above record List.mem_cons_self
        exact ⟨List.takeWhile_cons_of_neg (by simpa using notBelow),
          List.dropWhile_cons_of_neg (by simpa using notBelow)⟩
  unfold addRecord
  rw [List.takeWhile_append_of_pos frontAll,
    List.dropWhile_append_of_pos frontAll, backNone.1, backNone.2,
    List.append_nil]

section Landing

variable {disk after : Disk} {free left pages outside new chains : List Nat}
variable {root height key : Nat} {flat before behind : List Mark}
variable {leaf stored : BTreeNode} {steps : List Step} {entry : Entry}
variable {payload : List UInt8} {records : List TableRecord}

theorem Landing.withMeta (metaBytes : List UInt8)
    (landing : Landing disk root height key pages flat leaf steps outside
      before behind) :
    Landing disk root height key pages flat
      { leaf with metaBytes := metaBytes } steps outside before behind :=
  ⟨landing.holds.withMeta metaBytes, landing.isLeaf, landing.small,
    landing.path, landing.flatEq, landing.below, landing.above,
    landing.pagesEq⟩

/-- A key belongs in one leaf. -/
theorem Landing.page_unique {other : BTreeNode} {steps' : List Step}
    {outside' : List Nat} {before' behind' : List Mark}
    (landing : Landing disk root height key pages flat leaf steps outside
      before behind)
    (another : Landing disk root height key pages flat other steps' outside'
      before' behind') : other.pageNumber = leaf.pageNumber := by
  refine landing.path.hole_unique (TableHolds.functional disk)
    (fun mark => mark.rank < 2 * key) another.path landing.below ?_
    another.below ?_
  · exact fun mark member => Nat.lt_asymm (landing.above mark member)
  · exact fun mark member => Nat.lt_asymm (another.above mark member)

/-- So the leaf is the same, but for its metadata. -/
theorem Landing.unique {other : BTreeNode} {steps' : List Step}
    {outside' : List Nat} {before' behind' : List Mark}
    (landing : Landing disk root height key pages flat leaf steps outside
      before behind)
    (another : Landing disk root height key pages flat other steps' outside'
      before' behind') :
    other = { leaf with metaBytes := other.metaBytes } :=
  landing.holds.unique another.holds (landing.page_unique another)

theorem Landing.increase
    (landing : Landing disk root height key pages flat leaf steps outside
      before behind)
    (ordered : flat.Pairwise Before) : KeysIncrease leaf.entries := by
  rw [landing.flatEq] at ordered
  exact keysIncrease_of_before (List.pairwise_append.mp
    (List.pairwise_append.mp ordered).2.1).1

/-- The marks with a new record at the place of its key. -/
theorem Landing.ordered_insert
    (landing : Landing disk root height key pages flat leaf steps outside
      before behind)
    (ordered : flat.Pairwise Before) (same : entry.key = key)
    (absent : ∀ record ∈ leaf.entries, record.key ≠ key) :
    (before ++ ((leaf.entries.insertIdx (keyPlace leaf.entries key) entry).map
      Mark.record ++ behind)).Pairwise Before := by
  have increase := landing.increase ordered
  have rankEq : (Mark.record entry).rank = 2 * key := by
    rw [← same]
    rfl
  rw [landing.flatEq] at ordered
  obtain ⟨beforeOrdered, laterOrdered, acrossBefore⟩ :=
    List.pairwise_append.mp ordered
  obtain ⟨leafOrdered, behindOrdered, acrossBehind⟩ :=
    List.pairwise_append.mp laterOrdered
  have bound := keyPlace_le leaf.entries key
  have inserted : ((leaf.entries.insertIdx (keyPlace leaf.entries key)
      entry).map Mark.record).Pairwise Before := by
    rw [List.pairwise_map] at leafOrdered ⊢
    refine ListEdit.pairwise_insertIdx bound leafOrdered ?_ ?_
    · intro other member
      have less := take_keyPlace other member
      unfold Before Mark.rank
      simp only
      omega
    · intro other member
      have least := drop_keyPlace increase other member
      have apart := absent other (List.mem_of_mem_drop member)
      unfold Before Mark.rank
      simp only
      omega
  have cases_of : ∀ mark ∈ (leaf.entries.insertIdx
      (keyPlace leaf.entries key) entry).map Mark.record,
      mark = .record entry ∨ mark ∈ leaf.entries.map Mark.record := by
    intro mark member
    obtain ⟨other, otherMember, rfl⟩ := List.mem_map.mp member
    rcases (ListEdit.mem_insertIdx_iff bound).mp otherMember with rfl | old
    · exact Or.inl rfl
    · exact Or.inr (List.mem_map_of_mem old)
  refine List.pairwise_append.mpr ⟨beforeOrdered,
    List.pairwise_append.mpr ⟨inserted, behindOrdered, ?_⟩, ?_⟩
  · intro mark member other otherMember
    rcases cases_of mark member with rfl | old
    · have above := landing.above other otherMember
      unfold Before
      omega
    · exact acrossBehind mark old other otherMember
  · intro mark member other otherMember
    rcases List.mem_append.mp otherMember with here | inBehind
    · rcases cases_of other here with rfl | old
      · have below := landing.below mark member
        unfold Before
        omega
      · exact acrossBefore mark member other (List.mem_append_left _ old)
    · exact acrossBefore mark member other
        (List.mem_append_right _ inBehind)

/-- The keys in front of the place of a key, and those behind. -/
theorem Landing.around
    (landing : Landing disk root height key pages flat leaf steps outside
      before behind)
    (ordered : flat.Pairwise Before) :
    (∀ entry ∈ entriesOf before ++
        leaf.entries.take (keyPlace leaf.entries key), entry.key < key) ∧
      ∀ entry ∈ leaf.entries.drop (keyPlace leaf.entries key) ++
        entriesOf behind, ¬ entry.key < key := by
  have increase := landing.increase ordered
  constructor
  · intro entry member
    rcases List.mem_append.mp member with inBefore | inLeaf
    · have below := landing.below _ (mem_entriesOf.mp inBefore)
      unfold Mark.rank at below
      simp only at below
      omega
    · exact take_keyPlace entry inLeaf
  · intro entry member
    rcases List.mem_append.mp member with inLeaf | inBehind
    · exact Nat.not_lt.mpr (drop_keyPlace increase entry inLeaf)
    · have above := landing.above _ (mem_entriesOf.mp inBehind)
      unfold Mark.rank at above
      simp only at above
      omega

/-- A tree with a new entry in the leaf of its key, on pages apart from the
overflow pages, is that of a table with a record more. -/
theorem TableStore.add {high : Nat} {grown : List Nat} {marks : List Mark}
    (table : TableStore disk free root height pages flat chains records)
    (landing : Landing disk root height key pages flat leaf steps outside
      before behind)
    (newTree : TableTree after left root high grown marks)
    (marksEq : entriesOf marks = entriesOf before ++
      (leaf.entries.insertIdx (keyPlace leaf.entries key) entry ++
        entriesOf behind))
    (same : entry.key = key) (resolves : Resolves after entry payload new)
    (pageSize : after.pageSize = disk.pageSize)
    (kept : ∀ page ∈ chains, after.buffer? page = disk.buffer? page)
    (apart : (grown ++ ((chains ++ new) ++ left)).Nodup)
    (notFirst : 1 ∉ new) :
    ∃ more, more.Perm (chains ++ new) ∧
      TableStore after left root high grown marks more
        (addRecord key payload records) := by
  have bound := keyPlace_le leaf.entries key
  -- the records in front of the new one and behind it
  have cut : entriesOf flat = (entriesOf before ++
      leaf.entries.take (keyPlace leaf.entries key)) ++
      (leaf.entries.drop (keyPlace leaf.entries key) ++ entriesOf behind) := by
    rw [landing.leafAt.entriesOf_eq, List.append_assoc,
      ← List.append_assoc (leaf.entries.take _), List.take_append_drop]
  have recordsHold := table.holds
  rw [cut] at recordsHold
  obtain ⟨front, back, frontChains, backChains, recordsEq, chainsEq,
    frontHolds, backHolds⟩ := recordsHold.split
  obtain ⟨frontKeys, backKeys⟩ := landing.around table.valid.ordered
  have frontBelow : ∀ record ∈ front, record.key < key := by
    intro record member
    have inKeys := List.mem_map_of_mem (f := TableRecord.key) member
    rw [frontHolds.keys_eq] at inKeys
    obtain ⟨entry, entryMember, same⟩ := List.mem_map.mp inKeys
    rw [← same]
    exact frontKeys entry entryMember
  have backAbove : ∀ record ∈ back, ¬ record.key < key := by
    intro record member
    have inKeys := List.mem_map_of_mem (f := TableRecord.key) member
    rw [backHolds.keys_eq] at inKeys
    obtain ⟨entry, entryMember, same⟩ := List.mem_map.mp inKeys
    rw [← same]
    exact backKeys entry entryMember
  have moreEq : (frontChains ++ (new ++ backChains)).Perm (chains ++ new) := by
    rw [chainsEq, List.append_assoc]
    exact List.perm_append_comm.append_left frontChains
  refine ⟨frontChains ++ (new ++ backChains), moreEq, newTree, ?_, ?_, ?_⟩
  · have newEntries : entriesOf marks = (entriesOf before ++
          leaf.entries.take (keyPlace leaf.entries key)) ++
        (entry :: (leaf.entries.drop (keyPlace leaf.entries key) ++
          entriesOf behind)) := by
      rw [marksEq, ListEdit.insertIdx_eq_append bound]
      simp only [List.append_assoc, List.cons_append]
    have chainIn : ∀ page ∈ frontChains ++ backChains,
        after.buffer? page = disk.buffer? page := by
      intro page member
      refine kept page ?_
      rw [chainsEq]
      exact member
    have newHolds := (frontHolds.congr pageSize fun page member =>
        chainIn page (List.mem_append_left _ member)).append
      (.cons resolves
        (backHolds.congr pageSize fun page member =>
          chainIn page (List.mem_append_right _ member)))
    rw [same] at newHolds
    rw [newEntries, recordsEq, addRecord_between frontBelow backAbove]
    exact newHolds
  · exact ((moreEq.append_right left).append_left grown).nodup_iff.mpr apart
  · intro isFirst
    rcases List.mem_append.mp (moreEq.mem_iff.mp isFirst) with inOld | inNew
    · exact table.notFirst inOld
    · exact notFirst inNew

/-- No entry of the leaf has the key of no record. -/
theorem Landing.absent
    (table : TableStore disk free root height pages flat chains records)
    (landing : Landing disk root height key pages flat leaf steps outside
      before behind)
    (absent : ∀ record ∈ records, record.key ≠ key) :
    ∀ entry ∈ leaf.entries, entry.key ≠ key := by
  intro entry member same
  have inFlat : entry ∈ entriesOf flat := by
    rw [landing.leafAt.entriesOf_eq]
    exact List.mem_append_right _ (List.mem_append_left _ member)
  have inKeys : entry.key ∈ records.map TableRecord.key := by
    rw [table.holds.keys_eq]
    exact List.mem_map_of_mem inFlat
  obtain ⟨record, recordMember, recordKey⟩ := List.mem_map.mp inKeys
  exact absent record recordMember (recordKey.trans same)

/-- The pages of a table are on disk. -/
theorem TableStore.present
    (table : TableStore disk free root height pages flat chains records) :
    ∀ page ∈ pages ++ chains, page ≤ disk.maxPage := by
  intro page member
  rcases List.mem_append.mp member with inTree | inChains
  · exact (treeAt_present table.valid.tree page inTree).2
  · have found := table.holds.present page inChains
    unfold Disk.buffer? at found
    rw [Option.isSome_map] at found
    exact (page?_isSome_iff.mp found).2

/-- A call leaves alone the pages of a table that it does not write. -/
theorem TableStore.kept {touched : List Nat}
    (table : TableStore disk free root height pages flat chains records)
    (updates : Updates disk free after left touched new) :
    ∀ page ∈ pages ++ chains, page ∉ touched →
      after.buffer? page = disk.buffer? page := by
  intro page member notTouched
  refine updates.kept_used notTouched ?_ (table.present page member)
  have usedApart : ((pages ++ chains) ++ free).Nodup := by
    rw [List.append_assoc]
    exact table.apart
  exact fun isFree => (List.nodup_append.mp usedApart).2.2 page member page
    isFree rfl

/-- Storing a record in its leaf adds it to the table. -/
theorem Stored.tableStore
    (table : TableStore disk free root height pages flat chains records)
    (landing : Landing disk root height key pages flat leaf steps outside
      before behind)
    (absent : ∀ record ∈ records, record.key ≠ key)
    (whole : Stored disk free leaf (keyPlace leaf.entries key) key payload
      after left stored entry new) :
    ∃ more, more.Perm (chains ++ new) ∧ TableStore after left root height pages
      (before ++ (stored.entries.map Mark.record ++ behind)) more
      (addRecord key payload records) := by
  have updates := whole.updates
  have bound := keyPlace_le leaf.entries key
  have usedApart : ((pages ++ chains) ++ free).Nodup := by
    rw [List.append_assoc]
    exact table.apart
  have parts := List.nodup_append.mp table.apart
  have leafPage : leaf.pageNumber ∈ pages :=
    landing.pagesEq.mem_iff.mp (List.mem_append_right _ (by simp))
  have keptChains : ∀ page ∈ chains,
      after.buffer? page = disk.buffer? page := by
    intro page member
    refine table.kept updates page (List.mem_append_right _ member) ?_
    intro touched
    exact parts.2.2 _ leafPage _ (List.mem_append_left _ member)
      (List.mem_singleton.mp touched).symm
  have keptOutside : ∀ page ∈ outside,
      after.buffer? page = disk.buffer? page := by
    intro page member
    refine table.kept updates page (List.mem_append_left _
      (landing.pagesEq.mem_iff.mp (List.mem_append_left _ member))) ?_
    intro touched
    exact (List.nodup_append.mp (landing.pagesEq.nodup_iff.mpr
      parts.1)).2.2 page member leaf.pageNumber
      (List.mem_singleton_self _) (List.mem_singleton.mp touched)
  have apartAfter := updates.used_apart usedApart table.present
  have maxEq : btreeNodeMaxCellSize stored = btreeNodeMaxCellSize leaf := by
    refine maxCellSize_eq whole.reentered.pageNumber_eq ?_
    rw [whole.holds.pageSize_eq updates.store, updates.pageSize,
      landing.holds.pageSize_eq table.valid.store]
  have small : ∀ member ∈ stored.entries,
      member.heapSize ≤ btreeNodeMaxCellSize stored := by
    intro member inStored
    rw [whole.reentered.entries_eq] at inStored
    rw [maxEq]
    rcases (ListEdit.mem_insertIdx_iff bound).mp inStored with rfl | old
    · exact whole.small
    · exact landing.small member old
  have ordered := landing.ordered_insert table.valid.ordered whole.key_eq
    (landing.absent table absent)
  rw [← whole.reentered.entries_eq] at ordered
  have newTree := landing.leafAt.replace table.valid updates.store
    updates.pageSize keptOutside whole.holds whole.reentered.pageNumber_eq
    (whole.reentered.isLeaf_eq.trans landing.isLeaf) small ordered (by
      refine apartAfter.sublist ?_
      rw [List.append_assoc, List.append_assoc]
      exact ((List.sublist_append_right _ _).trans
        (List.sublist_append_right _ _)).append_left pages)
  refine table.add landing newTree ?_ whole.key_eq whole.resolves
    updates.pageSize keptChains ?_ whole.notFirst
  · rw [whole.reentered.entries_eq, entriesOf_append, entriesOf_append,
      entriesOf_records]
  · simp only [List.append_assoc] at apartAfter ⊢
    exact apartAfter

theorem Stored.hasTable
    (table : TableStore disk free root height pages flat chains records)
    (landing : Landing disk root height key pages flat leaf steps outside
      before behind)
    (absent : ∀ record ∈ records, record.key ≠ key)
    (whole : Stored disk free leaf (keyPlace leaf.entries key) key payload
      after left stored entry new) :
    HasTable after root (addRecord key payload records) := by
  obtain ⟨more, _, grown⟩ := whole.tableStore table landing absent
  exact ⟨left, height, pages, _, more, grown⟩

end Landing

end BtreeDb
