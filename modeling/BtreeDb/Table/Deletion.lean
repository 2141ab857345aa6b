import BtreeDb.Table.Around
import BtreeDb.Table.Rewrite

/-!
# Taking a record out of its leaf

Both deletions take an entry out of a leaf and leave the rest of the tree as it
is.  `btree_node_delete` frees the overflow pages of the record first.
-/

namespace BtreeDb

open PagedTree

/-- The records with other keys. -/
def dropRecord (key : Nat) (records : List TableRecord) : List TableRecord :=
  records.filter fun record => record.key ≠ key

theorem dropRecord_eq_eraseIdx {records : List TableRecord} {index key : Nat}
    {payload : List UInt8}
    (increase : (records.map TableRecord.key).Pairwise (· < ·))
    (here : records[index]? = some ⟨key, payload⟩) :
    dropRecord key records = records.eraseIdx index := by
  obtain ⟨bound, hereEq⟩ := List.getElem?_eq_some_iff.mp here
  have cut : records = records.take index ++
      ⟨key, payload⟩ :: records.drop (index + 1) := by
    rw [← hereEq, List.getElem_cons_drop, List.take_append_drop]
  have distinct : (records.map TableRecord.key).Nodup :=
    increase.imp Nat.ne_of_lt
  rw [cut, List.map_append, List.map_cons] at distinct
  obtain ⟨_, tailDistinct, disjoint⟩ := List.nodup_append.mp distinct
  have others : ∀ record ∈ records.take index ++ records.drop (index + 1),
      record.key ≠ key := by
    intro record member
    rcases List.mem_append.mp member with inFront | inBack
    · exact disjoint record.key (List.mem_map_of_mem inFront) key
        List.mem_cons_self
    · intro same
      refine (List.nodup_cons.mp tailDistinct).1 ?_
      exact List.mem_map.mpr ⟨record, inBack, same⟩
  have droppedSelf : dropRecord key [⟨key, payload⟩] = [] := by
    unfold dropRecord
    rw [List.filter_cons_of_neg (by simp), List.filter_nil]
  have kept : dropRecord key (records.take index ++ records.drop (index + 1)) =
      records.take index ++ records.drop (index + 1) :=
    List.filter_eq_self.mpr fun record member =>
      decide_eq_true (others record member)
  calc
    dropRecord key records =
        dropRecord key (records.take index ++
          ([⟨key, payload⟩] ++ records.drop (index + 1))) := by
      rw [List.singleton_append, ← cut]
    _ = dropRecord key (records.take index) ++
          (dropRecord key [⟨key, payload⟩] ++
            dropRecord key (records.drop (index + 1))) := by
      unfold dropRecord
      rw [List.filter_append, List.filter_append]
    _ = dropRecord key (records.take index ++ records.drop (index + 1)) := by
      rw [droppedSelf, List.nil_append]
      unfold dropRecord
      rw [List.filter_append]
    _ = records.eraseIdx index := by
      rw [kept, List.eraseIdx_eq_take_drop_succ]

section Table

variable {disk after : Disk} {free left pages outside chains : List Nat}
variable {frontChains backChains : List Nat} {root height index : Nat}
variable {flat before behind : List Mark} {leaf stored : BTreeNode}
variable {entry : Entry} {records : List TableRecord}

/-- The tree without an entry of one of its leaves is that of the other
records. -/
theorem Deleted.tableStore
    (table : TableStore disk free root height pages flat chains records)
    (leafAt : LeafAt disk root height pages flat leaf outside before behind)
    (here : leaf.entries[index]? = some entry)
    (front : RecordsOf disk
      ((entriesOf flat).take ((entriesOf before).length + index))
      (records.take ((entriesOf before).length + index)) frontChains)
    (back : RecordsOf disk
      ((entriesOf flat).drop ((entriesOf before).length + index + 1))
      (records.drop ((entriesOf before).length + index + 1)) backChains)
    (within : ∀ page ∈ frontChains ++ backChains, page ∈ chains)
    (apart : (pages ++ ((frontChains ++ backChains) ++ left)).Nodup)
    (deleted : Deleted disk after left leaf index entry stored) :
    TableStore after left root height pages
      (before ++ (stored.entries.map Mark.record ++ behind))
      (frontChains ++ backChains)
      (records.eraseIdx ((entriesOf before).length + index)) := by
  have bound := (List.getElem?_eq_some_iff.mp here).1
  have entriesEq := deleted.reentered.entries_eq
  have distinct := List.nodup_append.mp table.apart
  have leafPage : leaf.pageNumber ∈ pages :=
    leafAt.pagesEq.mem_iff.mp (List.mem_append_right _ (by simp))
  have keptOutside : ∀ page ∈ outside,
      after.buffer? page = disk.buffer? page := by
    intro page member
    refine deleted.kept page fun same => ?_
    have once := leafAt.pagesEq.nodup_iff.mpr distinct.1
    exact (List.nodup_append.mp once).2.2 page member leaf.pageNumber
      (List.mem_singleton_self _) same
  have keptChains : ∀ page ∈ frontChains ++ backChains,
      after.buffer? page = disk.buffer? page := by
    intro page member
    refine deleted.kept page fun same => ?_
    exact distinct.2.2 _ leafPage _
      (List.mem_append_left _ (within page member)) same.symm
  have fewer : stored.entries.Sublist leaf.entries := by
    rw [entriesEq]
    exact List.eraseIdx_sublist _ _
  have ordered : (before ++ (stored.entries.map Mark.record ++
      behind)).Pairwise Before := by
    refine table.valid.ordered.sublist ?_
    rw [leafAt.flatEq]
    exact ((fewer.map Mark.record).append_right behind).append_left before
  have sameMax : btreeNodeMaxCellSize stored = btreeNodeMaxCellSize leaf := by
    unfold btreeNodeMaxCellSize
    rw [btuGetNodeHeapSize_eq, btuGetNodeHeapSize_eq,
      deleted.reentered.pageNumber_eq, deleted.pageSize_eq]
  have small : ∀ member ∈ stored.entries,
      member.heapSize ≤ btreeNodeMaxCellSize stored := by
    intro member inStored
    rw [sameMax]
    exact leafAt.small member (fewer.subset inStored)
  have pagesApart : (pages ++ left).Nodup := by
    refine apart.sublist ?_
    exact (List.sublist_append_right _ _).append_left pages
  have newTree := leafAt.replace table.valid deleted.store deleted.pageSize
    keptOutside deleted.holds deleted.reentered.pageNumber_eq
    (deleted.reentered.isLeaf_eq.trans leafAt.isLeaf) small ordered pagesApart
  have entriesErased : entriesOf (before ++ (stored.entries.map Mark.record ++
      behind)) =
        (entriesOf flat).eraseIdx ((entriesOf before).length + index) := by
    rw [leafAt.entriesOf_eq, entriesEq, entriesOf_append, entriesOf_append,
      entriesOf_records, List.eraseIdx_append_of_length_le
        (Nat.le_add_right _ _), Nat.add_sub_cancel_left,
      List.eraseIdx_append_of_lt_length bound]
  refine ⟨newTree, ?_, apart, fun isFirst => table.notFirst (within 1 isFirst)⟩
  rw [entriesErased, List.eraseIdx_eq_take_drop_succ,
    List.eraseIdx_eq_take_drop_succ]
  exact (front.congr deleted.pageSize fun page member =>
      keptChains page (List.mem_append_left _ member)).append
    (back.congr deleted.pageSize fun page member =>
      keptChains page (List.mem_append_right _ member))

/-- A removal touches the leaf and pages that it frees. -/
theorem Deleted.within {freed more : List Nat}
    (deleted : Deleted disk after (freed ++ free) leaf index entry stored)
    (leafIn : leaf.pageNumber ∈ pages) (freedIn : ∀ page ∈ freed, page ∈ chains)
    (moreIn : ∀ page ∈ more, page ∈ chains) :
    Within disk free (pages ++ chains) after (freed ++ free)
      (pages ++ more) where
  pageSize := deleted.pageSize
  grows := Nat.le_of_eq deleted.maxPage.symm
  kept := fun page notOwn _ _ => deleted.kept page fun atLeaf =>
    notOwn (atLeaf ▸ List.mem_append_left _ leafIn)
  source := by
    intro page member
    simp only [List.mem_append] at member ⊢
    rcases member with (inPages | inMore) | inFreed | isFree
    · exact Or.inl (Or.inl inPages)
    · exact Or.inl (Or.inr (moreIn page inMore))
    · exact Or.inl (Or.inr (freedIn page inFreed))
    · exact Or.inr (Or.inl isFree)

end Table

/-! ## Both removals of a record -/

section Record

variable {tree : BTree} {disk after : Disk} {free left pages chains : List Nat}
variable {root height index : Nat} {flat : List Mark} {leaf : BTreeNode}
variable {entry : Entry} {records : List TableRecord}

/-- The place of a record in its tree, and what is around it. -/
structure RecordAt (disk : Disk) (root height : Nat) (pages : List Nat)
    (flat : List Mark) (chains : List Nat) (records : List TableRecord)
    (leaf : BTreeNode) (index : Nat) (entry : Entry) (payload : List UInt8)
    (chain : List Nat) (before behind : List Mark) : Prop where
  here : leaf.entries[index]? = some entry
  leafAt : ∃ outside,
    LeafAt disk root height pages flat leaf outside before behind
  recordHere : records[(entriesOf before).length + index]? =
    some ⟨entry.key, payload⟩
  resolves : Resolves disk entry payload chain
  around : ∃ frontChains backChains,
    chains = frontChains ++ (chain ++ backChains) ∧
    RecordsOf disk
      ((entriesOf flat).take ((entriesOf before).length + index))
      (records.take ((entriesOf before).length + index)) frontChains ∧
    RecordsOf disk
      ((entriesOf flat).drop ((entriesOf before).length + index + 1))
      (records.drop ((entriesOf before).length + index + 1)) backChains

theorem LeafAt.recordAt {outside : List Nat} {before behind : List Mark}
    (table : TableStore disk free root height pages flat chains records)
    (leafAt : LeafAt disk root height pages flat leaf outside before behind)
    (here : leaf.entries[index]? = some entry) :
    ∃ payload chain, RecordAt disk root height pages flat chains records leaf
      index entry payload chain before behind := by
  obtain ⟨payload, chain, frontChains, backChains, recordHere, resolves,
    chainsEq, front, back⟩ := table.holds.around (leafAt.entry_here here)
  exact ⟨payload, chain, here, ⟨outside, leafAt⟩, recordHere, resolves,
    frontChains, backChains, chainsEq, front, back⟩

section Removal

variable {payload : List UInt8} {chain : List Nat} {before behind : List Mark}
variable {stored : BTreeNode}
variable
  (table : TableStore disk free root height pages flat chains records)
  (recordAt : RecordAt disk root height pages flat chains records leaf index
    entry payload chain before behind)

include table recordAt

omit table in
theorem RecordAt.page_mem : leaf.pageNumber ∈ pages := by
  obtain ⟨outside, leafAt⟩ := recordAt.leafAt
  exact leafAt.pagesEq.mem_iff.mp (List.mem_append_right _ (by simp))

theorem RecordAt.records_erase :
    records.eraseIdx ((entriesOf before).length + index) =
      dropRecord entry.key records := by
  have increase : (records.map TableRecord.key).Pairwise (· < ·) := by
    rw [table.holds.keys_eq, List.pairwise_map]
    exact keysIncrease_entriesOf table.valid.ordered
  exact (dropRecord_eq_eraseIdx increase recordAt.recordHere).symm

/-- The pages of a record are none of those that stay in use. -/
theorem RecordAt.apart :
    (leaf.pageNumber :: (chain ++ free)).Nodup ∧ 1 ∉ chain := by
  obtain ⟨frontChains, backChains, chainsEq, _, _⟩ := recordAt.around
  have within : ∀ page ∈ chain, page ∈ chains := by
    intro page member
    rw [chainsEq]
    exact List.mem_append_right _ (List.mem_append_left _ member)
  refine ⟨?_, fun isFirst => table.notFirst (within 1 isFirst)⟩
  obtain ⟨_, later, disjoint⟩ := List.nodup_append.mp table.apart
  have own : (chain ++ free).Sublist (chains ++ free) := by
    rw [chainsEq]
    exact ((List.sublist_append_left _ _).trans
      (List.sublist_append_right _ _)).append_right free
  refine List.nodup_cons.mpr ⟨fun member => ?_, later.sublist own⟩
  exact disjoint _ recordAt.page_mem _ (own.subset member) rfl

/-- A record is taken out of its leaf, and its overflow pages are freed or
lost.  Nothing else is touched. -/
theorem RecordAt.removed {freed : List Nat}
    (deleted : Deleted disk after (freed ++ free) leaf index entry stored)
    (within : freed.Subperm chain) :
    ∃ more, (chain ++ more).Perm chains ∧
      TableStore after (freed ++ free) root height pages
        (before ++ (stored.entries.map Mark.record ++ behind)) more
        (dropRecord entry.key records) ∧
      Within disk free (pages ++ chains) after (freed ++ free)
        (pages ++ more) := by
  obtain ⟨outside, leafAt⟩ := recordAt.leafAt
  obtain ⟨frontChains, backChains, chainsEq, front, back⟩ := recordAt.around
  have apart : (pages ++ ((frontChains ++ backChains) ++
      (freed ++ free))).Nodup := by
    have whole : (pages ++ ((frontChains ++ backChains) ++
        (chain ++ free))).Nodup := by
      refine (List.Perm.nodup_iff ?_).mp table.apart
      rw [chainsEq]
      refine List.perm_iff_count.mpr ?_
      intro page
      simp only [List.count_append]
      omega
    have fewer : (pages ++ ((frontChains ++ backChains) ++
        (freed ++ free))).Subperm
          (pages ++ ((frontChains ++ backChains) ++ (chain ++ free))) := by
      refine List.subperm_iff_count.mpr ?_
      intro page
      have less := List.subperm_iff_count.mp within page
      simp only [List.count_append]
      omega
    obtain ⟨part, same, sublist⟩ := fewer
    exact same.nodup_iff.mp (whole.sublist sublist)
  have inChains : ∀ page ∈ frontChains ++ backChains, page ∈ chains := by
    intro page member
    rw [chainsEq]
    rcases List.mem_append.mp member with inFront | inBack
    · exact List.mem_append_left _ inFront
    · exact List.mem_append_right _ (List.mem_append_right _ inBack)
  have kept := deleted.tableStore table leafAt recordAt.here front back inChains
    apart
  rw [recordAt.records_erase table] at kept
  have chainIn : ∀ page ∈ freed, page ∈ chains := by
    intro page member
    rw [chainsEq]
    exact List.mem_append_right _
      (List.mem_append_left _ (within.subset member))
  refine ⟨_, ?_, kept, deleted.within recordAt.page_mem chainIn inChains⟩
  rw [chainsEq, ← List.append_assoc, ← List.append_assoc]
  exact List.perm_append_comm.append_right backChains

end Removal

end Record

end BtreeDb
