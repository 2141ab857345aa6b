import BtreeDb.Tree.Neighbours

/-!
# What the merges have in common

`bta_merge` and `ibta_merge` go to a sibling, put the right node's cells behind
those of the left node, copy the result to the right page and free a page.
-/

namespace BtreeDb

open Disk

/-! ## The code -/

/-- The nodes of a merge, and the place of the left one in the parent. -/
structure MergeNodes where
  parent : BTreeNode
  left : BTreeNode
  right : BTreeNode
  parentIndex : ChildListIndex
  deriving DecidableEq, Repr

/-- `noderc_acquire_load_n` of one node: page 0 stands for a new node. -/
def nodercAcquireLoad (pageId : Nat) : BtM BTreeNode :=
  if pageId = 0 then nodercAcquire else nodercReinitRead pageId

theorem nodercAcquireLoad_onDisk {disk : Disk} {page : Nat}
    (onDisk : OnDisk disk page) :
    nodercAcquireLoad page disk = (.ok (loadedNode disk page), disk) := by
  unfold nodercAcquireLoad
  rw [if_neg onDisk.1]
  exact nodercReinitRead_onDisk onDisk

/-- The loop of `bta_merge` and `ibta_merge` over the cells of the right node; an
error ends it. -/
def moveEveryCell (source : BTreeNode) : List Nat → BTreeNode → BtM BTreeNode
  | [], dest => pure dest
  | index :: indexes, dest => do
      let dest ← btreeNodeMoveCell source dest index
      moveEveryCell source indexes dest

/-- `pager_freelist_push_page` under `btpage_err`. -/
def freelistPushPage (page : Page) : BtM Unit := do
  let (result, _) ← BtM.ofPager (pagerFreelistPushPage page)
  BtM.ofExcept (btpageErr result)

/-! ## The cells' part -/

section Cells

variable {disk : Disk} {source dest : BTreeNode}

/-- Moving a cell to the end of a node that is wide enough for it leaves the
disk alone; there may be no room. -/
theorem btreeNodeMoveCellEx_run {index newKey : Nat} {entry : Entry}
    (sourceOk : NodeOk source) (destOk : NodeOk dest)
    (here : source.entries[index]? = some entry)
    (small : entry.cellSize ≤ btreeNodeMaxCellSize dest)
    (wide : dest.pageSize < 2 ^ 32) :
    btreeNodeMoveCellEx source dest index newKey disk =
        (.error (.err .errNodeNotEnoughSpace), disk) ∨
      ∃ after,
        btreeNodeMoveCellEx source dest index newKey disk =
          (.ok after, disk) ∧
        Refilled dest (dest.entries ++ [entry.withKey newKey]) after := by
  have moved := @btreeNodeMoveCellExTo_run disk source dest index newKey
    insertEnd entry sourceOk here (Nat.le_refl _) small
  rw [insertEnd_number] at moved
  unfold btreeNodeMoveCellEx
  by_cases room : entry.heapSize ≤ dest.freeHeap
  · rw [if_pos room] at moved
    have filled := @insertEntry_moved dest newKey dest.numKeys entry destOk wide
      (Nat.le_refl _) room
    rw [BTreeNode.numKeys, ← entries_length,
      List.insertIdx_length_self] at filled
    rw [BTreeNode.numKeys, ← entries_length] at moved
    exact Or.inr ⟨_, moved, filled⟩
  · rw [if_neg room] at moved
    exact Or.inl moved

/-- The cells behind each other at the end of a node. -/
theorem moveEveryCell_run (sourceOk : NodeOk source) :
    ∀ {indexes : List Nat} {dest : BTreeNode}, NodeOk dest →
      (∀ index ∈ indexes, index < source.numKeys) →
      (∀ entry ∈ source.entries,
        entry.cellSize ≤ btreeNodeMaxCellSize dest) →
      dest.pageSize < 2 ^ 32 →
      moveEveryCell source indexes dest disk =
          (.error (.err .errNodeNotEnoughSpace), disk) ∨
        ∃ after, moveEveryCell source indexes dest disk = (.ok after, disk) ∧
          Refilled dest (dest.entries ++
            indexes.filterMap fun index => source.entries[index]?) after
  | [], dest, destOk, _, _, _ => by
      right
      refine ⟨dest, rfl, ?_⟩
      rw [List.filterMap_nil, List.append_nil]
      exact .refl destOk
  | index :: indexes, dest, destOk, inside, small, wide => by
      have bound := inside index List.mem_cons_self
      rw [BTreeNode.numKeys, ← entries_length] at bound
      have here := List.getElem?_eq_getElem bound
      unfold moveEveryCell btreeNodeMoveCell
      rcases @btreeNodeMoveCellEx_run disk source dest index
        (source.keyAt index).key _ sourceOk destOk here
        (small _ (List.mem_of_getElem? here)) wide with
        full | ⟨next, moved, filled⟩
      · exact Or.inl (BtM.bind_error full)
      · have sameKey : source.entries[index].withKey (source.keyAt index).key =
            source.entries[index] := by
          rw [(sourceOk.reads here).key_eq]
          rfl
        rw [sameKey] at filled
        rw [BtM.bind_ok moved]
        rcases moveEveryCell_run sourceOk filled.ok
          (fun other member => inside other (List.mem_cons_of_mem _ member))
          (fun entry member => by
            rw [filled.maxCellSize_eq]
            exact small entry member)
          (by rw [filled.pageSize_eq]; exact wide) with
          full | ⟨after, moveEq, refilled⟩
        · exact Or.inl full
        · refine Or.inr ⟨after, moveEq, ?_⟩
          have whole := filled.trans refilled
          rw [filled.entries_eq, List.append_assoc] at whole
          rw [List.filterMap_cons, here]
          exact whole

theorem filterMap_getElem?_range (entries : List Entry) :
    (List.range entries.length).filterMap (fun index => entries[index]?) =
      entries := by
  induction entries with
  | nil => rfl
  | cons entry entries inductionHypothesis =>
      rw [List.length_cons, List.range_succ_eq_map, List.filterMap_cons,
        List.filterMap_map]
      simp only [List.getElem?_cons_zero]
      exact congrArg (List.cons entry) inductionHypothesis

/-- Every cell of a node. -/
theorem moveEveryCell_all (sourceOk : NodeOk source) (destOk : NodeOk dest)
    (small : ∀ entry ∈ source.entries,
      entry.cellSize ≤ btreeNodeMaxCellSize dest)
    (wide : dest.pageSize < 2 ^ 32) :
    moveEveryCell source (List.range source.numKeys) dest disk =
        (.error (.err .errNodeNotEnoughSpace), disk) ∨
      ∃ after,
        moveEveryCell source (List.range source.numKeys) dest disk =
          (.ok after, disk) ∧
        Refilled dest (dest.entries ++ source.entries) after := by
  have inside : ∀ index ∈ List.range source.numKeys,
      index < source.numKeys := fun _ member => List.mem_range.mp member
  have all := filterMap_getElem?_range source.entries
  rw [entries_length] at all
  rcases @moveEveryCell_run disk source sourceOk _ _ destOk inside small wide
    with full | ⟨after, moved, filled⟩
  · exact Or.inl full
  · rw [BTreeNode.numKeys] at filled
    rw [all] at filled
    exact Or.inr ⟨after, moved, filled⟩

end Cells

/-! ## The copy -/

/-- A node with the identity of another page. -/
def BTreeNode.onPage (node dest : BTreeNode) : BTreeNode :=
  { node with
    pageNumber := dest.pageNumber
    metaBytes := dest.metaBytes
    leadBytes := dest.leadBytes }

section Copy

variable {disk : Disk} {free : List Nat} {source dest : BTreeNode}

/-- Copying to a page of the same layout. -/
theorem btreeNodeCopy_onPage (sourceOk : NodeOk source)
    (sourceNotFirst : source.pageNumber ≠ 1)
    (destNotFirst : dest.pageNumber ≠ 1)
    (sizes : source.pageSize = dest.pageSize) :
    btreeNodeCopy dest source = .ok (source.onPage dest) := by
  have sourceOffset : headerOffset source.pageNumber = 0 :=
    if_neg sourceNotFirst
  have destOffset : headerOffset dest.pageNumber = 0 := if_neg destNotFirst
  have sameSize : btuGetNodeSize source = btuGetNodeSize dest := by
    unfold btuGetNodeSize
    rw [sourceOffset, destOffset, sizes]
  have sameFree : (if source.numKeys = 0 then
      heapCapacity dest.pageNumber dest.pageSize else source.freeHeap) =
        source.freeHeap := by
    by_cases empty : source.numKeys = 0
    · rw [if_pos empty]
      have none : source.entries = [] := by
        apply List.eq_nil_of_length_eq_zero
        rw [entries_length]
        exact empty
      have capacity := sourceOk.freeHeap_add
      rw [none, List.map_nil, List.sum_nil, Nat.add_zero] at capacity
      rw [capacity]
      unfold heapCapacity
      rw [sourceOffset, destOffset, sizes]
    · rw [if_neg empty]
  unfold btreeNodeCopy
  rw [if_pos sameSize, sameFree]
  rfl

/-- A copied node may be written to its new page. -/
theorem Writable.copied (sourceWritable : Writable disk free source)
    (destWritable : Writable disk free dest)
    (sourceNotFirst : source.pageNumber ≠ 1)
    (destNotFirst : dest.pageNumber ≠ 1) :
    Writable disk free (source.onPage dest) := by
  have sourceOk := sourceWritable.ok
  have noLead : source.leadBytes.length = 0 := by
    rw [sourceOk.lead]
    exact if_neg sourceNotFirst
  have noLead' : dest.leadBytes.length = 0 := by
    rw [destWritable.ok.lead]
    exact if_neg destNotFirst
  have size : (source.onPage dest).pageSize = source.pageSize := by
    unfold BTreeNode.pageSize BTreeNode.onPage
    simp only
    rw [noLead, noLead']
  exact
    { ok := ⟨destWritable.ok.lead, sourceOk.free, sourceOk.used,
        sourceOk.placed, sourceOk.apart⟩
      encodable :=
        { rightChild_lt := sourceWritable.encodable.rightChild_lt
          key_lt := sourceWritable.encodable.key_lt
          flags_lt := sourceWritable.encodable.flags_lt
          pageSize_lt := by
            rw [size]
            exact sourceWritable.encodable.pageSize_lt }
      size := size.trans sourceWritable.size
      present := destWritable.present
      used := destWritable.used
      metaFresh := ⟨destWritable.metaFresh.size, destWritable.metaFresh.first⟩ }

end Copy

/-! ## The freed page -/

/-- Freeing a page that is in use. -/
theorem freelistPushPage_run {disk : Disk} {free : List Nat} {page : Page}
    (store : Store disk free) (present : OnDisk disk page.pageId)
    (notFirst : page.pageId ≠ 1) (used : page.pageId ∉ free)
    (metaSize : page.metaBytes.length = pagemetaSize)
    (bufferSize : page.pageBuffer.length = disk.pageSize) :
    ∃ after, freelistPushPage page disk = (.ok (), after) ∧
      Store after (page.pageId :: free) ∧
      after.pageSize = disk.pageSize ∧
      ∀ other, other ≠ page.pageId →
        after.buffer? other = disk.buffer? other := by
  have pushed := pagerFreelistPushPage_apply store present.1 present.2
  refine ⟨disk.afterPush page (free.headD 0), ?_,
    store.push present.1 notFirst present.2 used metaSize bufferSize, ?_, ?_⟩
  · unfold freelistPushPage
    rw [BtM.bind_ok (BtM.ofPager_some pushed)]
    rfl
  · unfold Disk.afterPush
    rw [store_pageSize, setFirstFree_pageSize]
  · intro other apart
    rw [afterPush_buffer? present.1 present.2, if_neg apart]

/-! ## The result -/

/-- The codes with which a merge has done its work. -/
def MergeEnds (result : Except BTreeE Unit) : Prop :=
  result = .ok () ∨ result = .error .errParentDeficient

theorem not_mergeEnds_of_error {code : BTreeE} {cursor later : Cursor}
    {disk after : Disk} {result : Except BTreeE Unit}
    (other : code ≠ .errParentDeficient)
    (ended : (.ok (.error code, cursor), disk) =
      ((.ok (result, later), after) :
        Except Stop (Except BTreeE Unit × Cursor) × Disk)) :
    ¬ MergeEnds result := by
  have resultEq := (Prod.mk.inj (Except.ok.inj (Prod.mk.inj ended).1)).1
  rw [← resultEq]
  rintro (isOk | isDeficient)
  · cases isOk
  · exact other (Except.error.inj isDeficient)

end BtreeDb
