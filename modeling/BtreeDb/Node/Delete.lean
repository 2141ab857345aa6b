import BtreeDb.Node.Payload
import BtreeDb.Node.Runs
import BtreeDb.Node.Storing
import BtreeDb.Tree.Cursor
import Mathlib.Data.List.Perm.Subperm

/-!
# Deleting records from nodes

`btree_node_delete` frees the overflow pages of a record, takes its key and its
cell out of the node, and writes the node.
-/

namespace BtreeDb

open Bytes Disk

/-! ## The code -/

/-- The loop of `btree_node_delete` over the overflow pages.  A chain without
an end goes through every page. -/
def freeOverflowPages : Nat → Nat → BtM Unit
  | 0, _ => BtM.stop .diverges
  | fuel + 1, nextPageId =>
      if nextPageId = 0 then pure ()
      else do
        let out ← btreeOverflowPeek nextPageId
        let result ← BtM.ofPager (pagerFreelistPush nextPageId)
        BtM.ofExcept (btpageErr result)
        freeOverflowPages fuel out.nextPageId

/-- `btree_node_remove` or `ibtree_node_remove`, as the tree's type asks. -/
def removeFromNode (tree : BTree) (node : BTreeNode) (index : ChildListIndex) :
    Except Stop BTreeNode :=
  match tree.type with
  | .index => ibtreeNodeRemove node index
  | .table => btreeNodeRemove node index

/-- `btree_node_delete`: the node as the caller's view has it afterwards.  An
error of the loop is overwritten by the result of reading the node again, and
an error of that ends the call with `BTREE_OK` before the removal. -/
def btreeNodeDelete (tree : BTree) (node : BTreeNode)
    (index : ChildListIndex) : BtM BTreeNode := do
  BtM.assert (index.mode == .limIndex)
  let cellBuffer := btuGetCellBuffer node index.index
  if pkeyIsCellType (btuGetCellFlags node index.index) .cellTypeOverflow then
    let _ ← BtM.attempt (freeOverflowPages ((← BtM.getDisk).maxPage + 1)
      (cellReadOverflow cellBuffer).overflowPageId)
    match ← BtM.attempt (nodercReinitRead node.pageNumber) with
    | .ok node => removeAndPersist node
    | .error _ => pure node
  else
    removeAndPersist node
where
  removeAndPersist (node : BTreeNode) : BtM BTreeNode := do
    let node ← BtM.ofExcept (removeFromNode tree node index)
    nodercPersist node

/-! ## Freeing a chain -/

/-- A page of the disk by its contents. -/
theorem page?_of_buffer? {disk : Disk} {pageId : Nat} {buffer : List UInt8}
    (found : disk.buffer? pageId = some buffer) :
    ∃ metaBytes, disk.page? pageId = some ⟨metaBytes, buffer⟩ := by
  unfold Disk.buffer? at found
  obtain ⟨image, here, bufferEq⟩ := Option.map_eq_some_iff.mp found
  rw [← bufferEq]
  exact ⟨image.metaBytes, here⟩

/-- The same contents with other pages on the free list. -/
structure Refreed (disk after : Disk) (free : List Nat) : Prop where
  store : Store after free
  pageSize : after.pageSize = disk.pageSize
  maxPage : after.maxPage = disk.maxPage
  buffer : ∀ page, after.buffer? page = disk.buffer? page

theorem pagerFreelistPush_refreed {disk : Disk} {free : List Nat}
    {pageId : Nat} {buffer : List UInt8} (store : Store disk free)
    (found : disk.buffer? pageId = some buffer) (notFirst : pageId ≠ 1)
    (used : pageId ∉ free) :
    ∃ after, pagerFreelistPush pageId disk = some (.ok, after) ∧
      Refreed disk after (pageId :: free) := by
  obtain ⟨metaBytes, here⟩ := page?_of_buffer? found
  obtain ⟨numbered, present⟩ := page?_isSome_iff.mp
    (Option.isSome_of_eq_some here)
  have sized := store.sized pageId _ here
  refine ⟨_, pagerFreelistPush_apply store here, ?_, ?_, ?_, ?_⟩
  · exact @Store.push disk free ⟨pageId, metaBytes, buffer⟩ store numbered
      notFirst present used sized.1 sized.2
  · unfold Disk.afterPush
    rw [store_pageSize, setFirstFree_pageSize]
  · exact @afterPush_maxPage disk ⟨pageId, metaBytes, buffer⟩ present _
  · intro page
    rw [@afterPush_buffer? disk ⟨pageId, metaBytes, buffer⟩ numbered present]
    split
    · rename_i same
      rw [same, found]
    · rfl

theorem freeOverflowPages_chain :
    ∀ {chain : List Nat} {page fuel : Nat} {bytes : List UInt8} {disk : Disk}
      {free : List Nat}, Store disk free →
      OverflowChain disk page chain bytes → (chain ++ free).Nodup →
      1 ∉ chain → chain.length < fuel →
      ∃ after, freeOverflowPages fuel page disk = (.ok (), after) ∧
        Refreed disk after (chain.reverse ++ free)
  | _, _, 0, _, _, _, _, _, _, _, enough => absurd enough (Nat.not_lt_zero _)
  | [], page, fuel + 1, bytes, disk, free, store, ⟨last, _⟩, _, _, _ => by
      refine ⟨disk, ?_, store, rfl, rfl, fun _ => rfl⟩
      unfold freeOverflowPages
      rw [if_pos last]
      rfl
  | first :: rest, page, fuel + 1, bytes, disk, free, store,
      ⟨here, numbered, buffer, part, tail, found, size, _, _, small, _,
        later⟩, apart, notFirst, enough => by
      have peekEq := btreeOverflowPeek_page found size small
      rw [List.cons_append, List.nodup_cons, List.mem_append, not_or] at apart
      rw [List.mem_cons, not_or] at notFirst
      obtain ⟨middle, pushEq, pushed⟩ := pagerFreelistPush_refreed store found
        (Ne.symm notFirst.1) apart.1.2
      have restApart : (rest ++ first :: free).Nodup :=
        List.perm_middle.nodup_iff.mpr
          (List.nodup_cons.mpr ⟨by
            rw [List.mem_append, not_or]
            exact apart.1, apart.2⟩)
      obtain ⟨after, restEq, freed⟩ := freeOverflowPages_chain pushed.store
        (later.congr pushed.pageSize fun own _ => pushed.buffer own) restApart
        notFirst.2 (show rest.length < fuel by simpa using enough)
      subst here
      refine ⟨after, ?_, ?_, freed.pageSize.trans pushed.pageSize,
        freed.maxPage.trans pushed.maxPage,
        fun own => (freed.buffer own).trans (pushed.buffer own)⟩
      · unfold freeOverflowPages
        rw [if_neg numbered, BtM.bind_ok peekEq,
          BtM.bind_ok (BtM.ofPager_some pushEq)]
        exact restEq
      · have store := freed.store
        rw [List.reverse_cons, List.append_assoc]
        exact store

/-! ## The removal -/

/-- The four bytes at the place of a removed key: those of the next key, or
those that followed the key array. -/
def rereadKey (node : BTreeNode) (index : Nat) : Nat :=
  if index + 1 < node.numKeys then (node.keyAt (index + 1)).key
  else u32At node.heap 0

/-- What a deletion leaves. -/
structure Deleted (disk after : Disk) (left : List Nat) (leaf : BTreeNode)
    (index : Nat) (entry : Entry) (node : BTreeNode) : Prop where
  holds : Holds after node
  metaFresh : MetaFresh left node
  reentered : Reentered leaf (leaf.entries.eraseIdx index) node
  freeHeap_eq : node.freeHeap = leaf.freeHeap + entry.heapSize
  pageSize_eq : node.pageSize = leaf.pageSize
  reread : (node.keyAt index).key = rereadKey leaf index
  store : Store after left
  pageSize : after.pageSize = disk.pageSize
  maxPage : after.maxPage = disk.maxPage
  kept : ∀ page, page ≠ leaf.pageNumber →
    after.buffer? page = disk.buffer? page

section Front

/-- A heap whose first bytes no cell reaches. -/
structure FrontFree (front : List UInt8) (bound : Nat) (node : BTreeNode) :
    Prop where
  front_eq : node.heap.take front.length = front
  room : front.length + bound ≤ node.heap.length
  offsets : ∀ key ∈ node.keys, key.cellOffset ≤ bound

theorem FrontFree.gcStep {front : List UInt8} {bound : Nat} {node : BTreeNode}
    (clear : FrontFree front bound node) (deletedOffset shiftSize index : Nat) :
    FrontFree front bound (gcStep deletedOffset shiftSize node index) := by
  have room := clear.room
  unfold BtreeDb.gcStep
  split
  · rename_i key here
    have inside := clear.offsets key (List.mem_of_getElem? here)
    split
    · exact clear
    · refine ⟨?_, ?_, ?_⟩
      · have early : front.length ≤
            node.heap.length - (key.cellOffset - shiftSize) := by omega
        have kept := clear.front_eq
        simp only
        unfold splice
        rw [List.append_assoc, List.take_append_of_le_length (by
          rw [List.length_take]
          omega), List.take_take, Nat.min_eq_left early]
        exact kept
      · simp only
        unfold splice
        simp only [List.length_append, List.length_take, List.length_drop]
        omega
      · intro other member
        rcases List.mem_or_eq_of_mem_set member with old | rfl
        · exact clear.offsets other old
        · simp only
          omega
  · exact clear

theorem FrontFree.foldl {front : List UInt8} {bound : Nat}
    (deletedOffset shiftSize : Nat) :
    ∀ {indexes : List Nat} {node : BTreeNode}, FrontFree front bound node →
      FrontFree front bound
        (indexes.foldl (BtreeDb.gcStep deletedOffset shiftSize) node)
  | [], _, clear => clear
  | index :: indexes, _, clear =>
      @FrontFree.foldl front bound deletedOffset shiftSize indexes _
        (clear.gcStep deletedOffset shiftSize index)

/-- A removal moves no cell over the bytes behind the key array. -/
theorem nodeRemoveAt_front {node : BTreeNode} (index : Nat) (ok : NodeOk node)
    (wide : pageKeySize ≤ node.heap.length) :
    (nodeRemoveAt node index).heap.take pageKeySize =
      node.heap.take pageKeySize := by
  have frontLength : (node.heap.take pageKeySize).length = pageKeySize := by
    rw [List.length_take, Nat.min_eq_left wide]
  have start : FrontFree (node.heap.take pageKeySize) node.heap.length
      (node.slideKeys index) := by
    unfold BTreeNode.slideKeys
    refine ⟨List.take_left, ?_, ?_⟩
    · simp only [List.length_append]
      omega
    · intro key member
      have placed := ok.placed key (List.mem_of_mem_eraseIdx member)
      exact Nat.le_trans placed.offset_le ok.highWater_le
  have whole := @FrontFree.foldl _ _ (node.keyAt index).cellOffset
    (cellInlineSize (btuGetCellBuffer node index) + 4)
    (List.range (node.slideKeys index).numKeys) _ start
  have front := whole.front_eq
  rwa [frontLength] at front

end Front

section Remove

variable {tree : BTree} {disk : Disk} {free : List Nat} {leaf : BTreeNode}
variable {index : Nat} {entry : Entry}

/-- What is read at the place of a removed key. -/
theorem nodeRemoveAt_reread {deleted : PageKey} (ok : NodeOk leaf)
    (here : leaf.keys[index]? = some deleted) (safe : GcSafe leaf index)
    (wide : pageKeySize ≤ leaf.heap.length) :
    ((nodeRemoveAt leaf index).keyAt index).key = rereadKey leaf index := by
  have entriesEq := nodeRemoveAt_entries ok here safe
  have inside := (List.getElem?_eq_some_iff.mp here).1
  have count : (nodeRemoveAt leaf index).keys.length =
      leaf.keys.length - 1 := by
    rw [← entries_length, entriesEq, List.length_eraseIdx_of_lt (by
      rw [entries_length]
      exact inside), entries_length]
  unfold rereadKey BTreeNode.numKeys
  by_cases more : index + 1 < leaf.keys.length
  · rw [if_pos more]
    have bound : index + 1 < leaf.entries.length := by
      rw [entries_length]
      exact more
    have next := List.getElem?_eq_getElem bound
    have nextAfter : (nodeRemoveAt leaf index).entries[index]? =
        some leaf.entries[index + 1] := by
      rw [entriesEq, List.getElem?_eraseIdx_of_ge (Nat.le_refl _)]
      exact next
    rw [((nodeRemoveAt_ok ok here safe wide).reads nextAfter).key_eq,
      (ok.reads next).key_eq]
  · rw [if_neg more]
    have beyond : (nodeRemoveAt leaf index).keys[index]? = none :=
      List.getElem?_eq_none (by omega)
    have front := nodeRemoveAt_front index ok wide
    have words := congrArg (fun bytes => u32At bytes 0) front
    have short : ∀ bytes : List UInt8,
        u32At (bytes.take pageKeySize) 0 = u32At bytes 0 := by
      intro bytes
      unfold u32At slice
      rw [List.drop_zero, List.drop_zero, List.take_take]
      rfl
    simp only [short] at words
    unfold BTreeNode.keyAt
    rw [beyond]
    simp only
    unfold BTreeNode.numKeys
    rw [show index - (nodeRemoveAt leaf index).keys.length = 0 by omega]
    exact words

theorem removeFromNode_inside (inside : index < leaf.numKeys) :
    removeFromNode tree leaf ⟨.limIndex, index⟩ =
      .ok (nodeRemoveAt leaf index) := by
  unfold removeFromNode
  cases tree.type with
  | index => exact if_pos inside
  | table => exact if_pos inside

theorem removeAndPersist_run (roomy : Roomy disk)
    (store : Store disk free) (holds : Holds disk leaf)
    (metaFresh : MetaFresh free leaf) (used : leaf.pageNumber ∉ free)
    (here : leaf.entries[index]? = some entry) (safe : GcSafe leaf index) :
    ∃ node after,
      btreeNodeDelete.removeAndPersist tree ⟨.limIndex, index⟩ leaf disk =
        (.ok node, after) ∧
      Deleted disk after free leaf index entry node := by
  obtain ⟨key, keyHere, entryEq⟩ := entries_getElem? here
  have inside := (List.getElem?_eq_some_iff.mp keyHere).1
  have size := holds.pageSize_eq store
  have wide := holds.ok.wide (by rw [size]; exact roomy.least)
  have entriesEq := nodeRemoveAt_entries holds.ok keyHere safe
  have frame := nodeRemoveAt_frame holds.ok keyHere safe
  have pageSizeEq := nodeRemoveAt_pageSize holds.ok keyHere safe wide
  have encodable : Encodable (nodeRemoveAt leaf index) := by
    refine encodable_of_entries ?_ ?_ ?_
    · rw [frame.2.2.2.2]
      exact holds.encodable.rightChild_lt
    · rw [pageSizeEq]
      exact holds.encodable.pageSize_lt
    · rw [entriesEq]
      intro other member
      exact holds.encodable.entries other (List.mem_of_mem_eraseIdx member)
  obtain ⟨metaBytes, after, persistEq, afterHolds, afterFresh, updates⟩ :=
    nodercPersist_existing store
      (nodeRemoveAt_ok holds.ok keyHere safe wide) encodable
      (pageSizeEq.trans size)
      (by rw [frame.1]; exact holds.present)
      (by rw [frame.1]; exact used)
      ⟨by rw [frame.2.1]; exact metaFresh.size, by
        rw [frame.1, frame.2.1]
        exact metaFresh.first⟩
  refine ⟨_, after, ?_, afterHolds, afterFresh,
    ⟨frame.1, frame.2.2.2.1, frame.2.2.2.2, entriesEq⟩, ?_, pageSizeEq,
    nodeRemoveAt_reread holds.ok keyHere safe wide, updates.store,
    updates.pageSize, ?_, ?_⟩
  · unfold btreeNodeDelete.removeAndPersist
    rw [removeFromNode_inside inside,
      BtM.bind_ok (BtM.ofExcept_ok _ disk)]
    exact persistEq
  · rw [entryEq]
    exact nodeRemoveAt_freeHeap holds.ok keyHere safe
  · exact Nat.le_antisymm updates.bounded updates.grows
  · intro page other
    refine updates.kept page ?_ (by simp)
    rw [frame.1, List.mem_singleton]
    exact other

/-- Deleting a record from a leaf frees its overflow pages and takes its entry
out. -/
theorem btreeNodeDelete_run {payload : List UInt8} {chain : List Nat}
    (roomy : Roomy disk) (store : Store disk free) (holds : Holds disk leaf)
    (metaFresh : MetaFresh free leaf)
    (here : leaf.entries[index]? = some entry)
    (resolves : Resolves disk entry payload chain)
    (apart : (leaf.pageNumber :: (chain ++ free)).Nodup)
    (notFirst : 1 ∉ chain) (safe : GcSafe leaf index) :
    ∃ node after,
      btreeNodeDelete tree leaf ⟨.limIndex, index⟩ disk = (.ok node, after) ∧
      Deleted disk after (chain.reverse ++ free) leaf index entry node := by
  have parts := List.nodup_cons.mp apart
  rw [List.mem_append, not_or] at parts
  have reads := holds.ok.reads here
  have onIndex : ((KeyListIndexMode.limIndex == .limIndex) : Bool) = true := rfl
  cases resolves with
  | inline =>
      have notOverflow : pkeyIsCellType (btuGetCellFlags leaf index)
          .cellTypeOverflow = false := by
        rw [btuGetCellFlags, reads.flags_eq]
        rfl
      obtain ⟨node, after, runEq, deleted⟩ := removeAndPersist_run roomy
        store holds metaFresh parts.1.2 here safe
      refine ⟨node, after, ?_, deleted⟩
      unfold btreeNodeDelete
      rw [onIndex, BtM.bind_ok (BtM.assert_true_apply disk)]
      simp only [notOverflow, Bool.false_eq_true, if_false]
      exact runEq
  | @overflow key page _ front back pages pageFits sizeFits =>
      obtain ⟨_, pageEq, _⟩ := reads.overflow sizeFits pageFits
      have isOverflow : pkeyIsCellType (btuGetCellFlags leaf index)
          .cellTypeOverflow = true := by
        rw [btuGetCellFlags, reads.flags_eq]
        rfl
      have few : chain.length < disk.maxPage + 1 := by
        have within : chain ⊆ List.range' 1 disk.maxPage := by
          intro own member
          have found := pages.present own member
          unfold Disk.buffer? at found
          rw [Option.isSome_map] at found
          have bounds := page?_isSome_iff.mp found
          rw [List.mem_range'_1]
          omega
        have shorter :=
          ((List.nodup_append.mp parts.2).1.subperm within).length_le
        rw [List.length_range'] at shorter
        omega
      obtain ⟨middle, freeEq, freed⟩ := freeOverflowPages_chain store pages
        parts.2 notFirst few
      obtain ⟨metaBytes, readEq, fresh⟩ := nodercReinitRead_holds
        (holds.congr (freed.buffer _)) freed.store
      have usedStill : leaf.pageNumber ∉ chain.reverse ++ free := by
        rw [List.mem_append, List.mem_reverse, not_or]
        exact parts.1
      obtain ⟨node, after, runEq, deleted⟩ := removeAndPersist_run
        (roomy.congr freed.pageSize) freed.store
        ((holds.congr (freed.buffer _)).withMeta metaBytes) fresh usedStill
        here safe
      have again := deleted.reentered
      refine ⟨node, after, ?_, deleted.holds, deleted.metaFresh,
        ⟨again.pageNumber_eq, again.isLeaf_eq, again.rightChild_eq,
          again.entries_eq⟩, deleted.freeHeap_eq, deleted.pageSize_eq,
        deleted.reread, deleted.store, deleted.pageSize.trans freed.pageSize,
        deleted.maxPage.trans freed.maxPage, ?_⟩
      · unfold btreeNodeDelete
        rw [onIndex, BtM.bind_ok (BtM.assert_true_apply disk)]
        simp only [isOverflow, if_true]
        unfold cellReadOverflow
        simp only [pageEq]
        rw [BtM.bind_ok (BtM.getDisk_apply disk),
          BtM.bind_ok (BtM.attempt_ok freeEq),
          BtM.bind_ok (BtM.attempt_ok readEq)]
        exact runEq
      · intro own other
        exact (deleted.kept own other).trans (freed.buffer own)

end Remove

end BtreeDb
