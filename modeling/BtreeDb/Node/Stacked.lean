import BtreeDb.Node.Delete

/-!
# Cells in key order

Where the cells of a node lie in the order of its keys, the one of the first
key next to the end of the page, a removal moves no cell onto another, and it
leaves the cells in order.  A loop of removals then never meets a pair of cells
that `gc_node` would overwrite.
-/

namespace BtreeDb

/-- Every cell lies behind those of the keys before it. -/
def Stacked (node : BTreeNode) : Prop :=
  node.keys.Pairwise fun left right => left.cellOffset < right.cellOffset

instance (node : BTreeNode) : Decidable (Stacked node) :=
  inferInstanceAs (Decidable (List.Pairwise _ _))

section Removal

variable {node : BTreeNode} {index : Nat} {deleted : PageKey}
  (ok : NodeOk node) (stacked : Stacked node)
  (here : node.keys[index]? = some deleted)

include ok stacked

/-- Among cells in order the later one begins behind the whole of the earlier
one. -/
theorem Stacked.behind : node.keys.Pairwise fun left right =>
    left.cellOffset + cellTotal node.heap right.cellOffset ≤
      right.cellOffset := by
  refine (ok.apart.and stacked).imp ?_
  intro left right both
  obtain ⟨inOrder | turned, less⟩ := both
  · exact inOrder
  · omega

theorem Stacked.gcSafe : GcSafe node index := by
  have kept := (stacked.behind ok).sublist
    (List.eraseIdx_sublist node.keys index)
  refine kept.imp ?_
  intro left right inOrder
  exact Or.inr (Or.inr (Or.inl (Nat.le_add_right_of_le inOrder)))

include here

theorem Stacked.removeAt : Stacked (nodeRemoveAt node index) := by
  have moved := removal_moved ok here (stacked.gcSafe ok)
  have keysEq : (nodeRemoveAt node index).keys =
      (node.keys.eraseIdx index).map (shiftKey deleted.cellOffset
        (cellTotal node.heap deleted.cellOffset)) := by
    rw [nodeRemoveAt_eq here]
    simp only
    rw [moved.keys_eq, List.take_length, List.drop_length, List.append_nil]
    rfl
  have beside := beside_deleted ok here
  have kept := (stacked.behind ok).sublist
    (List.eraseIdx_sublist node.keys index)
  unfold Stacked
  rw [keysEq, List.pairwise_map]
  refine ((stacked.sublist (List.eraseIdx_sublist _ _)).and kept).imp_of_mem ?_
  intro left right leftMember rightMember both
  obtain ⟨less, inOrder⟩ := both
  have leftBeside := beside left leftMember
  have rightBeside := beside right rightMember
  have deletedLe := (ok.placed deleted (List.mem_of_getElem? here)).total_le
  have rightPos : 0 < cellTotal node.heap right.cellOffset := by
    unfold cellTotal
    omega
  rw [shiftKey_cellOffset, shiftKey_cellOffset]
  split <;> split <;> omega

end Removal

/-! ## A loop of removals -/

/-- The removals of a loop that passes over the entry behind a removed one move
no cell onto another.  The flags say which of the entries from an index on are
chosen. -/
def SweepsSafely : List Bool → BTreeNode → Nat → Prop
  | [], _, _ => True
  | [last], node, index => last = true → GcSafe node index
  | true :: _ :: rest, node, index =>
      GcSafe node index ∧
        SweepsSafely rest (nodeRemoveAt node index) (index + 1)
  | false :: second :: rest, node, index =>
      SweepsSafely (second :: rest) node (index + 1)

instance : ∀ (flags : List Bool) (node : BTreeNode) (index : Nat),
    Decidable (SweepsSafely flags node index)
  | [], _, _ => instDecidableTrue
  | [last], node, index =>
      inferInstanceAs (Decidable (last = true → GcSafe node index))
  | true :: _ :: rest, node, index =>
      @instDecidableAnd _ _ inferInstance
        (instDecidableSweepsSafely rest (nodeRemoveAt node index) (index + 1))
  | false :: second :: rest, node, index =>
      instDecidableSweepsSafely (second :: rest) node (index + 1)

/-- Cells in key order can be taken out by any such loop. -/
theorem Stacked.sweepsSafely :
    ∀ {flags : List Bool} {node : BTreeNode} {index : Nat},
      NodeOk node → pageKeySize ≤ node.heap.length → Stacked node →
        index + flags.length ≤ node.numKeys → SweepsSafely flags node index
  | [], _, _, _, _, _, _ => trivial
  | [_], _, _, ok, _, stacked, _ => fun _ => stacked.gcSafe ok
  | true :: second :: rest, node, index, ok, wide, stacked, inside => by
      simp only [List.length_cons] at inside
      have bound : index < node.keys.length := by
        unfold BTreeNode.numKeys at inside
        omega
      have here := List.getElem?_eq_getElem bound
      have safe : GcSafe node index := stacked.gcSafe ok
      have entriesEq := nodeRemoveAt_entries ok here safe
      have fewer : (nodeRemoveAt node index).numKeys = node.numKeys - 1 := by
        unfold BTreeNode.numKeys
        rw [← entries_length, entriesEq, List.length_eraseIdx_of_lt (by
          rw [entries_length]
          exact bound), entries_length]
      have sizeEq := nodeRemoveAt_pageSize ok here safe wide
      refine ⟨safe, Stacked.sweepsSafely (nodeRemoveAt_ok ok here safe wide) ?_
        (stacked.removeAt ok here) (by omega)⟩
      have frame := nodeRemoveAt_frame ok here safe
      have lead := (nodeRemoveAt_ok ok here safe wide).lead
      rw [frame.1, ← ok.lead] at lead
      unfold BTreeNode.pageSize at sizeEq
      rw [fewer] at sizeEq
      have keySize : pageKeySize = 12 := rfl
      rw [keySize] at sizeEq wide ⊢
      omega
  | false :: second :: rest, node, index, ok, wide, stacked, inside => by
      simp only [List.length_cons] at inside
      refine @Stacked.sweepsSafely (second :: rest) node (index + 1) ok wide
        stacked ?_
      rw [List.length_cons]
      omega

/-! ## Only the keys and the cells matter -/

/-- Two nodes with the same keys and the same cells. -/
structure SameCells (left right : BTreeNode) : Prop where
  keys : left.keys = right.keys
  heap : left.heap = right.heap

section SameCells

variable {left right : BTreeNode}

theorem SameCells.gcStep (same : SameCells left right)
    (deletedOffset shiftSize index : Nat) :
    SameCells (gcStep deletedOffset shiftSize left index)
      (gcStep deletedOffset shiftSize right index) := by
  unfold BtreeDb.gcStep
  rw [same.keys]
  cases right.keys[index]? with
  | none => exact same
  | some key =>
      dsimp only
      by_cases below : key.cellOffset < deletedOffset
      · rw [if_pos below, if_pos below]
        exact same
      · rw [if_neg below, if_neg below, same.heap]
        exact ⟨rfl, rfl⟩

theorem SameCells.keyAt (same : SameCells left right) (index : Nat) :
    left.keyAt index = right.keyAt index := by
  unfold BTreeNode.keyAt BTreeNode.numKeys
  rw [same.keys, same.heap]

theorem SameCells.removeAt (same : SameCells left right) (index : Nat) :
    SameCells (nodeRemoveAt left index) (nodeRemoveAt right index) := by
  have loop : ∀ (deletedOffset shiftSize : Nat) (indexes : List Nat)
      {left right : BTreeNode}, SameCells left right →
      SameCells (indexes.foldl (BtreeDb.gcStep deletedOffset shiftSize) left)
        (indexes.foldl (BtreeDb.gcStep deletedOffset shiftSize) right) := by
    intro deletedOffset shiftSize indexes
    induction indexes with
    | nil => exact fun same => same
    | cons index indexes inductionHypothesis =>
        exact fun same => inductionHypothesis (same.gcStep _ _ index)
  have slid : SameCells (left.slideKeys index) (right.slideKeys index) := by
    unfold BTreeNode.slideKeys
    rw [same.keys, same.heap]
    exact ⟨rfl, rfl⟩
  have buffer : btuGetCellBuffer left index = btuGetCellBuffer right index := by
    unfold btuGetCellBuffer
    rw [same.keyAt, same.heap]
  have count : (left.slideKeys index).numKeys =
      (right.slideKeys index).numKeys := congrArg List.length slid.keys
  unfold nodeRemoveAt gcNode
  rw [same.keyAt, buffer, count]
  have moved := loop (right.keyAt index).cellOffset
    (cellInlineSize (btuGetCellBuffer right index) + 4)
    (List.range (right.slideKeys index).numKeys) slid
  exact ⟨moved.keys, moved.heap⟩

theorem SameCells.gcSafe (same : SameCells left right) {index : Nat}
    (safe : GcSafe left index) : GcSafe right index := by
  unfold GcSafe at safe ⊢
  rw [same.keyAt, same.keys, same.heap] at safe
  exact safe

theorem SameCells.sweepsSafely :
    ∀ {flags : List Bool} {left right : BTreeNode} {index : Nat},
      SameCells left right → SweepsSafely flags left index →
        SweepsSafely flags right index
  | [], _, _, _, _, _ => trivial
  | [_], _, _, _, same, safe => fun isChosen => same.gcSafe (safe isChosen)
  | true :: _ :: _, _, _, index, same, safe =>
      ⟨same.gcSafe safe.1, (same.removeAt index).sweepsSafely safe.2⟩
  | false :: second :: rest, left, right, index, same, safe =>
      @SameCells.sweepsSafely (second :: rest) left right (index + 1) same safe

end SameCells

/-! ## The node after a deletion -/

section Deletion

variable {tree : BTree} {disk after : Disk} {free chain : List Nat}
variable {leaf stored : BTreeNode} {index : Nat} {entry : Entry}

theorem removeAndPersist_stored (inside : index < leaf.numKeys)
    (run : btreeNodeDelete.removeAndPersist tree ⟨.limIndex, index⟩ leaf disk =
      (.ok stored, after)) :
    SameCells (nodeRemoveAt leaf index) stored := by
  unfold btreeNodeDelete.removeAndPersist at run
  rw [removeFromNode_inside inside, BtM.bind_ok (BtM.ofExcept_ok _ disk)] at run
  unfold nodercPersist at run
  obtain ⟨page, between, _, ended⟩ := BtM.bind_eq_ok run
  have isStored := Except.ok.inj (Prod.mk.inj ended).1
  rw [← isStored]
  exact ⟨rfl, rfl⟩

/-- The keys and the cells that `btree_node_delete` writes, whether it has read
the node again or not. -/
theorem btreeNodeDelete_stored {payload : List UInt8}
    (store : Store disk free) (holds : Holds disk leaf)
    (here : leaf.entries[index]? = some entry)
    (resolves : Resolves disk entry payload chain)
    (apart : (leaf.pageNumber :: (chain ++ free)).Nodup)
    (notFirst : 1 ∉ chain)
    (run : btreeNodeDelete tree leaf ⟨.limIndex, index⟩ disk =
      (.ok stored, after)) :
    SameCells (nodeRemoveAt leaf index) stored := by
  have parts := List.nodup_cons.mp apart
  have reads := holds.ok.reads here
  have inside := (List.getElem?_eq_some_iff.mp here).1
  rw [entries_length] at inside
  have onIndex : ((KeyListIndexMode.limIndex == .limIndex) : Bool) = true := rfl
  unfold btreeNodeDelete at run
  rw [onIndex, BtM.bind_ok (BtM.assert_true_apply disk)] at run
  cases resolves with
  | inline =>
      have notOverflow : pkeyIsCellType (btuGetCellFlags leaf index)
          .cellTypeOverflow = false := by
        rw [btuGetCellFlags, reads.flags_eq]
        rfl
      simp only [notOverflow, Bool.false_eq_true, if_false] at run
      exact removeAndPersist_stored inside run
  | @overflow key page _ front back pages pageFits sizeFits =>
      obtain ⟨_, pageEq, _⟩ := reads.overflow sizeFits pageFits
      have isOverflow : pkeyIsCellType (btuGetCellFlags leaf index)
          .cellTypeOverflow = true := by
        rw [btuGetCellFlags, reads.flags_eq]
        rfl
      have few : chain.length < disk.maxPage + 1 := by
        have within : chain ⊆ List.range' 1 disk.maxPage := by
          intro own member
          have found := pages.present own member
          unfold Disk.buffer? at found
          rw [Option.isSome_map] at found
          have bounds := page?_isSome_iff.mp found
          rw [List.mem_range'_1]
          omega
        have shorter :=
          ((List.nodup_append.mp parts.2).1.subperm within).length_le
        rw [List.length_range'] at shorter
        omega
      obtain ⟨middle, freeEq, freed⟩ := freeOverflowPages_chain store pages
        parts.2 notFirst few
      obtain ⟨metaBytes, readEq, _⟩ := nodercReinitRead_holds
        (holds.congr (freed.buffer _)) freed.store
      simp only [isOverflow, if_true] at run
      unfold cellReadOverflow at run
      simp only [pageEq] at run
      rw [BtM.bind_ok (BtM.getDisk_apply disk),
        BtM.bind_ok (BtM.attempt_ok freeEq),
        BtM.bind_ok (BtM.attempt_ok readEq)] at run
      have again : SameCells leaf { leaf with metaBytes := metaBytes } :=
        ⟨rfl, rfl⟩
      have written := @removeAndPersist_stored tree middle after
        { leaf with metaBytes := metaBytes } stored index inside run
      have removed := again.removeAt index
      exact ⟨removed.keys.trans written.keys, removed.heap.trans written.heap⟩

end Deletion

end BtreeDb
