import BtreeDb.Table.InsertRun
import BtreeDb.Tree.Check

/-!
# Insertions of one size

When all payloads have the same size and are stored in their cells, every half
of a split node has room for the record the split is made for.  With keys that
are not negative as `int`, a run of insertions then goes wrong only where an
inner page other than the root is split, where a node has more keys than the
writer's search sees, or where the root is split while it lists free pages.
-/

namespace BtreeDb

open PagedTree Runs

/-! ## Nodes with cells of one size -/

section Uniform

variable {node : BTreeNode} {disk : Disk} {size need key : Nat}

theorem sum_heapSize_eq {entries : List Entry}
    (uniform : ∀ entry ∈ entries, entry.heapSize = need) :
    (entries.map Entry.heapSize).sum = entries.length * need := by
  induction entries with
  | nil => simp
  | cons entry entries inductionHypothesis =>
      rw [List.map_cons, List.sum_cons, List.length_cons,
        uniform entry List.mem_cons_self,
        inductionHypothesis fun other member =>
          uniform other (List.mem_cons_of_mem _ member), Nat.succ_mul,
        Nat.add_comm]

theorem halfFor_sublist (node : BTreeNode) (key : Nat) :
    (halfFor node key).Sublist node.entries := by
  unfold halfFor
  split
  · exact List.take_sublist _ _
  · exact List.drop_sublist _ _

theorem halfFor_length_le (node : BTreeNode) (key : Nat) :
    (halfFor node key).length ≤ (node.numKeys + 1) / 2 := by
  unfold halfFor leftHalf
  split
  · rw [List.length_take]
    split <;> omega
  · rw [List.length_drop, entries_length]
    unfold BTreeNode.numKeys
    omega

/-- A half of a full node takes one more cell of the size. -/
theorem half_takes_uniform (roomy : Roomy disk) (ok : NodeOk node)
    (sameSize : node.pageSize = disk.pageSize) (small : SmallCells node)
    (uniform : ∀ entry ∈ node.entries, entry.heapSize =
      heapRequiredForInsertion (cellInlineDiskSize size))
    (inline : heapRequiredForInsertion (cellInlineDiskSize size) ≤
      heapCapacity 0 disk.pageSize / 4)
    (full : ¬ Takes (btreeNodeMaxCellSize node) node.freeHeap size) :
    Takes (heapCapacity 0 disk.pageSize / 4)
      (heapCapacity 0 disk.pageSize -
        ((halfFor node key).map Entry.heapSize).sum) size := by
  have several := four_of_full ok small (free_of_full roomy sameSize full)
  have whole := ok.freeHeap_add
  rw [sum_heapSize_eq uniform, entries_length, sameSize] at whole
  have half := halfFor_length_le node key
  have wider : heapCapacity node.pageNumber disk.pageSize ≤
      heapCapacity 0 disk.pageSize := heapCapacity_le _ _ (by decide)
  unfold Takes
  rw [if_pos inline, sum_heapSize_eq fun entry member =>
    uniform entry ((halfFor_sublist node key).subset member)]
  have more : ((halfFor node key).length + 1) *
      heapRequiredForInsertion (cellInlineDiskSize size) ≤
        node.numKeys * heapRequiredForInsertion (cellInlineDiskSize size) :=
    Nat.mul_le_mul_right _ (by omega)
  rw [Nat.succ_mul] at more
  unfold BTreeNode.numKeys at more
  omega

theorem asInt_le_iff {left right : Nat} (leftLow : left < 2 ^ 31)
    (rightLow : right < 2 ^ 31) : asInt left ≤ asInt right ↔ left ≤ right := by
  unfold asInt
  rw [if_pos leftLow, if_pos rightLow]
  exact Int.ofNat_le

theorem splitKey_mem (nonempty : node.numKeys ≠ 0) :
    ∃ pivot ∈ node.entries, splitKey node = pivot.key := by
  obtain ⟨inside, _, _⟩ := half_bounds nonempty rfl
  exact ⟨_, List.getElem_mem inside,
    splitKey_eq (List.getElem?_eq_getElem inside)⟩

end Uniform

/-! ## One insertion -/

/-- A record of a size for a key splits no page but its leaf and a root above
it, which lists no free pages then, and the nodes it goes to have fewer keys
than a byte counts. -/
def SplitsLow (tree : BTree) (disk : Disk) (key size : Nat) : Prop :=
  match stackPages tree disk key with
  | page :: above :: _ =>
      if Takes (btreeNodeMaxCellSize (loadedNode disk page))
          (loadedNode disk page).freeHeap size then
        (loadedNode disk page).numKeys < 2 ^ 8
      else (halfFor (loadedNode disk page) key).length < 2 ^ 8 ∧
        if page = tree.rootPageId then ListsNoFree disk page
        else if Takes (btreeNodeMaxCellSize (loadedNode disk above))
            (loadedNode disk above).freeHeap 4 then
          (loadedNode disk above).numKeys < 2 ^ 8
        else above = tree.rootPageId ∧ ListsNoFree disk above ∧
          (halfFor (loadedNode disk above)
            (splitKey (loadedNode disk page))).length < 2 ^ 8
  | _ => False

instance (tree : BTree) (disk : Disk) (key size : Nat) :
    Decidable (SplitsLow tree disk key size) := by
  unfold SplitsLow
  match stackPages tree disk key with
  | [] => exact instDecidableFalse
  | [_] => exact instDecidableFalse
  | _ :: _ :: _ => dsimp only; infer_instance

/-- A table of at most three levels with cells of one size and keys that are
not negative. -/
def UniformTable (tree : BTree) (pageSize size : Nat) (disk : Disk)
    (records : List TableRecord) : Prop :=
  ∃ free height pages flat chains,
    TableStore disk free tree.rootPageId height pages flat chains records ∧
    disk.pageSize = pageSize ∧ height ≤ 2 ∧
    (∀ entry ∈ entriesOf flat, entry.heapSize =
      heapRequiredForInsertion (cellInlineDiskSize size)) ∧
    ∀ mark ∈ flat, mark.key < 2 ^ 31

section Step

variable {tree : BTree} {disk : Disk} {free pages chains : List Nat}
variable {height key size : Nat} {flat : List Mark}
variable {records : List TableRecord}
variable (isTable : tree.type = .table)
  (table : TableStore disk free tree.rootPageId height pages flat chains records)
  (shallow : height + 1 < maxBreadcrumbs)
  (uniform : ∀ entry ∈ entriesOf flat, entry.heapSize =
    heapRequiredForInsertion (cellInlineDiskSize size))
  (low : ∀ mark ∈ flat, mark.key < 2 ^ 31)
  (inline : heapRequiredForInsertion (cellInlineDiskSize size) ≤
    heapCapacity tree.rootPageId disk.pageSize / 4)
  (keyLow : key < 2 ^ 31)

include isTable table shallow uniform low inline keyLow

/-- With cells of one size there is nothing more to ask. -/
theorem insertFits_of_uniform (splits : SplitsLow tree disk key size) :
    InsertFits tree disk key size := by
  have valid := table.valid
  obtain ⟨hit, leaf, crumbs, outside, before, behind, cursor, landing, loadedEq,
    _, stackEq, rootIff, _⟩ := stackPages_landing isTable table shallow key
  have wide : heapCapacity tree.rootPageId disk.pageSize / 4 ≤
      heapCapacity 0 disk.pageSize / 4 :=
    share_le _ fun isFirst => absurd isFirst (by decide)
  have leafSize := landing.holds.pageSize_eq valid.store
  have leafEntries : ∀ entry ∈ leaf.entries, entry ∈ entriesOf flat := by
    intro entry member
    rw [landing.leafAt.entriesOf_eq]
    exact List.mem_append_right _ (List.mem_append_left _ member)
  have leafAdmits : ¬ Takes (btreeNodeMaxCellSize leaf) leaf.freeHeap size →
      (halfFor leaf key).length < 2 ^ 8 →
        splitKey leaf < 2 ^ 31 ∧ HalfAdmits disk.pageSize leaf key size := by
    intro full few
    have several := four_of_full landing.holds.ok landing.small
      (free_of_full valid.roomy leafSize full)
    obtain ⟨pivot, pivotIn, pivotKey⟩ := @splitKey_mem leaf (by omega)
    have splitLow : splitKey leaf < 2 ^ 31 := by
      rw [pivotKey]
      exact low _ (mem_entriesOf.mp (leafEntries pivot pivotIn))
    exact ⟨splitLow, asInt_le_iff keyLow splitLow, few,
      half_takes_uniform valid.roomy landing.holds.ok leafSize landing.small
        (fun entry member => uniform entry (leafEntries entry member))
        (Nat.le_trans inline wide) full⟩
  unfold SplitsLow at splits
  unfold InsertFits
  rw [stackEq] at splits ⊢
  cases crumbs with
  | nil =>
      simp only [List.map_nil, List.nil_append, loadedEq] at splits ⊢
      by_cases takes : Takes (btreeNodeMaxCellSize leaf) leaf.freeHeap size
      · rw [if_pos takes] at splits ⊢
        exact splits
      · rw [if_neg takes, if_pos (rootIff.mpr rfl)] at splits ⊢
        exact ⟨(leafAdmits takes splits.1).2, splits.2⟩
  | cons crumb crumbs =>
      simp only [List.map_cons, List.cons_append, loadedEq] at splits ⊢
      have notRoot : leaf.pageNumber ≠ tree.rootPageId := fun isRoot =>
        List.cons_ne_nil _ _ (rootIff.mp isRoot)
      by_cases takes : Takes (btreeNodeMaxCellSize leaf) leaf.freeHeap size
      · rw [if_pos takes] at splits ⊢
        exact splits
      · rw [if_neg takes, if_neg notRoot] at splits ⊢
        obtain ⟨splitLow, admits⟩ := leafAdmits takes splits.1
        refine ⟨admits, ?_⟩
        unfold SeparatorFits
        by_cases parentTakes :
            Takes (btreeNodeMaxCellSize (loadedNode disk crumb.pageId))
              (loadedNode disk crumb.pageId).freeHeap 4
        · rw [if_pos parentTakes] at splits ⊢
          exact splits.2
        · rw [if_neg parentTakes] at splits ⊢
          obtain ⟨isRoot, none, few⟩ := splits.2
          refine ⟨isRoot, none, ?_⟩
          -- the parent is an inner node with the separators of the tree
          obtain ⟨page, front, back, lower, above, pre, post, stepsEq, rfl, rfl,
            hangs⟩ := hangs_of_path landing.path notRoot
          have pageEq : crumb.pageId = page :=
            congrArg Step.page (List.cons.inj stepsEq).1
          rw [pageEq] at parentTakes few ⊢
          have ordered := valid.ordered
          rw [landing.flatEq] at ordered
          obtain ⟨onPage, slots, has, contentEq, _⟩ :=
            hangs.loaded valid.store ordered
          have parentSize := onPage.1.pageSize_eq valid.store
          have slotSize : ∀ entry ∈ (loadedNode disk page).entries,
              entry.heapSize =
                heapRequiredForInsertion (cellInlineDiskSize 4) := by
            intro entry member
            rw [has.entriesEq] at member
            obtain ⟨slot, _, rfl⟩ := List.mem_map.mp member
            exact slot.entry_heapSize
          have wideNode := valid.roomy.maxCellSize parentSize
          have twenty : heapRequiredForInsertion (cellInlineDiskSize 4) = 20 := rfl
          have small : SmallCells (loadedNode disk page) := by
            intro entry member
            rw [slotSize entry member, twenty]
            omega
          have share : 20 ≤ heapCapacity 0 disk.pageSize / 4 := by
            have least : heapCapacity (loadedNode disk page).pageNumber
                disk.pageSize / 4 ≤ heapCapacity 0 disk.pageSize / 4 :=
              share_le _ fun isFirst => absurd isFirst (by decide)
            unfold btreeNodeMaxCellSize at wideNode
            rw [btuGetNodeHeapSize_eq, parentSize] at wideNode
            omega
          have several := four_of_full onPage.1.ok small
            (free_of_full valid.roomy parentSize parentTakes)
          obtain ⟨pivot, pivotIn, pivotKey⟩ :=
            @splitKey_mem (loadedNode disk page) (by omega)
          have pivotLow : splitKey (loadedNode disk page) < 2 ^ 31 := by
            rw [has.entriesEq] at pivotIn
            obtain ⟨slot, slotIn, rfl⟩ := List.mem_map.mp pivotIn
            rw [pivotKey]
            have inSeps : Mark.separator slot.key ∈ sepsOf slots :=
              List.mem_map_of_mem slotIn
            rw [← (PNode.inner.inj contentEq).2] at inSeps
            refine low (.separator slot.key) ?_
            rw [landing.flatEq]
            rcases List.mem_append.mp inSeps with inFront | inBack
            · exact List.mem_append_left _
                (List.mem_append_right _ (mem_leftFlat inFront))
            · exact List.mem_append_right _ (List.mem_append_right _
                (List.mem_append_left _ (mem_rightFlat inBack)))
          exact ⟨asInt_le_iff splitLow pivotLow, few,
            half_takes_uniform valid.roomy onPage.1.ok parentSize small slotSize
              (by rw [twenty]; exact share) parentTakes⟩

end Step

/-! ## Runs -/

/-- A call that splits low, with page numbers left for it. -/
def CallSplitsLow (tree : BTree) (disk : Disk) (call : TableRecord) : Prop :=
  SplitsLow tree disk call.key call.payload.length ∧
    disk.maxPage + call.payload.length + 16 < pageIdLimit

instance (tree : BTree) (disk : Disk) (call : TableRecord) :
    Decidable (CallSplitsLow tree disk call) :=
  inferInstanceAs (Decidable (_ ∧ _))

/-- Calls with distinct keys that are not negative and payloads of one size,
which is small enough for the cells of every page of the tree. -/
structure UniformCalls (tree : BTree) (pageSize size : Nat)
    (calls : List TableRecord) : Prop where
  distinct : (calls.map TableRecord.key).Nodup
  keysLow : ∀ call ∈ calls, call.key < 2 ^ 31
  same : ∀ call ∈ calls, call.payload.length = size
  inline : heapRequiredForInsertion (cellInlineDiskSize size) ≤
    heapCapacity tree.rootPageId pageSize / 4

/-- A table without records: its root is a leaf without entries. -/
def EmptyTable (disk : Disk) (root : Nat) : Prop :=
  ∃ free, TableStore disk free root 0 [root] [] [] []

/-- The tree is a valid search tree that holds exactly the given records in the
order of their keys, and finds each of them. -/
def SearchTreeOf (tree : BTree) (disk : Disk) (calls : List TableRecord) :
    Prop :=
  ∃ records, records.Perm calls ∧
    records.Pairwise (fun left right => left.key < right.key) ∧
    HasTable disk tree.rootPageId records ∧ FindsAll tree disk calls

section Run

variable {tree : BTree} {start disk : Disk} {size pageSize : Nat}
variable {records calls : List TableRecord}

theorem TableStore.increase {free pages chains : List Nat} {root height : Nat}
    {flat : List Mark}
    (table : TableStore disk free root height pages flat chains records) :
    records.Pairwise fun left right => left.key < right.key := by
  have increase := keysIncrease_entriesOf table.valid.ordered
  unfold KeysIncrease at increase
  have keys : (entriesOf flat).map Entry.key = records.map TableRecord.key :=
    table.holds.keys_eq.symm
  have ordered := List.pairwise_map.mpr increase
  rw [keys] at ordered
  exact List.pairwise_map.mp ordered

theorem uniformTable_insert {call : TableRecord} (isTable : tree.type = .table)
    (uniform : UniformTable tree pageSize size disk records)
    (absent : ∀ record ∈ records, record.key ≠ call.key)
    (keyLow : call.key < 2 ^ 31) (same : call.payload.length = size)
    (inline : heapRequiredForInsertion (cellInlineDiskSize size) ≤
      heapCapacity tree.rootPageId pageSize / 4)
    (splits : CallSplitsLow tree disk call) :
    UniformTable tree pageSize size (insertStep tree disk call)
      (addRecord call.key call.payload records) := by
  obtain ⟨free, height, pages, flat, chains, table, rfl, isLow, cells, low⟩ :=
    uniform
  subst same
  have shallow : height + 1 < maxBreadcrumbs := by
    unfold maxBreadcrumbs
    omega
  have sizeFits : call.payload.length < 2 ^ 32 := by
    have fits := table.valid.roomy.fits
    have capacity : heapCapacity tree.rootPageId disk.pageSize ≤
        disk.pageSize := by
      unfold heapCapacity
      omega
    unfold heapRequiredForInsertion cellInlineDiskSize pageKeySize at inline
    omega
  obtain ⟨after, insertEq, inserted⟩ := btreeInsert_inserted isTable table shallow
    absent (Nat.lt_trans keyLow (by decide)) sizeFits splits.2
    (insertFits_of_uniform isTable table shallow cells low inline keyLow splits.1)
  obtain ⟨rest, high, grown, marks, more, grownTable, bound, marksGrow⟩ :=
    inserted.table
  have entryLow : ∀ entry ∈ entriesOf marks, entry.key < 2 ^ 31 := by
    intro entry member
    rcases marksGrow.entries entry member with old | ⟨isNew, _⟩
    · exact low _ (mem_entriesOf.mp old)
    · rw [isNew]
      exact keyLow
  unfold insertStep
  rw [insertEq]
  refine ⟨rest, high, grown, marks, more, grownTable, inserted.pageSize, by omega,
    ?_, ?_⟩
  · intro entry member
    rcases marksGrow.entries entry member with old | ⟨_, isInline⟩
    · exact cells entry old
    · rw [isInline inline]
      unfold Entry.heapSize heapRequiredForInsertion cellInlineDiskSize
        pageKeySize
      dsimp only
      omega
  · intro mark member
    cases mark with
    | record entry => exact entryLow entry (mem_entriesOf.mpr member)
    | separator high =>
        rcases marksGrow.separators high member with old | ⟨entry, inside, same⟩
        · exact low _ old
        · rw [← same]
          exact entryLow entry inside

/-- Runs of insertions of one size that all split low keep the tree valid. -/
theorem uniform_inserts_keep_tree (isTable : tree.type = .table)
    (empty : EmptyTable start tree.rootPageId)
    (uniform : UniformCalls tree start.pageSize size calls)
    (run : Run (insertStep tree) (CallSplitsLow tree) start calls disk) :
    SearchTreeOf tree disk calls := by
  obtain ⟨free, table⟩ := empty
  have begins : UniformTable tree start.pageSize size start [] :=
    ⟨free, 0, _, _, _, table, rfl, Nat.zero_le 2,
      fun entry member => absurd member List.not_mem_nil,
      fun mark member => absurd member List.not_mem_nil⟩
  have kept := @Run.induct _ _ _ _ _ (fun calls disk =>
    UniformCalls tree start.pageSize size calls →
      UniformTable tree start.pageSize size disk (addRecords [] calls))
    (fun _ => begins) (by
      intro calls state call inductionHypothesis met uniform
      have isLast : call ∈ calls ++ [call] :=
        List.mem_append_right _ (List.mem_singleton_self _)
      have distinct := uniform.distinct
      rw [List.map_append] at distinct
      have earlier : UniformCalls tree start.pageSize size calls :=
        ⟨(List.nodup_append.mp distinct).1,
          fun other member => uniform.keysLow other
            (List.mem_append_left _ member),
          fun other member => uniform.same other
            (List.mem_append_left _ member), uniform.inline⟩
      rw [addRecords_append]
      refine uniformTable_insert isTable (inductionHypothesis earlier) ?_
        (uniform.keysLow call isLast) (uniform.same call isLast) uniform.inline
        met
      intro record member
      have inCalls := (addRecords_perm [] calls).mem_iff.mp member
      exact (List.nodup_append.mp distinct).2.2 record.key
        (List.mem_map_of_mem inCalls) call.key (by simp)) _ _ run uniform
  obtain ⟨rest, height, pages, flat, chains, grown, _, isLow, _⟩ := kept
  have same := addRecords_perm [] calls
  have found := grown.findsAll isTable (by unfold maxBreadcrumbs; omega)
  refine ⟨addRecords [] calls, same, grown.increase,
    ⟨rest, height, pages, flat, chains, grown⟩, ?_⟩
  exact fun record member => found record (same.mem_iff.mpr member)

end Run

/-! ## Growing keys -/

def growingTree : BTree := ⟨2, .table, 0⟩

/-- An empty leaf on page 2. -/
def growingStart : Disk := diskOfNodes 216 [(true, 0, []), (true, 0, [])]

/-- Records with growing keys, four of which fill a leaf. -/
def growingCalls (count : Nat) : List TableRecord :=
  (List.range count).map fun index => ⟨index + 1, List.replicate 33 7⟩

theorem growingStart_empty : EmptyTable growingStart growingTree.rootPageId :=
  ⟨[], checkTable_sound (by decide +kernel), .nil, by decide, by decide⟩

theorem growingCalls_uniform (count : Nat) (few : count ≤ 33) :
    UniformCalls growingTree growingStart.pageSize 33 (growingCalls count) := by
  have keysEq : (growingCalls count).map TableRecord.key =
      (List.range count).map (· + 1) := by
    unfold growingCalls
    rw [List.map_map]
    rfl
  refine ⟨?_, ?_, ?_, by decide⟩
  · rw [keysEq]
    exact List.nodup_range.map fun left right same => Nat.succ.inj same
  · intro call member
    obtain ⟨index, inRange, rfl⟩ := List.mem_map.mp member
    have bound := List.mem_range.mp inRange
    dsimp only
    omega
  · intro call member
    obtain ⟨index, _, rfl⟩ := List.mem_map.mp member
    exact List.length_replicate

/-- Up to the split of the root the tree is kept. -/
theorem growing_few_keep_tree :
    SearchTreeOf growingTree
      ((growingCalls 5).foldl (insertStep growingTree) growingStart)
      (growingCalls 5) :=
  uniform_inserts_keep_tree rfl growingStart_empty
    (growingCalls_uniform 5 (by decide))
    (run_of_allMeet (by decide +kernel))

/-- The call that splits an inner page other than the root loses a record. -/
theorem growing_many_lose_record :
    EmptyTable growingStart growingTree.rootPageId ∧
      UniformCalls growingTree growingStart.pageSize 33 (growingCalls 33) ∧
      Run (insertStep growingTree) (fun _ _ => True) growingStart
        (growingCalls 33)
        ((growingCalls 33).foldl (insertStep growingTree) growingStart) ∧
      ¬ SearchTreeOf growingTree
        ((growingCalls 33).foldl (insertStep growingTree) growingStart)
        (growingCalls 33) := by
  have lost : (btreeSelectEx growingTree 29 33 ((growingCalls 33).foldl
      (insertStep growingTree) growingStart)).1 =
        .error (.err .errKeyNotFound) := by
    decide +kernel
  refine ⟨growingStart_empty, growingCalls_uniform 33 (by decide),
    run_of_allMeet (allMeet_of_forall (fun _ _ => trivial) _ _), ?_⟩
  rintro ⟨records, same, _, _, found⟩
  have present : (⟨29, List.replicate 33 7⟩ : TableRecord) ∈
      growingCalls 33 := by decide
  have finds := found _ present 33 (by decide)
  rw [finds] at lost
  cases lost

end BtreeDb
