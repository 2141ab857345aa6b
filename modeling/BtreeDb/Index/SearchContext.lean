import BtreeDb.Index.SchemaSearch
import BtreeDb.Table.Scan

/-!
# The context of a search

`btree_node_search_keys` hands the context of `ibtls_compare` from one
comparison to the next, and a traversal from one node to the next.  The resets
let every comparison begin as the first one does.  In a node whose records begin
with the one column of a schema the search comes to the place of the key.
-/

namespace BtreeDb

open BinarySearch Bytes

/-! ## The code -/

/-- The loop of `btree_node_search_keys` with `ibtls_compare`: each comparison
has the context of the last one, after a reset.  The upper bound is
exclusive. -/
def ibtlsSearchLoop (memcmp : Memcmp) (key : List UInt8) (node : BTreeNode) :
    Nat → Nat → Nat → IBTLSCompareContext →
    BtM (IBTLSCompareContext × Bool × Nat)
  | 0, left, _, ctx => pure (ctx, false, left)
  | fuel + 1, left, right, ctx =>
      if left < right then do
        let mid := (right - 1 - left) / 2 + left
        let (ctx, result) ←
          ibtlsCompareCell memcmp (ibtlsResetCompare ctx) node mid key
        match searchTurn result with
        | .eq => pure (ctx, true, mid)
        | .lt => ibtlsSearchLoop memcmp key node fuel (mid + 1) right ctx
        | .gt => ibtlsSearchLoop memcmp key node fuel left mid ctx
      else
        pure (ctx, false, left)

/-- `btree_node_search_keys`, with the context that it leaves. -/
def ibtlsSearchNode (memcmp : Memcmp) (ctx : IBTLSCompareContext)
    (key : List UInt8) (node : BTreeNode) :
    BtM (IBTLSCompareContext × Bool × Nat) :=
  ibtlsSearchLoop memcmp key node node.numKeys 0 node.numKeys ctx

/-! ## The contexts of the searches for a key -/

/-- As `ibtls_init_compare_context_from_schema` leaves it, or set up for the
key, but for what a reset undoes. -/
def SearchContext (schema : IBTreeLayoutSchema) (type : PayloadCompareType)
    (key : List UInt8) (ctx : IBTLSCompareContext) : Prop :=
  ibtlsResetCompare ctx = ibtlsInitCompareContextFromSchema schema type ∨
    ibtlsResetCompare ctx =
      initIfNot (ibtlsInitCompareContextFromSchema schema type) key

section Context

variable {memcmp : Memcmp} {schema : IBTreeLayoutSchema}
variable {type : PayloadCompareType} {key : List UInt8}
variable {ctx after : IBTLSCompareContext} {node : BTreeNode}
variable {disk last : Disk} {index : Nat} {result : Int}

theorem searchContext_init : SearchContext schema type key
    (ibtlsInitCompareContextFromSchema schema type) := Or.inl rfl

theorem ibtlsResetCompare_initIfNot :
    ibtlsResetCompare
        (initIfNot (ibtlsInitCompareContextFromSchema schema type) key) =
      initIfNot (ibtlsInitCompareContextFromSchema schema type) key := by
  have cleared : List.replicate (min schema.keyDefinitions.length 4)
        VarsizeKeyState.zero ++
      (List.replicate 4 VarsizeKeyState.zero).drop
        schema.keyDefinitions.length = List.replicate 4 .zero := by
    rw [List.drop_replicate, List.replicate_append_replicate]
    congr 1
    omega
  unfold initIfNot ibtlsResetCompare ibtlsInitCompareContextFromSchema
  simp only [Bool.false_eq_true, if_false, cleared]

/-- A comparison sets up its context itself. -/
theorem ibtlsCompareCell_initIfNot :
    ibtlsCompareCell memcmp (initIfNot ctx key) node index key =
      ibtlsCompareCell memcmp ctx node index key := by
  unfold ibtlsCompareCell ibtlsCompare
  rw [initIfNot_initted initIfNot_initted_eq]

theorem SearchContext.compareCell
    (started : SearchContext schema type key ctx) :
    ibtlsCompareCell memcmp (ibtlsResetCompare ctx) node index key =
      ibtlsCompareCell memcmp (ibtlsInitCompareContextFromSchema schema type)
        node index key := by
  rcases started with fresh | setUp
  · rw [fresh]
  · rw [setUp, ibtlsCompareCell_initIfNot]

/-- The context of every comparison is one of these again. -/
theorem searchContext_compareCell (columns : schema.keyDefinitions ≠ [])
    (ran : ibtlsCompareCell memcmp
      (ibtlsInitCompareContextFromSchema schema type) node index key disk =
        (.ok (after, result), last)) : SearchContext schema type key after := by
  have inside : (initIfNot (ibtlsInitCompareContextFromSchema schema type)
      key).currKey < (initIfNot (ibtlsInitCompareContextFromSchema schema type)
        key).nvarkeys :=
    List.length_pos_iff.mpr columns
  right
  rw [ibtlsCompareCell_reset inside ran, ibtlsResetCompare_initIfNot]

/-! ## Comparisons read only -/

theorem btreeOverflowPeek_leavesDisk (pageId : Nat) :
    LeavesDisk (btreeOverflowPeek pageId) := by
  unfold btreeOverflowPeek
  refine leavesDisk_bind (readPage_leavesDisk _) fun page => ?_
  refine leavesDisk_bind (fun _ => rfl) fun disk => ?_
  exact leavesDisk_bind (leavesDisk_assert _) fun _ => leavesDisk_pure _

theorem ofExcept_leavesDisk {α : Type} (outcome : Except Stop α) :
    LeavesDisk (BtM.ofExcept outcome) := by
  intro disk
  cases outcome with
  | ok value => rfl
  | error reason => rfl

theorem ibtlsComparePages_leavesDisk {total : Nat} :
    ∀ {fuel nextPageId bytesCompared : Nat} {ctx : IBTLSCompareContext},
      LeavesDisk (ibtlsComparePages memcmp key total fuel nextPageId
        bytesCompared ctx) := by
  intro fuel
  induction fuel with
  | zero =>
      intro nextPageId bytesCompared ctx
      exact leavesDisk_stop _
  | succ fuel inductionHypothesis =>
      intro nextPageId bytesCompared ctx
      rw [ibtlsComparePages]
      refine leavesDisk_bind (btreeOverflowPeek_leavesDisk _) fun ov => ?_
      refine leavesDisk_bind (ofExcept_leavesDisk _) fun compared => ?_
      dsimp only
      split
      · exact leavesDisk_pure _
      · split
        · exact inductionHypothesis
        · exact leavesDisk_pure _

theorem ibtlsCompareCell_leavesDisk (ctx : IBTLSCompareContext) (index : Nat) :
    LeavesDisk (ibtlsCompareCell memcmp ctx node index key) := by
  unfold ibtlsCompareCell
  refine leavesDisk_bind (ofExcept_leavesDisk _) fun compared => ?_
  dsimp only
  split
  · exact leavesDisk_stop _
  · split
    · exact leavesDisk_pure _
    · split
      · exact leavesDisk_pure _
      · exact leavesDisk_bind (fun _ => rfl) fun _ =>
          ibtlsComparePages_leavesDisk

/-! ## The search with its context -/

/-- The comparison that the search without a context has. -/
def freshCompare (memcmp : Memcmp) (schema : IBTreeLayoutSchema)
    (type : PayloadCompareType) (key : List UInt8) (node : BTreeNode)
    (disk : Disk) (index : Nat) : Except Stop Ordering :=
  (((ibtlsCompareCell memcmp (ibtlsInitCompareContextFromSchema schema type)
    node index key disk).1).map Prod.snd).map searchTurn

/-- A search with a context of the key does what the search does that begins
afresh with each comparison, and leaves a context of the key. -/
theorem ibtlsSearchLoop_run (columns : schema.keyDefinitions ≠ []) :
    ∀ {fuel left right : Nat} {ctx : IBTLSCompareContext},
      SearchContext schema type key ctx →
      match loopM (freshCompare memcmp schema type key node disk) fuel left
        right with
      | .error reason =>
          ibtlsSearchLoop memcmp key node fuel left right ctx disk =
            (.error reason, disk)
      | .ok found => ∃ after, SearchContext schema type key after ∧
          ibtlsSearchLoop memcmp key node fuel left right ctx disk =
            (.ok (after, found), disk) := by
  intro fuel
  induction fuel with
  | zero =>
      intro left right ctx started
      exact ⟨ctx, started, rfl⟩
  | succ fuel inductionHypothesis =>
      intro left right ctx started
      rw [loopM, ibtlsSearchLoop]
      by_cases running : left < right
      · rw [if_pos running, if_pos running]
        dsimp only
        generalize (right - 1 - left) / 2 + left = mid
        rw [started.compareCell]
        have sameDisk := @ibtlsCompareCell_leavesDisk memcmp key node
          (ibtlsInitCompareContextFromSchema schema type) mid disk
        cases compared : ibtlsCompareCell memcmp
            (ibtlsInitCompareContextFromSchema schema type) node mid key
            disk with
        | mk outcome last =>
            rw [compared] at sameDisk
            have sameDisk : last = disk := sameDisk
            subst sameDisk
            cases outcome with
            | error reason =>
                have fails : freshCompare memcmp schema type key node last mid =
                    .error reason := by
                  unfold freshCompare
                  rw [compared]
                  rfl
                rw [fails]
                exact BtM.bind_error compared
            | ok pair =>
                obtain ⟨next, result⟩ := pair
                have gives : freshCompare memcmp schema type key node last mid =
                    .ok (searchTurn result) := by
                  unfold freshCompare
                  rw [compared]
                  rfl
                have kept := searchContext_compareCell columns compared
                rw [gives, BtM.bind_ok compared]
                dsimp only [bind, Except.bind]
                cases searchTurn result with
                | eq => exact ⟨next, kept, rfl⟩
                | lt => exact inductionHypothesis kept
                | gt => exact inductionHypothesis kept
      · rw [if_neg running, if_neg running]
        exact ⟨ctx, started, rfl⟩

/-- `ibtlsSearchKeys` is the search of the code. -/
theorem ibtlsSearchNode_searchKeys (columns : schema.keyDefinitions ≠ [])
    (started : SearchContext schema type key ctx) :
    match (ibtlsSearchKeys memcmp
        (ibtlsInitCompareContextFromSchema schema type) key node disk).1 with
    | .error reason =>
        ibtlsSearchNode memcmp ctx key node disk = (.error reason, disk)
    | .ok found => ∃ after, SearchContext schema type key after ∧
        ibtlsSearchNode memcmp ctx key node disk =
          (.ok (after, found), disk) := by
  have run := @ibtlsSearchLoop_run memcmp schema type key node disk columns
    node.numKeys 0 node.numKeys ctx started
  have searchEq : (ibtlsSearchKeys memcmp
      (ibtlsInitCompareContextFromSchema schema type) key node disk).1 =
        loopM (freshCompare memcmp schema type key node disk) node.numKeys 0
          node.numKeys := by
    unfold ibtlsSearchKeys nodeSearchKeys
    rw [BtM.bind_ok (BtM.getDisk_apply disk)]
    change (BtM.ofExcept (loopM (freshCompare memcmp schema type key node disk)
      node.numKeys 0 node.numKeys) disk).1 = _
    cases loopM (freshCompare memcmp schema type key node disk) node.numKeys 0
        node.numKeys with
    | error reason => rfl
    | ok found => rfl
  rw [searchEq]
  exact run

end Context

/-! ## A node of one column -/

/-- A record that is stored inline and begins with a value of the column. -/
inductive BeginsWith (value : List UInt8) : Entry → Prop where
  | inline {key : Nat} {more : List UInt8}
      (fits : (value ++ more).length + 4 < 2 ^ 31) : BeginsWith value
        ⟨key, cellTypeCode .cellTypeInline,
          le32 value.length ++ (value ++ more)⟩

/-- A node whose records begin with these values, in the order of the bytes. -/
structure ColumnNode (node : BTreeNode) (values : List (List UInt8)) :
    Prop where
  ok : NodeOk node
  cells : List.Forall₂ BeginsWith values node.entries
  increase : values.Pairwise fun left right => compare left right = .lt

theorem searchTurn_signOf (order : Ordering) :
    searchTurn (signOf order) = order := by
  cases order <;> rfl

section Column

variable {memcmp : Memcmp} {type : PayloadCompareType}
variable {node : BTreeNode} {values : List (List UInt8)}
variable {searched tail : List UInt8} {ctx : IBTLSCompareContext} {disk : Disk}

/-- No value behind one that is not smaller is smaller. -/
theorem sides_of_increase
    (increase : values.Pairwise fun left right => compare left right = .lt) :
    values.Pairwise fun left right =>
      compare left searched = .lt ∨ compare right searched = .gt := by
  refine increase.imp ?_
  intro left right less
  cases side : compare left searched with
  | lt => exact Or.inl rfl
  | eq =>
      have same := Std.LawfulEqOrd.eq_of_compare side
      rw [same] at less
      exact Or.inr (Std.OrientedCmp.gt_iff_lt.mpr less)
  | gt =>
      have below := Std.OrientedCmp.gt_iff_lt.mp side
      exact Or.inr (Std.OrientedCmp.gt_iff_lt.mpr
        (Std.TransCmp.lt_trans below less))

/-- Where a value is, or belongs. -/
def columnPlace (values : List (List UInt8)) (searched : List UInt8) : Nat :=
  lowerBound (fun value => compare value searched) values

theorem search_column_present
    (increase : values.Pairwise fun left right => compare left right = .lt)
    (present : searched ∈ values) :
    search (compareAt (fun value => compare value searched) values)
        values.length = (true, columnPlace values searched) ∧
      values[columnPlace values searched]? = some searched := by
  have ordered := @sides_of_increase values searched increase
  obtain ⟨place, inside, here⟩ := List.getElem_of_mem present
  have isThere := List.getElem?_eq_some_iff.mpr ⟨inside, here⟩
  have found := search_present ordered isThere Std.ReflOrd.compare_self
  have samePlace : columnPlace values searched = place := by
    have both := (search_ordered ordered).symm.trans found
    exact (Prod.mk.inj both).2
  rw [samePlace]
  exact ⟨found, isThere⟩

theorem search_column_absent
    (increase : values.Pairwise fun left right => compare left right = .lt)
    (absent : searched ∉ values) :
    search (compareAt (fun value => compare value searched) values)
        values.length = (false, columnPlace values searched) ∧
      (values.take (columnPlace values searched) ++ searched ::
        values.drop (columnPlace values searched)).Pairwise
          fun left right => compare left right = .lt := by
  have ordered := @sides_of_increase values searched increase
  have differs : ∀ value ∈ values, compare value searched ≠ .eq := by
    intro value member equal
    rw [Std.LawfulEqOrd.eq_of_compare equal] at member
    exact absent member
  constructor
  · have notFound : ¬ (columnPlace values searched < values.length ∧
        compareAt (fun value => compare value searched) values
          (columnPlace values searched) = .eq) := by
      rintro ⟨inside, equal⟩
      unfold compareAt at equal
      rw [List.getElem?_eq_getElem inside] at equal
      exact differs _ (List.getElem_mem inside) equal
    refine (search_ordered ordered).trans ?_
    exact congrArg (·, columnPlace values searched) (decide_eq_false notFound)
  · have before : ∀ value ∈ values.take (columnPlace values searched),
        compare value searched = .lt := fun _ => take_lowerBound
    have behind : ∀ value ∈ values.drop (columnPlace values searched),
        compare searched value = .lt := by
      intro value member
      have notLess := drop_lowerBound ordered member
      have notEqual := differs value (List.mem_of_mem_drop member)
      cases side : compare value searched with
      | lt => exact absurd side notLess
      | eq => exact absurd side notEqual
      | gt => exact Std.OrientedCmp.gt_iff_lt.mp side
    have front := increase.sublist
      (List.take_sublist (columnPlace values searched) values)
    have back := increase.sublist
      (List.drop_sublist (columnPlace values searched) values)
    refine List.pairwise_append.mpr
      ⟨front, List.pairwise_cons.mpr ⟨behind, back⟩, ?_⟩
    intro left inFront right member
    have less := before left inFront
    rcases List.mem_cons.mp member with rfl | later
    · exact less
    · exact Std.TransCmp.lt_trans less (behind right later)

theorem ColumnNode.length_eq (holds : ColumnNode node values) :
    node.keys.length = values.length := by
  rw [← entries_length]
  exact holds.cells.length_eq.symm

/-- Each comparison of the search is that of the values. -/
theorem ColumnNode.compares (exact : memcmp.Exact)
    (holds : ColumnNode node values) (searchedFits : searched.length < 2 ^ 31)
    (apart : ∀ value ∈ values, value = searched ∨ ¬ value <+: searched)
    {index : Nat} (bound : index < values.length) :
    freshCompare memcmp varsizeSchema type
        (le32 searched.length ++ (searched ++ tail)) node disk index =
      .ok (compareAt (fun value => compare value searched) values index) := by
  obtain ⟨lengths, each⟩ := List.forall₂_iff_get.mp holds.cells
  have inside : index < node.entries.length := by
    rw [← lengths]
    exact bound
  have begins := each index bound inside
  have here := List.getElem?_eq_getElem inside
  simp only [List.get_eq_getElem] at begins
  generalize node.entries[index] = entry at begins here
  have member : values[index] ∈ values := List.getElem_mem bound
  unfold compareAt
  rw [List.getElem?_eq_getElem bound]
  generalize values[index] = value at begins member
  cases begins with
  | @inline key more fits =>
      obtain ⟨after, compared⟩ := @ibtlsCompareCell_column memcmp type value
        more searched tail disk node index key exact holds.ok here fits
        searchedFits (apart _ member)
      unfold freshCompare
      rw [compared]
      exact congrArg Except.ok (searchTurn_signOf _)

/-- The search without a context, with a failure of a comparison as its own. -/
theorem ColumnNode.searchM_eq (exact : memcmp.Exact)
    (holds : ColumnNode node values) (searchedFits : searched.length < 2 ^ 31)
    (apart : ∀ value ∈ values, value = searched ∨ ¬ value <+: searched) :
    searchM (freshCompare memcmp varsizeSchema type
        (le32 searched.length ++ (searched ++ tail)) node disk) node.numKeys =
      .ok (decide (searched ∈ values), columnPlace values searched) := by
  have searchEq : searchM (freshCompare memcmp varsizeSchema type
      (le32 searched.length ++ (searched ++ tail)) node disk) node.numKeys =
        .ok (search (compareAt (fun value => compare value searched) values)
          values.length) := by
    rw [show node.numKeys = values.length from holds.length_eq]
    exact searchM_eq_pure fun index bound =>
      holds.compares exact searchedFits apart bound
  rw [searchEq]
  by_cases present : searched ∈ values
  · rw [decide_eq_true present, (search_column_present holds.increase present).1]
  · rw [decide_eq_false present, (search_column_absent holds.increase present).1]

theorem ColumnNode.searchKeys (exact : memcmp.Exact)
    (holds : ColumnNode node values) (searchedFits : searched.length < 2 ^ 31)
    (apart : ∀ value ∈ values, value = searched ∨ ¬ value <+: searched) :
    ibtlsSearchKeys memcmp
        (ibtlsInitCompareContextFromSchema varsizeSchema type)
        (le32 searched.length ++ (searched ++ tail)) node disk =
      (.ok (decide (searched ∈ values), columnPlace values searched),
        disk) := by
  have searchEq := @ColumnNode.searchM_eq memcmp type node values searched tail
    disk exact holds searchedFits apart
  unfold ibtlsSearchKeys nodeSearchKeys
  rw [BtM.bind_ok (BtM.getDisk_apply disk)]
  change BtM.ofExcept (searchM (freshCompare memcmp varsizeSchema type
    (le32 searched.length ++ (searched ++ tail)) node disk) node.numKeys)
      disk = _
  rw [searchEq]
  rfl

end Column

/-- The names `a` and `bc`, each with a number. -/
def namesNode : BTreeNode :=
  loadedNode (diskOfNodes 400
    [(true, 0, [(0, le32 1 ++ ([97] ++ le32 5)),
      (0, le32 2 ++ ([98, 99] ++ le32 7))])]) 1

theorem namesNode_columns : ColumnNode namesNode [[97], [98, 99]] where
  ok := by decide +kernel
  cells := by
    have entries : namesNode.entries =
        [⟨0, cellTypeCode .cellTypeInline, le32 1 ++ ([97] ++ le32 5)⟩,
          ⟨0, cellTypeCode .cellTypeInline,
            le32 2 ++ ([98, 99] ++ le32 7)⟩] := by
      decide +kernel
    rw [entries]
    exact .cons (.inline (by decide)) (.cons (.inline (by decide)) .nil)
  increase := by decide

end BtreeDb
