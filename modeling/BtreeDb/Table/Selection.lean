import BtreeDb.Table.Lookup
import BtreeDb.Tree.Selection

/-!
# Selections in a table

A selection in a table gives the requested record only, exactly where a record
with the key is stored and the tree is not too deep for the cursor.
-/

namespace BtreeDb

open PagedTree

theorem push_of {cursor next : Cursor} (pushEq : cursorPush cursor = .ok next)
    (disk : Disk) : push cursor disk = (.ok (.ok (), next), disk) := by
  unfold push CursorM.move moved
  dsimp only
  rw [pushEq]
  rfl

/-- Where the loop of `cursor_traverse_to_ex` returns, so does the traversal
that keeps its cursor. -/
theorem traverseTo_of_loop {tree : BTree}
    {searchKeys : BTreeNode → BtM (Bool × Nat)} :
    ∀ {fuel : Nat} {cursor result : Cursor} {found hit : Bool}
      {disk after : Disk},
      cursorTraverseLoop tree searchKeys fuel cursor found disk =
        (.ok (hit, result), after) →
      traverseTo tree searchKeys fuel found cursor disk =
        (.ok (.ok hit, result), after) := by
  intro fuel
  induction fuel with
  | zero =>
      intro cursor result found hit disk after ran
      cases ran
  | succ fuel inductionHypothesis =>
      intro cursor result found hit disk after ran
      rw [cursorTraverseLoop] at ran
      obtain ⟨node, loaded, readEq, ran⟩ := BtM.bind_eq_ok ran
      obtain ⟨⟨here, index⟩, searched, searchEq, ran⟩ := BtM.bind_eq_ok ran
      obtain ⟨next, same, pushEq, ran⟩ := BtM.bind_eq_ok ran
      rw [traverseTo, CursorM.bind_ok CursorM.getCursor_apply,
        CursorM.bind_ok (CursorM.lift_ok readEq),
        CursorM.bind_ok (CursorM.lift_ok searchEq)]
      dsimp only at pushEq ran ⊢
      rw [CursorM.bind_ok (CursorM.setCursor_apply _)]
      cases pushedEq : cursorPush { cursor with
          currentKeyIndex := initKeylistindexFromIndex node index } with
      | error reason =>
          rw [pushedEq] at pushEq
          cases pushEq
      | ok pushed =>
          rw [pushedEq] at pushEq
          obtain ⟨sameNext, sameDisk⟩ := Prod.mk.inj pushEq
          obtain rfl := Except.ok.inj sameNext
          subst sameDisk
          rw [CursorM.bind_ok (push_of pushedEq _)]
          by_cases goesOn : (!node.isLeaf &&
              (tree.type != .index || !(found || here))) = true
          · rw [if_pos goesOn] at ran ⊢
            obtain ⟨page, last, pageEq, ran⟩ := BtM.bind_eq_ok ran
            rw [CursorM.bind_ok (CursorM.lift_ok pageEq),
              CursorM.bind_ok CursorM.getCursor_apply,
              CursorM.bind_ok (CursorM.setCursor_apply _)]
            exact inductionHypothesis ran
          · rw [if_neg goesOn] at ran ⊢
            cases ran
            rfl

section Selection

variable {tree : BTree} {disk : Disk} {free pages : List Nat} {height : Nat}
variable {flat : List Mark} {chains : List Nat} {records : List TableRecord}

theorem searchesTree_keys (key top : Nat) :
    SearchesTree tree disk top fun node => pure (btreeNodeSearchKeys node key) :=
  fun _ page _ _ =>
    ⟨_, _, @SearchesKeys.index_le _ (searchesKeys_btreeNodeSearchKeys key)
      (loadedNode disk page) disk _ _ _ rfl, rfl⟩

/-- The cells of an inner node are child pages, the cells of a leaf records. -/
theorem TableStore.cellsReadable (isTable : tree.type = .table)
    (store : TableStore disk free tree.rootPageId height pages flat chains
      records) : CellsReadable tree disk height := by
  intro level page crumbs index way inside
  obtain ⟨steps, outside, own, before, part, behind, _, below, flatEq, _⟩ :=
    way.path (TableHolds.readsAs isTable store.valid.store) store.valid.tree
  cases level with
  | zero =>
      obtain ⟨contents, rfl⟩ := below
      cases contents with
      | @leaf node holds here isLeaf small =>
          subst here
          rw [holds.keysOn_eq store.valid.store] at inside
          have here := List.getElem?_eq_getElem inside
          have member : node.entries[index] ∈ entriesOf flat := by
            rw [flatEq, entriesOf_append, entriesOf_append, entriesOf_records]
            exact List.mem_append_right _
              (List.mem_append_left _ (List.getElem_mem inside))
          obtain ⟨place, atPlace⟩ := List.mem_iff_getElem?.mp member
          obtain ⟨payload, chain, _, _, _, resolves, _⟩ :=
            store.holds.around atPlace
          exact ⟨payload, .loaded store.valid.store holds here resolves⟩
  | succ level =>
      obtain ⟨seps, kids, contents, _⟩ := below.focus
      cases contents with
      | @inner node slots holds here isInner entriesEq children =>
          subst here
          rw [holds.keysOn_eq store.valid.store] at inside
          obtain ⟨entry, here⟩ : ∃ entry, node.entries[index]? = some entry :=
            ⟨_, List.getElem?_eq_getElem inside⟩
          have inSlots := here
          rw [entriesEq, List.getElem?_map] at inSlots
          obtain ⟨slot, _, rfl⟩ := Option.map_eq_some_iff.mp inSlots
          exact ⟨_, .loaded store.valid.store holds here .inline⟩

theorem TableStore.entry_of {record : TableRecord}
    (store : TableStore disk free tree.rootPageId height pages flat chains
      records) (member : record ∈ records) :
    ∃ entry chain, entry ∈ entriesOf flat ∧ entry.key = record.key ∧
      Resolves disk entry record.payload chain := by
  obtain ⟨index, bound, here⟩ := List.mem_iff_getElem.mp member
  have lengths := store.holds.length_eq
  have inside : index < (entriesOf flat).length := by omega
  obtain ⟨payload, chain, _, _, atIndex, resolves, _⟩ :=
    store.holds.around (List.getElem?_eq_getElem inside)
  rw [List.getElem?_eq_getElem bound, here] at atIndex
  obtain rfl := Option.some.inj atIndex
  exact ⟨_, chain, List.getElem_mem inside, rfl, resolves⟩

/-- A selection in a table gives the requested record only, exactly where a
record has the key and the cursor has room for the way to it. -/
theorem table_selectsRequested_iff (isTable : tree.type = .table)
    (store : TableStore disk free tree.rootPageId height pages flat chains
      records) (key : Nat) :
    (∀ bufferSize, SelectsRequested tree
        (fun node => pure (btreeNodeSearchKeys node key))
        (fun payload => (⟨key, payload⟩ : TableRecord) ∈ records) disk
        bufferSize) ↔
      (∃ payload, (⟨key, payload⟩ : TableRecord) ∈ records) ∧
        height + 2 ≤ maxBreadcrumbs := by
  have whole := store.valid.wellShaped isTable
  constructor
  · intro selects
    obtain ⟨cursor, hit, index, level, crumbs, way, _, _, few, stops, _,
      asked⟩ := selectsRequested_found whole (searchesTree_keys key height)
        (store.cellsReadable isTable) selects
    refine ⟨asked, ?_⟩
    have isLeaf : (loadedNode disk cursor.currentPageId).isLeaf = true := by
      rcases stops with isLeaf | isIndex
      · exact isLeaf
      · rw [isTable] at isIndex
        cases isIndex
    have bottom := (way.shape whole).isLeaf_iff.mp isLeaf
    have depth := way.length
    omega
  · rintro ⟨⟨payload, member⟩, shallow⟩ bufferSize
    obtain ⟨entry, chain, inFlat, keyEq, resolves⟩ := store.entry_of member
    obtain ⟨hit, leaf, crumbs, outside, before, behind, traverseEq, landing,
      hitIff⟩ := cursorTraverseTo_landing isTable store.valid (by omega) key
    have isHit : hit = true := hitIff.mpr ⟨_, mem_entriesOf.mp inFlat, keyEq⟩
    rw [isHit] at traverseEq
    have traversed := traverseTo_of_loop traverseEq
    obtain ⟨later, hit', index, level, crumbs', way, lands, outcome⟩ :=
      @traverseTo_lands tree disk height _ whole (searchesTree_keys key height)
        (maxBreadcrumbs + 1) _ _ _ (cursorCreate tree) false .root rfl rfl
        (by decide) (by decide)
    rw [traversed] at outcome
    have laterIs : later = ⟨leaf.pageNumber, landingIndex leaf key,
        ⟨landingIndex leaf key, leaf.pageNumber⟩ ::
          (crumbs ++ (cursorCreate tree).breadcrumbs)⟩ := by
      rcases outcome with deep | ⟨_, ended, _⟩
      · cases deep
      · have pairs := Except.ok.inj (Prod.mk.inj ended).1
        exact (Prod.mk.inj pairs).2.symm
    have here := landing.record_here store.valid inFlat keyEq
    have inside := (List.getElem?_eq_some_iff.mp here).1
    have indexIs : index = keyPlace leaf.entries key := by
      rw [← lands.number, laterIs]
      apply initKeylistindexFromIndex_index
      rw [entries_length] at inside
      exact Nat.le_of_lt inside
    have page : later.currentPageId = leaf.pageNumber := by rw [laterIs]
    rw [← laterIs] at traversed
    apply selectsRequested_of_found whole traversed way lands
    · rw [page, landing.holds.keysOn_eq store.valid.store, indexIs]
      exact inside
    · rw [page, indexIs]
      exact .loaded store.valid.store landing.holds here resolves
    · exact member

end Selection

end BtreeDb
