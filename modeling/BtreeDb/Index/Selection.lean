import BtreeDb.Table.Selection
import BtreeDb.Table.Update

/-!
# Selections in an index

A comparison that is consistent with the order of an index puts every record
before the key, at it or behind it.  A selection gives the requested record
only, exactly where a record at the key is on one of the levels that the cursor
has room for.
-/

namespace BtreeDb

open BinarySearch PagedTree Bytes

theorem Resolves.rekeyed {disk : Disk} {key other flags : Nat}
    {cell payload : List UInt8} {chain : List Nat}
    (resolves : Resolves disk ⟨key, flags, cell⟩ payload chain) :
    Resolves disk ⟨other, flags, cell⟩ payload chain := by
  cases resolves with
  | inline => exact .inline
  | overflow pages pageFits sizeFits => exact .overflow pages pageFits sizeFits

/-- A record of an index and its payload. -/
def IndexRecord.Gives (disk : Disk) (record : IndexRecord)
    (payload : List UInt8) : Prop :=
  ∃ chain, Resolves disk ⟨0, record.flags, record.cell⟩ payload chain

/-- Comparing the key with a cell of the tree says on which side of the key
its record is. -/
def ComparesSides (ctx : BTreeCompareContext) (key : List UInt8)
    (side : IndexRecord → Ordering) (disk : Disk) (pages : List Nat) : Prop :=
  ∀ page ∈ pages, ∀ (index : Nat) (entry : Entry),
    (loadedNode disk page).entries[index]? = some entry →
      ((btreeNodeCompareCell ctx (loadedNode disk page) index key disk).1).map
        searchTurn = .ok (side entry.record)

/-- The records before the key are in front of those behind it, and only one
record is at the key. -/
def SidesOrdered (side : IndexRecord → Ordering) (flat : List IndexRecord) :
    Prop :=
  flat.Pairwise fun left right => side left = .lt ∨ side right = .gt

section Selection

variable {tree : BTree} {disk : Disk} {free pages : List Nat} {height : Nat}
variable {before : IndexRecord → IndexRecord → Prop} {flat : List IndexRecord}
variable {ctx : BTreeCompareContext} {key : List UInt8}
variable {side : IndexRecord → Ordering}

/-- The search of a page is the search of its records. -/
theorem ComparesSides.searched (compares : ComparesSides ctx key side disk pages)
    {page : Nat} (member : page ∈ pages) :
    ibtreeSearchKeys ctx key (loadedNode disk page) disk =
      (.ok (search (compareAt side
        ((loadedNode disk page).entries.map Entry.record))
          (keysOn disk page)), disk) := by
  have pure : searchM (fun index =>
      ((btreeNodeCompareCell ctx (loadedNode disk page) index key disk).1).map
        searchTurn) (keysOn disk page) =
      .ok (search (compareAt side
        ((loadedNode disk page).entries.map Entry.record))
          (keysOn disk page)) := by
    apply searchM_eq_pure
    intro index bound
    have inside : index < (loadedNode disk page).entries.length := by
      rw [entries_length]
      exact bound
    have here := List.getElem?_eq_getElem inside
    rw [compares page member index _ here]
    unfold compareAt
    rw [List.getElem?_map, here]
    rfl
  unfold ibtreeSearchKeys nodeSearchKeys
  rw [BtM.bind_ok (BtM.getDisk_apply disk)]
  change BtM.ofExcept (searchM _ (keysOn disk page)) disk = _
  rw [pure]
  rfl

theorem IndexTree.way_mem (isIndex : tree.type = .index)
    (valid : IndexTree before disk free tree.rootPageId height pages flat)
    {level page : Nat} {crumbs : List CursorBreadcrumb}
    (way : WayDown tree disk height level page crumbs) : page ∈ pages := by
  obtain ⟨steps, outside, own, front, part, behind, _, below, _, pagesEq⟩ :=
    way.path (IndexHolds.readsAs isIndex valid.store) valid.tree
  exact pagesEq.mem_iff.mp (List.mem_append_right _ below.root_mem)

theorem IndexHolds.loaded_records {page : Nat} {kids : List Nat}
    {seps : List IndexRecord} (holds : IndexHolds disk page (.inner kids seps))
    (store : Store disk free) :
    (loadedNode disk page).entries.map Entry.record = seps := by
  cases holds with
  | @inner node holds here isInner small =>
      subst here
      obtain ⟨metaBytes, loadedEq⟩ := holds.loadedNode_eq store
      rw [loadedEq]
      rfl

/-- The records of a page are records of the tree below it. -/
theorem IndexHolds.records {page level : Nat} {own : List Nat}
    {part : List IndexRecord}
    (below : TreeAt (IndexHolds disk) level page own part) :
    ∃ node, Holds disk node ∧ node.pageNumber = page ∧
      (node.entries.map Entry.record).Sublist part := by
  cases level with
  | zero =>
      obtain ⟨contents, _⟩ := below
      cases contents with
      | @leaf node holds here isLeaf small =>
          exact ⟨node, holds, here, List.Sublist.refl _⟩
  | succ level =>
      obtain ⟨seps, kids, contents, _, sublist, _⟩ := below.focus
      cases contents with
      | @inner node holds here isInner small =>
          exact ⟨node, holds, here, sublist⟩

theorem IndexTree.searches (isIndex : tree.type = .index)
    (valid : IndexTree before disk free tree.rootPageId height pages flat)
    (compares : ComparesSides ctx key side disk pages) :
    SearchesTree tree disk height (ibtreeSearchKeys ctx key) := by
  intro level page crumbs way
  exact ⟨_, _, search_snd_le _ _,
    compares.searched (valid.way_mem isIndex way)⟩

/-- A cell of the tree is one of its records, and is read back. -/
theorem IndexTree.cell (isIndex : tree.type = .index)
    (valid : IndexTree before disk free tree.rootPageId height pages flat)
    {level page index : Nat} {crumbs : List CursorBreadcrumb} {entry : Entry}
    (way : WayDown tree disk height level page crumbs)
    (here : (loadedNode disk page).entries[index]? = some entry) :
    entry.record ∈ flat ∧ ∀ payload, entry.record.Gives disk payload →
      ReadsBack disk (loadedNode disk page) index payload := by
  obtain ⟨steps, outside, own, front, part, behind, _, below, flatEq, _⟩ :=
    way.path (IndexHolds.readsAs isIndex valid.store) valid.tree
  obtain ⟨node, holds, rfl, sublist⟩ := IndexHolds.records below
  obtain ⟨metaBytes, loadedEq⟩ := holds.loadedNode_eq valid.store
  have inNode : node.entries[index]? = some entry := by
    rw [← here, loadedEq]
    rfl
  constructor
  · rw [flatEq]
    exact List.mem_append_right _ (List.mem_append_left _ (sublist.subset
      (List.mem_map_of_mem (List.mem_of_getElem? inNode))))
  · rintro payload ⟨chain, resolves⟩
    exact .loaded valid.store holds inNode resolves.rekeyed

theorem IndexTree.cellsReadable (isIndex : tree.type = .index)
    (valid : IndexTree before disk free tree.rootPageId height pages flat)
    (readable : ∀ record ∈ flat, ∃ payload, record.Gives disk payload) :
    CellsReadable tree disk height := by
  intro level page crumbs index way inside
  have bound : index < (loadedNode disk page).entries.length := by
    rw [entries_length]
    exact inside
  obtain ⟨member, readsBack⟩ :=
    valid.cell isIndex way (List.getElem?_eq_getElem bound)
  obtain ⟨payload, gives⟩ := readable _ member
  exact ⟨payload, readsBack payload gives⟩

/-! ## The way to a record -/

/-- A record of a child lies between the records around the child. -/
theorem splits_child {front : List (PagedTree.Part IndexRecord × IndexRecord)}
    {mid : List IndexRecord}
    {back : List (IndexRecord × PagedTree.Part IndexRecord)}
    {record : IndexRecord}
    (sided : SidesOrdered side (leftFlat front ++ (mid ++ rightFlat back)))
    (member : record ∈ mid) (asked : side record = .eq) :
    search (compareAt side (front.map Prod.snd ++ back.map Prod.fst))
        (front.map Prod.snd ++ back.map Prod.fst).length =
      (false, front.length) := by
  obtain ⟨_, later, frontBefore⟩ := List.pairwise_append.mp sided
  obtain ⟨_, _, backBehind⟩ := List.pairwise_append.mp later
  have lower : ∀ sep ∈ front.map Prod.snd, side sep = .lt := by
    intro sep inFront
    obtain ⟨entry, entryMember, rfl⟩ := List.mem_map.mp inFront
    have inFlat : entry.2 ∈ leftFlat front :=
      List.mem_flatMap.mpr ⟨entry, entryMember,
        List.mem_append_right _ (List.mem_singleton_self _)⟩
    rcases frontBefore _ inFlat record (List.mem_append_left _ member)
      with less | more
    · exact less
    · rw [asked] at more
      cases more
  have upper : ∀ sep ∈ back.map Prod.fst, side sep = .gt := by
    intro sep inBack
    obtain ⟨entry, entryMember, rfl⟩ := List.mem_map.mp inBack
    have inFlat : entry.1 ∈ rightFlat back :=
      List.mem_flatMap.mpr ⟨entry, entryMember, List.mem_cons_self⟩
    rcases backBehind record member _ inFlat with less | more
    · rw [asked] at less
      cases less
    · exact more
  have atFront : ∀ index, index < front.length →
      compareAt side (front.map Prod.snd ++ back.map Prod.fst) index =
        .lt := by
    intro index below
    have inside : index < (front.map Prod.snd).length := by simpa using below
    unfold compareAt
    rw [List.getElem?_append_left inside, List.getElem?_eq_getElem inside]
    exact lower _ (List.getElem_mem inside)
  have atBack : ∀ index, front.length ≤ index →
      compareAt side (front.map Prod.snd ++ back.map Prod.fst) index =
        .gt := by
    intro index above
    unfold compareAt
    rw [List.getElem?_append_right (by simpa using above)]
    cases here : (back.map Prod.fst)[index - (front.map Prod.snd).length]? with
    | none => rfl
    | some sep => exact upper _ (List.mem_of_getElem? here)
  rw [@search_eq_of_splits _ _ front.length
    ⟨by simp, atFront, fun index above _ => atBack index (Nat.le_of_lt above),
      fun _ => by rw [atBack _ (Nat.le_refl _)]; exact nofun⟩,
    atBack _ (Nat.le_refl _)]
  simp

/-- The traversal goes down to every page that has the key's record below it. -/
theorem traverseTo_reaches (isIndex : tree.type = .index)
    (valid : IndexTree before disk free tree.rootPageId height pages flat)
    (compares : ComparesSides ctx key side disk pages)
    (sided : SidesOrdered side flat) {level page : Nat}
    {crumbs : List CursorBreadcrumb}
    (way : WayDown tree disk height level page crumbs) :
    ∃ own part front behind, TreeAt (IndexHolds disk) level page own part ∧
      flat = front ++ (part ++ behind) ∧
      ∀ (fuel : Nat) (record : IndexRecord), record ∈ part →
        side record = .eq → crumbs.length + 1 ≤ maxBreadcrumbs →
        ∃ keyIndex, traverseTo tree (ibtreeSearchKeys ctx key)
            (fuel + crumbs.length) false (cursorCreate tree) disk =
          traverseTo tree (ibtreeSearchKeys ctx key) fuel false
            ⟨page, keyIndex, crumbs ++ [rootCrumb tree]⟩ disk := by
  have whole := valid.wellShaped isIndex
  induction way with
  | root =>
      refine ⟨pages, flat, [], [], valid.tree, by simp, ?_⟩
      intro fuel record _ _ _
      exact ⟨_, rfl⟩
  | @child level page index crumbs above bound inductionHypothesis =>
      obtain ⟨own, part, front, behind, below, flatEq, reaches⟩ :=
        inductionHypothesis
      obtain ⟨seps, kids, contents, lengths, _, children⟩ := below.focus
      have reads := IndexHolds.readsAs isIndex valid.store page _ contents
      obtain ⟨isInner, keysEq, kidAt⟩ := reads.inner kids seps rfl
      obtain ⟨lower, mid, upper, lowerLength, kidsEq, sepsEq, partEq, _, _,
        midTree, _⟩ := children index (keysEq ▸ bound)
      have childEq : readCellPage tree (loadedNode disk page) index =
          .ok mid.kid := by
        apply kidAt
        rw [kidsEq, List.getElem?_append_right (by simp [leftKids, lowerLength])]
        simp [leftKids, lowerLength]
      have childIs : childPage tree disk page index = mid.kid := by
        unfold childPage
        rw [childEq]
      rw [childIs]
      refine ⟨mid.pages, mid.flat, front ++ leftFlat lower,
        rightFlat upper ++ behind, midTree, ?_, ?_⟩
      · rw [flatEq, partEq]
        simp only [List.append_assoc]
      · intro fuel record member asked few
        rw [List.length_cons] at few
        have inPart : record ∈ part := by
          rw [partEq]
          exact List.mem_append_right _ (List.mem_append_left _ member)
        obtain ⟨keyIndex, ran⟩ :=
          reaches (fuel + 1) record inPart asked (by omega)
        have sidedHere : SidesOrdered side
            (leftFlat lower ++ (mid.flat ++ rightFlat upper)) := by
          unfold SidesOrdered at sided ⊢
          rw [flatEq, partEq] at sided
          exact (List.pairwise_append.mp
            (List.pairwise_append.mp sided).2.1).1
        have searched := compares.searched (valid.way_mem isIndex above)
        rw [contents.loaded_records valid.store, keysEq, sepsEq,
          splits_child sidedHere member asked, lowerLength] at searched
        have turn := @traverseTo_turn tree disk height _ fuel _ _ _ false
          false _ ⟨page, keyIndex, crumbs ++ [rootCrumb tree]⟩ whole above rfl
          searched
        have goesOn : (!(loadedNode disk page).isLeaf &&
            (tree.type != .index || !(false || false))) = true := by
          rw [isInner]
          cases tree.type <;> rfl
        have room : (crumbs ++ [rootCrumb tree]).length < maxBreadcrumbs := by
          rw [List.length_append, List.length_singleton]
          omega
        rw [List.length_cons, Nat.add_comm crumbs.length, ← Nat.add_assoc, ran,
          turn, CursorM.bind_ok (push_apply room), if_pos goesOn,
          CursorM.bind_ok (CursorM.lift_ok
            (by rw [childEq]; exact BtM.ofExcept_ok _ _)),
          CursorM.bind_ok CursorM.getCursor_apply,
          CursorM.bind_ok (CursorM.setCursor_apply _)]
        exact ⟨_, rfl⟩

/-- The traversal stops at the key's record, if the cursor has room for it. -/
theorem traversal_stops (isIndex : tree.type = .index)
    (valid : IndexTree before disk free tree.rootPageId height pages flat)
    (compares : ComparesSides ctx key side disk pages)
    (sided : SidesOrdered side flat) {level page place : Nat}
    {crumbs : List CursorBreadcrumb} {entry : Entry}
    (way : WayDown tree disk height level page crumbs)
    (here : (loadedNode disk page).entries[place]? = some entry)
    (asked : side entry.record = .eq)
    (few : crumbs.length + 2 ≤ maxBreadcrumbs) :
    ∃ cursor index, selectTraversal tree (ibtreeSearchKeys ctx key) disk =
        (.ok (.ok true, cursor), disk) ∧
      cursor.currentPageId = page ∧
      Lands tree disk (ibtreeSearchKeys ctx key) true cursor index := by
  have whole := valid.wellShaped isIndex
  obtain ⟨own, part, front, behind, below, flatEq, reaches⟩ :=
    traverseTo_reaches isIndex valid compares sided way
  obtain ⟨node, holds, rfl, sublist⟩ := IndexHolds.records below
  obtain ⟨metaBytes, loadedEq⟩ := holds.loadedNode_eq valid.store
  have sameEntries : (loadedNode disk node.pageNumber).entries =
      node.entries := by
    rw [loadedEq]
    rfl
  have recordHere : (node.entries.map Entry.record)[place]? =
      some entry.record := by
    rw [List.getElem?_map, ← sameEntries, here]
    rfl
  have inPart := sublist.subset (List.mem_of_getElem? recordHere)
  have partSided : SidesOrdered side (node.entries.map Entry.record) := by
    unfold SidesOrdered at sided ⊢
    rw [flatEq] at sided
    exact ((List.pairwise_append.mp
      (List.pairwise_append.mp sided).2.1).1).sublist sublist
  have searched := compares.searched (valid.way_mem isIndex way)
  have found := search_present partSided recordHere asked
  rw [List.length_map] at found
  rw [sameEntries, holds.keysOn_eq valid.store, found] at searched
  have inside := (List.getElem?_eq_some_iff.mp here).1
  obtain ⟨keyIndex, ran⟩ := reaches (maxBreadcrumbs - crumbs.length + 1)
    entry.record inPart asked (by omega)
  have turn := @traverseTo_turn tree disk height _ (maxBreadcrumbs -
    crumbs.length) _ _ _ false true _ ⟨node.pageNumber, keyIndex,
      crumbs ++ [rootCrumb tree]⟩ whole way rfl searched
  have stops : ¬ (!(loadedNode disk node.pageNumber).isLeaf &&
      (tree.type != .index || !(false || true))) = true := by
    rw [isIndex]
    cases (loadedNode disk node.pageNumber).isLeaf <;> decide
  have room : (crumbs ++ [rootCrumb tree]).length < maxBreadcrumbs := by
    rw [List.length_append, List.length_singleton]
    omega
  have fuelEq : maxBreadcrumbs - crumbs.length + 1 + crumbs.length =
      maxBreadcrumbs + 1 := by omega
  rw [fuelEq, turn, CursorM.bind_ok (push_apply room), if_neg stops] at ran
  refine ⟨_, place, ran, rfl, ?_, searched, rfl⟩
  rw [sameEntries] at inside
  change place ≤ keysOn disk node.pageNumber
  rw [holds.keysOn_eq valid.store]
  exact Nat.le_of_lt inside

theorem Lands.at_key (isIndex : tree.type = .index)
    (valid : IndexTree before disk free tree.rootPageId height pages flat)
    (compares : ComparesSides ctx key side disk pages) {cursor : Cursor}
    {index level : Nat} {crumbs : List CursorBreadcrumb}
    (way : WayDown tree disk height level cursor.currentPageId crumbs)
    (lands : Lands tree disk (ibtreeSearchKeys ctx key) true cursor index) :
    index < keysOn disk cursor.currentPageId ∧
      ∃ entry, (loadedNode disk cursor.currentPageId).entries[index]? =
        some entry ∧ side entry.record = .eq := by
  have searched := compares.searched (valid.way_mem isIndex way)
  rw [lands.searched] at searched
  have result := Except.ok.inj (Prod.mk.inj searched).1
  have found := congrArg Prod.fst result
  have place := congrArg Prod.snd result
  dsimp only at found place
  obtain ⟨inside, equal⟩ := search_found found.symm
  rw [← place] at inside equal
  refine ⟨inside, ?_⟩
  unfold compareAt at equal
  rw [List.getElem?_map] at equal
  cases here : (loadedNode disk cursor.currentPageId).entries[index]? with
  | none =>
      rw [here] at equal
      cases equal
  | some entry =>
      rw [here] at equal
      exact ⟨entry, rfl, equal⟩

/-- A record at the key is on a level that the cursor has room for. -/
def KeyInReach (tree : BTree) (disk : Disk) (top : Nat)
    (side : IndexRecord → Ordering) : Prop :=
  ∃ (level page : Nat) (crumbs : List CursorBreadcrumb) (index : Nat)
      (entry : Entry),
    WayDown tree disk top level page crumbs ∧
    (loadedNode disk page).entries[index]? = some entry ∧
    side entry.record = .eq ∧ crumbs.length + 2 ≤ maxBreadcrumbs

/-- A selection in an index gives the requested record only, exactly where a
record at the key is in reach. -/
theorem index_selectsRequested_iff (isIndex : tree.type = .index)
    (valid : IndexTree before disk free tree.rootPageId height pages flat)
    (compares : ComparesSides ctx key side disk pages)
    (sided : SidesOrdered side flat)
    (readable : ∀ record ∈ flat, ∃ payload, record.Gives disk payload) :
    (∀ bufferSize, SelectsRequested tree (ibtreeSearchKeys ctx key)
        (fun payload => ∃ record ∈ flat, side record = .eq ∧
          record.Gives disk payload) disk bufferSize) ↔
      KeyInReach tree disk height side := by
  have whole := valid.wellShaped isIndex
  constructor
  · intro selects
    obtain ⟨cursor, hit, index, level, crumbs, way, lands, inside, few, _,
      isHit, _⟩ := selectsRequested_found whole
        (valid.searches isIndex compares) (valid.cellsReadable isIndex readable)
        selects
    rw [isHit isIndex] at lands
    obtain ⟨_, entry, here, asked⟩ := lands.at_key isIndex valid compares way
    exact ⟨level, _, crumbs, index, entry, way, here, asked, few⟩
  · rintro ⟨level, page, crumbs, index, entry, way, here, asked, few⟩ bufferSize
    obtain ⟨cursor, place, traversed, rfl, lands⟩ :=
      traversal_stops isIndex valid compares sided way here asked few
    obtain ⟨inside, found, foundHere, equal⟩ :=
      lands.at_key isIndex valid compares way
    obtain ⟨member, readsBack⟩ := valid.cell isIndex way foundHere
    obtain ⟨payload, gives⟩ := readable _ member
    exact selectsRequested_of_found whole traversed way lands inside
      (readsBack payload gives) ⟨found.record, member, equal, gives⟩ bufferSize

end Selection

/-- Selections in tables and in indexes give the requested record only, exactly
where the key has a record in reach. -/
theorem selection_gives_requested_iff {tree : BTree} {disk : Disk}
    {free pages : List Nat} {height : Nat} :
    (∀ {chains : List Nat} {flat : List Mark} {records : List TableRecord},
      tree.type = .table →
      TableStore disk free tree.rootPageId height pages flat chains records →
      ∀ key, (∀ bufferSize, SelectsRequested tree
          (fun node => pure (btreeNodeSearchKeys node key))
          (fun payload => (⟨key, payload⟩ : TableRecord) ∈ records) disk
          bufferSize) ↔
        (∃ payload, (⟨key, payload⟩ : TableRecord) ∈ records) ∧
          height + 2 ≤ maxBreadcrumbs) ∧
    (∀ {before : IndexRecord → IndexRecord → Prop} {flat : List IndexRecord}
      {ctx : BTreeCompareContext} {key : List UInt8}
      {side : IndexRecord → Ordering},
      tree.type = .index →
      IndexTree before disk free tree.rootPageId height pages flat →
      ComparesSides ctx key side disk pages → SidesOrdered side flat →
      (∀ record ∈ flat, ∃ payload, record.Gives disk payload) →
      ((∀ bufferSize, SelectsRequested tree (ibtreeSearchKeys ctx key)
          (fun payload => ∃ record ∈ flat, side record = .eq ∧
            record.Gives disk payload) disk bufferSize) ↔
        KeyInReach tree disk height side)) :=
  ⟨fun isTable store => table_selectsRequested_iff isTable store,
    fun isIndex valid compares sided readable =>
      index_selectsRequested_iff isIndex valid compares sided readable⟩

/-! ## Small trees -/

/-- Three records, one of them in the root. -/
def threeRecordsDisk : Disk :=
  diskOfNodes 216
    [(false, 3, [(2, [40])]), (true, 0, [(0, [20])]), (true, 0, [(0, [60])])]

def threeRecordsTree : BTree := ⟨1, .index, 1⟩

/-- Where a record is beside the key 40. -/
def sideOfForty (record : IndexRecord) : Ordering :=
  compare (record.cell.headD 0) 40

theorem threeRecords_checked :
    checkIndex threeRecordsDisk [] 1 1 =
        some ([1, 2, 3], [⟨1, [20]⟩, ⟨1, [40]⟩, ⟨1, [60]⟩]) ∧
      ∀ page ∈ [1, 2, 3],
        ∀ place ∈ (loadedNode threeRecordsDisk page).entries.zipIdx,
          ((btreeNodeCompareCell (ibtreeContext signMemcmp)
            (loadedNode threeRecordsDisk page) place.2 [40]
              threeRecordsDisk).1).map searchTurn =
            .ok (sideOfForty place.1.record) := by
  decide +kernel

theorem threeRecords_sides :
    ComparesSides (ibtreeContext signMemcmp) [40] sideOfForty threeRecordsDisk
        [1, 2, 3] ∧
      SidesOrdered sideOfForty [⟨1, [20]⟩, ⟨1, [40]⟩, ⟨1, [60]⟩] := by
  refine ⟨?_, by unfold SidesOrdered; decide⟩
  intro page member index entry here
  exact threeRecords_checked.2 page member (entry, index)
    (List.mk_mem_zipIdx_iff_getElem?.mpr here)

theorem small_selections_give_requested :
    ((∀ bufferSize, SelectsRequested twoRecordsTree
        (fun node => pure (btreeNodeSearchKeys node 2))
        (fun payload => (⟨2, payload⟩ : TableRecord) ∈
          [⟨1, [10]⟩, ⟨2, [20]⟩]) twoRecordsDisk bufferSize) ↔
      (∃ payload, (⟨2, payload⟩ : TableRecord) ∈ [⟨1, [10]⟩, ⟨2, [20]⟩]) ∧
        0 + 2 ≤ maxBreadcrumbs) ∧
    ((∀ bufferSize, SelectsRequested threeRecordsTree
        (ibtreeSearchKeys (ibtreeContext signMemcmp) [40])
        (fun payload => ∃ record ∈
          [⟨1, [20]⟩, ⟨1, [40]⟩, ⟨1, [60]⟩], sideOfForty record = .eq ∧
            record.Gives threeRecordsDisk payload) threeRecordsDisk
        bufferSize) ↔
      KeyInReach threeRecordsTree threeRecordsDisk 1 sideOfForty) := by
  constructor
  · exact selection_gives_requested_iff.1 rfl twoRecords_store 2
  · have valid : IndexTree (fun left right => left.cell < right.cell)
        threeRecordsDisk [] threeRecordsTree.rootPageId 1 [1, 2, 3]
        [⟨1, [20]⟩, ⟨1, [40]⟩, ⟨1, [60]⟩] :=
      checkIndex_sound threeRecords_checked.1 (by decide)
    have readable : ∀ record ∈
        ([⟨1, [20]⟩, ⟨1, [40]⟩, ⟨1, [60]⟩] : List IndexRecord),
        ∃ payload, record.Gives threeRecordsDisk payload := by
      intro record member
      simp only [List.mem_cons, List.not_mem_nil, or_false] at member
      rcases member with rfl | rfl | rfl <;> exact ⟨_, [], .inline⟩
    exact selection_gives_requested_iff.2 rfl valid threeRecords_sides.1
      threeRecords_sides.2 readable

/-- A selection by a missing key reports it, and the commit then gives the
first record. -/
theorem missing_key_gives_neighbour :
    TableStore twoRecordsDisk [] twoRecordsTree.rootPageId 0 [1]
        [.record ⟨1, 1, [10]⟩, .record ⟨2, 1, [20]⟩] []
        [⟨1, [10]⟩, ⟨2, [20]⟩] ∧
      ((do
        let op ← btreeOpSelectPrepare twoRecordsTree
          (fun node => pure (btreeNodeSearchKeys node 0))
          (btreeOpSelectAcquire twoRecordsTree)
        let (committed, written) ← btreeOpSelectCommit op 1
        pure (op.lastStatus, op.step, committed.lastStatus, written) :
          BtM _) twoRecordsDisk).1 =
        .ok (some .errKeyNotFound, .prepared, none, [10]) ∧
      ¬ SelectsRequested twoRecordsTree
        (fun node => pure (btreeNodeSearchKeys node 0))
        (fun payload => (⟨0, payload⟩ : TableRecord) ∈
          [⟨1, [10]⟩, ⟨2, [20]⟩]) twoRecordsDisk 1 := by
  have ran : ((do
      let op ← btreeOpSelectPrepare twoRecordsTree
        (fun node => pure (btreeNodeSearchKeys node 0))
        (btreeOpSelectAcquire twoRecordsTree)
      let (committed, written) ← btreeOpSelectCommit op 1
      pure (op.lastStatus, op.step, committed.lastStatus, written) :
        BtM _) twoRecordsDisk).1 =
      .ok (some .errKeyNotFound, .prepared, none, [10]) := by
    decide +kernel
  refine ⟨twoRecords_store, ran, ?_⟩
  rintro ⟨prepared, committed, written, prepareEq, commitEq, missing, _⟩
  rw [BtM.bind_ok prepareEq, BtM.bind_ok commitEq] at ran
  obtain ⟨isMissing, step⟩ := Prod.mk.inj (Except.ok.inj ran)
  have marked := (missing isMissing).1
  rw [marked] at step
  cases (Prod.mk.inj step).1

end BtreeDb
