import BtreeDb.Table.Around
import BtreeDb.Table.InsertTree
import BtreeDb.Table.InsertTurns
import BtreeDb.Tree.Placed

/-!
# One insertion

What `btree_insert` does to a table when no page but a leaf and the root above
it is split: the table has the record afterwards.
-/

namespace BtreeDb

open PagedTree Disk

/-! ## The grown table -/

/-- The marks of a tree with one record more: no other entry is new, and every
new separator has the key of an entry. -/
structure MarksGrow (flat marks : List Mark) (key most : Nat)
    (payload : List UInt8) : Prop where
  entries : ∀ entry ∈ entriesOf marks, entry ∈ entriesOf flat ∨
    entry.key = key ∧ InlineIfSmall most key payload entry
  separators : ∀ high, Mark.separator high ∈ marks →
    Mark.separator high ∈ flat ∨
      ∃ entry ∈ entriesOf marks, entry.key = high

theorem InlineIfSmall.mono {most more key : Nat} {data : List UInt8}
    {entry : Entry} (inline : InlineIfSmall more key data entry)
    (le : most ≤ more) : InlineIfSmall most key data entry :=
  fun small => inline (Nat.le_trans small le)

/-- Cells that the root of a tree can have may be on any page of the tree. -/
theorem share_le (pageSize : Nat) {root page : Nat}
    (rooted : page = 1 → root = 1) :
    heapCapacity root pageSize / 4 ≤ heapCapacity page pageSize / 4 := by
  by_cases isFirst : page = 1
  · rw [isFirst, rooted isFirst]
  · exact Nat.div_le_div_right (heapCapacity_le root pageSize isFirst)

section Grown

variable {disk middle after : Disk}
variable {free between rest pages outside chain chains : List Nat}
variable {root height high key : Nat} {flat before behind : List Mark}
variable {leaf left right : BTreeNode} {steps : List Step} {entry : Entry}
variable {payload : List UInt8} {records : List TableRecord}
variable {new touched added grown : List Nat}

theorem Landing.leaf_mem
    (landing : Landing disk root height key pages flat leaf steps outside
      before behind) : leaf.pageNumber ∈ pages :=
  landing.pagesEq.mem_iff.mp
    (List.mem_append_right _ (List.mem_singleton_self _))

theorem TableStore.outside_pages
    (table : TableStore disk free root height pages flat chains records)
    (landing : Landing disk root height key pages flat leaf steps outside
      before behind) :
    ∀ page ∈ outside, page ∈ pages ∧ page ≠ leaf.pageNumber := by
  intro page member
  have distinct := (List.nodup_append.mp table.apart).1
  refine ⟨landing.pagesEq.mem_iff.mp (List.mem_append_left _ member), ?_⟩
  exact (List.nodup_append.mp (landing.pagesEq.nodup_iff.mpr distinct)).2.2
    page member leaf.pageNumber (List.mem_singleton_self _)

variable
  (table : TableStore disk free root height pages flat chains records)
  (landing : Landing disk root height key pages flat leaf steps outside before
    behind)
  (divided : Divided disk free leaf key payload middle between left right entry
    new chain)

include landing divided

omit table in
theorem Divided.marksGrow :
    MarksGrow flat (dividedMarks before behind left right (splitKey leaf)) key
      (heapCapacity root disk.pageSize / 4) payload := by
  have entriesEq := @Divided.entriesOf_eq disk middle free between new chain
    leaf left right key payload entry before behind divided landing.isLeaf
  have bound := keyPlace_le leaf.entries key
  refine ⟨?_, ?_⟩
  · rw [entriesEq, landing.leafAt.entriesOf_eq]
    intro other member
    rcases List.mem_append.mp member with inBefore | later
    · exact Or.inl (List.mem_append_left _ inBefore)
    · rcases List.mem_append.mp later with inLeaf | inBehind
      · rcases (ListEdit.mem_insertIdx_iff bound).mp inLeaf with rfl | old
        · exact Or.inr ⟨divided.key_eq, divided.inline.mono
          (share_le _ fun isFirst => absurd isFirst (by decide))⟩
        · exact Or.inl (List.mem_append_right _ (List.mem_append_left _ old))
      · exact Or.inl
          (List.mem_append_right _ (List.mem_append_right _ inBehind))
  · intro mark member
    unfold dividedMarks at member
    rcases List.mem_append.mp member with front | back
    · rcases List.mem_append.mp front with inBefore | inLeft
      · refine Or.inl ?_
        rw [landing.flatEq]
        exact List.mem_append_left _ inBefore
      · obtain ⟨_, _, absurdity⟩ := List.mem_map.mp inLeft
        cases absurdity
    · rcases List.mem_cons.mp back with new | later
      · obtain ⟨pivot, inLeft, pivotKey⟩ := divided.pivot
        rw [divided.leftPart_leaf landing.isLeaf] at inLeft
        refine Or.inr ⟨pivot, ?_, pivotKey.trans (Mark.separator.inj new).symm⟩
        rw [mem_entriesOf]
        exact List.mem_append_left _
          (List.mem_append_right _ (List.mem_map_of_mem inLeft))
      · rcases List.mem_append.mp later with inRight | inBehind
        · obtain ⟨_, _, absurdity⟩ := List.mem_map.mp inRight
          cases absurdity
        · refine Or.inl ?_
          rw [landing.flatEq]
          exact List.mem_append_right _ (List.mem_append_right _ inBehind)

include table

/-- The table after a leaf has been divided and other pages of the tree have
been written over. -/
theorem Divided.tableStore (absent : ∀ record ∈ records, record.key ≠ key)
    (later : Updates middle between after rest touched added)
    (touchedIn : ∀ page ∈ touched, page ∈ pages)
    (newTree : TreeAt (TableHolds after) high root grown
      (dividedMarks before behind left right (splitKey leaf)))
    (grownEq : grown.Perm (pages ++ (new ++ added))) (addedNotFirst : 1 ∉ added) :
    ∃ more, more.Perm (chains ++ chain) ∧ TableStore after rest root high grown
      (dividedMarks before behind left right (splitKey leaf)) more
      (addRecord key payload records) := by
  have whole := divided.updates.trans later
  have usedApart : ((pages ++ chains) ++ free).Nodup := by
    rw [List.append_assoc]
    exact table.apart
  have apartAfter := whole.used_apart usedApart table.present
  have apart : (grown ++ ((chains ++ chain) ++ rest)).Nodup := by
    refine (List.Perm.nodup_iff ?_).mp apartAfter
    refine List.perm_iff_count.mpr ?_
    intro page
    have counts := List.perm_iff_count.mp grownEq page
    simp only [List.count_append] at counts ⊢
    omega
  have ordered := divided.ordered landing.isLeaf (landing.ordered_insert
    table.valid.ordered divided.key_eq (landing.absent table absent))
  have treeApart : (grown ++ rest).Nodup :=
    apart.sublist ((List.sublist_append_right _ _).append_left grown)
  have valid : TableTree after rest root high grown
      (dividedMarks before behind left right (splitKey leaf)) := by
    refine ⟨table.valid.roomy.congr whole.pageSize, later.store, newTree, ordered,
      treeApart, ?_⟩
    intro isFirst
    rcases List.mem_append.mp (grownEq.mem_iff.mp isFirst) with old | fresh
    · exact table.valid.rooted old
    · rcases List.mem_append.mp fresh with isNew | isAdded
      · exact absurd isNew divided.newNotFirst
      · exact absurd isAdded addedNotFirst
  have keptChains : ∀ page ∈ chains,
      after.buffer? page = disk.buffer? page := by
    intro page member
    refine table.kept whole page (List.mem_append_right _ member) ?_
    intro inTouched
    have inPages : page ∈ pages := by
      rcases List.mem_append.mp inTouched with atLeaf | other
      · rw [List.mem_singleton.mp atLeaf]
        exact landing.leaf_mem
      · exact touchedIn page other
    exact (List.nodup_append.mp table.apart).2.2 page inPages page
      (List.mem_append_left _ member) rfl
  have keptChain : ∀ page ∈ chain,
      after.buffer? page = middle.buffer? page := by
    intro page member
    have first := divided.updates.used_apart usedApart table.present
    have inNew : page ∈ new ++ chain := List.mem_append_right _ member
    refine later.kept_used ?_ ?_ (divided.updates.present page inNew)
    · intro inTouched
      exact (List.nodup_append.mp (List.nodup_append.mp first).1).2.2 page
        (List.mem_append_left _ (touchedIn page inTouched)) page inNew rfl
    · intro isFree
      exact (List.nodup_append.mp first).2.2 page
        (List.mem_append_right _ inNew) page isFree rfl
  exact table.add landing valid (divided.entriesOf_eq landing.isLeaf)
    divided.key_eq (divided.resolves.congr later.pageSize keptChain)
    whole.pageSize keptChains apart divided.notFirst

end Grown

/-! ## The separator in the parent -/

/-- A page has taken the separator of a divided leaf in, or has become the root
above its own two halves. -/
structure SeparatorTaken (tree : BTree) (middle : Disk) (between : List Nat)
    (page high leftPage : Nat) (grown : List Nat) (early late : List Mark)
    (after : Disk) (rest added : List Nat) (rise : Nat) : Prop where
  whole : TreeAt (TableHolds after) (1 + rise) page (page :: (added ++ grown))
    (early ++ .separator high :: late)
  updates : Updates middle between after rest [page] added
  notFirst : 1 ∉ added
  runs : ∀ {cursor : Cursor} {crumb : CursorBreadcrumb}
      {crumbs : List CursorBreadcrumb} (fuel : Nat),
    cursor.breadcrumbs = crumb :: crumbs → crumb.pageId = page →
      btreeInsertLoop tree (fuel + 1) cursor high .leftPageId ⟨leftPage, high⟩
        middle = (.ok (), after)

section Separator

variable {tree : BTree} {middle : Disk} {between own grown : List Nat}
variable {parent : BTreeNode} {slots : List Slot} {high leftPage index : Nat}
variable {items early late : List Mark}
variable (roomy : Roomy middle) (store : Store middle between)
  (holds : Holds middle parent) (metaFresh : MetaFresh between parent)
  (used : parent.pageNumber ∉ between) (has : HasSlots parent slots)
  (increase : KeysIncrease parent.entries)
  (readEq : nodercReinitRead parent.pageNumber middle = (.ok parent, middle))
  (place : keyPlace parent.entries high = index)
  (intake : Intake (TableHolds middle) 1 (innerOf slots parent.rightChild)
    leftPage index own grown items early late)
  (apart : ∀ page ∈ grown, page ≠ parent.pageNumber ∧ page ∉ between ∧
    page ≤ middle.maxPage)
  (keyFits : high < 2 ^ 32) (leftFits : leftPage < 2 ^ 32)

theorem slot_small {max : Nat} (wide : 24 ≤ max) :
    heapRequiredForInsertion (cellInlineDiskSize (Bytes.le32 leftPage).length) ≤
      max := by
  rw [Bytes.le32_length]
  unfold heapRequiredForInsertion cellInlineDiskSize pageKeySize
  omega

include roomy store holds metaFresh used has increase readEq place intake apart
  keyFits leftFits

/-- The parent takes the separator in. -/
theorem parent_takes (few : parent.numKeys < 2 ^ 8)
    (takes : Takes (btreeNodeMaxCellSize parent) parent.freeHeap 4)
    (room : middle.maxPage + 5 < pageIdLimit) :
    ∃ after rest, SeparatorTaken tree middle between parent.pageNumber high
      leftPage grown early late after rest [] 0 := by
  have small := @slot_small leftPage _
    (roomy.maxCellSize (holds.pageSize_eq store))
  have places : PlacesRight parent.keys high := by
    refine placesRight_of_length ?_ few
    unfold KeysIncrease BTreeNode.entries at increase
    rw [List.pairwise_map] at increase
    exact increase
  have sized : (Bytes.le32 leftPage).length = 4 := Bytes.le32_length leftPage
  rw [← sized] at takes
  obtain ⟨stored, after, rest, entry, chain, writeEq, whole, inline⟩ :=
    btreeNodeWrite_stored roomy store holds metaFresh used places keyFits takes
      (by rw [sized]; decide) (by rw [sized]; exact room)
  have entryEq : entry = (Slot.mk leftPage high).entry := inline small
  have noChain : chain = [] := by
    have pages := whole.chain_length
    unfold recordPages at pages
    rw [if_pos small] at pages
    exact List.length_eq_zero_iff.mp pages
  subst noChain
  have inside : index ≤ slots.length := by
    have bound := keyPlace_le parent.entries high
    rw [place, has.entriesEq, List.length_map] at bound
    exact bound
  have storedHas : HasSlots stored
      (slots.insertIdx index ⟨leftPage, high⟩) := by
    obtain ⟨insertEq, fits⟩ := @HasSlots.insertIdx _ _ ⟨leftPage, high⟩ has _ inside
      leftFits
    refine ⟨whole.reentered.isLeaf_eq.trans has.isInner, ?_, fits⟩
    rw [whole.reentered.entries_eq, place, entryEq, insertEq]
  have here := storedHas.holds whole.holds whole.reentered.pageNumber_eq
  rw [whole.reentered.rightChild_eq, innerOf_insert inside] at here
  have keptGrown : ∀ page ∈ grown, ∀ node, TableHolds middle page node →
      TableHolds after page node := by
    intro page member node held
    obtain ⟨other, notFree, present⟩ := apart page member
    exact held.congr (whole.updates.kept_used
      (fun touched => other (List.mem_singleton.mp touched)) notFree present)
  refine ⟨after, rest, intake_tree (intake.mono keptGrown) here, whole.updates,
    List.not_mem_nil, ?_⟩
  intro cursor crumb crumbs fuel stack crumbPage
  rw [← crumbPage] at readEq
  exact btreeInsertLoop_fits stack readEq writeEq

/-- The parent is the root and becomes the parent of its two halves. -/
theorem parent_newRoot (isRoot : parent.pageNumber = tree.rootPageId)
    (noneFree : parent.pageNumber = 1 → between = [])
    (full : ¬ Takes (btreeNodeMaxCellSize parent) parent.freeHeap 4)
    (half : HalfAdmits middle.pageSize parent high 4)
    (room : middle.maxPage + 7 < pageIdLimit) :
    ∃ after rest added, SeparatorTaken tree middle between parent.pageNumber
      high leftPage grown early late after rest added 1 := by
  have wide := roomy.maxCellSize (holds.pageSize_eq store)
  have sized : (Bytes.le32 leftPage).length = 4 := Bytes.le32_length leftPage
  have table : TableNode parent := by
    refine ⟨?_, increase.imp Nat.le_of_lt, fun _ =>
      ⟨slots, has.entriesEq, has.children⟩⟩
    intro entry member
    rw [has.entriesEq] at member
    obtain ⟨slot, _, rfl⟩ := List.mem_map.mp member
    rw [slot.entry_heapSize]
    omega
  rw [← sized] at full half
  obtain ⟨after, rest, left, right, root, entry, chain, runs, divided, rootHolds,
    rootPage, rootHas, rootRight⟩ := newRoot_run roomy store holds metaFresh used
      table increase readEq full half keyFits (by rw [sized]; decide) isRoot
      noneFree (by rw [sized]; exact room)
  have share : 24 ≤ heapCapacity 0 middle.pageSize / 4 := by
    refine Nat.le_trans wide ?_
    unfold btreeNodeMaxCellSize
    rw [btuGetNodeHeapSize_eq, holds.pageSize_eq store]
    exact Nat.div_le_div_right (heapCapacity_le _ _ (by decide))
  have entryEq : entry = (Slot.mk leftPage high).entry :=
    divided.inline (slot_small share)
  have noChain : chain = [] := by
    have resolves := divided.resolves
    rw [entryEq] at resolves
    cases resolves
    rfl
  subst entryEq noChain
  obtain ⟨leftSlots, rightSlots, leftHas, rightHas, cuts⟩ :=
    divided.cuts has leftFits
  rw [place] at cuts
  have keptGrown : ∀ page ∈ grown, ∀ node, TableHolds middle page node →
      TableHolds after page node := by
    intro page member node held
    obtain ⟨other, notFree, present⟩ := apart page member
    exact held.congr (divided.updates.kept_used
      (fun touched => other (List.mem_singleton.mp touched)) notFree present)
  have whole := intake_pair (intake.mono keptGrown) cuts
    (leftHas.holds divided.leftHolds rfl)
    (rightHas.holds divided.rightHolds rfl) rootHolds rootPage rootHas rootRight
  refine ⟨after, rest, [left.pageNumber, right.pageNumber], whole, ?_,
    divided.newNotFirst, ?_⟩
  · have updates := divided.updates
    rw [List.append_nil] at updates
    exact updates
  · intro cursor crumb crumbs fuel stack crumbPage
    have dataEq : InsertData.leftPageId.read ⟨leftPage, high⟩ =
      Bytes.le32 leftPage := rfl
    exact runs fuel stack crumbPage dataEq

end Separator

/-! ## A leaf below its parent -/

/-- A leaf at the end of a way down, below its parent: the children of the
parent beside it, and the way to the parent. -/
structure Hangs (disk : Disk) (top root leafPage page : Nat)
    (front : List (PagedTree.Part Mark × Mark))
    (back : List (Mark × PagedTree.Part Mark)) (outside above : List Nat)
    (before behind : List Mark) : Prop where
  path : ∃ steps, Path (TableHolds disk) top root 1 page steps above before
    behind
  node : TableHolds disk page
    (.inner (leftKids front ++ leafPage :: rightKids back)
      (front.map Prod.snd ++ back.map Prod.fst))
  frontTrees : ∀ entry ∈ front,
    TreeAt (TableHolds disk) 0 entry.1.kid entry.1.pages entry.1.flat
  backTrees : ∀ entry ∈ back,
    TreeAt (TableHolds disk) 0 entry.2.kid entry.2.pages entry.2.flat
  outsideEq : outside.Perm
    (page :: (leftPages front ++ rightPages back) ++ above)

section Hangs

variable {disk after : Disk} {top root page : Nat} {leaf left right : BTreeNode}
variable {front : List (PagedTree.Part Mark × Mark)}
variable {back : List (Mark × PagedTree.Part Mark)}
variable {outside above : List Nat} {before behind : List Mark}

theorem hangs_of_path {leafPage : Nat} {steps : List Step}
    (path : Path (TableHolds disk) top root 0 leafPage steps outside before
      behind) (notRoot : leafPage ≠ root) :
    ∃ page front back lower above pre post,
      steps = ⟨page, front.length⟩ :: lower ∧
      before = pre ++ leftFlat front ∧ behind = rightFlat back ++ post ∧
      Hangs disk top root leafPage page front back outside above pre post := by
  cases path with
  | here => exact absurd rfl notRoot
  | @down _ page _ lower above _ pre post front back path node frontTrees
      backTrees outsideEq =>
      exact ⟨page, front, back, lower, above, pre, post, rfl, rfl, rfl,
        ⟨_, path⟩, node, frontTrees, backTrees, outsideEq⟩

/-- The parent as it is loaded. -/
theorem Hangs.loaded {free : List Nat}
    (hangs : Hangs disk top root leaf.pageNumber page front back outside above
      before behind) (store : Store disk free)
    (ordered : (before ++ leftFlat front ++
      (leaf.entries.map Mark.record ++ (rightFlat back ++ behind))).Pairwise
        Before) :
    NodeOn disk page ∧ ∃ slots, HasSlots (loadedNode disk page) slots ∧
      .inner (leftKids front ++ leaf.pageNumber :: rightKids back)
        (front.map Prod.snd ++ back.map Prod.fst) =
          innerOf slots (loadedNode disk page).rightChild ∧
      KeysIncrease (loadedNode disk page).entries := by
  obtain ⟨onPage, ⟨_, _, contentEq⟩ | ⟨slots, has, contentEq⟩⟩ :=
    hangs.node.loaded store
  · cases contentEq
  · refine ⟨onPage, slots, has, contentEq, ?_⟩
    have sublist : (sepsOf slots).Sublist (before ++ leftFlat front ++
        (leaf.entries.map Mark.record ++ (rightFlat back ++ behind))) := by
      rw [← (PNode.inner.inj contentEq).2]
      refine List.Sublist.append
        ((frontSeps_sublist front).trans (List.sublist_append_right _ _)) ?_
      exact ((seps_sublist back).trans (List.sublist_append_left _ _)).trans
        (List.sublist_append_right _ _)
    have seps := ordered.sublist sublist
    unfold sepsOf at seps
    unfold KeysIncrease
    rw [has.entriesEq, List.pairwise_map]
    rw [List.pairwise_map] at seps
    refine seps.imp ?_
    intro slot other less
    change 2 * slot.key + 1 < 2 * other.key + 1 at less
    change slot.key < other.key
    omega

/-- The whole tree when the parent has taken the separator in. -/
theorem Hangs.regrown {leafPage high rise : Nat} {tree : BTree} {middle : Disk}
    {between rest added : List Nat}
    (hangs : Hangs disk top root leafPage page front back outside above before
      behind)
    (taken : SeparatorTaken tree middle between page high left.pageNumber
      (leftPages front ++
        ([left.pageNumber] ++ ([right.pageNumber] ++ rightPages back)))
      (leftFlat front ++ left.entries.map .record)
      (right.entries.map .record ++ rightFlat back) after rest added rise)
    (kept : ∀ own ∈ above, after.buffer? own = disk.buffer? own)
    (atRoot : rise = 0 ∨ page = root ∧ page ∉ above) :
    TreeAt (TableHolds after) (top + rise) root
      (above ++ (page :: (added ++ (leftPages front ++
        ([left.pageNumber] ++ ([right.pageNumber] ++ rightPages back))))))
      (dividedMarks (before ++ leftFlat front) (rightFlat back ++ behind) left
        right high) := by
  obtain ⟨steps, path⟩ := hangs.path
  have marksEq : before ++ ((leftFlat front ++ left.entries.map .record ++
      .separator high :: (right.entries.map .record ++ rightFlat back)) ++
        behind) = dividedMarks (before ++ leftFlat front)
          (rightFlat back ++ behind) left right high := by
    unfold dividedMarks
    simp only [List.append_assoc, List.cons_append]
  have whole := taken.whole
  rw [← marksEq]
  rcases atRoot with noRise | ⟨isRoot, apart⟩
  · subst noRise
    have moved : Path (TableHolds after) top root 1 page steps above before
        behind :=
      path.mono fun own member node holds => holds.congr (kept own member)
    exact moved.plug whole
  · obtain ⟨rfl, rfl, rfl, rfl⟩ := path.at_root isRoot apart
    subst isRoot
    rw [List.nil_append, List.nil_append, List.append_nil]
    exact whole

end Hangs

/-! ## The insertion -/

/-- The page does not keep a list of free pages, or an empty one. -/
def ListsNoFree (disk : Disk) (page : Nat) : Prop :=
  page = 1 → disk.nextFree 1 = 0

instance (disk : Disk) (page : Nat) : Decidable (ListsNoFree disk page) :=
  inferInstanceAs (Decidable (_ → _))

theorem ListsNoFree.free_nil {disk : Disk} {free : List Nat} {page : Nat}
    (none : ListsNoFree disk page) (store : Store disk free) (isFirst : page = 1) :
    free = [] := by
  have chain := store.chain
  rw [none isFirst] at chain
  cases free with
  | nil => rfl
  | cons first rest =>
      obtain ⟨isZero, present, _⟩ := chain
      exact absurd isZero.symm (page?_isSome_iff.mp present).1

/-- The parent of a divided leaf takes the separator, or it is the root and
one of its halves does. -/
def SeparatorFits (root : Nat) (disk : Disk) (leaf : BTreeNode) (page : Nat) :
    Prop :=
  if Takes (btreeNodeMaxCellSize (loadedNode disk page))
      (loadedNode disk page).freeHeap 4 then
    (loadedNode disk page).numKeys < 2 ^ 8
  else page = root ∧ ListsNoFree disk page ∧
    HalfAdmits disk.pageSize (loadedNode disk page) (splitKey leaf) 4

instance (root : Nat) (disk : Disk) (leaf : BTreeNode) (page : Nat) :
    Decidable (SeparatorFits root disk leaf page) := by
  unfold SeparatorFits
  infer_instance

/-- What an insertion leaves: a table with the record more. -/
structure Inserted (disk : Disk) (root height : Nat) (flat : List Mark)
    (records : List TableRecord) (key : Nat) (payload : List UInt8)
    (after : Disk) : Prop where
  pageSize : after.pageSize = disk.pageSize
  table : ∃ rest high pages marks chains,
    TableStore after rest root high pages marks chains
      (addRecord key payload records) ∧
    high ≤ max height 2 ∧
    MarksGrow flat marks key (heapCapacity root disk.pageSize / 4) payload

/-- The same, and nothing else on the disk is touched. -/
def InsertedWithin (disk : Disk) (free : List Nat) (root height : Nat)
    (pages : List Nat) (flat : List Mark) (chains : List Nat)
    (records : List TableRecord) (key : Nat) (payload : List UInt8)
    (after : Disk) : Prop :=
  ∃ rest high grown marks more,
    TableStore after rest root high grown marks more
      (addRecord key payload records) ∧
    high ≤ max height 2 ∧
    MarksGrow flat marks key (heapCapacity root disk.pageSize / 4) payload ∧
    Within disk free (pages ++ chains) after rest (grown ++ more)

theorem InsertedWithin.inserted {disk after : Disk} {free pages chains : List Nat}
    {root height key : Nat} {flat : List Mark} {records : List TableRecord}
    {payload : List UInt8}
    (inserted : InsertedWithin disk free root height pages flat chains records
      key payload after) :
    Inserted disk root height flat records key payload after := by
  obtain ⟨rest, high, grown, marks, more, table, low, growth, within⟩ := inserted
  exact ⟨within.pageSize, rest, high, grown, marks, more, table, low, growth⟩

/-- The pages of a tree that has taken some more. -/
theorem within_pages {pages grown chains more new chain : List Nat}
    (grownEq : grown.Perm (pages ++ new)) (moreEq : more.Perm (chains ++ chain)) :
    ∀ own ∈ grown ++ more, own ∈ pages ++ chains ∨ own ∈ new ++ chain := by
  intro own member
  rw [List.mem_append, grownEq.mem_iff, moreEq.mem_iff] at member
  simp only [List.mem_append] at member ⊢
  tauto

section Insertion

variable {tree : BTree} {disk : Disk} {free pages outside chains : List Nat}
variable {height key : Nat} {flat before behind : List Mark}
variable {leaf : BTreeNode} {steps : List Step} {payload : List UInt8}
variable {records : List TableRecord}
variable
  (table : TableStore disk free tree.rootPageId height pages flat chains records)
  (landing : Landing disk tree.rootPageId height key pages flat leaf steps
    outside before behind)
  (absent : ∀ record ∈ records, record.key ≠ key)
  (metaFresh : MetaFresh free leaf)
  (readEq : nodercReinitRead leaf.pageNumber disk = (.ok leaf, disk))
  (full : ¬ Takes (btreeNodeMaxCellSize leaf) leaf.freeHeap payload.length)
  (half : HalfAdmits disk.pageSize leaf key payload.length)
  (keyFits : key < 2 ^ 32) (sizeFits : payload.length < 2 ^ 32)
  (room : disk.maxPage + payload.length + 16 < pageIdLimit)

include table landing

theorem TableStore.leaf_used : leaf.pageNumber ∉ free := fun isFree =>
  (List.nodup_append.mp table.valid.apart).2.2 _ landing.leaf_mem _ isFree rfl

omit table in
theorem Landing.tableNode (ordered : flat.Pairwise Before) : TableNode leaf where
  small := landing.small
  ordered := (landing.increase ordered).imp Nat.le_of_lt
  inner := fun isInner => absurd (landing.isLeaf.symm.trans isInner) (by decide)

include absent metaFresh readEq full half keyFits sizeFits room

/-- The leaf is the root. -/
theorem inserted_newRoot (isRoot : leaf.pageNumber = tree.rootPageId)
    (none : ListsNoFree disk leaf.pageNumber) :
    ∃ after, InsertedWithin disk free tree.rootPageId height pages flat chains
        records key payload after ∧
      ∀ {cursor : Cursor} {crumb : CursorBreadcrumb}
          {crumbs : List CursorBreadcrumb} {splitResult : SplitPage} (fuel : Nat),
        cursor.breadcrumbs = crumb :: crumbs → crumb.pageId = leaf.pageNumber →
          btreeInsertLoop tree (fuel + 1) cursor key (.bytes payload) splitResult
            disk = (.ok (), after) := by
  have valid := table.valid
  have used := table.leaf_used landing
  obtain ⟨after, rest, left, right, root, entry, chain, runs, divided, rootHolds,
    rootPage, rootHas, rootRight⟩ := newRoot_run valid.roomy valid.store
      landing.holds metaFresh used (landing.tableNode valid.ordered)
      (landing.increase valid.ordered) readEq full half keyFits sizeFits isRoot
      (fun isFirst => none.free_nil valid.store isFirst) (by omega)
  have apart : leaf.pageNumber ∉ outside := fun member =>
    (table.outside_pages landing _ member).2 rfl
  obtain ⟨isTop, noOutside, noBefore, noBehind⟩ :=
    landing.path.at_root isRoot apart
  have pagesEq := landing.pagesEq
  subst noOutside noBefore noBehind
  rw [List.nil_append] at pagesEq
  have whole := @pair_tree after 0 tree.rootPageId (splitKey leaf) root
    ⟨left.pageNumber, [left.pageNumber], left.entries.map .record⟩
    ⟨right.pageNumber, [right.pageNumber], right.entries.map .record⟩ rootHolds
    (rootPage.trans isRoot) rootHas rootRight
    ⟨divided.left_holds landing.isLeaf, rfl⟩
    ⟨divided.right_holds landing.isLeaf, rfl⟩
  have marksEq : left.entries.map Mark.record ++
      .separator (splitKey leaf) :: right.entries.map Mark.record =
        dividedMarks [] [] left right (splitKey leaf) := by
    unfold dividedMarks
    rw [List.nil_append, List.append_nil]
  rw [marksEq] at whole
  have grownEq : (tree.rootPageId :: ([left.pageNumber] ++
      [right.pageNumber])).Perm
        (pages ++ ([left.pageNumber, right.pageNumber] ++ [])) := by
    rw [← isRoot]
    exact pagesEq.append_right [left.pageNumber, right.pageNumber]
  obtain ⟨more, moreEq, grown⟩ := divided.tableStore table landing absent
    (Updates.refl divided.updates.store) (fun page member =>
      absurd member List.not_mem_nil) whole grownEq List.not_mem_nil
  refine ⟨after, ⟨rest, 0 + 1, _, _, more, grown, ?_, divided.marksGrow landing,
    divided.updates.within ?_ ?_⟩, ?_⟩
  · omega
  · intro own member
    rw [List.mem_singleton.mp member]
    exact List.mem_append_left _ landing.leaf_mem
  · rw [List.append_nil] at grownEq
    exact within_pages grownEq moreEq
  · intro cursor crumb crumbs splitResult fuel stack crumbPage
    have dataEq : (InsertData.bytes payload).read splitResult = payload := rfl
    exact runs fuel stack crumbPage dataEq

/-- The leaf is split beside its page, and its left half goes into the
parent. -/
theorem inserted_beside (notRoot : leaf.pageNumber ≠ tree.rootPageId)
    (separator : ∀ page index above, steps = ⟨page, index⟩ :: above →
      SeparatorFits tree.rootPageId disk leaf page)
    {cursor : Cursor} {crumb parentCrumb : CursorBreadcrumb}
    {crumbs : List CursorBreadcrumb} {splitResult : SplitPage} (fuel : Nat)
    (stack : cursor.breadcrumbs = crumb :: parentCrumb :: crumbs)
    (few : crumbs.length < maxBreadcrumbs)
    (crumbPage : crumb.pageId = leaf.pageNumber)
    (parentPage : ∀ page index above, steps = ⟨page, index⟩ :: above →
      parentCrumb.pageId = page) :
    ∃ after, InsertedWithin disk free tree.rootPageId height pages flat chains
        records key payload after ∧
      btreeInsertLoop tree (fuel + 2) cursor key (.bytes payload) splitResult
        disk = (.ok (), after) := by
  have valid := table.valid
  have used := table.leaf_used landing
  obtain ⟨page, front, back, lower, above, pre, post, stepsEq, rfl, rfl,
    hangs⟩ := hangs_of_path landing.path notRoot
  have fits := separator page _ _ stepsEq
  have crumbHere := parentPage page _ _ stepsEq
  have pageOut : page ∈ outside :=
    hangs.outsideEq.mem_iff.mpr (List.mem_append_left _ List.mem_cons_self)
  obtain ⟨pageIn, pageNe⟩ := table.outside_pages landing page pageOut
  have notFirst : leaf.pageNumber ≠ 1 := by
    intro isFirst
    exact notRoot (isFirst.trans
      (valid.rooted (isFirst ▸ landing.leaf_mem)).symm)
  -- the first turn divides the leaf
  obtain ⟨middle, between, left, right, entry, chain, next, nextStack, loopEq,
    divided, rightPage, leftLimit⟩ := beside_run valid.roomy valid.store
      landing.holds metaFresh used (landing.tableNode valid.ordered)
      (landing.increase valid.ordered) readEq full half keyFits sizeFits
      (fuel + 1) stack few crumbPage notRoot notFirst (by omega)
  have first := divided.updates
  have bounded := first.bounded
  rw [List.length_append, List.length_singleton] at bounded
  have chainFew := divided.few
  have keptOut : ∀ own ∈ outside,
      middle.buffer? own = disk.buffer? own := by
    intro own member
    obtain ⟨inPages, notLeaf⟩ := table.outside_pages landing own member
    exact table.kept first own (List.mem_append_left _ inPages)
      fun touched => notLeaf (List.mem_singleton.mp touched)
  have ordered := valid.ordered
  rw [landing.flatEq] at ordered
  obtain ⟨onPage, slots, has, contentEq, increase⟩ :=
    hangs.loaded valid.store ordered
  have parentHolds : Holds middle (loadedNode disk page) :=
    onPage.1.congr (by rw [onPage.2]; exact keptOut page pageOut)
  obtain ⟨metaBytes, parentRead, parentFresh⟩ :=
    nodercReinitRead_holds parentHolds first.store
  have usedApart : ((pages ++ chains) ++ free).Nodup := by
    rw [List.append_assoc]
    exact table.apart
  have apartThen := first.used_apart usedApart table.present
  have inUse : ∀ own ∈ pages ++ [left.pageNumber],
      own ∉ between ∧ own ≤ middle.maxPage := by
    intro own member
    rcases List.mem_append.mp member with old | isLeft
    · have oldIn : own ∈ pages ++ chains := List.mem_append_left _ old
      exact ⟨fun isFree => (List.nodup_append.mp apartThen).2.2 own
        (List.mem_append_left _ oldIn) own isFree rfl,
        Nat.le_trans (table.present own oldIn) first.grows⟩
    · have isNew : own ∈ [left.pageNumber] ++ chain :=
        List.mem_append_left _ isLeft
      exact ⟨fun isFree => (List.nodup_append.mp apartThen).2.2 own
        (List.mem_append_right _ isNew) own isFree rfl,
        first.present own isNew⟩
  have pagesNodup := (List.nodup_append.mp table.apart).1
  have outsideNodup : outside.Nodup :=
    (List.nodup_append.mp (landing.pagesEq.nodup_iff.mpr pagesNodup)).1
  have parentApart := hangs.outsideEq.nodup_iff.mp outsideNodup
  rw [List.cons_append, List.nodup_cons] at parentApart
  have leftNotPage : left.pageNumber ≠ page := by
    intro same
    refine (List.nodup_append.mp (List.nodup_append.mp apartThen).1).2.2 page
      (List.mem_append_left _ pageIn) left.pageNumber
      (List.mem_append_left _ (List.mem_singleton_self _)) same.symm
  have grownApart : ∀ own ∈ leftPages front ++
      ([left.pageNumber] ++ ([right.pageNumber] ++ rightPages back)),
      own ≠ page ∧ own ∉ between ∧ own ≤ middle.maxPage := by
    intro own member
    have beside : ∀ other ∈ leftPages front ++ rightPages back,
        other ≠ page ∧ other ∈ pages ++ [left.pageNumber] := by
      intro other inBeside
      refine ⟨?_, List.mem_append_left _ (table.outside_pages landing other
        (hangs.outsideEq.mem_iff.mpr (List.mem_append_left _
          (List.mem_cons_of_mem _ inBeside)))).1⟩
      rintro rfl
      exact parentApart.1 (List.mem_append_left _ inBeside)
    have known : own ≠ page ∧ own ∈ pages ++ [left.pageNumber] := by
      simp only [List.mem_append, List.mem_singleton] at member
      rcases member with inFront | rfl | rfl | inBack
      · exact beside own (List.mem_append_left _ inFront)
      · exact ⟨leftNotPage, List.mem_append_right _ (List.mem_singleton_self _)⟩
      · rw [rightPage]
        exact ⟨pageNe.symm, List.mem_append_left _ landing.leaf_mem⟩
      · exact beside own (List.mem_append_right _ inBack)
    exact ⟨known.1, inUse own known.2⟩
  have intake := hung_intake hangs.frontTrees hangs.backTrees (fun own member =>
    keptOut own (hangs.outsideEq.mem_iff.mpr (List.mem_append_left _
      (List.mem_cons_of_mem _ member)))) (divided.left_holds landing.isLeaf)
    (divided.right_holds landing.isLeaf)
  rw [rightPage, contentEq, ← rightPage] at intake
  have marksOrdered := divided.ordered landing.isLeaf (landing.ordered_insert
    valid.ordered divided.key_eq (landing.absent table absent))
  have place : keyPlace (loadedNode disk page).entries (splitKey leaf) =
      front.length :=
    keyPlace_parent has (PNode.inner.inj contentEq).2.symm marksOrdered
  have splitFits : splitKey leaf < 2 ^ 32 := by
    obtain ⟨pivot, inLeft, pivotKey⟩ := divided.pivot
    rw [divided.leftPart_leaf landing.isLeaf] at inLeft
    rw [← pivotKey]
    exact (divided.leftHolds.encodable.entries pivot inLeft).1
  have leftFits : left.pageNumber < 2 ^ 32 :=
    Nat.lt_trans leftLimit (by decide)
  have pageBetween := (inUse page (List.mem_append_left _ pageIn)).1
  -- the second turn takes the separator in
  obtain ⟨after, rest, added, rise, taken, atRoot⟩ : ∃ after rest added rise,
      SeparatorTaken tree middle between page (splitKey leaf) left.pageNumber
        (leftPages front ++
          ([left.pageNumber] ++ ([right.pageNumber] ++ rightPages back)))
        (leftFlat front ++ left.entries.map .record)
        (right.entries.map .record ++ rightFlat back) after rest added rise ∧
      (rise = 0 ∨ rise = 1 ∧ page = tree.rootPageId) := by
    have nodeRead : nodercReinitRead
        { loadedNode disk page with metaBytes := metaBytes }.pageNumber middle =
          (.ok { loadedNode disk page with metaBytes := metaBytes }, middle) :=
      parentRead
    rw [← onPage.2] at grownApart pageBetween
    unfold SeparatorFits at fits
    by_cases takes : Takes (btreeNodeMaxCellSize (loadedNode disk page))
        (loadedNode disk page).freeHeap 4
    · rw [if_pos takes] at fits
      obtain ⟨after, rest, taken⟩ := @parent_takes tree middle between _ _
        { loadedNode disk page with metaBytes := metaBytes } slots
        (splitKey leaf) left.pageNumber front.length _ _ _
        (valid.roomy.congr first.pageSize) first.store (parentHolds.withMeta _)
        parentFresh pageBetween (has.withMeta _) increase nodeRead place intake
        grownApart splitFits leftFits fits takes (by omega)
      rw [onPage.2] at taken
      exact ⟨after, rest, [], 0, taken, Or.inl rfl⟩
    · rw [if_neg takes] at fits
      obtain ⟨isRoot, none, admits⟩ := fits
      have noneBetween : page = 1 → between = [] := by
        intro isFirst
        rw [first.taken, none.free_nil valid.store isFirst, List.drop_nil]
      rw [← first.pageSize] at admits
      obtain ⟨after, rest, added, taken⟩ := @parent_newRoot tree middle between
        _ _ { loadedNode disk page with metaBytes := metaBytes } slots
        (splitKey leaf) left.pageNumber front.length _ _ _
        (valid.roomy.congr first.pageSize) first.store (parentHolds.withMeta _)
        parentFresh pageBetween (has.withMeta _) increase nodeRead place intake
        grownApart splitFits leftFits (onPage.2.trans isRoot)
        (fun isFirst => noneBetween (onPage.2.symm.trans isFirst)) takes
        ⟨admits.agree, admits.few, admits.takes⟩ (by omega)
      rw [onPage.2] at taken
      exact ⟨after, rest, added, 1, taken, Or.inr ⟨rfl, isRoot⟩⟩
  have pageNotAbove : page ∉ above := fun member =>
    parentApart.1 (List.mem_append_right _ member)
  have aboveIn : ∀ own ∈ above, own ∈ outside := fun own member =>
    hangs.outsideEq.mem_iff.mpr (List.mem_append_right _ member)
  have whole := hangs.regrown taken (fun own member => by
    have inPages := (table.outside_pages landing own (aboveIn own member)).1
    obtain ⟨notFree, present⟩ := inUse own (List.mem_append_left _ inPages)
    rw [taken.updates.kept_used (fun touched => pageNotAbove
      (List.mem_singleton.mp touched ▸ member)) notFree present]
    exact keptOut own (aboveIn own member))
    (atRoot.imp_right fun atRoot => ⟨atRoot.2, pageNotAbove⟩)
  have grownEq : (above ++ (page :: (added ++ (leftPages front ++
      ([left.pageNumber] ++ ([right.pageNumber] ++ rightPages back)))))).Perm
        (pages ++ ([left.pageNumber] ++ added)) := by
    have outsideCount := List.perm_iff_count.mp hangs.outsideEq
    have pagesCount := List.perm_iff_count.mp landing.pagesEq
    refine List.perm_iff_count.mpr ?_
    intro own
    have outsideHere := outsideCount own
    have pagesHere := pagesCount own
    rw [rightPage]
    simp only [List.count_append, List.count_cons, List.count_nil] at outsideHere pagesHere ⊢
    omega
  obtain ⟨more, moreEq, grown⟩ := divided.tableStore table landing absent
    taken.updates
    (fun own member => by rw [List.mem_singleton.mp member]; exact pageIn) whole
    grownEq taken.notFirst
  refine ⟨after, ⟨rest, height + rise, _, _, more, grown, ?_,
    divided.marksGrow landing, (first.trans taken.updates).within ?_ ?_⟩, ?_⟩
  · rcases atRoot with noRise | ⟨oneRise, isRoot⟩
    · omega
    · obtain ⟨_, path⟩ := hangs.path
      have isTop := (path.at_root isRoot pageNotAbove).1
      omega
  · intro own member
    refine List.mem_append_left _ ?_
    rcases List.mem_append.mp member with isLeaf | isPage
    · rw [List.mem_singleton.mp isLeaf]
      exact landing.leaf_mem
    · rw [List.mem_singleton.mp isPage]
      exact pageIn
  · intro own member
    refine (within_pages grownEq moreEq own member).imp_right fun isNew => ?_
    simp only [List.mem_append] at isNew ⊢
    tauto
  · rw [loopEq]
    exact taken.runs fuel nextStack crumbHere


omit absent full half in
/-- The leaf takes the record. -/
theorem inserted_leaf (absent : ∀ record ∈ records, record.key ≠ key)
    (few : leaf.numKeys < 2 ^ 8)
    (takes : Takes (btreeNodeMaxCellSize leaf) leaf.freeHeap payload.length) :
    ∃ after, InsertedWithin disk free tree.rootPageId height pages flat chains
        records key payload after ∧
      ∀ {cursor : Cursor} {crumb : CursorBreadcrumb}
          {crumbs : List CursorBreadcrumb} {splitResult : SplitPage} (fuel : Nat),
        cursor.breadcrumbs = crumb :: crumbs → crumb.pageId = leaf.pageNumber →
          btreeInsertLoop tree (fuel + 1) cursor key (.bytes payload) splitResult
            disk = (.ok (), after) := by
  have valid := table.valid
  have increase := landing.increase valid.ordered
  have places : PlacesRight leaf.keys key := by
    refine placesRight_of_length ?_ few
    unfold KeysIncrease BTreeNode.entries at increase
    rw [List.pairwise_map] at increase
    exact increase
  obtain ⟨stored, after, rest, entry, chain, writeEq, whole, inline⟩ :=
    btreeNodeWrite_stored valid.roomy valid.store landing.holds metaFresh
      (table.leaf_used landing) places keyFits takes sizeFits (by omega)
  obtain ⟨more, moreEq, grown⟩ := whole.tableStore table landing absent
  have shareEq : heapCapacity tree.rootPageId disk.pageSize / 4 ≤
      btreeNodeMaxCellSize leaf := by
    unfold btreeNodeMaxCellSize
    rw [btuGetNodeHeapSize_eq, landing.holds.pageSize_eq valid.store]
    exact share_le _ fun isFirst =>
      valid.rooted (isFirst ▸ landing.leaf_mem)
  refine ⟨after, ⟨rest, height, pages, _, more, grown, Nat.le_max_left _ _,
    ⟨?_, ?_⟩, whole.updates.within ?_ ?_⟩, ?_⟩
  · rw [entriesOf_append, entriesOf_append, entriesOf_records,
      whole.reentered.entries_eq, landing.leafAt.entriesOf_eq]
    intro other member
    rcases List.mem_append.mp member with inBefore | later
    · exact Or.inl (List.mem_append_left _ inBefore)
    · rcases List.mem_append.mp later with inLeaf | inBehind
      · rcases (ListEdit.mem_insertIdx_iff (keyPlace_le _ _)).mp inLeaf with
          rfl | old
        · exact Or.inr ⟨whole.key_eq, inline.mono shareEq⟩
        · exact Or.inl (List.mem_append_right _ (List.mem_append_left _ old))
      · exact Or.inl
          (List.mem_append_right _ (List.mem_append_right _ inBehind))
  · intro high member
    refine Or.inl ?_
    rw [landing.flatEq]
    rcases List.mem_append.mp member with inBefore | later
    · exact List.mem_append_left _ inBefore
    · rcases List.mem_append.mp later with inLeaf | inBehind
      · obtain ⟨_, _, absurdity⟩ := List.mem_map.mp inLeaf
        cases absurdity
      · exact List.mem_append_right _ (List.mem_append_right _ inBehind)
  · intro own member
    rw [List.mem_singleton.mp member]
    exact List.mem_append_left _ landing.leaf_mem
  · exact @within_pages pages pages chains more [] chain
      (by rw [List.append_nil]) moreEq
  · intro cursor crumb crumbs splitResult fuel stack crumbPage
    rw [← crumbPage] at readEq
    exact btreeInsertLoop_fits stack readEq writeEq

end Insertion

/-! ## The whole call -/

/-- The pages on the stack after the way down to a key, the leaf first. -/
def stackPages (tree : BTree) (disk : Disk) (key : Nat) : List Nat :=
  match (cursorTraverseTo tree (cursorCreate tree) key disk).1 with
  | .ok (_, cursor) => cursor.breadcrumbs.map CursorBreadcrumb.pageId
  | .error _ => []

/-- The leaf of a key takes a record of a size; or the half of it on the side of
the key does, and the leaf is the root or the separator fits above it. -/
def InsertFits (tree : BTree) (disk : Disk) (key size : Nat) : Prop :=
  match stackPages tree disk key with
  | page :: above :: _ =>
      if Takes (btreeNodeMaxCellSize (loadedNode disk page))
          (loadedNode disk page).freeHeap size then
        (loadedNode disk page).numKeys < 2 ^ 8
      else HalfAdmits disk.pageSize (loadedNode disk page) key size ∧
        if page = tree.rootPageId then ListsNoFree disk page
        else SeparatorFits tree.rootPageId disk (loadedNode disk page) above
  | _ => False

instance (tree : BTree) (disk : Disk) (key size : Nat) :
    Decidable (InsertFits tree disk key size) := by
  unfold InsertFits
  split <;> infer_instance

section Insert

variable {tree : BTree} {disk : Disk} {free pages chains : List Nat}
variable {height key : Nat} {flat : List Mark} {payload : List UInt8}
variable {records : List TableRecord}

theorem btreeInsert_eq {hit : Bool} {cursor : Cursor} {after : Disk}
    (traverseEq : cursorTraverseTo tree (cursorCreate tree) key disk =
      (.ok (hit, cursor), disk))
    (loopEq : btreeInsertLoop tree (maxBreadcrumbs + 1) cursor key
      (.bytes payload) ⟨0, 0⟩ disk = (.ok (), after)) :
    btreeInsert tree key payload disk = (.ok (), after) := by
  have bodyEq : btreeInsertBody tree key payload disk = (.ok (), after) := by
    unfold btreeInsertBody
    rw [BtM.bind_ok traverseEq]
    exact loopEq
  unfold btreeInsert
  rw [BtM.bind_ok (BtM.attempt_ok bodyEq)]
  rfl

/-- The leaf of a key as it is loaded, and the stack above it. -/
theorem stackPages_landing (isTable : tree.type = .table)
    (table : TableStore disk free tree.rootPageId height pages flat chains
      records) (shallow : height + 1 < maxBreadcrumbs) (key : Nat) :
    ∃ hit leaf crumbs outside before behind cursor,
      Landing disk tree.rootPageId height key pages flat leaf
        (crumbs.map crumbStep) outside before behind ∧
      loadedNode disk leaf.pageNumber = leaf ∧ MetaFresh free leaf ∧
      stackPages tree disk key = leaf.pageNumber ::
        (crumbs.map CursorBreadcrumb.pageId ++ [tree.rootPageId]) ∧
      (leaf.pageNumber = tree.rootPageId ↔ crumbs = []) ∧
      cursorTraverseTo tree (cursorCreate tree) key disk =
        (.ok (hit, cursor), disk) ∧
      cursor.breadcrumbs = ⟨landingIndex leaf key, leaf.pageNumber⟩ ::
        (crumbs ++ [rootCrumb tree]) := by
  obtain ⟨hit, base, crumbs, outside, before, behind, traverseEq, baseLanding,
    _⟩ := cursorTraverseTo_landing isTable table.valid shallow key
  obtain ⟨metaBytes, readEq, metaFresh⟩ :=
    nodercReinitRead_holds baseLanding.holds table.valid.store
  have landing := baseLanding.withMeta metaBytes
  refine ⟨hit, { base with metaBytes := metaBytes }, crumbs, outside, before,
    behind, _, landing, ?_, metaFresh, ?_, ?_, traverseEq, rfl⟩
  · rw [nodercReinitRead_onDisk baseLanding.holds.present] at readEq
    exact Except.ok.inj (Prod.mk.inj readEq).1
  · unfold stackPages
    rw [traverseEq]
    dsimp only
    rw [List.map_cons, List.map_append]
    rfl
  · constructor
    · intro isRoot
      have apart : base.pageNumber ∉ outside := fun member =>
        (table.outside_pages landing _ member).2 rfl
      have isTop := (landing.path.at_root isRoot apart).1
      have depth := landing.path.length
      rw [List.length_map] at depth
      exact List.length_eq_zero_iff.mp (by omega)
    · intro noCrumbs
      subst noCrumbs
      by_contra notRoot
      obtain ⟨_, _, _, _, _, _, _, stepsEq, _⟩ :=
        hangs_of_path baseLanding.path notRoot
      exact List.cons_ne_nil _ _ stepsEq.symm

/-- An insertion that fits adds the record, and touches nothing else. -/
theorem btreeInsert_within (isTable : tree.type = .table)
    (table : TableStore disk free tree.rootPageId height pages flat chains
      records) (shallow : height + 1 < maxBreadcrumbs)
    (absent : ∀ record ∈ records, record.key ≠ key) (keyFits : key < 2 ^ 32)
    (sizeFits : payload.length < 2 ^ 32)
    (room : disk.maxPage + payload.length + 16 < pageIdLimit)
    (fits : InsertFits tree disk key payload.length) :
    ∃ after, btreeInsert tree key payload disk = (.ok (), after) ∧
      InsertedWithin disk free tree.rootPageId height pages flat chains records
        key payload after := by
  obtain ⟨hit, leaf, crumbs, outside, before, behind, cursor, landing, loadedEq,
    metaFresh, stackEq, rootIff, traverseEq, stack⟩ :=
    stackPages_landing isTable table shallow key
  have readEq := nodercReinitRead_onDisk landing.holds.present
  rw [loadedEq] at readEq
  unfold InsertFits at fits
  rw [stackEq] at fits
  by_cases takes : Takes (btreeNodeMaxCellSize leaf) leaf.freeHeap payload.length
  · have few : leaf.numKeys < 2 ^ 8 := by
      cases crumbs with
      | nil =>
          simp only [List.map_nil, List.nil_append, loadedEq] at fits
          rw [if_pos takes] at fits
          exact fits
      | cons crumb crumbs =>
          simp only [List.map_cons, List.cons_append, loadedEq] at fits
          rw [if_pos takes] at fits
          exact fits
    obtain ⟨after, inserted, runs⟩ := inserted_leaf table landing metaFresh readEq
      keyFits sizeFits room absent few takes
    exact ⟨after, btreeInsert_eq traverseEq (runs maxBreadcrumbs stack rfl),
      inserted⟩
  · cases crumbs with
    | nil =>
        simp only [List.map_nil, List.nil_append, loadedEq] at fits
        have isRoot := rootIff.mpr rfl
        rw [if_neg takes, if_pos isRoot] at fits
        obtain ⟨after, inserted, runs⟩ := inserted_newRoot table landing absent
          metaFresh readEq takes fits.1 keyFits sizeFits room isRoot fits.2
        exact ⟨after, btreeInsert_eq traverseEq (runs maxBreadcrumbs stack rfl),
          inserted⟩
    | cons crumb crumbs =>
        simp only [List.map_cons, List.cons_append, loadedEq] at fits
        have notRoot : leaf.pageNumber ≠ tree.rootPageId := fun isRoot =>
          List.cons_ne_nil _ _ (rootIff.mp isRoot)
        rw [if_neg takes, if_neg notRoot] at fits
        have fewCrumbs : (crumbs ++ [rootCrumb tree]).length <
            maxBreadcrumbs := by
          have depth := landing.path.length
          rw [List.length_map, List.length_cons] at depth
          rw [List.length_append, List.length_singleton]
          omega
        have above : ∀ page index upper, List.map crumbStep (crumb :: crumbs) =
            ⟨page, index⟩ :: upper → crumb.pageId = page := by
          intro page index upper stepsEq
          exact congrArg Step.page (List.cons.inj stepsEq).1
        obtain ⟨after, inserted, loopEq⟩ := inserted_beside table landing absent
          metaFresh readEq takes fits.1 keyFits sizeFits room notRoot
          (fun page index upper stepsEq => by
            rw [← above page index upper stepsEq]
            exact fits.2)
          (maxBreadcrumbs - 1) stack fewCrumbs rfl above
        exact ⟨after, btreeInsert_eq traverseEq loopEq, inserted⟩

theorem btreeInsert_inserted (isTable : tree.type = .table)
    (table : TableStore disk free tree.rootPageId height pages flat chains
      records) (shallow : height + 1 < maxBreadcrumbs)
    (absent : ∀ record ∈ records, record.key ≠ key) (keyFits : key < 2 ^ 32)
    (sizeFits : payload.length < 2 ^ 32)
    (room : disk.maxPage + payload.length + 16 < pageIdLimit)
    (fits : InsertFits tree disk key payload.length) :
    ∃ after, btreeInsert tree key payload disk = (.ok (), after) ∧
      Inserted disk tree.rootPageId height flat records key payload after := by
  obtain ⟨after, insertEq, inserted⟩ := btreeInsert_within isTable table shallow
    absent keyFits sizeFits room fits
  exact ⟨after, insertEq, inserted.inserted⟩

end Insert

end BtreeDb
