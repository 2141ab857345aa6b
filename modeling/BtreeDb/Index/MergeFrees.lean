import BtreeDb.Index.Merge
import BtreeDb.Index.Pointers
import BtreeDb.Tree.Check

/-!
# Which page a merge frees

Every merge that ends well frees the right page, and the parent goes on naming
that page: `ibtaMerge_loses_right_page`.
-/

namespace BtreeDb

open Disk PagedTree

/-! ## The cursor's part -/

section Cursors

variable {tree : BTree} {disk : Disk} {child parent : CursorBreadcrumb}
variable {rest : List CursorBreadcrumb}

/-- The nodes around a separator. -/
def nodesAround (tree : BTree) (disk : Disk) (parent index : Nat) :
    MergeNodes where
  parent := loadedNode disk parent
  left := loadedNode disk (childPage tree disk parent index)
  right := loadedNode disk (childPage tree disk parent (index + 1))
  parentIndex := ⟨.limIndex, index⟩

/-- The code reads the nodes around a separator, or there is no sibling. -/
theorem ibtaMergeNodes_run {height index : Nat} (mode : RebalanceMode)
    (room : rest.length + 2 ≤ maxBreadcrumbs)
    (shape : WellShaped tree disk (height + 1) parent.pageId)
    (bound : index ≤ keysOn disk parent.pageId)
    (placed : parent.keyIndex =
      initKeylistindexFromIndex (loadedNode disk parent.pageId) index)
    (below : child.pageId = childPage tree disk parent.pageId index) :
    ∃ later,
      ibtaMergeNodes tree mode (cursorAt (child :: parent :: rest)) disk =
          (.ok (.error .errCursorNoSibling, later), disk) ∨
        ∃ separator, separator < keysOn disk parent.pageId ∧
          ibtaMergeNodes tree mode (cursorAt (child :: parent :: rest)) disk =
            (.ok (.ok (nodesAround tree disk parent.pageId separator), later),
              disk) := by
  have present := shape.onDisk
  have own := (shape.child index).2.2.onDisk
  rw [← below] at own
  have indexEq := initKeylistindexFromIndex_index bound
  rw [← placed] at indexEq
  by_cases isRight : mode = .mergeRight
  · by_cases inside : index < keysOn disk parent.pageId
    · have atIndex : parent.keyIndex.mode = .limIndex := by
        rw [placed]
        exact initKeylistindexFromIndex_mode_iff.mpr inside
      obtain ⟨slotMode, slot⟩ := siblingIndex_right atIndex shape.rightChild_ne
      have beside := shape.child (parent.keyIndex.index + 1)
      have keyIndexEq : parent.keyIndex = ⟨.limIndex, index⟩ := by
        rw [← indexEq, ← atIndex]
      refine ⟨cursorAt (besideStack tree disk parent
        ⟨slotMode, parent.keyIndex.index + 1⟩ rest),
        Or.inr ⟨index, inside, ?_⟩⟩
      unfold ibtaMergeNodes
      rw [CursorM.bind_ok (cursorReadParent_apply room present), if_pos isRight,
        CursorM.bind_ok (cursorReadCurrent_apply own),
        CursorM.bind_ok (cursorParentIndex_apply room),
        CursorM.bind_ok (cursorSibling_some room present slot beside.1)]
      unfold besideStack
      rw [CursorM.bind_ok (cursorReadCurrent_apply beside.2.2.onDisk)]
      unfold nodesAround
      rw [← below, indexEq, ← keyIndexEq]
      rfl
    · have noRight : siblingIndex .right (loadedNode disk parent.pageId)
          parent.keyIndex = none := by
        have notIndex : parent.keyIndex.mode ≠ .limIndex := by
          rw [placed]
          exact fun atIndex =>
            inside (initKeylistindexFromIndex_mode_iff.mp atIndex)
        unfold siblingIndex
        exact if_pos (Or.inr notIndex)
      refine ⟨cursorAt (child :: parent :: rest), Or.inl ?_⟩
      unfold ibtaMergeNodes
      rw [CursorM.bind_ok (cursorReadParent_apply room present), if_pos isRight,
        CursorM.bind_ok (cursorReadCurrent_apply own),
        CursorM.bind_ok (cursorParentIndex_apply room),
        CursorM.bind_error (cursorSibling_none room present noRight)]
  · by_cases first : index = 0
    · have noLeft : siblingIndex .left (loadedNode disk parent.pageId)
          parent.keyIndex = none := if_pos (indexEq.trans first)
      refine ⟨cursorAt (child :: parent :: rest), Or.inl ?_⟩
      unfold ibtaMergeNodes
      rw [CursorM.bind_ok (cursorReadParent_apply room present),
        if_neg isRight, CursorM.bind_ok (cursorReadCurrent_apply own),
        CursorM.bind_error (cursorSibling_none room present noLeft)]
    · have slot : siblingIndex .left (loadedNode disk parent.pageId)
          parent.keyIndex = some ⟨.limIndex, index - 1⟩ := by
        rw [← indexEq]
        exact if_neg (by rw [indexEq]; exact first)
      have beside := shape.child (index - 1)
      have next : index - 1 + 1 = index := Nat.succ_pred_eq_of_ne_zero first
      refine ⟨cursorAt (besideStack tree disk parent
        ⟨.limIndex, index - 1⟩ rest), Or.inr ⟨index - 1, by omega, ?_⟩⟩
      unfold ibtaMergeNodes
      rw [CursorM.bind_ok (cursorReadParent_apply room present),
        if_neg isRight, CursorM.bind_ok (cursorReadCurrent_apply own),
        CursorM.bind_ok (cursorSibling_some room present slot beside.1)]
      unfold besideStack
      rw [CursorM.bind_ok (cursorReadCurrent_apply beside.2.2.onDisk),
        CursorM.bind_ok (cursorParentIndex_apply room)]
      unfold nodesAround
      rw [next, ← below]
      rfl

end Cursors

/-! ## The disk -/

/-- The page that is freed after the three nodes have been written is the
first free page, and the parent's page is as it was written. -/
theorem freelistPushPage_after_stores {disk : Disk} {free : List Nat}
    {parent left right : Nat} {page : Page} (leftImage : PageImage)
    {parentImage : PageImage} (rightImage : PageImage)
    (store : Store disk free) (here : page.pageId = right)
    (parentPresent : OnDisk disk parent) (leftPresent : OnDisk disk left)
    (rightPresent : OnDisk disk right) (leftNotFirst : left ≠ 1)
    (rightNotFirst : right ≠ 1) (apart : parent ≠ right)
    (metaSize : parentImage.metaBytes.length = pagemetaSize) :
    ∃ after,
      freelistPushPage page
          (((disk.store left leftImage).store parent parentImage).store
            right rightImage) = (.ok (), after) ∧
      after.nextFree 1 = right ∧
      after.buffer? parent = some parentImage.pageBuffer := by
  subst here
  have few := store.few
  obtain ⟨first, firstHere⟩ := store.page_one
  obtain ⟨parentNumbered, parentOld⟩ := parentPresent
  obtain ⟨leftNumbered, leftOld⟩ := leftPresent
  obtain ⟨rightNumbered, rightOld⟩ := rightPresent
  have leftMax : (disk.store left leftImage).maxPage = disk.maxPage := by
    rw [store_maxPage (by omega), if_neg (by omega)]
  have parentMax : ((disk.store left leftImage).store parent
      parentImage).maxPage = disk.maxPage := by
    rw [store_maxPage (by omega), if_neg (by omega), leftMax]
  have rightMax : (((disk.store left leftImage).store parent
      parentImage).store page.pageId rightImage).maxPage = disk.maxPage := by
    rw [store_maxPage (by omega), if_neg (by omega), parentMax]
  have firstAfter : ∃ image,
      (((disk.store left leftImage).store parent parentImage).store
        page.pageId rightImage).page? 1 = some image ∧
      image.metaBytes.length = pagemetaSize := by
    rw [store_page? rightNumbered (by omega),
      if_neg (Ne.symm rightNotFirst), store_page? parentNumbered (by omega),
      store_page? leftNumbered (by omega), if_neg (Ne.symm leftNotFirst)]
    split
    · exact ⟨parentImage, rfl, metaSize⟩
    · exact ⟨first, firstHere, (store.sized 1 first firstHere).1⟩
  obtain ⟨image, here, size⟩ := firstAfter
  have pushed := pagerFreelistPushPage_present here rightNumbered
    (Nat.lt_of_le_of_lt rightOld few)
  have parentKept : (((disk.store left leftImage).store parent
      parentImage).store page.pageId rightImage).buffer? parent =
      some parentImage.pageBuffer := by
    rw [store_buffer? rightNumbered (by omega), if_neg apart,
      store_buffer? parentNumbered (by omega), if_pos rfl]
  generalize ((disk.store left leftImage).store parent parentImage).store
    page.pageId rightImage = written at *
  unfold pageIdLimit at few
  refine ⟨written.afterPush page (written.nextFree 1), ?_,
    afterPush_nextFree_first here size rightNumbered rightNotFirst (by omega)
      (by omega) _, ?_⟩
  · unfold freelistPushPage
    rw [BtM.bind_ok (BtM.ofPager_some pushed)]
    rfl
  · rw [afterPush_buffer? rightNumbered (by omega), if_neg apart]
    exact parentKept

/-- A page of an index tree as the disk has it. -/
structure IndexPage (disk : Disk) (page : Nat) : Prop where
  on : NodeOn disk page
  small : SmallCells (loadedNode disk page)

theorem IndexHolds.indexPage {disk : Disk} {free : List Nat} {page : Nat}
    {content : PNode IndexRecord} (holds : IndexHolds disk page content)
    (store : Store disk free) :
    IndexPage disk page ∧ ∀ kids seps, content = .inner kids seps →
      kids = indexKids (loadedNode disk page) := by
  cases holds with
  | @leaf node holds here isLeaf small =>
      obtain ⟨metaBytes, loadedEq⟩ := holds.loadedNode_eq store
      subst here
      refine ⟨⟨⟨?_, ?_⟩, ?_⟩, ?_⟩
      · rw [loadedEq]
        exact holds.withMeta metaBytes
      · rw [loadedEq]
      · rw [loadedEq]
        exact small
      · intro kids seps contents
        cases contents
  | @inner node holds here isInner small =>
      obtain ⟨metaBytes, loadedEq⟩ := holds.loadedNode_eq store
      subst here
      refine ⟨⟨⟨?_, ?_⟩, ?_⟩, ?_⟩
      · rw [loadedEq]
        exact holds.withMeta metaBytes
      · rw [loadedEq]
      · rw [loadedEq]
        exact small
      · intro kids seps contents
        rw [loadedEq, ← (PNode.inner.inj contents).1]
        rfl

theorem loadedNode_metaBytes {disk : Disk} {free : List Nat} {page : Nat}
    (store : Store disk free) (present : OnDisk disk page) :
    (loadedNode disk page).metaBytes.length = pagemetaSize := by
  obtain ⟨image, found⟩ :=
    Option.isSome_iff_exists.mp (page?_isSome_iff.mpr present)
  unfold loadedNode
  rw [found]
  exact (store.sized page image found).1

/-- The pages of a merge. -/
structure MergePages (disk : Disk) (parent left right : Nat) : Prop where
  parentPage : IndexPage disk parent
  leftPage : IndexPage disk left
  rightPage : IndexPage disk right
  apart : parent ≠ right
  leftNotFirst : left ≠ 1
  rightNotFirst : right ≠ 1

/-- What a merge leaves on the disk. -/
structure FreesRight (disk after : Disk) (parent right index : Nat) :
    Prop where
  first : after.nextFree 1 = right
  parent_eq : after.buffer? parent =
    some (nodeRemoveAt (loadedNode disk parent) index).page.pageBuffer

section Run

variable {disk : Disk} {free : List Nat} {parent left right index : Nat}

theorem IndexPage.pageSize_eq {page : Nat} (here : IndexPage disk page)
    (store : Store disk free) :
    (loadedNode disk page).pageSize = disk.pageSize :=
  here.on.1.pageSize_eq store

theorem IndexPage.present {page : Nat} (here : IndexPage disk page) :
    OnDisk disk page := by
  have present := here.on.1.present
  rw [here.on.2] at present
  exact present

/-- The cells of one page are small enough for any other but page 1. -/
theorem IndexPage.cells_small {page other : Nat} (here : IndexPage disk page)
    (there : IndexPage disk other) (store : Store disk free)
    (notFirst : other ≠ 1) :
    ∀ entry ∈ (loadedNode disk page).entries,
      entry.cellSize ≤ btreeNodeMaxCellSize (loadedNode disk other) := by
  intro entry member
  have small := here.small entry member
  have wider := maxCellSize_le ((here.pageSize_eq store).trans
    (there.pageSize_eq store).symm) (by rw [there.on.2]; exact notFirst)
  unfold Entry.heapSize at small
  unfold Entry.cellSize
  omega

/-- Without an error, a merge frees the right page and writes the parent
without the separator. -/
theorem ibtaMergeCells_run (tree : BTree) (roomy : Roomy disk)
    (store : Store disk free) (pages : MergePages disk parent left right)
    (inside : index < keysOn disk parent) :
    (∃ after, ibtaMergeCells tree
        ⟨loadedNode disk parent, loadedNode disk left, loadedNode disk right,
          ⟨.limIndex, index⟩⟩ disk =
          (.error (.err .errNodeNotEnoughSpace), after)) ∨
      ∃ deficient after, ibtaMergeCells tree
        ⟨loadedNode disk parent, loadedNode disk left, loadedNode disk right,
          ⟨.limIndex, index⟩⟩ disk = (.ok deficient, after) ∧
        FreesRight disk after parent right index := by
  obtain ⟨parentPage, leftPage, rightPage, apart, leftNotFirst,
    rightNotFirst⟩ := pages
  have few := store.few
  have parentPresent := parentPage.present
  have leftPresent := leftPage.present
  have rightPresent := rightPage.present
  have wide : (loadedNode disk left).pageSize < 2 ^ 32 := by
    rw [leftPage.pageSize_eq store]
    exact roomy.fits
  have bound := inside
  unfold keysOn BTreeNode.numKeys at bound
  rw [← entries_length] at bound
  have here := List.getElem?_eq_getElem bound
  have removed : btreeNodeRemove (loadedNode disk parent) ⟨.limIndex, index⟩ =
      .ok (nodeRemoveAt (loadedNode disk parent) index) := if_pos inside
  have samePointers :=
    nodeRemoveAt_samePointers (loadedNode disk parent) index
  have parentNumber :
      (nodeRemoveAt (loadedNode disk parent) index).pageNumber = parent :=
    samePointers.pageNumber_eq.trans parentPage.on.2
  unfold ibtaMergeCells
  simp only [removed]
  rcases @btreeNodeMoveCellEx_run disk (loadedNode disk parent)
    (loadedNode disk left) index (loadedNode disk left).rightChild _
    parentPage.on.1.ok leftPage.on.1.ok here
    (parentPage.cells_small leftPage store leftNotFirst _
      (List.mem_of_getElem? here)) wide with
    full | ⟨lowered, lowerEq, filled⟩
  · exact Or.inl ⟨_, BtM.bind_error full⟩
  · have leftNumber : lowered.pageNumber = left :=
      filled.frame.1.trans leftPage.on.2
    have leftStored := @nodercPersist_numbered disk lowered
      (by rw [leftNumber]; exact leftPresent.1)
      (by rw [leftNumber]; exact Nat.lt_of_le_of_lt leftPresent.2 few)
    have parentStored := @nodercPersist_numbered
      (disk.store lowered.pageNumber (setInUse lowered.page).image)
      (nodeRemoveAt (loadedNode disk parent) index)
      (by rw [parentNumber]; exact parentPresent.1)
      (by rw [parentNumber]; exact Nat.lt_of_le_of_lt parentPresent.2 few)
    rw [BtM.bind_ok lowerEq, BtM.bind_ok (BtM.ofExcept_ok _ disk),
      BtM.bind_ok leftStored, BtM.bind_ok parentStored]
    rcases @moveEveryCell_all ((disk.store lowered.pageNumber
        (setInUse lowered.page).image).store _
        (setInUse (nodeRemoveAt (loadedNode disk parent) index).page).image)
      (loadedNode disk right)
      { lowered with metaBytes := (setInUse lowered.page).metaBytes }
      rightPage.on.1.ok (filled.ok.withMeta _)
      (by
        intro entry member
        have small :=
          rightPage.cells_small leftPage store leftNotFirst entry member
        rw [← filled.maxCellSize_eq] at small
        exact small)
      (by
        have size := filled.pageSize_eq
        change lowered.pageSize < 2 ^ 32
        rw [size]
        exact wide) with
      full | ⟨merged, mergeEq, refilled⟩
    · exact Or.inl ⟨_, BtM.bind_error full⟩
    · have sameSize : btuGetNodeSize (nodeRightChildSet merged
          (loadedNode disk right).rightChild) =
          btuGetNodeSize (loadedNode disk right) := by
        have mergedSize : merged.pageSize = disk.pageSize :=
          (refilled.pageSize_eq.trans filled.pageSize_eq).trans
            (leftPage.pageSize_eq store)
        have mergedNumber : merged.pageNumber = left :=
          refilled.frame.1.trans leftNumber
        have leftOffset : headerOffset left = 0 := if_neg leftNotFirst
        have rightOffset : headerOffset right = 0 := if_neg rightNotFirst
        unfold btuGetNodeSize
        rw [rightPage.pageSize_eq store, rightPage.on.2, rightOffset]
        change merged.pageSize - headerOffset merged.pageNumber = _
        rw [mergedSize, mergedNumber, leftOffset]
      have copied : ∃ copy, btreeNodeCopy (loadedNode disk right)
          (nodeRightChildSet merged (loadedNode disk right).rightChild) =
          .ok copy ∧ copy.pageNumber = right :=
        ⟨_, if_pos sameSize, rightPage.on.2⟩
      obtain ⟨copy, copyEq, copyNumber⟩ := copied
      have rightStored := fun later => @nodercPersist_numbered later copy
        (by rw [copyNumber]; exact rightPresent.1)
        (by rw [copyNumber]; exact Nat.lt_of_le_of_lt rightPresent.2 few)
      have metaSize : (setInUse (nodeRemoveAt (loadedNode disk parent)
          index).page).image.metaBytes.length = pagemetaSize := by
        refine setInUse_metaBytes_length ?_
        change (nodeRemoveAt _ index).metaBytes.length = _
        rw [samePointers.metaBytes_eq]
        exact loadedNode_metaBytes store parentPresent
      obtain ⟨after, freedEq, firstEq, parentKept⟩ :=
        @freelistPushPage_after_stores disk free
          (nodeRemoveAt (loadedNode disk parent) index).pageNumber
          lowered.pageNumber copy.pageNumber
          { copy with metaBytes := (setInUse copy.page).metaBytes : BTreeNode
            }.page
          (setInUse lowered.page).image _ (setInUse copy.page).image store rfl
          (by rw [parentNumber]; exact parentPresent)
          (by rw [leftNumber]; exact leftPresent)
          (by rw [copyNumber]; exact rightPresent)
          (by rw [leftNumber]; exact leftNotFirst)
          (by rw [copyNumber]; exact rightNotFirst)
          (by rw [parentNumber, copyNumber]; exact apart) metaSize
      rw [BtM.bind_ok mergeEq, copyEq, BtM.bind_ok (BtM.ofExcept_ok _ _),
        BtM.bind_ok (rightStored _), BtM.bind_ok freedEq]
      rw [parentNumber] at parentKept
      exact Or.inr ⟨_, after, rfl, firstEq.trans copyNumber, parentKept⟩

/-- The parent goes on naming the freed page. -/
theorem FreesRight.named {tree : BTree} {after : Disk}
    (frees : FreesRight disk after parent right index)
    (isIndex : tree.type = .index) (parentPage : IndexPage disk parent)
    (inside : index < keysOn disk parent)
    (rightEq : right = childPage tree disk parent (index + 1)) :
    right ∈ childPages tree after parent := by
  have fit := (parentPage.on.1.ok.pointersFit
    parentPage.on.1.encodable).removed index
  have kidsAfter := fit.indexKids_on
    ((nodeRemoveAt_samePointers _ index).pageNumber_eq.trans parentPage.on.2)
    frees.parent_eq
  rw [indexKids_nodeRemoveAt inside] at kidsAfter
  have lengths := congrArg List.length kidsAfter
  have within : index < (indexKids (loadedNode disk parent)).length := by
    rw [indexKids_length]
    exact Nat.lt_succ_of_lt inside
  rw [List.length_eraseIdx_of_lt within, indexKids_length,
    indexKids_length] at lengths
  have bound : index ≤ keysOn after parent := by
    unfold keysOn at inside ⊢
    omega
  have kidHere := indexKids_childPage isIndex bound
  have kidBefore := indexKids_childPage isIndex (Nat.succ_le_of_lt inside)
  rw [kidsAfter, List.getElem?_eraseIdx_of_ge (Nat.le_refl _), kidBefore,
    ← rightEq] at kidHere
  exact List.mem_map.mpr ⟨index, List.mem_range.mpr (Nat.lt_succ_of_le bound),
    (Option.some.inj kidHere).symm⟩

end Run

/-! ## Every merge of every tree -/

/-- The pages around a separator. -/
theorem IndexTree.mergePages {before : IndexRecord → IndexRecord → Prop}
    {tree : BTree} {disk : Disk} {free pages : List Nat} {top height : Nat}
    {flat : List IndexRecord} {parent index : Nat}
    {crumbs : List CursorBreadcrumb}
    (valid : IndexTree before disk free tree.rootPageId top pages flat)
    (isIndex : tree.type = .index)
    (way : WayDown tree disk top (height + 1) parent crumbs)
    (inside : index < keysOn disk parent) :
    MergePages disk parent (childPage tree disk parent index)
      (childPage tree disk parent (index + 1)) := by
  have store := valid.store
  have distinct := (List.nodup_append.mp valid.apart).1
  obtain ⟨own, part, subtree, ownDistinct, within, rootApart⟩ := way.subtree
    (IndexHolds.readsAs isIndex store) valid.tree distinct
  obtain ⟨kids, seps, here, _, _, kidTrees⟩ := subtree.kid
  obtain ⟨parentPage, kidsEq⟩ := here.indexPage store
  have kidsEq := kidsEq kids seps rfl
  have kidPage : ∀ place, place ≤ keysOn disk parent →
      IndexPage disk (childPage tree disk parent place) ∧
        childPage tree disk parent place ≠ parent ∧
        childPage tree disk parent place ≠ 1 := by
    intro place bound
    have kidHere := indexKids_childPage isIndex bound
    rw [← kidsEq] at kidHere
    obtain ⟨kidPages, kidPart, kid⟩ := kidTrees place _ kidHere
    have apart := (kid.distinct ownDistinct).2
    have rootMember := kid.tree.root_mem
    obtain ⟨content, kidHolds⟩ : ∃ content,
        IndexHolds disk (childPage tree disk parent place) content := by
      cases height with
      | zero => exact ⟨_, kid.tree.1⟩
      | succ height =>
          obtain ⟨_, _, kidHolds, _⟩ := kid.tree.kid
          exact ⟨_, kidHolds⟩
    refine ⟨(kidHolds.indexPage store).1, ?_, ?_⟩
    · intro same
      exact apart (same ▸ rootMember)
    · intro isFirst
      have rootFirst := valid.rooted (isFirst ▸ within _ (kid.within _ rootMember))
      rcases rootApart with parentRoot | rootNotIn
      · rw [parentRoot, rootFirst] at apart
        exact apart (isFirst ▸ rootMember)
      · rw [rootFirst] at rootNotIn
        exact rootNotIn (isFirst ▸ kid.within _ rootMember)
  obtain ⟨leftPage, _, leftNotFirst⟩ := kidPage index (Nat.le_of_lt inside)
  obtain ⟨rightPage, rightApart, rightNotFirst⟩ :=
    kidPage (index + 1) (Nat.succ_le_of_lt inside)
  exact ⟨parentPage, leftPage, rightPage, Ne.symm rightApart, leftNotFirst,
    rightNotFirst⟩

/-- A merge that ends well has freed the right page around some separator. -/
theorem ibtaMerge_frees
    {before : IndexRecord → IndexRecord → Prop} {tree : BTree}
    {disk after : Disk} {free pages : List Nat} {top height page : Nat}
    {flat : List IndexRecord} {mode : RebalanceMode} {cursor later : Cursor}
    {parent : CursorBreadcrumb} {crumbs : List CursorBreadcrumb}
    {result : Except BTreeE Unit} (isIndex : tree.type = .index)
    (valid : IndexTree before disk free tree.rootPageId top pages flat)
    (placed : PlacedBy tree disk top cursor page (parent :: crumbs))
    (way : WayDown tree disk top height page (parent :: crumbs))
    (merged : ibtaMerge tree mode cursor disk = (.ok (result, later), after))
    (ended : MergeEnds result) :
    ∃ separator, separator < keysOn disk parent.pageId ∧
      IndexPage disk parent.pageId ∧
      FreesRight disk after parent.pageId
        (childPage tree disk parent.pageId (separator + 1)) separator := by
  have room := placed.room
  rw [placed.cursorEq] at merged
  cases way with
  | @child _ parentPage index lower above bound =>
      have shape := above.shape (valid.wellShaped isIndex)
      simp only [List.cons_append, List.length_cons] at merged room
      unfold ibtaMerge at merged
      cases isMerge : mode == .mergeLeft || mode == .mergeRight with
      | false =>
          rw [isMerge] at merged
          cases merged
      | true =>
          rw [isMerge, CursorM.bind_ok (CursorM.lift_ok
            (BtM.assert_true_apply disk))] at merged
          obtain ⟨between, noSibling | ⟨separator, inside, nodesEq⟩⟩ :=
            @ibtaMergeNodes_run tree disk
              ⟨cursor.currentKeyIndex, childPage tree disk parentPage index⟩
              ⟨initKeylistindexFromIndex (loadedNode disk parentPage) index,
                parentPage⟩ (crumbs ++ [rootCrumb tree]) height index mode
              (by simp only [List.length_append, List.length_singleton]; omega)
              shape bound rfl rfl
          · rw [CursorM.bind_error noSibling] at merged
            exact absurd ended (not_mergeEnds_of_error (by decide) merged)
          · have pagesOk := valid.mergePages isIndex above inside
            rw [CursorM.bind_ok nodesEq] at merged
            rcases ibtaMergeCells_run tree valid.roomy valid.store pagesOk
              inside with ⟨last, full⟩ | ⟨deficient, last, cellsEq, frees⟩
            · have lifted := @CursorM.lift_error _ between _ _ _ _ full
              unfold nodesAround at merged
              rw [CursorM.bind_error lifted] at merged
              exact absurd ended (not_mergeEnds_of_error (by decide) merged)
            · have lifted := @CursorM.lift_ok _ between _ _ _ _ cellsEq
              unfold nodesAround at merged
              rw [CursorM.bind_ok lifted] at merged
              have sameDisk : last = after := by
                cases deficient <;> exact (Prod.mk.inj merged).2
              exact ⟨separator, inside, pagesOk.parentPage, sameDisk ▸ frees⟩

/-- No merge that ends with `BTREE_OK` or `BTREE_ERR_PARENT_DEFICIENT` keeps
the pages right: the one it frees is still a child of the parent. -/
theorem ibtaMerge_loses_right_page
    {before : IndexRecord → IndexRecord → Prop} {tree : BTree}
    {disk after : Disk} {free pages : List Nat} {top height page : Nat}
    {flat : List IndexRecord} {mode : RebalanceMode} {cursor later : Cursor}
    {parent : CursorBreadcrumb} {crumbs : List CursorBreadcrumb}
    {result : Except BTreeE Unit} (isIndex : tree.type = .index)
    (valid : IndexTree before disk free tree.rootPageId top pages flat)
    (placed : PlacedBy tree disk top cursor page (parent :: crumbs))
    (way : WayDown tree disk top height page (parent :: crumbs))
    (merged : ibtaMerge tree mode cursor disk = (.ok (result, later), after))
    (ended : MergeEnds result) :
    ¬ MergeKeepsPages tree disk free after (height + 1) parent.pageId := by
  obtain ⟨separator, inside, parentPage, frees⟩ :=
    ibtaMerge_frees isIndex valid placed way merged ended
  intro keeps
  refine keeps.noChild ?_
  rw [frees.first]
  exact frees.named isIndex parentPage inside rfl

/-! ## One merge -/

/-- A root with three leaves. -/
def threeLeaves : Disk :=
  diskOfNodes 216
    [(false, 4, [(2, [20]), (3, [40])]), (true, 0, [(0, [10])]),
      (true, 0, [(0, [30])]), (true, 0, [(0, [50])])]

/-- The cursor on the first leaf. -/
def firstLeafCursor : Cursor :=
  cursorAt [⟨⟨.limIndex, 0⟩, 2⟩, ⟨⟨.limIndex, 0⟩, 1⟩, rootCrumb indexTree]

/-- The cursor on the second leaf, where the merge leaves it. -/
def secondLeafCursor : Cursor :=
  cursorAt [⟨⟨.limIndex, 0⟩, 3⟩, ⟨⟨.limIndex, 1⟩, 1⟩, rootCrumb indexTree]

def mergedLeaves : Disk :=
  (ibtaMerge indexTree .mergeRight firstLeafCursor threeLeaves).2

theorem threeLeaves_valid : ∃ pages flat,
    IndexTree (fun left right : IndexRecord => left.cell < right.cell)
      threeLeaves [] indexTree.rootPageId 1 pages flat := by
  have checked : (checkIndex threeLeaves [] 1 1).isSome = true := by
    decide +kernel
  obtain ⟨⟨pages, flat⟩, checkEq⟩ := Option.isSome_iff_exists.mp checked
  have ordered : ∀ flat ∈ (checkIndex threeLeaves [] 1 1).map Prod.snd,
      flat.Pairwise fun left right : IndexRecord => left.cell < right.cell := by
    decide +kernel
  exact ⟨pages, flat, checkIndex_sound checkEq
    (ordered flat (by rw [checkEq]; rfl))⟩

theorem firstLeaf_way : WayDown indexTree threeLeaves 1 0 2
    [⟨⟨.limIndex, 0⟩, 1⟩] := by
  have childEq : childPage indexTree threeLeaves 1 0 = 2 := by decide +kernel
  have crumbEq : initKeylistindexFromIndex (loadedNode threeLeaves 1) 0 =
      ⟨.limIndex, 0⟩ := by decide +kernel
  have way := @WayDown.child indexTree threeLeaves 1 0 1 0 [] .root
    (Nat.zero_le _)
  rw [← crumbEq, ← childEq]
  exact way

theorem firstLeaf_placed : PlacedBy indexTree threeLeaves 1 firstLeafCursor 2
    [⟨⟨.limIndex, 0⟩, 1⟩] :=
  ⟨rfl, ⟨0, firstLeaf_way⟩, by decide⟩

theorem threeLeaves_merged :
    ibtaMerge indexTree .mergeRight firstLeafCursor threeLeaves =
      (.ok (.ok (), secondLeafCursor), mergedLeaves) := by
  decide +kernel

/-- The merge of the first two leaves. -/
theorem merge_loses_second_leaf :
    ¬ MergeKeepsPages indexTree threeLeaves [] mergedLeaves 1 1 := by
  obtain ⟨pages, flat, valid⟩ := threeLeaves_valid
  exact ibtaMerge_loses_right_page rfl valid firstLeaf_placed firstLeaf_way
    threeLeaves_merged (Or.inl rfl)

/-- After the merge page 3 is the first free page and the first child. -/
theorem merged_leaf_is_free :
    (∃ pages flat, IndexTree
      (fun left right : IndexRecord => left.cell < right.cell) threeLeaves []
        indexTree.rootPageId 1 pages flat) ∧
    PlacedBy indexTree threeLeaves 1 firstLeafCursor 2
      [⟨⟨.limIndex, 0⟩, 1⟩] ∧
    ibtaMerge indexTree .mergeRight firstLeafCursor threeLeaves =
      (.ok (.ok (), secondLeafCursor), mergedLeaves) ∧
    ¬ MergeKeepsPages indexTree threeLeaves [] mergedLeaves 1 1 := by
  refine ⟨threeLeaves_valid, firstLeaf_placed, threeLeaves_merged, ?_⟩
  intro keeps
  have isChild : mergedLeaves.nextFree 1 ∈
      childPages indexTree mergedLeaves 1 := by
    decide +kernel
  exact keeps.noChild isChild

end BtreeDb
