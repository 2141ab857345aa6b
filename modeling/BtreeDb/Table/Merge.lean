import BtreeDb.Table.Rotate
import BtreeDb.Tree.Merging

/-!
# Merging two siblings of a table tree

`bta_merge` puts the contents of two siblings together.  It assembles them in
the left node, writes the result to the page of the right one, which the parent
goes on naming, and frees the left page.
-/

namespace BtreeDb

open Bytes Disk PagedTree

/-! ## The code -/

/-- `cursor_parent_crumb`, of a cursor that has a parent. -/
def cursorParentCrumb : CursorM CursorBreadcrumb := do
  let child ← pop
  let crumb ← peek
  pushCrumb child
  pure crumb

/-- The pages of a merge, and the parent's crumb on the way to the left one. -/
structure MergePageIds where
  leftPage : Nat
  rightPage : Nat
  parentCrumb : CursorBreadcrumb
  deriving DecidableEq, Repr

/-- The first part of `bta_merge`: the cursor goes from the one sibling to
the other. -/
def btaMergePages (tree : BTree) (mode : RebalanceMode) :
    CursorM MergePageIds := do
  let cursor ← CursorM.getCursor
  if mode = .mergeRight then
    -- the cursor points to the left child
    let crumb ← cursorParentCrumb
    cursorSibling tree .right
    let later ← CursorM.getCursor
    pure ⟨cursor.currentPageId, later.currentPageId, crumb⟩
  else
    cursorSibling tree .left
    let crumb ← cursorParentCrumb
    let later ← CursorM.getCursor
    pure ⟨later.currentPageId, cursor.currentPageId, crumb⟩

/-- `noderc_acquire_load_n` of the three nodes. -/
def btaMergeLoad (ids : MergePageIds) : BtM MergeNodes := do
  let left ← nodercAcquireLoad ids.leftPage
  let right ← nodercAcquireLoad ids.rightPage
  let parent ← nodercAcquireLoad ids.parentCrumb.pageId
  pure ⟨parent, left, right, ids.parentCrumb.keyIndex⟩

/-- The left node with the contents of both. -/
def btaMergeContents (nodes : MergeNodes) : BtM BTreeNode := do
  let parentKey := (nodes.parent.keyAt nodes.parentIndex.index).key
  let indexes := List.range nodes.right.numKeys
  if nodes.left.isLeaf then
    -- just copy
    moveEveryCell nodes.right indexes nodes.left
  else
    -- slide parent
    let left ← btreeNodeWriteAt nodes.left insertEnd parentKey
      (le32 nodes.left.rightChild)
    let left ← moveEveryCell nodes.right indexes left
    pure (nodeRightChildSet left nodes.right.rightChild)

/-- The rest of `bta_merge`: whether the parent has become deficient. -/
def btaMergeNodes (tree : BTree) (nodes : MergeNodes) : BtM Bool := do
  let left ← btaMergeContents nodes
  -- remove left parent
  let parent ← BtM.ofExcept (btreeNodeRemove nodes.parent nodes.parentIndex)
  -- the result always ends up on the right-side page
  let right ← BtM.ofExcept (btreeNodeCopy nodes.right left)
  let parentDeficient := decide (parent.numKeys < tree.underflow)
  let stored ← nodercPersistN [left, right, parent]
  freelistPushPage (stored.headD left).page
  pure parentDeficient

/-- `bta_merge`. -/
def btaMerge (tree : BTree) (mode : RebalanceMode) : CursorM Unit := do
  CursorM.lift (BtM.assert (mode == .mergeLeft || mode == .mergeRight))
  let ids ← btaMergePages tree mode
  let nodes ← CursorM.lift (btaMergeLoad ids)
  let parentDeficient ← CursorM.lift (btaMergeNodes tree nodes)
  if parentDeficient then
    CursorM.fail .errParentDeficient
  else
    pure ()

/-! ## What a merge is for -/

/-- The contents of two neighbours and the separator between them in one
node. -/
inductive TableJoins : PNode Mark → Mark → PNode Mark → PNode Mark → Prop
  | leaf (items others : List Entry) (key : Nat) :
      TableJoins (leafOf items) (.separator key) (leafOf others)
        (leafOf (items ++ others))
  | inner (kids kids' : List Nat) (seps seps' : List Mark) (sep : Mark) :
      TableJoins (.inner kids seps) sep (.inner kids' seps')
        (.inner (kids ++ kids') (seps ++ sep :: seps'))

/-- A merge around a separator: the right page holds both contents, the parent
has lost the left page's slot, the subtree of the parent holds the same
records, the left page is free and no other page is, and the result says
whether the parent is deficient. -/
structure TableMerge (tree : BTree) (disk : Disk) (free : List Nat)
    (top : Nat) (pages : List Nat) (flat : List Mark)
    (result : Except BTreeE Unit) (after : Disk)
    (height parent separator : Nat) : Prop where
  joined : ∃ kids seps left sep right both,
    TableHolds disk parent (.inner kids seps) ∧
    seps[separator]? = some sep ∧
    TableHolds disk (childPage tree disk parent separator) left ∧
    TableHolds disk (childPage tree disk parent (separator + 1)) right ∧
    TableJoins left sep right both ∧
    TableHolds after parent
      (.inner (kids.eraseIdx separator) (seps.eraseIdx separator)) ∧
    TableHolds after (childPage tree disk parent (separator + 1)) both
  below : ∃ own part own' part',
    TreeAt (TableHolds disk) (height + 1) parent own part ∧
    TreeAt (TableHolds after) (height + 1) parent own' part' ∧
    entriesOf part' = entriesOf part
  freed : Store after (childPage tree disk parent separator :: free)
  valid : ∃ pages' flat',
    TableTree after (childPage tree disk parent separator :: free)
      tree.rootPageId top pages' flat' ∧
    entriesOf flat' = entriesOf flat ∧
    (childPage tree disk parent separator :: pages').Perm pages
  others : ∀ page, page ≠ parent →
    page ≠ childPage tree disk parent separator →
    page ≠ childPage tree disk parent (separator + 1) →
    after.buffer? page = disk.buffer? page
  deficient : result = .error .errParentDeficient ↔
    keysOn after parent < tree.underflow

/-! ## Trees under a merge -/

/-- A merge keeps the records, and what the separators bound. -/
theorem TableJoins.joined {before after : Disk} {height : Nat}
    {left right : PagedTree.Part Mark} {sep : Mark}
    {leftNode rightNode both : PNode Mark}
    (joins : TableJoins leftNode sep rightNode both)
    (leftTree : TreeAt (TableHolds before) height left.kid left.pages left.flat)
    (rightTree : TreeAt (TableHolds before) height right.kid right.pages
      right.flat)
    (distinct : (left.pages ++ right.pages).Nodup)
    (leftHere : TableHolds before left.kid leftNode)
    (rightHere : TableHolds before right.kid rightNode)
    (rightAfter : TableHolds after right.kid both)
    (kept : ∀ own ∈ left.pages ++ right.pages, own ≠ left.kid →
      own ≠ right.kid → ∀ node, TableHolds before own node →
        TableHolds after own node) :
    ∃ own flat, TreeAt (TableHolds after) height right.kid own flat ∧
      (left.kid :: own).Perm (left.pages ++ right.pages) ∧
      entriesOf flat = entriesOf (left.flat ++ sep :: right.flat) ∧
      flat.Sublist (left.flat ++ sep :: right.flat) := by
  have functional := TableHolds.functional before
  cases joins with
  | leaf items others key =>
      obtain ⟨rfl, leftPages, leftFlat⟩ :=
        leftTree.height_zero functional leftHere
      obtain ⟨_, rightPages, rightFlat⟩ :=
        rightTree.height_zero functional rightHere
      refine ⟨[right.kid], (items ++ others).map Mark.record,
        ⟨rightAfter, rfl⟩, ?_, ?_, ?_⟩
      · rw [leftPages, rightPages]
        exact List.Perm.refl _
      · simp only [leftFlat, rightFlat, entriesOf_append, entriesOf_separator,
          entriesOf_records]
      · rw [leftFlat, rightFlat, List.map_append]
        exact (List.Sublist.refl _).append (List.sublist_cons_self _ _)
  | inner kids kids' seps seps' =>
      obtain ⟨own, tree, pagesEq⟩ := leftTree.joined functional rightTree
        distinct leftHere rightHere rightAfter kept
      exact ⟨own, _, tree, pagesEq, rfl, List.Sublist.refl _⟩

/-! ## The cursor's part -/

section Cursors

variable {tree : BTree} {disk : Disk} {child parent : CursorBreadcrumb}
variable {rest : List CursorBreadcrumb}

theorem cursorParentCrumb_apply (room : rest.length + 2 ≤ maxBreadcrumbs) :
    cursorParentCrumb (cursorAt (child :: parent :: rest)) disk =
      (.ok (.ok parent, cursorAt (child :: parent :: rest)), disk) := by
  have peeked : peek (cursorAt (parent :: rest)) disk =
      (.ok (.ok parent, cursorAt (parent :: rest)), disk) :=
    CursorM.move_ok rfl
  unfold cursorParentCrumb
  rw [CursorM.bind_ok (pop_apply rfl), CursorM.bind_ok peeked,
    CursorM.bind_ok (pushCrumb_apply (by
      rw [cursorAt_breadcrumbs, List.length_cons]
      omega))]
  rfl

/-- The code finds the pages around a separator, or there is no sibling. -/
theorem btaMergePages_run {height index : Nat} {mode : RebalanceMode}
    (isMerge : mode = .mergeLeft ∨ mode = .mergeRight)
    (room : rest.length + 2 ≤ maxBreadcrumbs)
    (shape : WellShaped tree disk (height + 1) parent.pageId)
    (bound : index ≤ keysOn disk parent.pageId)
    (placed : parent.keyIndex =
      initKeylistindexFromIndex (loadedNode disk parent.pageId) index)
    (below : child.pageId = childPage tree disk parent.pageId index) :
    ∃ later,
      btaMergePages tree mode (cursorAt (child :: parent :: rest)) disk =
          (.ok (.error .errCursorNoSibling, later), disk) ∨
        separatorBeside mode index < keysOn disk parent.pageId ∧
          btaMergePages tree mode (cursorAt (child :: parent :: rest)) disk =
            (.ok (.ok
              { leftPage := childPage tree disk parent.pageId
                  (separatorBeside mode index)
                rightPage := childPage tree disk parent.pageId
                  (separatorBeside mode index + 1)
                parentCrumb := ⟨⟨.limIndex, separatorBeside mode index⟩,
                  parent.pageId⟩ }, later), disk) := by
  have standsAt : (cursorAt (child :: parent :: rest)).currentPageId =
      child.pageId := rfl
  unfold btaMergePages
  rw [CursorM.bind_ok CursorM.getCursor_apply, standsAt]
  rcases isMerge with rfl | rfl
  · rw [if_neg (by decide)]
    rcases @cursorSibling_left_cases tree disk child parent rest height index
      room shape bound placed with none | ⟨separator, indexEq, moved⟩
    · rw [CursorM.bind_error none]
      exact ⟨_, Or.inl rfl⟩
    · subst indexEq
      rw [CursorM.bind_ok moved, CursorM.bind_ok (cursorParentCrumb_apply room),
        CursorM.bind_ok CursorM.getCursor_apply, below]
      exact ⟨_, Or.inr ⟨Nat.lt_of_succ_le bound, rfl⟩⟩
  · rw [if_pos rfl, CursorM.bind_ok (cursorParentCrumb_apply room)]
    rcases @cursorSibling_right_cases tree disk child parent rest height index
      room shape placed with none | ⟨inside, keyIndexEq, slotMode, moved⟩
    · rw [CursorM.bind_error none]
      exact ⟨_, Or.inl rfl⟩
    · have crumbEq : parent = ⟨⟨.limIndex, index⟩, parent.pageId⟩ := by
        rw [← keyIndexEq]
      rw [CursorM.bind_ok moved, CursorM.bind_ok CursorM.getCursor_apply,
        below]
      refine ⟨cursorAt
        (⟨⟨.limIndex, 0⟩, childPage tree disk parent.pageId (index + 1)⟩ ::
          ⟨⟨slotMode, index + 1⟩, parent.pageId⟩ :: rest),
        Or.inr ⟨inside, ?_⟩⟩
      have sameCrumb : (⟨⟨.limIndex, separatorBeside .mergeRight index⟩,
          parent.pageId⟩ : CursorBreadcrumb) = parent := crumbEq.symm
      rw [sameCrumb]
      rfl

end Cursors

/-! ## The nodes' part -/

section Nodes

variable {disk : Disk} {free : List Nat} {parent left right separator : Nat}
variable {slots leftSlots rightSlots : List Slot}

/-- The assembled node, in memory or already on the left page. -/
structure MergedNode (disk mid : Disk) (free : List Nat) (left right : Nat)
    (leftNode : PNode Mark) (sep : Mark) (rightNode : PNode Mark)
    (merged : BTreeNode) : Prop where
  updates : ∃ touched, Updates disk free mid free touched [] ∧
    ∀ page ∈ touched, page = left
  writable : Writable mid free merged
  number : merged.pageNumber = left
  contents : ∃ both, TableJoins leftNode sep rightNode both ∧
    ∀ after, Holds after (merged.onPage (loadedNode disk right)) →
      TableHolds after right both

variable (pages : TablePages disk free parent left right)

include pages

/-- The cells of two leaves behind each other. -/
theorem btaMergeContents_leaf (key : Nat)
    (leftLeaf : (loadedNode disk left).isLeaf = true)
    (leftSmall : SmallCells (loadedNode disk left))
    (rightSmall : SmallCells (loadedNode disk right)) :
    btaMergeContents ⟨loadedNode disk parent, loadedNode disk left,
        loadedNode disk right, ⟨.limIndex, separator⟩⟩ disk =
        (.error (.err .errNodeNotEnoughSpace), disk) ∨
      ∃ merged,
        btaMergeContents ⟨loadedNode disk parent, loadedNode disk left,
          loadedNode disk right, ⟨.limIndex, separator⟩⟩ disk =
          (.ok merged, disk) ∧
        MergedNode disk disk free left right
          (leafOf (loadedNode disk left).entries) (.separator key)
          (leafOf (loadedNode disk right).entries) merged := by
  have leftWritable := pages.leftOn.writable pages.store pages.three.leftUsed
  have rightWritable :=
    pages.rightOn.writable pages.store pages.three.rightUsed
  have capacity := pages.maxCellSize_same
  have small : ∀ entry ∈ (loadedNode disk right).entries,
      entry.cellSize ≤ btreeNodeMaxCellSize (loadedNode disk left) := by
    intro entry member
    have heap := rightSmall entry member
    rw [capacity]
    unfold Entry.heapSize at heap
    unfold Entry.cellSize
    omega
  have unfolded : btaMergeContents ⟨loadedNode disk parent,
      loadedNode disk left, loadedNode disk right, ⟨.limIndex, separator⟩⟩ =
      moveEveryCell (loadedNode disk right)
        (List.range (loadedNode disk right).numKeys)
        (loadedNode disk left) := if_pos leftLeaf
  rw [unfolded]
  rcases @moveEveryCell_all disk _ _ pages.rightOn.1.ok pages.leftOn.1.ok small
    pages.leftOn.1.encodable.pageSize_lt with
    full | ⟨merged, movedEq, filled⟩
  · exact Or.inl full
  · have fit : EntriesFit ((loadedNode disk left).entries ++
        (loadedNode disk right).entries) := by
      intro entry member
      rcases List.mem_append.mp member with inLeft | inRight
      · exact leftWritable.encodable.entries entry inLeft
      · exact rightWritable.encodable.entries entry inRight
    have smallCells := filled.smallCells fun entry member => by
      rcases List.mem_append.mp member with inLeft | inRight
      · exact leftSmall entry inLeft
      · rw [capacity]
        exact rightSmall entry inRight
    refine Or.inr ⟨merged, movedEq, ⟨[], .refl pages.store, by simp⟩,
      leftWritable.refilled filled fit, filled.frame.1.trans pages.leftOn.2,
      _, .leaf _ _ key, ?_⟩
    intro after holds
    have isLeaf : (merged.onPage (loadedNode disk right)).isLeaf = true :=
      filled.frame.2.2.2.1.trans leftLeaf
    have sameCapacity : btreeNodeMaxCellSize
        (merged.onPage (loadedNode disk right)) =
          btreeNodeMaxCellSize merged := by
      have mergedWritable := leftWritable.refilled filled fit
      have number := filled.frame.1.trans pages.leftOn.2
      have copied := mergedWritable.copied rightWritable
        (by rw [number]; exact pages.three.leftNotFirst)
        (by rw [pages.rightOn.2]; exact pages.three.rightNotFirst)
      apply maxCellSize_same
      · rw [copied.size, mergedWritable.size]
      · exact (congrArg (· ≠ 1) pages.rightOn.2).mpr pages.three.rightNotFirst
      · rw [number]
        exact pages.three.leftNotFirst
    have contents := leaf_holds holds pages.rightOn.2 isLeaf (by
      unfold SmallCells
      rw [sameCapacity]
      exact smallCells)
    have entriesEq : (merged.onPage (loadedNode disk right)).entries =
        (loadedNode disk left).entries ++ (loadedNode disk right).entries :=
      filled.entries_eq
    rw [entriesEq] at contents
    exact contents

/-- The slots of two inner nodes behind each other, with one for the left
node's right child between them. -/
theorem btaMergeContents_inner {parentSlot : Slot}
    (has : HasSlots (loadedNode disk parent) slots)
    (slotHere : slots[separator]? = some parentSlot)
    (leftHas : HasSlots (loadedNode disk left) leftSlots)
    (rightHas : HasSlots (loadedNode disk right) rightSlots) :
    (∃ mid, btaMergeContents ⟨loadedNode disk parent, loadedNode disk left,
        loadedNode disk right, ⟨.limIndex, separator⟩⟩ disk =
        (.error (.err .errNodeNotEnoughSpace), mid)) ∨
      ∃ merged mid,
        btaMergeContents ⟨loadedNode disk parent, loadedNode disk left,
          loadedNode disk right, ⟨.limIndex, separator⟩⟩ disk =
          (.ok merged, mid) ∧
        MergedNode disk mid free left right
          (innerOf leftSlots (loadedNode disk left).rightChild)
          (.separator parentSlot.key)
          (innerOf rightSlots (loadedNode disk right).rightChild) merged := by
  have leftWritable := pages.leftOn.writable pages.store pages.three.leftUsed
  have rightWritable :=
    pages.rightOn.writable pages.store pages.three.rightUsed
  have parentReads := pages.parentOn.1.ok.reads (has.entry_at slotHere)
  have keyFits := (pages.parentOn.1.encodable.entries _
    (List.mem_of_getElem? (has.entry_at slotHere))).1
  have parentKey : ((loadedNode disk parent).keyAt separator).key =
      parentSlot.key := parentReads.key_eq
  have least := pages.roomy.maxCellSize leftWritable.size
  have notLeaf : ¬ (loadedNode disk left).isLeaf = true := by
    rw [leftHas.isInner]
    exact Bool.false_ne_true
  have written := @btreeNodeWriteAt_small disk free (loadedNode disk left)
    insertEnd parentSlot.key (le32 (loadedNode disk left).rightChild)
    pages.store leftWritable (Nat.le_refl _) keyFits (by
      rw [le32_length]
      unfold heapRequiredForInsertion cellInlineDiskSize pageKeySize
      omega)
  unfold btaMergeContents
  rw [if_neg notLeaf]
  simp only
  rw [parentKey]
  rcases written with full | ⟨filled, metaBytes, mid, storedEq, refilled,
    later, updates⟩
  · exact Or.inl ⟨disk, BtM.bind_error full⟩
  · rw [BtM.bind_ok storedEq]
    rw [insertEnd_number, BTreeNode.numKeys, ← entries_length,
      List.insertIdx_length_self] at refilled
    have slide : (loadedNode disk left).entries ++
        [(⟨parentSlot.key, cellTypeCode .cellTypeInline,
          le32 (loadedNode disk left).rightChild⟩ : Entry)] =
        (leftSlots ++
          [(⟨(loadedNode disk left).rightChild, parentSlot.key⟩ : Slot)]).map
            Slot.entry := by
      rw [leftHas.entriesEq, List.map_append]
      rfl
    rw [slide] at refilled
    have filledHas := leftHas.refilled refilled (by
      intro slot member
      rcases List.mem_append.mp member with old | new
      · exact leftHas.children slot old
      · rw [List.mem_singleton.mp new]
        exact leftWritable.encodable.rightChild_lt)
    have small : ∀ entry ∈ (loadedNode disk right).entries, entry.cellSize ≤
        btreeNodeMaxCellSize { filled with metaBytes := metaBytes } := by
      intro entry member
      rw [rightHas.entriesEq] at member
      obtain ⟨slot, _, rfl⟩ := List.mem_map.mp member
      have capacity : btreeNodeMaxCellSize
          { filled with metaBytes := metaBytes } =
          btreeNodeMaxCellSize (loadedNode disk left) := refilled.maxCellSize_eq
      rw [capacity]
      exact Nat.le_trans (by decide : 8 ≤ 24) least
    rcases @moveEveryCell_all mid _ { filled with metaBytes := metaBytes }
      pages.rightOn.1.ok later.ok small later.encodable.pageSize_lt with
      full | ⟨merged, movedEq, moved⟩
    · exact Or.inl ⟨mid, BtM.bind_error full⟩
    · right
      have together : ({ filled with metaBytes := metaBytes } :
          BTreeNode).entries ++ (loadedNode disk right).entries =
          (leftSlots ++ ⟨(loadedNode disk left).rightChild, parentSlot.key⟩ ::
            rightSlots).map Slot.entry := by
        change filled.entries ++ _ = _
        rw [filledHas.entriesEq, rightHas.entriesEq, ← List.map_append,
          List.append_assoc, List.singleton_append]
      rw [together] at moved
      have mergedHas := (filledHas.withMeta metaBytes).refilled moved (by
        intro slot member
        rcases List.mem_append.mp member with inLeft | inRight
        · exact leftHas.children slot inLeft
        · rcases List.mem_cons.mp inRight with rfl | inRight
          · exact leftWritable.encodable.rightChild_lt
          · exact rightHas.children slot inRight)
      have fit : EntriesFit ((leftSlots ++
          ⟨(loadedNode disk left).rightChild, parentSlot.key⟩ ::
            rightSlots).map Slot.entry) := by
        rw [← together]
        intro entry member
        rcases List.mem_append.mp member with inLeft | inRight
        · exact later.encodable.entries entry inLeft
        · exact rightWritable.encodable.entries entry inRight
      have mergedWritable := (later.refilled moved fit).withRightChild
        rightWritable.encodable.rightChild_lt
      have number : merged.pageNumber = left :=
        (moved.frame.1.trans refilled.frame.1).trans pages.leftOn.2
      refine ⟨_, mid, by rw [BtM.bind_ok movedEq]; rfl, ⟨_, updates, ?_⟩,
        mergedWritable, number, innerOf (leftSlots ++
          ⟨(loadedNode disk left).rightChild, parentSlot.key⟩ :: rightSlots)
          (loadedNode disk right).rightChild, ?_, ?_⟩
      · intro page member
        rw [List.mem_singleton.mp member]
        exact pages.leftOn.2
      · have joins := TableJoins.inner
          (kidsOf leftSlots (loadedNode disk left).rightChild)
          (kidsOf rightSlots (loadedNode disk right).rightChild)
          (sepsOf leftSlots) (sepsOf rightSlots) (.separator parentSlot.key)
        have kidsEq : kidsOf (leftSlots ++
            ⟨(loadedNode disk left).rightChild, parentSlot.key⟩ :: rightSlots)
              (loadedNode disk right).rightChild =
            kidsOf leftSlots (loadedNode disk left).rightChild ++
              kidsOf rightSlots (loadedNode disk right).rightChild := by
          unfold kidsOf
          simp only [List.map_append, List.map_cons, List.append_assoc,
            List.cons_append, List.nil_append]
        have sepsEq : sepsOf (leftSlots ++
            ⟨(loadedNode disk left).rightChild, parentSlot.key⟩ ::
              rightSlots) =
            sepsOf leftSlots ++
              .separator parentSlot.key :: sepsOf rightSlots := by
          unfold sepsOf
          rw [List.map_append]
          rfl
        unfold innerOf
        rw [kidsEq, sepsEq]
        exact joins
      · intro after holds
        have changed := mergedHas.withRightChild
          (loadedNode disk right).rightChild
        have copied : HasSlots ((nodeRightChildSet merged
            (loadedNode disk right).rightChild).onPage (loadedNode disk right))
            _ := ⟨changed.isInner, changed.entriesEq, changed.children⟩
        exact copied.holds holds pages.rightOn.2

/-- What the writing of a merged node, of the copy and of the parent leaves,
with the left page freed. -/
structure MergedPages (disk after : Disk) (free : List Nat)
    (parent left right separator : Nat) (slots : List Slot) (rightChild : Nat)
    (leftNode : PNode Mark) (sep : Mark) (rightNode : PNode Mark) : Prop where
  contents : ∃ both, TableJoins leftNode sep rightNode both ∧
    TableHolds after right both
  parentAfter : TableHolds after parent
    (.inner ((kidsOf slots rightChild).eraseIdx separator)
      ((sepsOf slots).eraseIdx separator))
  store : Store after (left :: free)
  pageSize : after.pageSize = disk.pageSize
  others : ∀ page, page ≠ parent → page ≠ left → page ≠ right →
    after.buffer? page = disk.buffer? page

/-- The three nodes are written and the left page is freed. -/
theorem btaMergeNodes_run {tree : BTree} {mid : Disk} {merged : BTreeNode}
    {leftNode rightNode : PNode Mark} {sep : Mark}
    (has : HasSlots (loadedNode disk parent) slots)
    (inside : separator < slots.length)
    (erases : ErasesAt (loadedNode disk parent) separator)
    (contentsEq : btaMergeContents ⟨loadedNode disk parent,
      loadedNode disk left, loadedNode disk right, ⟨.limIndex, separator⟩⟩
      disk = (.ok merged, mid))
    (assembled : MergedNode disk mid free left right leftNode sep rightNode
      merged) :
    ∃ after,
      btaMergeNodes tree ⟨loadedNode disk parent, loadedNode disk left,
          loadedNode disk right, ⟨.limIndex, separator⟩⟩ disk =
        (.ok (decide (keysOn after parent < tree.underflow)), after) ∧
      MergedPages disk after free parent left right separator slots
        (loadedNode disk parent).rightChild leftNode sep rightNode := by
  obtain ⟨touched, updates, onlyLeft⟩ := assembled.updates
  obtain ⟨both, joins, bothHolds⟩ := assembled.contents
  have three := pages.three
  have parentWritable :=
    (pages.parentOn.writable pages.store three.parentUsed).refilled erases
      (EntriesFit.eraseIdx pages.parentOn.1.encodable.entries separator)
  have parentNumber := erases.frame.1.trans pages.parentOn.2
  have parentChild := erases.frame.2.2.2.2
  have rightWritable :=
    (pages.rightOn.writable pages.store three.rightUsed).later updates
  have bound : separator < (loadedNode disk parent).numKeys := by
    rw [has.numKeys_eq]
    exact inside
  have removed : btreeNodeRemove (loadedNode disk parent)
      ⟨.limIndex, separator⟩ =
        .ok (nodeRemoveAt (loadedNode disk parent) separator) := if_pos bound
  have mergedNotFirst : merged.pageNumber ≠ 1 := by
    rw [assembled.number]
    exact three.leftNotFirst
  have copyNotFirst : (loadedNode disk right).pageNumber ≠ 1 := by
    rw [pages.rightOn.2]
    exact three.rightNotFirst
  have copied := btreeNodeCopy_onPage assembled.writable.ok mergedNotFirst
    copyNotFirst (assembled.writable.size.trans rightWritable.size.symm)
  have copyWritable := assembled.writable.copied rightWritable mergedNotFirst
    copyNotFirst
  have copyNumber :
      (merged.onPage (loadedNode disk right)).pageNumber = right :=
    pages.rightOn.2
  have numbers : [merged, merged.onPage (loadedNode disk right),
      nodeRemoveAt (loadedNode disk parent) separator].map
        BTreeNode.pageNumber = [left, right, parent] := by
    simp only [List.map_cons, List.map_nil, assembled.number, copyNumber,
      parentNumber]
  have distinct : ([merged, merged.onPage (loadedNode disk right),
      nodeRemoveAt (loadedNode disk parent) separator].map
        BTreeNode.pageNumber).Nodup := by
    rw [numbers]
    simp [three.leftRight, three.parentLeft.symm, three.parentRight.symm]
  have everyWritable : ∀ node ∈ [merged,
      merged.onPage (loadedNode disk right),
      nodeRemoveAt (loadedNode disk parent) separator],
      Writable mid free node := by
    intro node member
    rcases List.mem_cons.mp member with rfl | member
    · exact assembled.writable
    · rcases List.mem_cons.mp member with rfl | member
      · exact copyWritable
      · rw [List.mem_singleton.mp member]
        exact parentWritable.later updates
  obtain ⟨stored, last, storedEq, same, holds, second⟩ :=
    nodercPersistN_run updates.store everyWritable distinct
  rw [numbers] at second
  obtain ⟨_, rest, ⟨metaBytes, rfl, metaSize⟩, _, storedList⟩ :=
    List.forall₂_cons_left_iff.mp same
  have leftOnDisk : OnDisk last left := by
    have present := (holds merged List.mem_cons_self).present
    rwa [assembled.number] at present
  have sizes : merged.pageSize = last.pageSize := by
    rw [second.pageSize]
    exact assembled.writable.size
  obtain ⟨after, pushed, store, pageSize, kept⟩ :=
    @freelistPushPage_run last free
      ({ merged with metaBytes := metaBytes } : BTreeNode).page second.store
      (by
        change OnDisk last merged.pageNumber
        rw [assembled.number]
        exact leftOnDisk)
      mergedNotFirst assembled.writable.used metaSize
      (by rw [page_pageBuffer_length]; exact sizes)
  have pushedPage : ({ merged with metaBytes := metaBytes } :
      BTreeNode).page.pageId = left := assembled.number
  rw [pushedPage] at store kept
  have rightHolds : Holds after (merged.onPage (loadedNode disk right)) := by
    apply (holds _ (List.mem_cons_of_mem _ List.mem_cons_self)).congr
    rw [copyNumber]
    exact kept right three.leftRight.symm
  have parentHolds : Holds after
      (nodeRemoveAt (loadedNode disk parent) separator) := by
    apply (holds _ (List.mem_cons_of_mem _
      (List.mem_cons_of_mem _ List.mem_cons_self))).congr
    rw [parentNumber]
    exact kept parent three.parentLeft
  have keysAfter : keysOn after parent =
      (nodeRemoveAt (loadedNode disk parent) separator).numKeys := by
    obtain ⟨newMeta, loadedEq⟩ := parentHolds.loadedNode_eq store
    rw [parentNumber] at loadedEq
    unfold keysOn
    rw [loadedEq]
  refine ⟨after, ?_, ⟨both, joins, bothHolds after rightHolds⟩, ?_, store,
    ?_, ?_⟩
  · unfold btaMergeNodes
    rw [BtM.bind_ok contentsEq]
    simp only
    rw [removed, BtM.bind_ok (BtM.ofExcept_ok _ mid), copied,
      BtM.bind_ok (BtM.ofExcept_ok _ mid), BtM.bind_ok storedEq, storedList,
      keysAfter]
    have freed : freelistPushPage
        (({ merged with metaBytes := metaBytes } :: rest).headD merged).page
        last = (.ok (), after) := pushed
    rw [BtM.bind_ok freed]
    rfl
  · have contents := (has.erase erases).holds parentHolds parentNumber
    unfold innerOf at contents
    rw [kidsOf_eraseIdx inside, sepsOf_eraseIdx, parentChild] at contents
    exact contents
  · rw [pageSize, second.pageSize, updates.pageSize]
  · intro page notParent notLeft notRight
    rw [kept page notLeft, second.kept page (by simp [*]) (by simp),
      updates.kept page (fun member => notLeft (onlyLeft page member))
        (by simp)]

end Nodes

/-! ## Every merge of every tree -/

section Tree

variable {tree : BTree} {disk after : Disk} {free pages : List Nat}
variable {top height separator parent : Nat} {flat : List Mark}
variable {kids : List Nat} {seps : List Mark} {left right : PagedTree.Part Mark}
variable {sep : Mark} {frame : Frame Mark}

/-- The nodes' part of a merge of two neighbours. -/
theorem TableTree.mergeNodes
    (valid : TableTree disk free tree.rootPageId top pages flat)
    (neighbours : Neighbours (TableHolds disk) top tree.rootPageId height
      parent separator kids seps left right sep frame)
    (pagesEq : (frame.pages parent (left.pages ++ right.pages)).Perm pages)
    (erases : ErasesAt (loadedNode disk parent) separator) :
    (∃ mid, btaMergeNodes tree ⟨loadedNode disk parent,
        loadedNode disk left.kid, loadedNode disk right.kid,
        ⟨.limIndex, separator⟩⟩ disk =
          (.error (.err .errNodeNotEnoughSpace), mid)) ∨
      ∃ slots leftNode rightNode after,
        btaMergeNodes tree ⟨loadedNode disk parent, loadedNode disk left.kid,
            loadedNode disk right.kid, ⟨.limIndex, separator⟩⟩ disk =
          (.ok (decide (keysOn after parent < tree.underflow)), after) ∧
        kids = kidsOf slots (loadedNode disk parent).rightChild ∧
        seps = sepsOf slots ∧
        TableHolds disk left.kid leftNode ∧
        TableHolds disk right.kid rightNode ∧
        MergedPages disk after free parent left.kid right.kid separator slots
          (loadedNode disk parent).rightChild leftNode sep rightNode := by
  have store := valid.store
  have threePages := valid.tablePages neighbours pagesEq
  obtain ⟨slots, slot, has, slotHere, sepEq, kidsEq, sepsEq⟩ :=
    neighbours_slots store neighbours
  have inside := (List.getElem?_eq_some_iff.mp slotHere).1
  subst sepEq
  have failed : ∀ {mid : Disk}, btaMergeContents ⟨loadedNode disk parent,
      loadedNode disk left.kid, loadedNode disk right.kid,
      ⟨.limIndex, separator⟩⟩ disk =
        (.error (.err .errNodeNotEnoughSpace), mid) →
      btaMergeNodes tree ⟨loadedNode disk parent, loadedNode disk left.kid,
        loadedNode disk right.kid, ⟨.limIndex, separator⟩⟩ disk =
          (.error (.err .errNodeNotEnoughSpace), mid) :=
    fun full => BtM.bind_error full
  rcases treeAt_loaded store neighbours.siblings.leftTree with
    ⟨_, ⟨flatHeight, leftLeaf, leftSmall, leftHere⟩ |
      ⟨tall, leftSlots, leftHas, leftHere⟩⟩
  · rcases treeAt_loaded store neighbours.siblings.rightTree with
      ⟨_, ⟨_, _, rightSmall, rightHere⟩ | ⟨tall, _⟩⟩
    · rcases @btaMergeContents_leaf disk free parent left.kid right.kid
        separator threePages slot.key leftLeaf leftSmall rightSmall with
        full | ⟨merged, contentsEq, assembled⟩
      · exact Or.inl ⟨_, failed full⟩
      · obtain ⟨after, runEq, written⟩ := @btaMergeNodes_run disk free parent
          left.kid right.kid separator slots threePages tree _ _ _ _ _ has
          inside erases contentsEq assembled
        exact Or.inr ⟨slots, _, _, after, runEq, kidsEq, sepsEq, leftHere,
          rightHere, written⟩
    · exact absurd flatHeight tall
  · rcases treeAt_loaded store neighbours.siblings.rightTree with
      ⟨_, ⟨flatHeight, _⟩ | ⟨_, rightSlots, rightHas, rightHere⟩⟩
    · exact absurd flatHeight tall
    · rcases btaMergeContents_inner threePages has slotHere leftHas
        rightHas with ⟨mid, full⟩ | ⟨merged, mid, contentsEq, assembled⟩
      · exact Or.inl ⟨_, failed full⟩
      · obtain ⟨after, runEq, written⟩ := @btaMergeNodes_run disk free parent
          left.kid right.kid separator slots threePages tree _ _ _ _ _ has
          inside erases contentsEq assembled
        exact Or.inr ⟨slots, _, _, after, runEq, kidsEq, sepsEq, leftHere,
          rightHere, written⟩

/-- The tree after a merge of two neighbours. -/
theorem TableTree.merged {result : Except BTreeE Unit} {slots : List Slot}
    {leftNode rightNode : PNode Mark}
    (valid : TableTree disk free tree.rootPageId top pages flat)
    (neighbours : Neighbours (TableHolds disk) top tree.rootPageId height
      parent separator kids seps left right sep frame)
    (pagesEq : (frame.pages parent (left.pages ++ right.pages)).Perm pages)
    (flatEq : flat = frame.whole (left.flat ++ sep :: right.flat))
    (leftEq : left.kid = childPage tree disk parent separator)
    (rightEq : right.kid = childPage tree disk parent (separator + 1))
    (kidsEq : kids = kidsOf slots (loadedNode disk parent).rightChild)
    (sepsEq : seps = sepsOf slots)
    (leftHere : TableHolds disk left.kid leftNode)
    (rightHere : TableHolds disk right.kid rightNode)
    (written : MergedPages disk after free parent left.kid right.kid separator
      slots (loadedNode disk parent).rightChild leftNode sep rightNode)
    (deficient : result = .error .errParentDeficient ↔
      keysOn after parent < tree.underflow) :
    TableMerge tree disk free top pages flat result after height parent
      separator := by
  have distinct := (List.nodup_append.mp valid.apart).1
  have middleDistinct := (frame_pages_nodup pagesEq distinct).2.1
  obtain ⟨both, joins, rightAfter⟩ := written.contents
  have parentAfter := written.parentAfter
  rw [← kidsEq, ← sepsEq] at parentAfter
  obtain ⟨keptFrame, keptMiddle⟩ := neighbours_kept neighbours pagesEq distinct
    (fun page => after.buffer? page = disk.buffer? page)
    fun page _ => written.others page
  obtain ⟨own, joined, bothTree, ownEq, sameEntries, part⟩ :=
    joins.joined neighbours.siblings.leftTree neighbours.siblings.rightTree
      middleDistinct leftHere rightHere rightAfter
      fun own member notLeft notRight node holds =>
        holds.congr (keptMiddle own member notLeft notRight)
  have kept : ∀ own ∈ frame.outside ++ frame.others, ∀ node,
      TableHolds disk own node → TableHolds after own node :=
    fun own member node holds => holds.congr (keptFrame own member)
  have subtree := neighbours.join kept parentAfter bothTree
  have whole := neighbours.plug kept subtree
  have allPages := (frame.pages_cons_perm ownEq).trans pagesEq
  have store := written.store
  have others := written.others
  rw [leftEq] at leftHere store others allPages
  rw [rightEq] at rightHere rightAfter others
  refine ⟨⟨kids, seps, leftNode, sep, rightNode, both, neighbours.parentHere,
    neighbours.siblings.between, leftHere, rightHere, joins, parentAfter,
    rightAfter⟩, ⟨_, _, _, _, neighbours.subtree, subtree, ?_⟩, store,
    ⟨_, _, ⟨valid.roomy.congr written.pageSize, store, whole, ?_, ?_, ?_⟩, ?_,
      allPages⟩, others, deficient⟩
  · unfold Frame.part
    simp only [entriesOf_append, sameEntries]
  · have ordered := valid.ordered
    rw [flatEq] at ordered
    exact ordered.sublist (frame.whole_sublist part)
  · have moved : (frame.pages parent own ++
        childPage tree disk parent separator :: free).Perm (pages ++ free) :=
      List.perm_middle.trans (allPages.append_right free)
    exact moved.nodup_iff.mpr valid.apart
  · intro first
    exact valid.rooted
      (allPages.mem_iff.mp (List.mem_cons_of_mem _ first))
  · rw [flatEq]
    unfold Frame.whole Frame.part
    simp only [entriesOf_append, sameEntries]

end Tree

/-- A merge that ends without an error joins the two nodes and keeps the rest,
when removing the separator erases it. -/
theorem btaMerge_merges {tree : BTree} {disk after : Disk}
    {free pages : List Nat} {top height page : Nat} {flat : List Mark}
    {mode : RebalanceMode} {cursor later : Cursor} {parent : CursorBreadcrumb}
    {crumbs : List CursorBreadcrumb} {result : Except BTreeE Unit}
    (isTable : tree.type = .table)
    (valid : TableTree disk free tree.rootPageId top pages flat)
    (placed : PlacedBy tree disk top cursor page (parent :: crumbs))
    (way : WayDown tree disk top height page (parent :: crumbs))
    (erases : ErasesAt (loadedNode disk parent.pageId)
      (separatorBeside mode parent.keyIndex.index))
    (merged : btaMerge tree mode cursor disk = (.ok (result, later), after))
    (ends : MergeEnds result) :
    TableMerge tree disk free top pages flat result after height
      parent.pageId (separatorBeside mode parent.keyIndex.index) := by
  have room := placed.room
  rw [placed.cursorEq] at merged
  cases way with
  | @child _ parentPage index lower above bound =>
      have shape := above.shape (valid.wellShaped isTable)
      have indexEq := initKeylistindexFromIndex_index bound
      simp only [List.cons_append, List.length_cons] at merged room
      simp only [indexEq] at erases ⊢
      unfold btaMerge at merged
      cases isMode : mode == .mergeLeft || mode == .mergeRight with
      | false =>
          rw [isMode] at merged
          cases merged
      | true =>
          have isMerge : mode = .mergeLeft ∨ mode = .mergeRight := by
            simpa using isMode
          rw [isMode, CursorM.bind_ok (CursorM.lift_ok
            (BtM.assert_true_apply disk))] at merged
          obtain ⟨between, noSibling | ⟨inside, idsEq⟩⟩ :=
            @btaMergePages_run tree disk
              ⟨cursor.currentKeyIndex, childPage tree disk parentPage index⟩
              ⟨initKeylistindexFromIndex (loadedNode disk parentPage) index,
                parentPage⟩ (crumbs ++ [rootCrumb tree]) height index mode
              isMerge
              (by simp only [List.length_append, List.length_singleton]; omega)
              shape bound rfl rfl
          · rw [CursorM.bind_error noSibling] at merged
            exact absurd ends (not_mergeEnds_of_error (by decide) merged)
          · obtain ⟨kids, seps, left, right, sep, frame, neighbours, leftEq,
              rightEq, flatEq, pagesEq⟩ := above.neighbours
                (TableHolds.readsAs isTable valid.store) valid.tree inside
            have loaded : btaMergeLoad
                { leftPage := childPage tree disk parentPage
                    (separatorBeside mode index)
                  rightPage := childPage tree disk parentPage
                    (separatorBeside mode index + 1)
                  parentCrumb := ⟨⟨.limIndex, separatorBeside mode index⟩,
                    parentPage⟩ } disk =
                (.ok ⟨loadedNode disk parentPage, loadedNode disk left.kid,
                  loadedNode disk right.kid,
                  ⟨.limIndex, separatorBeside mode index⟩⟩, disk) := by
              unfold btaMergeLoad
              rw [← leftEq, ← rightEq]
              rw [BtM.bind_ok (nodercAcquireLoad_onDisk (by
                  rw [leftEq]
                  exact (shape.child _).2.2.onDisk)),
                BtM.bind_ok (nodercAcquireLoad_onDisk (by
                  rw [rightEq]
                  exact (shape.child _).2.2.onDisk)),
                BtM.bind_ok (nodercAcquireLoad_onDisk shape.onDisk)]
              rfl
            have lifted := @CursorM.lift_ok _ between _ _ _ _ loaded
            rw [CursorM.bind_ok idsEq, CursorM.bind_ok lifted] at merged
            rcases valid.mergeNodes neighbours pagesEq erases with
              ⟨mid, full⟩ | ⟨slots, leftNode, rightNode, last, runEq, kidsEq,
                sepsEq, leftHere, rightHere, written⟩
            · have failed := @CursorM.lift_error _ between _ _ _ _ full
              rw [CursorM.bind_error failed] at merged
              exact absurd ends (not_mergeEnds_of_error (by decide) merged)
            · have stored := @CursorM.lift_ok _ between _ _ _ _ runEq
              rw [CursorM.bind_ok stored] at merged
              have sameDisk : last = after ∧
                  (result = .error .errParentDeficient ↔
                    keysOn last parentPage < tree.underflow) := by
                by_cases few : keysOn last parentPage < tree.underflow
                · rw [if_pos (decide_eq_true few)] at merged
                  have parts := Prod.mk.inj merged
                  have ended := (Prod.mk.inj (Except.ok.inj parts.1)).1
                  exact ⟨parts.2, fun _ => few, fun _ => ended.symm⟩
                · rw [if_neg (by simp [few])] at merged
                  have parts := Prod.mk.inj merged
                  have ended := (Prod.mk.inj (Except.ok.inj parts.1)).1
                  refine ⟨parts.2, fun isError => ?_, fun less =>
                    absurd less few⟩
                  rw [← ended] at isError
                  cases isError
              obtain ⟨rfl, deficient⟩ := sameDisk
              exact valid.merged neighbours pagesEq flatEq leftEq rightEq
                kidsEq sepsEq leftHere rightHere written deficient

/-! ## One merge -/

/-- The cursor after the merge, on the page that is free then. -/
def freedLeafCursor : Cursor :=
  cursorAt [⟨⟨.limIndex, 0⟩, 2⟩, ⟨⟨.limIndex, 0⟩, 1⟩, ⟨⟨.limIndex, 0⟩, 1⟩]

def oneLeaf : Disk :=
  (btaMerge ⟨1, .table, 1⟩ .mergeLeft smallLeafCursor unevenLeaves).2

theorem oneLeaf_checked :
    (NodeOk (loadedNode unevenLeaves 1) ∧
      btreeMinPageSize ≤ (loadedNode unevenLeaves 1).pageSize ∧
      0 < (loadedNode unevenLeaves 1).numKeys ∧
      GcSafe (loadedNode unevenLeaves 1) 0) ∧
      btaMerge ⟨1, .table, 1⟩ .mergeLeft smallLeafCursor unevenLeaves =
        (.ok (.error .errParentDeficient, freedLeafCursor), oneLeaf) := by
  decide +kernel

/-- A merge to the left of two leaves, below a root that has no key then. -/
theorem uneven_leaves_merge : ∃ pages flat,
    TableTree unevenLeaves [] 1 1 pages flat ∧
      btaMerge ⟨1, .table, 1⟩ .mergeLeft smallLeafCursor unevenLeaves =
        (.ok (.error .errParentDeficient, freedLeafCursor), oneLeaf) ∧
      TableMerge ⟨1, .table, 1⟩ unevenLeaves [] 1 pages flat
        (.error .errParentDeficient) oneLeaf 0 1 0 := by
  obtain ⟨tableOk, childEq, crumbEq, bound, _⟩ := unevenLeaves_checked
  obtain ⟨⟨nodeOk, large, inside, safe⟩, merged⟩ := oneLeaf_checked
  obtain ⟨⟨pages, flat⟩, checkEq⟩ := Option.isSome_iff_exists.mp tableOk
  have valid := checkTable_sound checkEq
  have way : WayDown ⟨1, .table, 1⟩ unevenLeaves 1 0 3
      [⟨⟨.rightChild, 1⟩, 1⟩] := by
    have down := @WayDown.child ⟨1, .table, 1⟩ unevenLeaves 1 0 1 1 [] .root
      bound
    rw [← crumbEq, ← childEq]
    exact down
  have placed : PlacedBy ⟨1, .table, 1⟩ unevenLeaves 1 smallLeafCursor 3
      [⟨⟨.rightChild, 1⟩, 1⟩] :=
    ⟨rfl, ⟨0, way⟩, by decide⟩
  have erases : ErasesAt (loadedNode unevenLeaves 1) 0 :=
    safe.erasesAt nodeOk large inside
  exact ⟨pages, flat, valid, merged,
    @btaMerge_merges ⟨1, .table, 1⟩ unevenLeaves oneLeaf [] pages 1 0 3 flat
      .mergeLeft smallLeafCursor freedLeafCursor ⟨⟨.rightChild, 1⟩, 1⟩ []
      (.error .errParentDeficient) rfl valid placed way erases merged
      (Or.inr rfl)⟩

end BtreeDb
