import BtreeDb.Table.Slots
import BtreeDb.Tree.Check

/-!
# Rotating an entry between two siblings

`bta_rotate` moves one entry from a node to the sibling beside it.  Between
leaves the entry moves as it is, and the separator becomes the last key of the
left leaf.  Between inner nodes the separator comes down with a child, and the
donor's key takes its place.
-/

namespace BtreeDb

open Bytes Disk PagedTree

/-! ## The code -/

/-- `btree_node_read_inline_as_page`. -/
def btreeNodeReadInlineAsPage (internalNode : BTreeNode)
    (index : ChildListIndex) : Except Stop Nat :=
  if internalNode.isLeaf then .error .assertFailed
  else if index.index = internalNode.numKeys ∨ index.mode ≠ .limIndex then
    .ok internalNode.rightChild
  else
    let cell := btuGetCellBuffer internalNode index.index
    .ok (fromLe (slice cell 4 (min 4 (cellInlineSize cell))))

/-- The nodes of a rotation and the place of their separator. -/
structure RotateNodes where
  parent : BTreeNode
  dest : BTreeNode
  source : BTreeNode
  parentIndex : ChildListIndex
  deriving DecidableEq, Repr

/-- The first part of `bta_rotate`: the cursor goes to the donor. -/
def btaRotateNodes (tree : BTree) (mode : RebalanceMode) :
    CursorM RotateNodes := do
  let parent ← cursorReadParent
  let dest ← cursorReadCurrent
  if mode = .rotateLeft then
    -- the cursor points to the left child
    let parentIndex ← cursorParentIndex
    cursorSibling tree .right
    let source ← cursorReadCurrent
    pure ⟨parent, dest, source, parentIndex⟩
  else
    cursorSibling tree .left
    let parentIndex ← cursorParentIndex
    let source ← cursorReadCurrent
    pure ⟨parent, dest, source, parentIndex⟩

/-- Where the entry goes to. -/
def rotateDestIndex (mode : RebalanceMode) (dest : BTreeNode) :
    ChildListIndex :=
  ⟨.limIndex, if mode = .rotateRight then 0 else dest.numKeys⟩

/-- Where the entry comes from, in a node that has keys. -/
def rotateSourceIndex (mode : RebalanceMode) (source : BTreeNode) :
    ChildListIndex :=
  ⟨.limIndex, if mode = .rotateRight then source.numKeys - 1 else 0⟩

/-- The part of `bta_rotate` for leaves. -/
def btaRotateLeaf (mode : RebalanceMode) (nodes : RotateNodes) :
    BtM RotateNodes := do
  let destIndex := rotateDestIndex mode nodes.dest
  let sourceIndex := rotateSourceIndex mode nodes.source
  -- the key remains the same
  let dest ← btreeNodeMoveCellExTo nodes.source nodes.dest sourceIndex.index
    destIndex (nodes.source.keyAt sourceIndex.index).key
  let source ← BtM.ofExcept (btreeNodeRemove nodes.source sourceIndex)
  let leftNode := if mode = .rotateRight then source else dest
  let newLastChildKey := (leftNode.keyAt (leftNode.numKeys - 1)).key
  pure
    { parent :=
        nodeKeyAtSet nodes.parent nodes.parentIndex.index newLastChildKey
      dest := dest
      source := source
      parentIndex := nodes.parentIndex }

/-- The part of `bta_rotate` for inner nodes. -/
def btaRotateInner (mode : RebalanceMode) (nodes : RotateNodes) :
    BtM RotateNodes := do
  let parentKey := (nodes.parent.keyAt nodes.parentIndex.index).key
  let destIndex := rotateDestIndex mode nodes.dest
  let sourceIndex := rotateSourceIndex mode nodes.source
  let child ← BtM.ofExcept
    (btreeNodeReadInlineAsPage nodes.source sourceIndex)
  let leftNode := if mode = .rotateRight then nodes.source else nodes.dest
  let prevRightChild := leftNode.rightChild
  -- the child of the donated cell is the left node's right child now
  let source := if mode = .rotateRight then
    nodeRightChildSet nodes.source child else nodes.source
  let dest := if mode = .rotateRight then nodes.dest
    else nodeRightChildSet nodes.dest child
  let dest ← btreeNodeWriteAt dest destIndex parentKey (le32 prevRightChild)
  let sourceKey := (source.keyAt sourceIndex.index).key
  let parent := nodeKeyAtSet nodes.parent nodes.parentIndex.index sourceKey
  let source ← BtM.ofExcept (btreeNodeRemove source sourceIndex)
  pure
    { parent := parent
      dest := dest
      source := source
      parentIndex := nodes.parentIndex }

/-- `bta_rotate`. -/
def btaRotate (tree : BTree) (mode : RebalanceMode) : CursorM Unit := do
  CursorM.lift (BtM.assert (mode == .rotateLeft || mode == .rotateRight))
  let nodes ← btaRotateNodes tree mode
  let rotated ← CursorM.lift
    (if nodes.dest.isLeaf then btaRotateLeaf mode nodes
      else btaRotateInner mode nodes)
  let _ ← CursorM.lift
    (nodercPersistN [rotated.source, rotated.dest, rotated.parent])

/-! ## What a rotation is for -/

/-- One entry goes from one of two neighbours to the other. -/
inductive TableRotates : RebalanceMode → PNode Mark → Mark → PNode Mark →
    PNode Mark → Mark → PNode Mark → Prop
  | leafRight (items others : List Entry) (last item : Entry) (key : Nat) :
      TableRotates .rotateRight (leafOf (items ++ [last, item]))
        (.separator key) (leafOf others) (leafOf (items ++ [last]))
        (.separator last.key) (leafOf (item :: others))
  | leafLeft (items others : List Entry) (item next : Entry) (key : Nat) :
      TableRotates .rotateLeft (leafOf items) (.separator key)
        (leafOf (item :: next :: others)) (leafOf (items ++ [item]))
        (.separator item.key) (leafOf (next :: others))
  | innerRight {kids : List Nat} {seps : List Mark}
      {right left' right' : PNode Mark} {sep sep' : Mark}
      (passes : PassesRight (.inner kids seps) sep right left' sep' right') :
      TableRotates .rotateRight (.inner kids seps) sep right left' sep' right'
  | innerLeft {kids : List Nat} {seps : List Mark}
      {right left' right' : PNode Mark} {sep sep' : Mark}
      (passes : PassesRight left' sep' right' (.inner kids seps) sep right) :
      TableRotates .rotateLeft (.inner kids seps) sep right left' sep' right'

/-- A rotation around a separator: one entry has moved, the subtree of the
parent holds the same records, the tree is valid, its separators in order, and
no other page has changed. -/
structure TableRotation (tree : BTree) (disk : Disk) (free : List Nat)
    (top : Nat) (pages : List Nat) (flat : List Mark) (mode : RebalanceMode)
    (after : Disk) (height parent separator : Nat) : Prop where
  moved : ∃ kids seps left sep right left' sep' right',
    TableHolds disk parent (.inner kids seps) ∧
    seps[separator]? = some sep ∧
    TableHolds disk (childPage tree disk parent separator) left ∧
    TableHolds disk (childPage tree disk parent (separator + 1)) right ∧
    TableRotates mode left sep right left' sep' right' ∧
    TableHolds after parent (.inner kids (seps.set separator sep')) ∧
    TableHolds after (childPage tree disk parent separator) left' ∧
    TableHolds after (childPage tree disk parent (separator + 1)) right'
  below : ∃ own part part',
    TreeAt (TableHolds disk) (height + 1) parent own part ∧
    TreeAt (TableHolds after) (height + 1) parent own part' ∧
    entriesOf part' = entriesOf part
  valid : ∃ flat',
    TableTree after free tree.rootPageId top pages flat' ∧
    entriesOf flat' = entriesOf flat
  others : ∀ page, page ≠ parent →
    page ≠ childPage tree disk parent separator →
    page ≠ childPage tree disk parent (separator + 1) →
    after.buffer? page = disk.buffer? page

/-! ## Trees under a rotation -/

section Trees

variable {before after : Disk} {height : Nat} {left right : PagedTree.Part Mark}
  (leftTree : TreeAt (TableHolds before) height left.kid left.pages left.flat)
  (rightTree : TreeAt (TableHolds before) height right.kid right.pages
    right.flat)

include leftTree rightTree

/-- The entries of two leaves, cut at another place. -/
theorem leaf_repartition {items others front back : List Entry} {last : Entry}
    {key : Nat} (leftHere : TableHolds before left.kid (leafOf items))
    (rightHere : TableHolds before right.kid (leafOf others))
    (leftAfter : TableHolds after left.kid (leafOf (front ++ [last])))
    (rightAfter : TableHolds after right.kid (leafOf back))
    (same : items ++ others = front ++ last :: back) (some_ : back ≠ []) :
    ∃ left' right' flat', Repartition (TableHolds after) height left right flat'
        (.separator last.key) left' right' ∧
      entriesOf flat' = entriesOf (left.flat ++ .separator key :: right.flat) ∧
      ∀ early late, (early ++ ((left.flat ++ .separator key :: right.flat) ++
          late)).Pairwise Before →
        (early ++ (flat' ++ late)).Pairwise Before := by
  have functional := TableHolds.functional before
  obtain ⟨rfl, leftPages, leftFlat⟩ :=
    leftTree.height_zero functional leftHere
  obtain ⟨_, rightPages, rightFlat⟩ :=
    rightTree.height_zero functional rightHere
  refine ⟨⟨left.kid, [left.kid], (front ++ [last]).map Mark.record⟩,
    ⟨right.kid, [right.kid], back.map Mark.record⟩, _,
    ⟨rfl, rfl, ⟨leftAfter, rfl⟩, ⟨rightAfter, rfl⟩, ?_, rfl⟩, ?_, ?_⟩
  · rw [leftPages, rightPages]
  · simp only [leftFlat, rightFlat, entriesOf_append, entriesOf_separator,
      entriesOf_records]
    rw [same, List.append_assoc, List.singleton_append]
  · intro early late ordered
    rw [leftFlat, rightFlat] at ordered
    exact ordered_of_cut same some_ ordered

/-- A rotation keeps the records, their order, and what the separators
bound. -/
theorem TableRotates.repartition {mode : RebalanceMode} {sep sep' : Mark}
    {leftNode rightNode leftNode' rightNode' : PNode Mark}
    (rotates : TableRotates mode leftNode sep rightNode leftNode' sep'
      rightNode')
    (distinct : (left.pages ++ right.pages).Nodup)
    (leftHere : TableHolds before left.kid leftNode)
    (rightHere : TableHolds before right.kid rightNode)
    (leftAfter : TableHolds after left.kid leftNode')
    (rightAfter : TableHolds after right.kid rightNode')
    (kept : ∀ own ∈ left.pages ++ right.pages, own ≠ left.kid →
      own ≠ right.kid → ∀ node, TableHolds before own node →
        TableHolds after own node) :
    ∃ left' right' flat', Repartition (TableHolds after) height left right flat'
        sep' left' right' ∧
      entriesOf flat' = entriesOf (left.flat ++ sep :: right.flat) ∧
      ∀ early late, (early ++ ((left.flat ++ sep :: right.flat) ++
          late)).Pairwise Before →
        (early ++ (flat' ++ late)).Pairwise Before := by
  have functional := TableHolds.functional before
  cases rotates with
  | leafRight items others last item key =>
      apply leaf_repartition leftTree rightTree leftHere rightHere leftAfter
        rightAfter
      · simp only [List.append_assoc, List.cons_append, List.nil_append]
      · simp
  | leafLeft items others item next key =>
      apply leaf_repartition leftTree rightTree leftHere rightHere leftAfter
        rightAfter
      · rfl
      · simp
  | innerRight passes =>
      obtain ⟨left', right', parts⟩ := passes.repartition functional leftTree
        rightTree distinct leftHere rightHere leftAfter rightAfter kept
      exact ⟨left', right', _, parts, rfl, fun _ _ ordered => ordered⟩
  | innerLeft passes =>
      obtain ⟨left', right', parts⟩ := passes.repartition_back functional
        leftTree rightTree distinct leftHere rightHere leftAfter rightAfter kept
      exact ⟨left', right', _, parts, rfl, fun _ _ ordered => ordered⟩

end Trees

/-! ## The cursor's part -/

/-- The separator between a child and the sibling that a mode takes. -/
def separatorBeside (mode : RebalanceMode) (index : Nat) : Nat :=
  match mode with
  | .rotateLeft | .mergeRight => index
  | .rotateRight | .mergeLeft => index - 1

/-- The nodes around a separator, as a rotation takes them. -/
def rotateNodesAround (tree : BTree) (disk : Disk) (mode : RebalanceMode)
    (parent separator : Nat) : RotateNodes :=
  let left := loadedNode disk (childPage tree disk parent separator)
  let right := loadedNode disk (childPage tree disk parent (separator + 1))
  { parent := loadedNode disk parent
    dest := if mode = .rotateLeft then left else right
    source := if mode = .rotateLeft then right else left
    parentIndex := ⟨.limIndex, separator⟩ }

theorem rotateNodesAround_left (tree : BTree) (disk : Disk)
    (parent separator : Nat) :
    rotateNodesAround tree disk .rotateLeft parent separator =
      ⟨loadedNode disk parent,
        loadedNode disk (childPage tree disk parent separator),
        loadedNode disk (childPage tree disk parent (separator + 1)),
        ⟨.limIndex, separator⟩⟩ := rfl

theorem rotateNodesAround_right (tree : BTree) (disk : Disk)
    (parent separator : Nat) :
    rotateNodesAround tree disk .rotateRight parent separator =
      ⟨loadedNode disk parent,
        loadedNode disk (childPage tree disk parent (separator + 1)),
        loadedNode disk (childPage tree disk parent separator),
        ⟨.limIndex, separator⟩⟩ := rfl

section Cursors

variable {tree : BTree} {disk : Disk} {child parent : CursorBreadcrumb}
variable {rest : List CursorBreadcrumb}

/-- The code reads the nodes around a separator, or there is no sibling. -/
theorem btaRotateNodes_run {height index : Nat} {mode : RebalanceMode}
    (isRotate : mode = .rotateLeft ∨ mode = .rotateRight)
    (room : rest.length + 2 ≤ maxBreadcrumbs)
    (shape : WellShaped tree disk (height + 1) parent.pageId)
    (bound : index ≤ keysOn disk parent.pageId)
    (placed : parent.keyIndex =
      initKeylistindexFromIndex (loadedNode disk parent.pageId) index)
    (below : child.pageId = childPage tree disk parent.pageId index) :
    ∃ later,
      btaRotateNodes tree mode (cursorAt (child :: parent :: rest)) disk =
          (.ok (.error .errCursorNoSibling, later), disk) ∨
        separatorBeside mode index < keysOn disk parent.pageId ∧
          btaRotateNodes tree mode (cursorAt (child :: parent :: rest)) disk =
            (.ok (.ok (rotateNodesAround tree disk mode parent.pageId
              (separatorBeside mode index)), later), disk) := by
  have present := shape.onDisk
  have own := (shape.child index).2.2.onDisk
  rw [← below] at own
  unfold btaRotateNodes
  rw [CursorM.bind_ok (cursorReadParent_apply room present),
    CursorM.bind_ok (cursorReadCurrent_apply own)]
  rcases isRotate with rfl | rfl
  · rw [if_pos rfl, CursorM.bind_ok (cursorParentIndex_apply room)]
    rcases @cursorSibling_right_cases tree disk child parent rest height index
      room shape placed with none | ⟨inside, keyIndexEq, slotMode, moved⟩
    · rw [CursorM.bind_error none]
      exact ⟨_, Or.inl rfl⟩
    · have beside := (shape.child (index + 1)).2.2.onDisk
      rw [CursorM.bind_ok moved,
        CursorM.bind_ok (cursorReadCurrent_apply beside), keyIndexEq, below]
      exact ⟨_, Or.inr ⟨inside, rfl⟩⟩
  · rw [if_neg (by decide)]
    rcases @cursorSibling_left_cases tree disk child parent rest height index
      room shape bound placed with none | ⟨separator, indexEq, moved⟩
    · rw [CursorM.bind_error none]
      exact ⟨_, Or.inl rfl⟩
    · have beside := (shape.child separator).2.2.onDisk
      subst indexEq
      rw [CursorM.bind_ok moved, CursorM.bind_ok (cursorParentIndex_apply room),
        CursorM.bind_ok (cursorReadCurrent_apply beside), below]
      exact ⟨_, Or.inr ⟨Nat.lt_of_succ_le bound, rfl⟩⟩

end Cursors

/-! ## The nodes' part -/

/-- The last key of a node that ends with an entry. -/
theorem NodeOk.last_key {node : BTreeNode} {front : List Entry} {last : Entry}
    (ok : NodeOk node) (entriesEq : node.entries = front ++ [last]) :
    (node.keyAt (node.numKeys - 1)).key = last.key := by
  have count := congrArg List.length entriesEq
  rw [entries_length, List.length_append, List.length_singleton] at count
  have place : node.numKeys - 1 = front.length := by
    unfold BTreeNode.numKeys
    omega
  have here : node.entries[node.numKeys - 1]? = some last := by
    rw [entriesEq, place, List.getElem?_append_right (Nat.le_refl _),
      Nat.sub_self]
    rfl
  exact (ok.reads here).key_eq

theorem exists_two_last {items : List Entry} (two : 2 ≤ items.length) :
    ∃ front last item, items = front ++ [last, item] := by
  have some_ : items ≠ [] := by
    rintro rfl
    simp at two
  have whole := List.dropLast_concat_getLast some_
  have more : items.dropLast ≠ [] := by
    intro empty
    have length := congrArg List.length empty
    rw [List.length_dropLast, List.length_nil] at length
    omega
  have shorter := List.dropLast_concat_getLast more
  refine ⟨items.dropLast.dropLast, items.dropLast.getLast more,
    items.getLast some_, ?_⟩
  rw [← List.singleton_append, ← List.append_assoc, shorter, whole]

/-- The changed nodes of a rotation, of which the disk may have one
already. -/
structure RotatedNodes (disk mid : Disk) (free : List Nat)
    (mode : RebalanceMode) (parent left right separator : Nat)
    (parentSlots : List Slot) (rightChild : Nat)
    (leftNode rightNode : PNode Mark) (sep : Mark) (nodes : RotateNodes) :
    Prop where
  updates : ∃ touched, Updates disk free mid free touched [] ∧
    ∀ page ∈ touched, page = left ∨ page = right
  writable : ∀ node ∈ [nodes.source, nodes.dest, nodes.parent],
    Writable mid free node
  numbers : [nodes.source, nodes.dest, nodes.parent].map
      BTreeNode.pageNumber =
    if mode = .rotateLeft then [right, left, parent] else [left, right, parent]
  contents : ∃ leftNode' sep' rightNode',
    TableRotates mode leftNode sep rightNode leftNode' sep' rightNode' ∧
    ∀ after, (∀ node ∈ [nodes.source, nodes.dest, nodes.parent],
        Holds after node) →
      TableHolds after parent (.inner (kidsOf parentSlots rightChild)
        ((sepsOf parentSlots).set separator sep')) ∧
      TableHolds after left leftNode' ∧ TableHolds after right rightNode'

section Nodes

variable {disk : Disk} {free : List Nat} {parent left right separator : Nat}
variable {slots : List Slot}

/-- The three pages of a rotation or a merge, each with a node on it. -/
structure TablePages (disk : Disk) (free : List Nat)
    (parent left right : Nat) : Prop where
  roomy : Roomy disk
  store : Store disk free
  three : ThreePages free parent left right
  parentOn : NodeOn disk parent
  leftOn : NodeOn disk left
  rightOn : NodeOn disk right

theorem TablePages.maxCellSize_same (pages : TablePages disk free parent left
    right) :
    btreeNodeMaxCellSize (loadedNode disk left) =
      btreeNodeMaxCellSize (loadedNode disk right) := by
  apply BtreeDb.maxCellSize_same
  · rw [pages.leftOn.1.pageSize_eq pages.store,
      pages.rightOn.1.pageSize_eq pages.store]
  · rw [pages.leftOn.2]
    exact pages.three.leftNotFirst
  · rw [pages.rightOn.2]
    exact pages.three.rightNotFirst

/-- The parent with another separator. -/
theorem rekeyed_parent {mid : Disk} {touched : List Nat} {key : Nat}
    (pages : TablePages disk free parent left right)
    (has : HasSlots (loadedNode disk parent) slots)
    (inside : separator < slots.length) (keyFits : key < 2 ^ 32)
    (updates : Updates disk free mid free touched []) :
    Writable mid free (nodeKeyAtSet (loadedNode disk parent) separator key) ∧
      ∀ after, Holds after
          (nodeKeyAtSet (loadedNode disk parent) separator key) →
        TableHolds after parent
          (.inner (kidsOf slots (loadedNode disk parent).rightChild)
            ((sepsOf slots).set separator (.separator key))) := by
  have filled := nodeKeyAtSet_refilled separator key pages.parentOn.1.ok
  have writable := pages.parentOn.writable pages.store pages.three.parentUsed
  have fit := EntriesFit.modify writable.encodable.entries separator keyFits
  refine ⟨(writable.refilled filled fit).later updates, ?_⟩
  intro after holds
  have contents := (has.rekey separator key).holds holds pages.parentOn.2
  unfold innerOf at contents
  rw [rekeySlots_kids, rekeySlots_seps inside] at contents
  exact contents

section Leaf

variable {mode : RebalanceMode} {nodes : RotateNodes} {entry : Entry}

/-- A leaf's entry is moved, or there is no room for it. -/
theorem btaRotateLeaf_run (sourceOk : NodeOk nodes.source)
    (destOk : NodeOk nodes.dest) (fits : nodes.dest.pageSize < 2 ^ 32)
    (here : nodes.source.entries[
      (rotateSourceIndex mode nodes.source).index]? = some entry)
    (inside : (rotateDestIndex mode nodes.dest).index ≤ nodes.dest.numKeys)
    (small : entry.cellSize ≤ btreeNodeMaxCellSize nodes.dest) :
    btaRotateLeaf mode nodes disk =
        (.error (.err .errNodeNotEnoughSpace), disk) ∨
      ∃ dest,
        Refilled nodes.dest (nodes.dest.entries.insertIdx
          (rotateDestIndex mode nodes.dest).index entry) dest ∧
        ∀ source leftNode,
          source = nodeRemoveAt nodes.source
            (rotateSourceIndex mode nodes.source).index →
          leftNode = (if mode = .rotateRight then source else dest) →
          btaRotateLeaf mode nodes disk =
            (.ok
              { parent := nodeKeyAtSet nodes.parent nodes.parentIndex.index
                  (leftNode.keyAt (leftNode.numKeys - 1)).key
                dest := dest
                source := source
                parentIndex := nodes.parentIndex }, disk) := by
  have keyEq := (sourceOk.reads here).key_eq
  have sameKey : entry.withKey (nodes.source.keyAt
      (rotateSourceIndex mode nodes.source).index).key = entry := by
    rw [keyEq]
    rfl
  have moved := @btreeNodeMoveCellExTo_run disk nodes.source nodes.dest _
    (nodes.source.keyAt (rotateSourceIndex mode nodes.source).index).key
    (rotateDestIndex mode nodes.dest) entry sourceOk here inside small
  have bound := (List.getElem?_eq_some_iff.mp here).1
  rw [entries_length] at bound
  have removed : btreeNodeRemove nodes.source
      (rotateSourceIndex mode nodes.source) =
        .ok (nodeRemoveAt nodes.source
          (rotateSourceIndex mode nodes.source).index) := if_pos bound
  rw [sameKey] at moved
  by_cases room : entry.heapSize ≤ nodes.dest.freeHeap
  · rw [if_pos room] at moved
    have filled := @insertEntry_moved nodes.dest entry.key
      (rotateDestIndex mode nodes.dest).index entry destOk fits inside room
    refine Or.inr ⟨_, filled, ?_⟩
    rintro source leftNode rfl rfl
    unfold btaRotateLeaf
    rw [BtM.bind_ok moved, removed, BtM.bind_ok (BtM.ofExcept_ok _ disk)]
    rfl
  · rw [if_neg room] at moved
    left
    unfold btaRotateLeaf
    rw [BtM.bind_error moved]

section Pages

variable (pages : TablePages disk free parent left right)
  (has : HasSlots (loadedNode disk parent) slots)
  (inside : separator < slots.length)

include pages has inside

/-- Two leaves that hold other entries now, and the parent with the last key
of the left one. -/
theorem leaves_rotated {leftNode rightNode : BTreeNode} {front back : List Entry}
    {last : Entry} (leftLeaf : (loadedNode disk left).isLeaf = true)
    (rightLeaf : (loadedNode disk right).isLeaf = true)
    (leftSmall : SmallCells (loadedNode disk left))
    (rightSmall : SmallCells (loadedNode disk right))
    (leftFilled : Refilled (loadedNode disk left) (front ++ [last]) leftNode)
    (rightFilled : Refilled (loadedNode disk right) back rightNode)
    (same : (loadedNode disk left).entries ++ (loadedNode disk right).entries =
      front ++ last :: back) :
    (leftNode.keyAt (leftNode.numKeys - 1)).key = last.key ∧
      (∀ node ∈ [leftNode, rightNode,
          nodeKeyAtSet (loadedNode disk parent) separator last.key],
        Writable disk free node) ∧
      leftNode.pageNumber = left ∧ rightNode.pageNumber = right ∧
      ∀ after, Holds after leftNode → Holds after rightNode →
        Holds after
          (nodeKeyAtSet (loadedNode disk parent) separator last.key) →
        TableHolds after parent
            (.inner (kidsOf slots (loadedNode disk parent).rightChild)
              ((sepsOf slots).set separator (.separator last.key))) ∧
          TableHolds after left (leafOf (front ++ [last])) ∧
          TableHolds after right (leafOf back) := by
  have leftWritable := pages.leftOn.writable pages.store pages.three.leftUsed
  have rightWritable :=
    pages.rightOn.writable pages.store pages.three.rightUsed
  have capacity := pages.maxCellSize_same
  have together : ∀ entry ∈ front ++ last :: back,
      entry.key < 2 ^ 32 ∧ entry.flags < 2 ^ 32 ∧
        entry.heapSize ≤ btreeNodeMaxCellSize (loadedNode disk left) := by
    intro entry member
    rw [← same] at member
    rcases List.mem_append.mp member with inLeft | inRight
    · have fit := leftWritable.encodable.entries entry inLeft
      exact ⟨fit.1, fit.2, leftSmall entry inLeft⟩
    · have fit := rightWritable.encodable.entries entry inRight
      refine ⟨fit.1, fit.2, ?_⟩
      rw [capacity]
      exact rightSmall entry inRight
  have inLeft : ∀ entry ∈ front ++ [last], entry ∈ front ++ last :: back := by
    intro entry member
    rcases List.mem_append.mp member with early | isLast
    · exact List.mem_append_left _ early
    · rw [List.mem_singleton.mp isLast]
      exact List.mem_append_right _ List.mem_cons_self
  have inRight : ∀ entry ∈ back, entry ∈ front ++ last :: back :=
    fun entry member =>
      List.mem_append_right _ (List.mem_cons_of_mem _ member)
  have lastFits := (together last
    (List.mem_append_right _ List.mem_cons_self)).1
  obtain ⟨parentWritable, parentHolds⟩ := rekeyed_parent pages has inside
    lastFits (.refl pages.store)
  have leftNumber := leftFilled.frame.1.trans pages.leftOn.2
  have rightNumber := rightFilled.frame.1.trans pages.rightOn.2
  refine ⟨leftFilled.ok.last_key leftFilled.entries_eq, ?_, leftNumber,
    rightNumber, ?_⟩
  · intro node member
    rcases List.mem_cons.mp member with rfl | member
    · apply leftWritable.refilled leftFilled
      intro entry entryMember
      have fit := together entry (inLeft entry entryMember)
      exact ⟨fit.1, fit.2.1⟩
    · rcases List.mem_cons.mp member with rfl | member
      · apply rightWritable.refilled rightFilled
        intro entry entryMember
        have fit := together entry (inRight entry entryMember)
        exact ⟨fit.1, fit.2.1⟩
      · rw [List.mem_singleton.mp member]
        exact parentWritable
  · intro after leftHolds rightHolds parentNow
    refine ⟨parentHolds after parentNow, ?_, ?_⟩
    · have smallCells := leftFilled.smallCells fun entry member =>
        (together entry (inLeft entry member)).2.2
      have isLeaf := leftFilled.frame.2.2.2.1.trans leftLeaf
      have contents := leaf_holds leftHolds leftNumber isLeaf smallCells
      rw [leftFilled.entries_eq] at contents
      exact contents
    · have smallCells := rightFilled.smallCells fun entry member => by
        rw [← capacity]
        exact (together entry (inRight entry member)).2.2
      have isLeaf := rightFilled.frame.2.2.2.1.trans rightLeaf
      have contents := leaf_holds rightHolds rightNumber isLeaf smallCells
      rw [rightFilled.entries_eq] at contents
      exact contents

/-- The last entry of the left leaf goes to the right one. -/
theorem btaRotateLeaf_right (key : Nat)
    (leftLeaf : (loadedNode disk left).isLeaf = true)
    (rightLeaf : (loadedNode disk right).isLeaf = true)
    (leftSmall : SmallCells (loadedNode disk left))
    (rightSmall : SmallCells (loadedNode disk right))
    (two : 2 ≤ keysOn disk left)
    (erases : ErasesAt (loadedNode disk left) (keysOn disk left - 1)) :
    btaRotateLeaf .rotateRight ⟨loadedNode disk parent, loadedNode disk right,
        loadedNode disk left, ⟨.limIndex, separator⟩⟩ disk =
        (.error (.err .errNodeNotEnoughSpace), disk) ∨
      ∃ nodes,
        btaRotateLeaf .rotateRight ⟨loadedNode disk parent,
          loadedNode disk right, loadedNode disk left,
          ⟨.limIndex, separator⟩⟩ disk = (.ok nodes, disk) ∧
        RotatedNodes disk disk free .rotateRight parent left right separator
          slots (loadedNode disk parent).rightChild
          (leafOf (loadedNode disk left).entries)
          (leafOf (loadedNode disk right).entries) (.separator key) nodes := by
  obtain ⟨front, last, item, entriesEq⟩ :=
    @exists_two_last (loadedNode disk left).entries
      (by rw [entries_length]; exact two)
  have count := congrArg List.length entriesEq
  rw [entries_length, List.length_append] at count
  have place : (rotateSourceIndex .rotateRight (loadedNode disk left)).index =
      keysOn disk left - 1 := rfl
  have placeEq : keysOn disk left - 1 = (front ++ [last]).length := by
    unfold keysOn BTreeNode.numKeys
    rw [count, List.length_append, List.length_singleton]
    rfl
  have split : front ++ [last, item] = (front ++ [last]) ++ item :: [] := by
    rw [List.append_assoc]
    rfl
  have here : (loadedNode disk left).entries[(rotateSourceIndex .rotateRight
      (loadedNode disk left)).index]? = some item := by
    rw [place, placeEq, entriesEq, split,
      List.getElem?_append_right (Nat.le_refl _), Nat.sub_self]
    rfl
  have small : item.cellSize ≤
      btreeNodeMaxCellSize (loadedNode disk right) := by
    have heap := leftSmall item (List.mem_of_getElem? here)
    rw [← pages.maxCellSize_same]
    unfold Entry.heapSize at heap
    unfold Entry.cellSize
    omega
  rcases @btaRotateLeaf_run disk .rotateRight ⟨loadedNode disk parent,
      loadedNode disk right, loadedNode disk left, ⟨.limIndex, separator⟩⟩ item
      pages.leftOn.1.ok pages.rightOn.1.ok
      pages.rightOn.1.encodable.pageSize_lt here (Nat.zero_le _) small with
    full | ⟨dest, filled, run⟩
  · exact Or.inl full
  · right
    have destIndex : (rotateDestIndex .rotateRight
        (loadedNode disk right)).index = 0 := rfl
    simp only [destIndex, List.insertIdx_zero] at filled
    have erased : Refilled (loadedNode disk left) (front ++ [last])
        (nodeRemoveAt (loadedNode disk left) (keysOn disk left - 1)) := by
      have erases := erases
      unfold ErasesAt at erases
      rw [entriesEq, split, placeEq, ListEdit.eraseIdx_append_length,
        List.append_nil, ← placeEq] at erases
      exact erases
    obtain ⟨keyEq, writable, leftNumber, rightNumber, contents⟩ :=
      leaves_rotated pages has inside leftLeaf rightLeaf leftSmall rightSmall
        erased filled (by
          rw [entriesEq, List.append_assoc]
          rfl)
    have runEq := run _ _ rfl rfl
    rw [if_pos rfl, place, keyEq] at runEq
    refine ⟨_, runEq, ⟨[], .refl pages.store, by simp⟩, writable, ?_, ?_⟩
    · rw [if_neg (by decide)]
      have parentNumber : (nodeKeyAtSet (loadedNode disk parent) separator
          last.key).pageNumber = parent := pages.parentOn.2
      simp only [List.map_cons, List.map_nil, leftNumber, rightNumber,
        parentNumber]
    · refine ⟨_, _, _, ?_, fun after holds => contents after (holds _ ?_)
        (holds _ ?_) (holds _ ?_)⟩
      · rw [entriesEq]
        exact .leafRight front _ last item key
      · exact List.mem_cons_self
      · exact List.mem_cons_of_mem _ List.mem_cons_self
      · exact List.mem_cons_of_mem _ (List.mem_cons_of_mem _
          List.mem_cons_self)

/-- The first entry of the right leaf goes to the left one. -/
theorem btaRotateLeaf_left (key : Nat)
    (leftLeaf : (loadedNode disk left).isLeaf = true)
    (rightLeaf : (loadedNode disk right).isLeaf = true)
    (leftSmall : SmallCells (loadedNode disk left))
    (rightSmall : SmallCells (loadedNode disk right))
    (two : 2 ≤ keysOn disk right)
    (erases : ErasesAt (loadedNode disk right) 0) :
    btaRotateLeaf .rotateLeft ⟨loadedNode disk parent, loadedNode disk left,
        loadedNode disk right, ⟨.limIndex, separator⟩⟩ disk =
        (.error (.err .errNodeNotEnoughSpace), disk) ∨
      ∃ nodes,
        btaRotateLeaf .rotateLeft ⟨loadedNode disk parent,
          loadedNode disk left, loadedNode disk right,
          ⟨.limIndex, separator⟩⟩ disk = (.ok nodes, disk) ∧
        RotatedNodes disk disk free .rotateLeft parent left right separator
          slots (loadedNode disk parent).rightChild
          (leafOf (loadedNode disk left).entries)
          (leafOf (loadedNode disk right).entries) (.separator key) nodes := by
  cases entriesEq : (loadedNode disk right).entries with
  | nil =>
      have count := congrArg List.length entriesEq
      rw [entries_length, List.length_nil] at count
      unfold keysOn BTreeNode.numKeys at two
      omega
  | cons item others =>
      cases others with
      | nil =>
          have count := congrArg List.length entriesEq
          rw [entries_length, List.length_singleton] at count
          unfold keysOn BTreeNode.numKeys at two
          omega
      | cons next others =>
          have place : (rotateSourceIndex .rotateLeft
              (loadedNode disk right)).index = 0 := rfl
          have here : (loadedNode disk right).entries[(rotateSourceIndex
              .rotateLeft (loadedNode disk right)).index]? = some item := by
            rw [place, entriesEq]
            rfl
          have small : item.cellSize ≤
              btreeNodeMaxCellSize (loadedNode disk left) := by
            have heap := rightSmall item (List.mem_of_getElem? here)
            rw [pages.maxCellSize_same]
            unfold Entry.heapSize at heap
            unfold Entry.cellSize
            omega
          rcases @btaRotateLeaf_run disk .rotateLeft ⟨loadedNode disk parent,
              loadedNode disk left, loadedNode disk right,
              ⟨.limIndex, separator⟩⟩ item pages.rightOn.1.ok pages.leftOn.1.ok
              pages.leftOn.1.encodable.pageSize_lt here (Nat.le_refl _)
              small with
            full | ⟨dest, filled, run⟩
          · exact Or.inl full
          · right
            have destIndex : (rotateDestIndex .rotateLeft
                (loadedNode disk left)).index =
                  (loadedNode disk left).entries.length := by
              rw [entries_length]
              rfl
            have filledEnd : Refilled (loadedNode disk left)
                ((loadedNode disk left).entries ++ [item]) dest := by
              simp only [destIndex, List.insertIdx_length_self] at filled
              exact filled
            have erased : Refilled (loadedNode disk right) (next :: others)
                (nodeRemoveAt (loadedNode disk right) 0) := by
              have erases := erases
              unfold ErasesAt at erases
              rw [entriesEq] at erases
              exact erases
            obtain ⟨keyEq, writable, leftNumber, rightNumber, contents⟩ :=
              leaves_rotated pages has inside leftLeaf rightLeaf leftSmall
                rightSmall filledEnd erased (by rw [entriesEq])
            have runEq := run _ _ rfl rfl
            rw [if_neg (by decide), place, keyEq] at runEq
            refine ⟨_, runEq, ⟨[], .refl pages.store, by simp⟩, ?_, ?_, ?_⟩
            · intro node member
              apply writable
              rw [List.mem_cons, List.mem_cons] at member ⊢
              exact or_left_comm.mp member
            · rw [if_pos rfl]
              have parentNumber : (nodeKeyAtSet (loadedNode disk parent)
                  separator item.key).pageNumber = parent := pages.parentOn.2
              simp only [List.map_cons, List.map_nil, leftNumber, rightNumber,
                parentNumber]
            · refine ⟨_, _, _, ?_, fun after holds => contents after
                (holds _ ?_) (holds _ ?_) (holds _ ?_)⟩
              · exact .leafLeft _ others item next key
              · exact List.mem_cons_of_mem _ List.mem_cons_self
              · exact List.mem_cons_self
              · exact List.mem_cons_of_mem _ (List.mem_cons_of_mem _
                  List.mem_cons_self)

end Pages

end Leaf

section Inner

variable {mode : RebalanceMode} {nodes : RotateNodes} {slot : Slot}

/-- The page that a slot's cell holds. -/
theorem btreeNodeReadInlineAsPage_slot {node : BTreeNode} {index : Nat}
    (ok : NodeOk node) (has : HasSlots node slots)
    (here : slots[index]? = some slot) :
    btreeNodeReadInlineAsPage node ⟨.limIndex, index⟩ = .ok slot.child := by
  have reads := ok.reads (has.entry_at here)
  have bound := (List.getElem?_eq_some_iff.mp here).1
  have count := has.numKeys_eq
  have sizeEq : cellInlineSize (btuGetCellBuffer node index) = 4 :=
    reads.size_eq
  have cellEq : slice (btuGetCellBuffer node index) 4 4 = le32 slot.child :=
    reads.cell_eq
  have fits := has.children slot (List.mem_of_getElem? here)
  unfold btreeNodeReadInlineAsPage
  rw [has.isInner, if_neg Bool.false_ne_true, if_neg (by
    rintro (atEnd | notIndex)
    · simp only at atEnd
      omega
    · exact notIndex rfl)]
  simp only
  rw [sizeEq, Nat.min_self, cellEq, fromLe_le32]
  exact congrArg Except.ok (Nat.mod_eq_of_lt fits)

/-- The separator comes down into the destination, or there is no room for
it. -/
theorem btaRotateInner_run {source dest : BTreeNode} {prevRightChild : Nat}
    (roomy : Roomy disk) (store : Store disk free)
    (sourceOk : NodeOk nodes.source) (has : HasSlots nodes.source slots)
    (here : slots[(rotateSourceIndex mode nodes.source).index]? = some slot)
    (sourceEq : source = if mode = .rotateRight then
      nodeRightChildSet nodes.source slot.child else nodes.source)
    (destEq : dest = if mode = .rotateRight then nodes.dest
      else nodeRightChildSet nodes.dest slot.child)
    (prevEq : prevRightChild = (if mode = .rotateRight then nodes.source
      else nodes.dest).rightChild)
    (writable : Writable disk free dest)
    (inside : (rotateDestIndex mode nodes.dest).index ≤ dest.numKeys)
    (keyFits : (nodes.parent.keyAt nodes.parentIndex.index).key < 2 ^ 32) :
    btaRotateInner mode nodes disk =
        (.error (.err .errNodeNotEnoughSpace), disk) ∨
      ∃ filled metaBytes after,
        btaRotateInner mode nodes disk =
          (.ok
            { parent := nodeKeyAtSet nodes.parent nodes.parentIndex.index
                slot.key
              dest := { filled with metaBytes := metaBytes }
              source := nodeRemoveAt source
                (rotateSourceIndex mode nodes.source).index
              parentIndex := nodes.parentIndex }, after) ∧
        Refilled dest (dest.entries.insertIdx
          (rotateDestIndex mode nodes.dest).index
          (Slot.entry ⟨prevRightChild,
            (nodes.parent.keyAt nodes.parentIndex.index).key⟩)) filled ∧
        Writable after free { filled with metaBytes := metaBytes } ∧
        Updates disk free after free [dest.pageNumber] [] := by
  have bound := (List.getElem?_eq_some_iff.mp here).1
  rw [← has.numKeys_eq] at bound
  have childEq := btreeNodeReadInlineAsPage_slot sourceOk has here
  have sourceKey : (source.keyAt
      (rotateSourceIndex mode nodes.source).index).key = slot.key := by
    have keyEq := (sourceOk.reads (has.entry_at here)).key_eq
    rw [sourceEq]
    split
    · exact keyEq
    · exact keyEq
  have removed : btreeNodeRemove source (rotateSourceIndex mode nodes.source) =
      .ok (nodeRemoveAt source
        (rotateSourceIndex mode nodes.source).index) := by
    apply if_pos
    rw [sourceEq]
    split
    · exact bound
    · exact bound
  have least := roomy.maxCellSize writable.size
  have written := @btreeNodeWriteAt_small disk free dest
    (rotateDestIndex mode nodes.dest)
    (nodes.parent.keyAt nodes.parentIndex.index).key (le32 prevRightChild)
    store writable inside keyFits (by
      rw [le32_length]
      unfold heapRequiredForInsertion cellInlineDiskSize pageKeySize
      omega)
  have childRead : btreeNodeReadInlineAsPage nodes.source
      (rotateSourceIndex mode nodes.source) = .ok slot.child := childEq
  unfold btaRotateInner
  simp only
  rw [childRead, BtM.bind_ok (BtM.ofExcept_ok _ disk), ← sourceEq, ← destEq,
    ← prevEq]
  rcases written with full | ⟨filled, metaBytes, after, storedEq, refilled,
    later, updates⟩
  · exact Or.inl (BtM.bind_error full)
  · right
    rw [BtM.bind_ok storedEq, removed, BtM.bind_ok (BtM.ofExcept_ok _ after),
      sourceKey]
    exact ⟨filled, metaBytes, after, rfl, refilled, later, updates⟩

section Pages

variable {parentSlot : Slot} {leftSlots rightSlots : List Slot}
  (pages : TablePages disk free parent left right)
  (has : HasSlots (loadedNode disk parent) slots)
  (slotHere : slots[separator]? = some parentSlot)
  (leftHas : HasSlots (loadedNode disk left) leftSlots)
  (rightHas : HasSlots (loadedNode disk right) rightSlots)

include pages has slotHere leftHas rightHas

/-- The last child of the left node goes to the right one. -/
theorem btaRotateInner_right (some_ : leftSlots ≠ [])
    (erases : ErasesAt (loadedNode disk left) (keysOn disk left - 1)) :
    btaRotateInner .rotateRight ⟨loadedNode disk parent, loadedNode disk right,
        loadedNode disk left, ⟨.limIndex, separator⟩⟩ disk =
        (.error (.err .errNodeNotEnoughSpace), disk) ∨
      ∃ nodes mid,
        btaRotateInner .rotateRight ⟨loadedNode disk parent,
          loadedNode disk right, loadedNode disk left,
          ⟨.limIndex, separator⟩⟩ disk = (.ok nodes, mid) ∧
        RotatedNodes disk mid free .rotateRight parent left right separator
          slots (loadedNode disk parent).rightChild
          (innerOf leftSlots (loadedNode disk left).rightChild)
          (innerOf rightSlots (loadedNode disk right).rightChild)
          (.separator parentSlot.key) nodes := by
  have whole := List.dropLast_concat_getLast some_
  obtain ⟨front, donated, slotsEq⟩ :
      ∃ front donated, leftSlots = front ++ [donated] :=
    ⟨_, _, whole.symm⟩
  have leftWritable := pages.leftOn.writable pages.store pages.three.leftUsed
  have rightWritable :=
    pages.rightOn.writable pages.store pages.three.rightUsed
  have parentReads := pages.parentOn.1.ok.reads (has.entry_at slotHere)
  have keyFits := (pages.parentOn.1.encodable.entries _
    (List.mem_of_getElem? (has.entry_at slotHere))).1
  have inside := (List.getElem?_eq_some_iff.mp slotHere).1
  have place : keysOn disk left - 1 = front.length := by
    unfold keysOn
    rw [leftHas.numKeys_eq, slotsEq, List.length_append,
      List.length_singleton, Nat.add_sub_cancel]
  have here : leftSlots[(rotateSourceIndex .rotateRight
      (loadedNode disk left)).index]? = some donated := by
    change leftSlots[keysOn disk left - 1]? = some donated
    rw [place, slotsEq, List.getElem?_append_right (Nat.le_refl _),
      Nat.sub_self]
    rfl
  have donatedFits := leftHas.children donated (List.mem_of_getElem? here)
  have donatedKey := (leftWritable.encodable.entries _
    (List.mem_of_getElem? (leftHas.entry_at here))).1
  rcases @btaRotateInner_run disk free leftSlots .rotateRight
      ⟨loadedNode disk parent, loadedNode disk right, loadedNode disk left,
        ⟨.limIndex, separator⟩⟩ donated
      (nodeRightChildSet (loadedNode disk left) donated.child)
      (loadedNode disk right) (loadedNode disk left).rightChild pages.roomy
      pages.store pages.leftOn.1.ok leftHas here rfl rfl rfl rightWritable
      (Nat.zero_le _) (by
        simp only
        rw [parentReads.key_eq]
        exact keyFits) with
    full | ⟨filled, metaBytes, mid, runEq, refilled, later, updates⟩
  · exact Or.inl full
  · right
    have destIndex : (rotateDestIndex .rotateRight
        (loadedNode disk right)).index = 0 := rfl
    have sourceIndex : (rotateSourceIndex .rotateRight
        (loadedNode disk left)).index = keysOn disk left - 1 := rfl
    have parentKey : ((loadedNode disk parent).keyAt separator).key =
        parentSlot.key := parentReads.key_eq
    simp only [destIndex, parentKey] at refilled
    simp only [sourceIndex] at runEq
    have filledHas := rightHas.insert (Nat.zero_le _)
      leftWritable.encodable.rightChild_lt refilled
    have leftErases := erases.withRightChild donated.child
    have erasedHas := (leftHas.withRightChild donated.child).erase leftErases
    have erasedSlots : leftSlots.eraseIdx (keysOn disk left - 1) = front := by
      rw [place, slotsEq, ListEdit.eraseIdx_append_length, List.append_nil]
    rw [erasedSlots] at erasedHas
    have erasedWritable : Writable disk free (nodeRemoveAt
        (nodeRightChildSet (loadedNode disk left) donated.child)
        (keysOn disk left - 1)) := by
      have changed := leftWritable.withRightChild donatedFits
      exact changed.refilled leftErases
        (EntriesFit.eraseIdx changed.encodable.entries _)
    obtain ⟨parentWritable, parentHolds⟩ := rekeyed_parent pages has inside
      donatedKey updates
    have leftNumber := leftErases.frame.1.trans pages.leftOn.2
    have rightNumber := refilled.frame.1.trans pages.rightOn.2
    have leftChild := leftErases.frame.2.2.2.2
    have rightChild := refilled.frame.2.2.2.2
    refine ⟨_, mid, runEq, ⟨_, updates, ?_⟩, ?_, ?_, ?_⟩
    · intro page member
      rw [List.mem_singleton.mp member]
      exact Or.inr pages.rightOn.2
    · intro node member
      rcases List.mem_cons.mp member with rfl | member
      · exact erasedWritable.later updates
      · rcases List.mem_cons.mp member with rfl | member
        · exact later
        · rw [List.mem_singleton.mp member]
          exact parentWritable
    · rw [if_neg (by decide)]
      have parentNumber : (nodeKeyAtSet (loadedNode disk parent) separator
          donated.key).pageNumber = parent := pages.parentOn.2
      simp only [List.map_cons, List.map_nil, leftNumber, rightNumber,
        parentNumber]
    · refine ⟨innerOf front donated.child, .separator donated.key,
        innerOf (⟨(loadedNode disk left).rightChild, parentSlot.key⟩ ::
          rightSlots) (loadedNode disk right).rightChild, ?_, ?_⟩
      · apply TableRotates.innerRight
        have passes := PassesRight.inner (kidsOf front donated.child)
          (kidsOf rightSlots (loadedNode disk right).rightChild)
          (loadedNode disk left).rightChild (sepsOf front)
          (sepsOf rightSlots) (.separator donated.key)
          (.separator parentSlot.key)
        have kidsEq : kidsOf leftSlots (loadedNode disk left).rightChild =
            kidsOf front donated.child ++
              [(loadedNode disk left).rightChild] := by
          rw [slotsEq]
          unfold kidsOf
          rw [List.map_append]
          rfl
        have sepsEq : sepsOf leftSlots =
            sepsOf front ++ [.separator donated.key] := by
          rw [slotsEq]
          unfold sepsOf
          rw [List.map_append]
          rfl
        rw [kidsEq, sepsEq]
        exact passes
      · intro after holds
        have leftHolds := holds _ List.mem_cons_self
        have rightHolds := holds _
          (List.mem_cons_of_mem _ List.mem_cons_self)
        have parentNow := holds _ (List.mem_cons_of_mem _
          (List.mem_cons_of_mem _ List.mem_cons_self))
        refine ⟨parentHolds after parentNow, ?_, ?_⟩
        · have contents := erasedHas.holds leftHolds leftNumber
          rw [leftChild] at contents
          exact contents
        · have contents := filledHas.holds
            (rightHolds.withMeta filled.metaBytes) rightNumber
          rw [rightChild] at contents
          exact contents

/-- The first child of the right node goes to the left one. -/
theorem btaRotateInner_left (some_ : rightSlots ≠ [])
    (erases : ErasesAt (loadedNode disk right) 0) :
    btaRotateInner .rotateLeft ⟨loadedNode disk parent, loadedNode disk left,
        loadedNode disk right, ⟨.limIndex, separator⟩⟩ disk =
        (.error (.err .errNodeNotEnoughSpace), disk) ∨
      ∃ nodes mid,
        btaRotateInner .rotateLeft ⟨loadedNode disk parent,
          loadedNode disk left, loadedNode disk right,
          ⟨.limIndex, separator⟩⟩ disk = (.ok nodes, mid) ∧
        RotatedNodes disk mid free .rotateLeft parent left right separator
          slots (loadedNode disk parent).rightChild
          (innerOf leftSlots (loadedNode disk left).rightChild)
          (innerOf rightSlots (loadedNode disk right).rightChild)
          (.separator parentSlot.key) nodes := by
  obtain ⟨donated, back, slotsEq⟩ := List.exists_cons_of_ne_nil some_
  have leftWritable := pages.leftOn.writable pages.store pages.three.leftUsed
  have rightWritable :=
    pages.rightOn.writable pages.store pages.three.rightUsed
  have parentReads := pages.parentOn.1.ok.reads (has.entry_at slotHere)
  have keyFits := (pages.parentOn.1.encodable.entries _
    (List.mem_of_getElem? (has.entry_at slotHere))).1
  have inside := (List.getElem?_eq_some_iff.mp slotHere).1
  have here : rightSlots[(rotateSourceIndex .rotateLeft
      (loadedNode disk right)).index]? = some donated := by
    rw [slotsEq]
    rfl
  have donatedFits := rightHas.children donated (List.mem_of_getElem? here)
  have donatedKey := (rightWritable.encodable.entries _
    (List.mem_of_getElem? (rightHas.entry_at here))).1
  rcases @btaRotateInner_run disk free rightSlots .rotateLeft
      ⟨loadedNode disk parent, loadedNode disk left, loadedNode disk right,
        ⟨.limIndex, separator⟩⟩ donated (loadedNode disk right)
      (nodeRightChildSet (loadedNode disk left) donated.child)
      (loadedNode disk left).rightChild pages.roomy pages.store
      pages.rightOn.1.ok rightHas here rfl rfl rfl
      (leftWritable.withRightChild donatedFits) (Nat.le_refl _) (by
        simp only
        rw [parentReads.key_eq]
        exact keyFits) with
    full | ⟨filled, metaBytes, mid, runEq, refilled, later, updates⟩
  · exact Or.inl full
  · right
    have destIndex : (rotateDestIndex .rotateLeft
        (loadedNode disk left)).index = leftSlots.length := leftHas.numKeys_eq
    have sourceIndex : (rotateSourceIndex .rotateLeft
        (loadedNode disk right)).index = 0 := rfl
    have parentKey : ((loadedNode disk parent).keyAt separator).key =
        parentSlot.key := parentReads.key_eq
    simp only [destIndex, parentKey] at refilled
    simp only [sourceIndex] at runEq
    have filledHas := (leftHas.withRightChild donated.child).insert
      (Nat.le_refl _) leftWritable.encodable.rightChild_lt refilled
    rw [List.insertIdx_length_self] at filledHas
    have erasedHas := rightHas.erase erases
    have erasedSlots : rightSlots.eraseIdx 0 = back := by
      rw [slotsEq]
      rfl
    rw [erasedSlots] at erasedHas
    have erasedWritable := rightWritable.refilled erases
      (EntriesFit.eraseIdx rightWritable.encodable.entries 0)
    obtain ⟨parentWritable, parentHolds⟩ := rekeyed_parent pages has inside
      donatedKey updates
    have leftNumber := refilled.frame.1.trans pages.leftOn.2
    have rightNumber := erases.frame.1.trans pages.rightOn.2
    have leftChild := refilled.frame.2.2.2.2
    have rightChild := erases.frame.2.2.2.2
    refine ⟨_, mid, runEq, ⟨_, updates, ?_⟩, ?_, ?_, ?_⟩
    · intro page member
      rw [List.mem_singleton.mp member]
      exact Or.inl pages.leftOn.2
    · intro node member
      rcases List.mem_cons.mp member with rfl | member
      · exact erasedWritable.later updates
      · rcases List.mem_cons.mp member with rfl | member
        · exact later
        · rw [List.mem_singleton.mp member]
          exact parentWritable
    · rw [if_pos rfl]
      have parentNumber : (nodeKeyAtSet (loadedNode disk parent) separator
          donated.key).pageNumber = parent := pages.parentOn.2
      simp only [List.map_cons, List.map_nil, leftNumber, rightNumber,
        parentNumber]
    · refine ⟨innerOf (leftSlots ++
          [⟨(loadedNode disk left).rightChild, parentSlot.key⟩]) donated.child,
        .separator donated.key,
        innerOf back (loadedNode disk right).rightChild, ?_, ?_⟩
      · apply TableRotates.innerLeft
        have passes := PassesRight.inner
          (kidsOf leftSlots (loadedNode disk left).rightChild)
          (kidsOf back (loadedNode disk right).rightChild) donated.child
          (sepsOf leftSlots) (sepsOf back) (.separator parentSlot.key)
          (.separator donated.key)
        have kidsEq : kidsOf (leftSlots ++
            [⟨(loadedNode disk left).rightChild, parentSlot.key⟩])
              donated.child =
            kidsOf leftSlots (loadedNode disk left).rightChild ++
              [donated.child] := by
          unfold kidsOf
          rw [List.map_append]
          rfl
        have sepsEq : sepsOf (leftSlots ++
            [⟨(loadedNode disk left).rightChild, parentSlot.key⟩]) =
            sepsOf leftSlots ++ [.separator parentSlot.key] := by
          unfold sepsOf
          rw [List.map_append]
          rfl
        unfold innerOf
        rw [kidsEq, sepsEq, slotsEq]
        exact passes
      · intro after holds
        have rightHolds := holds _ List.mem_cons_self
        have leftHolds := holds _
          (List.mem_cons_of_mem _ List.mem_cons_self)
        have parentNow := holds _ (List.mem_cons_of_mem _
          (List.mem_cons_of_mem _ List.mem_cons_self))
        refine ⟨parentHolds after parentNow, ?_, ?_⟩
        · have contents := filledHas.holds
            (leftHolds.withMeta filled.metaBytes) leftNumber
          rw [leftChild] at contents
          exact contents
        · have contents := erasedHas.holds rightHolds rightNumber
          rw [rightChild] at contents
          exact contents

end Pages

end Inner

end Nodes

/-! ## Every rotation of every tree -/

/-- The root of a subtree is a leaf or an inner node, as its height says. -/
theorem treeAt_loaded {disk : Disk} {free : List Nat} {height page : Nat}
    {pages : List Nat} {flat : List Mark} (store : Store disk free)
    (tree : TreeAt (TableHolds disk) height page pages flat) :
    NodeOn disk page ∧
      (height = 0 ∧ (loadedNode disk page).isLeaf = true ∧
          SmallCells (loadedNode disk page) ∧
          TableHolds disk page (leafOf (loadedNode disk page).entries) ∨
        height ≠ 0 ∧ ∃ slots, HasSlots (loadedNode disk page) slots ∧
          TableHolds disk page
            (innerOf slots (loadedNode disk page).rightChild)) := by
  cases height with
  | zero =>
      have here := tree.1
      obtain ⟨on, ⟨isLeaf, small, contents⟩ | ⟨slots, _, contents⟩⟩ :=
        here.loaded store
      · rw [contents] at here
        exact ⟨on, Or.inl ⟨rfl, isLeaf, small, here⟩⟩
      · cases contents
  | succ height =>
      obtain ⟨kids, seps, own, here, _, _⟩ := tree.row
      obtain ⟨on, ⟨_, _, contents⟩ | ⟨slots, has, contents⟩⟩ :=
        here.loaded store
      · cases contents
      · rw [contents] at here
        exact ⟨on, Or.inr ⟨Nat.succ_ne_zero _, slots, has, here⟩⟩

section Tree

variable {tree : BTree} {disk after : Disk} {free pages : List Nat}
variable {top height separator parent : Nat} {flat : List Mark}
variable {kids : List Nat} {seps : List Mark} {left right : PagedTree.Part Mark}
variable {sep : Mark} {frame : Frame Mark}

theorem TableTree.tablePages
    (valid : TableTree disk free tree.rootPageId top pages flat)
    (neighbours : Neighbours (TableHolds disk) top tree.rootPageId height
      parent separator kids seps left right sep frame)
    (pagesEq : (frame.pages parent (left.pages ++ right.pages)).Perm pages) :
    TablePages disk free parent left.kid right.kid where
  roomy := valid.roomy
  store := valid.store
  three := neighbours_threePages neighbours pagesEq valid.apart valid.rooted
  parentOn := (neighbours.parentHere.loaded valid.store).1
  leftOn := (treeAt_loaded valid.store neighbours.siblings.leftTree).1
  rightOn := (treeAt_loaded valid.store neighbours.siblings.rightTree).1

/-- Writing the changed nodes makes the rotation. -/
theorem RotatedNodes.persisted {mid : Disk} {mode : RebalanceMode}
    {slots : List Slot} {rightChild left right : Nat}
    {leftNode rightNode : PNode Mark} {nodes : RotateNodes}
    (rotated : RotatedNodes disk mid free mode parent left right separator slots
      rightChild leftNode rightNode sep nodes)
    (three : ThreePages free parent left right) :
    ∃ stored after leftNode' sep' rightNode',
      nodercPersistN [nodes.source, nodes.dest, nodes.parent] mid =
        (.ok stored, after) ∧
      TableRotates mode leftNode sep rightNode leftNode' sep' rightNode' ∧
      TableHolds after parent (.inner (kidsOf slots rightChild)
        ((sepsOf slots).set separator sep')) ∧
      TableHolds after left leftNode' ∧ TableHolds after right rightNode' ∧
      Store after free ∧ after.pageSize = disk.pageSize ∧
      ∀ page, page ≠ parent → page ≠ left → page ≠ right →
        after.buffer? page = disk.buffer? page := by
  obtain ⟨touched, first, onlyTwo⟩ := rotated.updates
  have distinct : ([nodes.source, nodes.dest, nodes.parent].map
      BTreeNode.pageNumber).Nodup := by
    rw [rotated.numbers]
    have leftRight := three.leftRight
    have parentLeft := three.parentLeft
    have parentRight := three.parentRight
    split
    · simp [leftRight.symm, parentLeft.symm, parentRight.symm]
    · simp [leftRight, parentLeft.symm, parentRight.symm]
  obtain ⟨stored, after, storedEq, _, holds, second⟩ :=
    nodercPersistN_run first.store rotated.writable distinct
  obtain ⟨leftNode', sep', rightNode', rotates, contents⟩ := rotated.contents
  obtain ⟨parentHolds, leftHolds, rightHolds⟩ := contents after holds
  have whole := first.trans second
  refine ⟨stored, after, leftNode', sep', rightNode', storedEq, rotates,
    parentHolds, leftHolds, rightHolds, whole.store, whole.pageSize, ?_⟩
  intro page notParent notLeft notRight
  apply whole.kept page
  · intro member
    rcases List.mem_append.mp member with early | later
    · rcases onlyTwo page early with isLeft | isRight
      · exact notLeft isLeft
      · exact notRight isRight
    · rw [rotated.numbers] at later
      split at later
      · simp only [List.mem_cons, List.not_mem_nil, or_false] at later
        omega
      · simp only [List.mem_cons, List.not_mem_nil, or_false] at later
        omega
  · simp

/-- The slots of the parent, and the one between the neighbours. -/
theorem neighbours_slots (store : Store disk free)
    (neighbours : Neighbours (TableHolds disk) top tree.rootPageId height
      parent separator kids seps left right sep frame) :
    ∃ slots slot, HasSlots (loadedNode disk parent) slots ∧
      slots[separator]? = some slot ∧ sep = .separator slot.key ∧
      kids = kidsOf slots (loadedNode disk parent).rightChild ∧
      seps = sepsOf slots := by
  obtain ⟨_, ⟨_, _, contents⟩ | ⟨slots, has, contents⟩⟩ :=
    neighbours.parentHere.loaded store
  · cases contents
  · obtain ⟨kidsEq, sepsEq⟩ := PNode.inner.inj contents
    have between := neighbours.siblings.between
    rw [sepsEq] at between
    unfold sepsOf at between
    rw [List.getElem?_map] at between
    obtain ⟨slot, slotHere, sepEq⟩ := Option.map_eq_some_iff.mp between
    exact ⟨slots, slot, has, slotHere, sepEq.symm, kidsEq, sepsEq⟩

/-- The nodes' part of a rotation between two neighbours. -/
theorem TableTree.rotateNodes {mode : RebalanceMode}
    (isRotate : mode = .rotateLeft ∨ mode = .rotateRight)
    (valid : TableTree disk free tree.rootPageId top pages flat)
    (neighbours : Neighbours (TableHolds disk) top tree.rootPageId height
      parent separator kids seps left right sep frame)
    (pagesEq : (frame.pages parent (left.pages ++ right.pages)).Perm pages)
    (leftEq : left.kid = childPage tree disk parent separator)
    (rightEq : right.kid = childPage tree disk parent (separator + 1))
    {nodes : RotateNodes}
    (nodesEq : nodes = rotateNodesAround tree disk mode parent separator)
    (two : 2 ≤ nodes.source.numKeys)
    (erases : ErasesAt nodes.source
      (rotateSourceIndex mode nodes.source).index) :
    (if nodes.dest.isLeaf then btaRotateLeaf mode nodes
        else btaRotateInner mode nodes) disk =
        (.error (.err .errNodeNotEnoughSpace), disk) ∨
      ∃ slots leftNode rightNode rotated mid,
        (if nodes.dest.isLeaf then btaRotateLeaf mode nodes
          else btaRotateInner mode nodes) disk = (.ok rotated, mid) ∧
        kids = kidsOf slots (loadedNode disk parent).rightChild ∧
        seps = sepsOf slots ∧
        TableHolds disk left.kid leftNode ∧
        TableHolds disk right.kid rightNode ∧
        RotatedNodes disk mid free mode parent left.kid right.kid separator
          slots (loadedNode disk parent).rightChild leftNode rightNode sep
          rotated := by
  have store := valid.store
  have threePages := valid.tablePages neighbours pagesEq
  obtain ⟨slots, slot, has, slotHere, sepEq, kidsEq, sepsEq⟩ :=
    neighbours_slots store neighbours
  have inside := (List.getElem?_eq_some_iff.mp slotHere).1
  subst sepEq
  rcases treeAt_loaded store neighbours.siblings.leftTree with
    ⟨_, ⟨flatHeight, leftLeaf, leftSmall, leftHere⟩ |
      ⟨tall, leftSlots, leftHas, leftHere⟩⟩
  · rcases treeAt_loaded store neighbours.siblings.rightTree with
      ⟨_, ⟨_, rightLeaf, rightSmall, rightHere⟩ | ⟨tall, _⟩⟩
    · rcases isRotate with rfl | rfl
      · rw [rotateNodesAround_left, ← leftEq, ← rightEq] at nodesEq
        subst nodesEq
        simp only
        rw [if_pos leftLeaf]
        rcases btaRotateLeaf_left threePages has inside slot.key leftLeaf
          rightLeaf leftSmall rightSmall two erases with
          full | ⟨rotated, runEq, rotation⟩
        · exact Or.inl full
        · exact Or.inr ⟨slots, _, _, rotated, disk, runEq, kidsEq, sepsEq,
            leftHere, rightHere, rotation⟩
      · rw [rotateNodesAround_right, ← leftEq, ← rightEq] at nodesEq
        subst nodesEq
        simp only
        rw [if_pos rightLeaf]
        rcases btaRotateLeaf_right threePages has inside slot.key leftLeaf
          rightLeaf leftSmall rightSmall two erases with
          full | ⟨rotated, runEq, rotation⟩
        · exact Or.inl full
        · exact Or.inr ⟨slots, _, _, rotated, disk, runEq, kidsEq, sepsEq,
            leftHere, rightHere, rotation⟩
    · exact absurd flatHeight tall
  · rcases treeAt_loaded store neighbours.siblings.rightTree with
      ⟨_, ⟨flatHeight, _⟩ | ⟨_, rightSlots, rightHas, rightHere⟩⟩
    · exact absurd flatHeight tall
    · rcases isRotate with rfl | rfl
      · rw [rotateNodesAround_left, ← leftEq, ← rightEq] at nodesEq
        subst nodesEq
        simp only at two erases ⊢
        have some_ : rightSlots ≠ [] := by
          rintro rfl
          rw [rightHas.numKeys_eq] at two
          simp at two
        rw [if_neg (by rw [leftHas.isInner]; exact Bool.false_ne_true)]
        rcases btaRotateInner_left threePages has slotHere leftHas rightHas
          some_ erases with full | ⟨rotated, mid, runEq, rotation⟩
        · exact Or.inl full
        · exact Or.inr ⟨slots, _, _, rotated, mid, runEq, kidsEq, sepsEq,
            leftHere, rightHere, rotation⟩
      · rw [rotateNodesAround_right, ← leftEq, ← rightEq] at nodesEq
        subst nodesEq
        simp only at two erases ⊢
        have some_ : leftSlots ≠ [] := by
          rintro rfl
          rw [leftHas.numKeys_eq] at two
          simp at two
        rw [if_neg (by rw [rightHas.isInner]; exact Bool.false_ne_true)]
        rcases btaRotateInner_right threePages has slotHere leftHas rightHas
          some_ erases with full | ⟨rotated, mid, runEq, rotation⟩
        · exact Or.inl full
        · exact Or.inr ⟨slots, _, _, rotated, mid, runEq, kidsEq, sepsEq,
            leftHere, rightHere, rotation⟩

/-- The tree after a rotation between two neighbours. -/
theorem TableTree.rotated {mode : RebalanceMode}
    {leftNode rightNode leftNode' rightNode' : PNode Mark} {sep' : Mark}
    (valid : TableTree disk free tree.rootPageId top pages flat)
    (neighbours : Neighbours (TableHolds disk) top tree.rootPageId height
      parent separator kids seps left right sep frame)
    (pagesEq : (frame.pages parent (left.pages ++ right.pages)).Perm pages)
    (flatEq : flat = frame.whole (left.flat ++ sep :: right.flat))
    (leftEq : left.kid = childPage tree disk parent separator)
    (rightEq : right.kid = childPage tree disk parent (separator + 1))
    (rotates : TableRotates mode leftNode sep rightNode leftNode' sep'
      rightNode')
    (leftHere : TableHolds disk left.kid leftNode)
    (rightHere : TableHolds disk right.kid rightNode)
    (parentAfter : TableHolds after parent
      (.inner kids (seps.set separator sep')))
    (leftAfter : TableHolds after left.kid leftNode')
    (rightAfter : TableHolds after right.kid rightNode')
    (store : Store after free) (pageSize : after.pageSize = disk.pageSize)
    (others : ∀ page, page ≠ parent → page ≠ left.kid → page ≠ right.kid →
      after.buffer? page = disk.buffer? page) :
    TableRotation tree disk free top pages flat mode after height parent
      separator := by
  have distinct := (List.nodup_append.mp valid.apart).1
  have middleDistinct := (frame_pages_nodup pagesEq distinct).2.1
  obtain ⟨keptFrame, keptMiddle⟩ := neighbours_kept neighbours pagesEq distinct
    (fun page => after.buffer? page = disk.buffer? page)
    fun page _ => others page
  obtain ⟨left', right', flat', parts, sameEntries, sameOrder⟩ :=
    rotates.repartition neighbours.siblings.leftTree
      neighbours.siblings.rightTree middleDistinct leftHere rightHere leftAfter
      rightAfter fun own member notLeft notRight node holds =>
        holds.congr (keptMiddle own member notLeft notRight)
  have kept : ∀ own ∈ frame.outside ++ frame.others, ∀ node,
      TableHolds disk own node → TableHolds after own node :=
    fun own member node holds => holds.congr (keptFrame own member)
  have subtree := neighbours.exchange kept parentAfter parts
  have whole := (neighbours.plug kept subtree).perm pagesEq.symm
  rw [leftEq] at leftHere leftAfter others
  rw [rightEq] at rightHere rightAfter others
  refine ⟨⟨kids, seps, leftNode, sep, rightNode, leftNode', sep', rightNode',
    neighbours.parentHere, neighbours.siblings.between, leftHere, rightHere,
    rotates, parentAfter, leftAfter, rightAfter⟩,
    ⟨_, _, _, neighbours.subtree, subtree, ?_⟩,
    ⟨frame.whole flat', ?_, ?_⟩, others⟩
  · unfold Frame.part
    simp only [entriesOf_append, sameEntries]
  · refine ⟨valid.roomy.congr pageSize, store, whole, ?_, valid.apart,
      valid.rooted⟩
    have ordered := valid.ordered
    rw [flatEq] at ordered
    unfold Frame.whole Frame.part at ordered ⊢
    have assoc : ∀ middle : List Mark,
        frame.before ++ (frame.early ++ (middle ++ frame.late) ++
          frame.behind) =
        (frame.before ++ frame.early) ++
          (middle ++ (frame.late ++ frame.behind)) := by
      intro middle
      simp only [List.append_assoc]
    rw [assoc] at ordered ⊢
    exact sameOrder _ _ ordered
  · rw [flatEq]
    unfold Frame.whole Frame.part
    simp only [entriesOf_append, sameEntries]

end Tree

/-- The page beside a child, in the direction of a mode. -/
def siblingPage (tree : BTree) (disk : Disk) (mode : RebalanceMode)
    (parent : CursorBreadcrumb) : Nat :=
  match mode with
  | .rotateLeft | .mergeRight =>
      childPage tree disk parent.pageId (parent.keyIndex.index + 1)
  | .rotateRight | .mergeLeft =>
      childPage tree disk parent.pageId (parent.keyIndex.index - 1)

theorem CursorM.fail_ne_ok {code : BTreeE} {cursor later : Cursor}
    {disk after : Disk}
    (ended : (.ok (.error code, cursor), disk) =
      ((.ok (.ok (), later), after) :
        Except Stop (Except BTreeE Unit × Cursor) × Disk)) : False := by
  cases (Prod.mk.inj (Except.ok.inj (Prod.mk.inj ended).1)).1

/-- A rotation that returns `BTREE_OK` moves one entry and keeps the rest: the
donor has two keys, and removing the moved entry erases it. -/
theorem btaRotate_rotates {tree : BTree} {disk after : Disk}
    {free pages : List Nat} {top height page : Nat} {flat : List Mark}
    {mode : RebalanceMode} {cursor later : Cursor} {parent : CursorBreadcrumb}
    {crumbs : List CursorBreadcrumb} (isTable : tree.type = .table)
    (valid : TableTree disk free tree.rootPageId top pages flat)
    (placed : PlacedBy tree disk top cursor page (parent :: crumbs))
    (way : WayDown tree disk top height page (parent :: crumbs))
    (two : 2 ≤ keysOn disk (siblingPage tree disk mode parent))
    (erases : ErasesAt (loadedNode disk (siblingPage tree disk mode parent))
      (rotateSourceIndex mode
        (loadedNode disk (siblingPage tree disk mode parent))).index)
    (rotated : btaRotate tree mode cursor disk =
      (.ok (.ok (), later), after)) :
    TableRotation tree disk free top pages flat mode after height
      parent.pageId (separatorBeside mode parent.keyIndex.index) := by
  have room := placed.room
  rw [placed.cursorEq] at rotated
  cases way with
  | @child _ parentPage index lower above bound =>
      have shape := above.shape (valid.wellShaped isTable)
      have indexEq := initKeylistindexFromIndex_index bound
      simp only [List.cons_append, List.length_cons] at rotated room
      simp only [indexEq] at two erases ⊢
      unfold btaRotate at rotated
      cases isMode : mode == .rotateLeft || mode == .rotateRight with
      | false =>
          rw [isMode] at rotated
          cases rotated
      | true =>
          have isRotate : mode = .rotateLeft ∨ mode = .rotateRight := by
            simpa using isMode
          rw [isMode, CursorM.bind_ok (CursorM.lift_ok
            (BtM.assert_true_apply disk))] at rotated
          obtain ⟨between, noSibling | ⟨inside, nodesEq⟩⟩ :=
            @btaRotateNodes_run tree disk
              ⟨cursor.currentKeyIndex, childPage tree disk parentPage index⟩
              ⟨initKeylistindexFromIndex (loadedNode disk parentPage) index,
                parentPage⟩ (crumbs ++ [rootCrumb tree]) height index mode
              isRotate
              (by simp only [List.length_append, List.length_singleton]; omega)
              shape bound rfl rfl
          · rw [CursorM.bind_error noSibling] at rotated
            exact (CursorM.fail_ne_ok rotated).elim
          · obtain ⟨kids, seps, left, right, sep, frame, neighbours, leftEq,
              rightEq, flatEq, pagesEq⟩ := above.neighbours
                (TableHolds.readsAs isTable valid.store) valid.tree inside
            have donor : (rotateNodesAround tree disk mode parentPage
                (separatorBeside mode index)).source =
                loadedNode disk (siblingPage tree disk mode
                  ⟨initKeylistindexFromIndex (loadedNode disk parentPage)
                    index, parentPage⟩) := by
              unfold siblingPage
              simp only [indexEq]
              rcases isRotate with rfl | rfl <;> rfl
            rw [CursorM.bind_ok nodesEq] at rotated
            rcases valid.rotateNodes isRotate neighbours pagesEq leftEq rightEq
              rfl (by rw [donor]; exact two) (by rw [donor]; exact erases) with
              full | ⟨slots, leftNode, rightNode, nodes, mid, runEq, kidsEq,
                sepsEq, leftHere, rightHere, changed⟩
            · have lifted := @CursorM.lift_error _ between _ _ _ _ full
              rw [CursorM.bind_error lifted] at rotated
              exact (CursorM.fail_ne_ok rotated).elim
            · have lifted := @CursorM.lift_ok _ between _ _ _ _ runEq
              obtain ⟨stored, last, leftNode', sep', rightNode', storedEq,
                rotates, parentAfter, leftAfter, rightAfter, store, pageSize,
                others⟩ :=
                changed.persisted (valid.tablePages neighbours pagesEq).three
              have written := @CursorM.lift_ok _ between _ _ _ _ storedEq
              rw [CursorM.bind_ok lifted, CursorM.bind_ok written] at rotated
              have sameDisk : last = after := (Prod.mk.inj rotated).2
              rw [← kidsEq, ← sepsEq] at parentAfter
              rw [← sameDisk]
              exact valid.rotated neighbours pagesEq flatEq leftEq rightEq
                rotates leftHere rightHere parentAfter leftAfter rightAfter
                store pageSize others

/-! ## One rotation -/

/-- A root with a leaf of two records and one of one. -/
def unevenLeaves : Disk :=
  diskOfNodes 216
    [(false, 3, [(1, le32 2)]), (true, 0, [(0, [10]), (1, [11])]),
      (true, 0, [(2, [12])])]

/-- The cursor on the smaller leaf. -/
def smallLeafCursor : Cursor :=
  cursorAt [⟨⟨.limIndex, 0⟩, 3⟩, ⟨⟨.rightChild, 1⟩, 1⟩,
    ⟨⟨.limIndex, 0⟩, 1⟩]

/-- The cursor on the larger leaf, where the rotation leaves it. -/
def largeLeafCursor : Cursor :=
  cursorAt [⟨⟨.limIndex, 0⟩, 2⟩, ⟨⟨.limIndex, 0⟩, 1⟩, ⟨⟨.limIndex, 0⟩, 1⟩]

def evenLeaves : Disk :=
  (btaRotate ⟨1, .table, 1⟩ .rotateRight smallLeafCursor unevenLeaves).2

theorem unevenLeaves_checked :
    (checkTable unevenLeaves [] 1 1).isSome = true ∧
      childPage ⟨1, .table, 1⟩ unevenLeaves 1 1 = 3 ∧
      initKeylistindexFromIndex (loadedNode unevenLeaves 1) 1 =
        ⟨.rightChild, 1⟩ ∧
      1 ≤ keysOn unevenLeaves 1 ∧
      2 ≤ keysOn unevenLeaves (siblingPage ⟨1, .table, 1⟩ unevenLeaves
        .rotateRight ⟨⟨.rightChild, 1⟩, 1⟩) ∧
      (NodeOk (loadedNode unevenLeaves 2) ∧
        btreeMinPageSize ≤ (loadedNode unevenLeaves 2).pageSize ∧
        1 < (loadedNode unevenLeaves 2).numKeys ∧
        GcSafe (loadedNode unevenLeaves 2) 1) ∧
      siblingPage ⟨1, .table, 1⟩ unevenLeaves .rotateRight
        ⟨⟨.rightChild, 1⟩, 1⟩ = 2 ∧
      (rotateSourceIndex .rotateRight (loadedNode unevenLeaves 2)).index = 1 ∧
      btaRotate ⟨1, .table, 1⟩ .rotateRight smallLeafCursor unevenLeaves =
        (.ok (.ok (), largeLeafCursor), evenLeaves) := by
  decide +kernel

/-- A rotation to the right between two leaves. -/
theorem uneven_leaves_rotate : ∃ pages flat,
    TableTree unevenLeaves [] 1 1 pages flat ∧
      btaRotate ⟨1, .table, 1⟩ .rotateRight smallLeafCursor unevenLeaves =
        (.ok (.ok (), largeLeafCursor), evenLeaves) ∧
      TableRotation ⟨1, .table, 1⟩ unevenLeaves [] 1 pages flat .rotateRight
        evenLeaves 0 1 0 := by
  obtain ⟨tableOk, childEq, crumbEq, bound, two,
    ⟨nodeOk, large, inside, safe⟩, siblingEq, sourceEq, rotated⟩ :=
    unevenLeaves_checked
  obtain ⟨⟨pages, flat⟩, checkEq⟩ := Option.isSome_iff_exists.mp tableOk
  have valid := checkTable_sound checkEq
  have way : WayDown ⟨1, .table, 1⟩ unevenLeaves 1 0 3
      [⟨⟨.rightChild, 1⟩, 1⟩] := by
    have down := @WayDown.child ⟨1, .table, 1⟩ unevenLeaves 1 0 1 1 [] .root
      bound
    rw [← crumbEq, ← childEq]
    exact down
  have placed : PlacedBy ⟨1, .table, 1⟩ unevenLeaves 1 smallLeafCursor 3
      [⟨⟨.rightChild, 1⟩, 1⟩] :=
    ⟨rfl, ⟨0, way⟩, by decide⟩
  have erases : ErasesAt (loadedNode unevenLeaves (siblingPage ⟨1, .table, 1⟩
      unevenLeaves .rotateRight ⟨⟨.rightChild, 1⟩, 1⟩))
      (rotateSourceIndex .rotateRight (loadedNode unevenLeaves (siblingPage
        ⟨1, .table, 1⟩ unevenLeaves .rotateRight
          ⟨⟨.rightChild, 1⟩, 1⟩))).index := by
    rw [siblingEq, sourceEq]
    exact safe.erasesAt nodeOk large inside
  exact ⟨pages, flat, valid, rotated,
    btaRotate_rotates rfl valid placed way two erases rotated⟩

end BtreeDb
