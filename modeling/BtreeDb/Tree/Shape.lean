import BtreeDb.Node.Check
import BtreeDb.Table.Tree

/-!
# The shape of a tree

What the cursors need of a tree, whether it is a table or an index: every
page can be loaded, an inner node has a child at every index up to the number
of its keys, and all leaves are at the same depth.
-/

namespace BtreeDb

open PagedTree Bytes

/-! ## Loaded nodes -/

/-- The page can be read. -/
def OnDisk (disk : Disk) (page : Nat) : Prop :=
  page ≠ 0 ∧ page ≤ disk.maxPage

instance (disk : Disk) (page : Nat) : Decidable (OnDisk disk page) :=
  inferInstanceAs (Decidable (_ ∧ _))

theorem nodercReinitRead_onDisk {disk : Disk} {page : Nat}
    (present : OnDisk disk page) :
    nodercReinitRead page disk = (.ok (loadedNode disk page), disk) := by
  obtain ⟨image, found⟩ :=
    Option.isSome_iff_exists.mp (page?_isSome_iff.mpr present)
  unfold nodercReinitRead loadedNode
  rw [BtM.bind_ok (readPage_present found), found]
  rfl

theorem Holds.loadedNode_eq {disk : Disk} {free : List Nat} {node : BTreeNode}
    (holds : Holds disk node) (store : Store disk free) :
    ∃ metaBytes,
      loadedNode disk node.pageNumber = { node with metaBytes := metaBytes } := by
  obtain ⟨metaBytes, readEq, _⟩ := nodercReinitRead_holds holds store
  rw [nodercReinitRead_onDisk holds.present] at readEq
  exact ⟨metaBytes, Except.ok.inj (Prod.mk.inj readEq).1⟩

/-- The number of keys on a page. -/
def keysOn (disk : Disk) (page : Nat) : Nat := (loadedNode disk page).numKeys

/-- The child of an inner node at an index. -/
def childPage (tree : BTree) (disk : Disk) (page index : Nat) : Nat :=
  match readCellPage tree (loadedNode disk page) index with
  | .ok child => child
  | .error _ => 0

/-! ## Shapes -/

/-- A tree of the given height below a page. -/
def WellShaped (tree : BTree) (disk : Disk) : Nat → Nat → Prop
  | 0, page => OnDisk disk page ∧ (loadedNode disk page).isLeaf = true
  | height + 1, page =>
      OnDisk disk page ∧ (loadedNode disk page).isLeaf = false ∧
      ∀ index, index ≤ keysOn disk page →
        readCellPage tree (loadedNode disk page) index =
          .ok (childPage tree disk page index) ∧
        childPage tree disk page index ≠ page ∧
        WellShaped tree disk height (childPage tree disk page index)

theorem WellShaped.onDisk {tree : BTree} {disk : Disk} {height page : Nat}
    (shape : WellShaped tree disk height page) : OnDisk disk page := by
  cases height with
  | zero => exact shape.1
  | succ height => exact shape.1

/-- An index past the keys means the right child too. -/
theorem WellShaped.child {tree : BTree} {disk : Disk} {height page : Nat}
    (shape : WellShaped tree disk (height + 1) page) (index : Nat) :
    readCellPage tree (loadedNode disk page) index =
        .ok (childPage tree disk page index) ∧
      childPage tree disk page index ≠ page ∧
      WellShaped tree disk height (childPage tree disk page index) := by
  by_cases inside : index ≤ keysOn disk page
  · exact shape.2.2 index inside
  · have beyond : keysOn disk page ≤ index := by omega
    have last := shape.2.2 (keysOn disk page) (Nat.le_refl _)
    have sameRead : readCellPage tree (loadedNode disk page) index =
        readCellPage tree (loadedNode disk page) (keysOn disk page) := by
      have atEnd : keysOn disk page ≥ (loadedNode disk page).numKeys :=
        Nat.le_refl _
      unfold readCellPage
      rw [if_pos atEnd, if_pos (Nat.le_trans atEnd beyond)]
    have sameChild : childPage tree disk page index =
        childPage tree disk page (keysOn disk page) := by
      unfold childPage
      rw [sameRead]
    rw [sameRead, sameChild]
    exact last

theorem WellShaped.rightChild_ne {tree : BTree} {disk : Disk}
    {height page : Nat} (shape : WellShaped tree disk (height + 1) page) :
    (loadedNode disk page).rightChild ≠ 0 := by
  obtain ⟨readEq, _, below⟩ := shape.child (keysOn disk page)
  unfold readCellPage keysOn at readEq
  rw [if_pos (Nat.le_refl _)] at readEq
  have childEq := Except.ok.inj readEq
  have present := below.onDisk.1
  unfold keysOn at present
  rwa [← childEq] at present

theorem WellShaped.isLeaf_iff {tree : BTree} {disk : Disk} {height page : Nat}
    (shape : WellShaped tree disk height page) :
    (loadedNode disk page).isLeaf = true ↔ height = 0 := by
  cases height with
  | zero => simp [shape.2]
  | succ height => simp [shape.2.1]

/-- A page whose contents are those of a node with known children. -/
structure ReadsAs {γ : Type} (tree : BTree) (disk : Disk) (page : Nat)
    (content : PNode γ) : Prop where
  onDisk : OnDisk disk page
  leaf : ∀ items, content = .leaf items →
    (loadedNode disk page).isLeaf = true
  inner : ∀ kids seps, content = .inner kids seps →
    (loadedNode disk page).isLeaf = false ∧
    keysOn disk page = seps.length ∧
    ∀ index kid, kids[index]? = some kid →
      readCellPage tree (loadedNode disk page) index = .ok kid

/-- Trees of either kind are well shaped. -/
theorem wellShaped_of_treeAt {γ : Type} {tree : BTree} {disk : Disk}
    {holds : Nat → PNode γ → Prop}
    (reads : ∀ page content, holds page content →
      ReadsAs tree disk page content) :
    ∀ {height page : Nat} {pages : List Nat} {flat : List γ},
      TreeAt holds height page pages flat → pages.Nodup →
        WellShaped tree disk height page := by
  intro height
  induction height with
  | zero =>
      rintro page pages flat ⟨here, _⟩ _
      have read := reads page _ here
      exact ⟨read.onDisk, read.leaf _ rfl⟩
  | succ height inductionHypothesis =>
      intro page pages flat treeAt distinct
      obtain ⟨seps, kids, here, lengths, _, children⟩ := treeAt.focus
      have read := reads page _ here
      obtain ⟨isInner, count, childReads⟩ := read.inner kids seps rfl
      refine ⟨read.onDisk, isInner, ?_⟩
      intro index bound
      rw [count] at bound
      obtain ⟨front, mid, back, frontLength, kidsEq, _, _, pagesEq, _, midTree,
        _⟩ := children index bound
      have kidHere : kids[index]? = some mid.kid := by
        rw [kidsEq, List.getElem?_append_right
          (by simp [leftKids, frontLength])]
        simp [leftKids, frontLength]
      have readEq := childReads index mid.kid kidHere
      have childEq : childPage tree disk page index = mid.kid := by
        unfold childPage
        rw [readEq]
      have apart := List.nodup_cons.mp (pagesEq.nodup_iff.mp distinct)
      have inner := List.nodup_append.mp apart.2
      have midDistinct := (List.nodup_append.mp inner.2.1).1
      rw [childEq]
      refine ⟨readEq, ?_, inductionHypothesis midTree midDistinct⟩
      intro same
      refine apart.1 ?_
      rw [← same]
      exact List.mem_append_right _
        (List.mem_append_left _ midTree.root_mem)

/-! ## Table trees -/

theorem TableHolds.readsAs {tree : BTree} {disk : Disk} {free : List Nat}
    (isTable : tree.type = .table) (store : Store disk free) (page : Nat)
    (content : PNode Mark) (holds : TableHolds disk page content) :
    ReadsAs tree disk page content := by
  cases holds with
  | @leaf node holds here isLeaf small =>
      obtain ⟨metaBytes, loadedEq⟩ := holds.loadedNode_eq store
      subst here
      refine ⟨holds.present, ?_, ?_⟩
      · intro items _
        rw [loadedEq]
        exact isLeaf
      · intro kids seps contents
        cases contents
  | @inner node slots holds here isInner entriesEq children =>
      obtain ⟨metaBytes, loadedEq⟩ := holds.loadedNode_eq store
      subst here
      refine ⟨holds.present, ?_, ?_⟩
      · intro items contents
        cases contents
      · intro kids seps contents
        obtain ⟨kidsEq, sepsEq⟩ := PNode.inner.inj contents
        have lengths := congrArg List.length entriesEq
        rw [entries_length, List.length_map] at lengths
        refine ⟨?_, ?_, ?_⟩
        · rw [loadedEq]
          exact isInner
        · unfold keysOn
          rw [loadedEq, ← sepsEq, List.length_map]
          exact lengths
        · intro index kid kidHere
          rw [loadedEq]
          rw [← kidsEq] at kidHere
          exact readCellPage_table isTable (holds.withMeta metaBytes)
            entriesEq children kidHere

theorem TableTree.wellShaped {tree : BTree} {disk : Disk} {free : List Nat}
    {height : Nat} {pages : List Nat} {flat : List Mark}
    (valid : TableTree disk free tree.rootPageId height pages flat)
    (isTable : tree.type = .table) :
    WellShaped tree disk height tree.rootPageId :=
  wellShaped_of_treeAt (TableHolds.readsAs isTable valid.store) valid.tree
    (List.nodup_append.mp valid.apart).1

end BtreeDb
