import BtreeDb.Lib.PagedRow
import BtreeDb.Node.Rewriting
import BtreeDb.Tree.Siblings

/-!
# Two children beside each other

A rotation or a merge changes two neighbouring children and the slot between
them in their parent.  Here is what a valid tree says about the three pages:
they differ, neither child is page 1, none is free, and each can be loaded,
changed and written back.
-/

namespace BtreeDb

open Disk PagedTree

/-- The way down to a parent leads to the neighbours at a separator. -/
theorem WayDown.neighbours {γ : Type} {holds : Nat → PNode γ → Prop}
    {tree : BTree} {disk : Disk} {top height parent index : Nat}
    {pages : List Nat} {flat : List γ} {crumbs : List CursorBreadcrumb}
    (way : WayDown tree disk top (height + 1) parent crumbs)
    (reads : ∀ page content, holds page content →
      ReadsAs tree disk page content)
    (whole : TreeAt holds top tree.rootPageId pages flat)
    (inside : index < keysOn disk parent) :
    ∃ kids seps left right sep frame,
      Neighbours holds top tree.rootPageId height parent index kids seps left
        right sep frame ∧
      left.kid = childPage tree disk parent index ∧
      right.kid = childPage tree disk parent (index + 1) ∧
      flat = frame.whole (left.flat ++ sep :: right.flat) ∧
      (frame.pages parent (left.pages ++ right.pages)).Perm pages := by
  obtain ⟨steps, outside, own, before, part, behind, path, subtree, flatEq,
    pagesEq⟩ := way.path reads whole
  obtain ⟨kids, seps, here, lengths, around⟩ := path.neighbours subtree
  obtain ⟨_, count, childReads⟩ := (reads parent _ here).inner kids seps rfl
  rw [count] at inside
  obtain ⟨left, right, sep, others, early, late, neighbours, ownEq, partEq⟩ :=
    around index inside
  have childEq : ∀ place kid, kids[place]? = some kid →
      kid = childPage tree disk parent place := by
    intro place kid kidHere
    unfold childPage
    rw [childReads place kid kidHere]
  refine ⟨kids, seps, left, right, sep, _, neighbours,
    childEq _ _ neighbours.siblings.leftKid,
    childEq _ _ neighbours.siblings.rightKid, ?_, ?_⟩
  · rw [flatEq, partEq]
    rfl
  · exact (ownEq.symm.append_left outside).trans pagesEq

/-- Three pages of a tree: an inner node and two of its children. -/
structure ThreePages (free : List Nat) (parent left right : Nat) : Prop where
  parentLeft : parent ≠ left
  parentRight : parent ≠ right
  leftRight : left ≠ right
  leftNotFirst : left ≠ 1
  rightNotFirst : right ≠ 1
  parentUsed : parent ∉ free
  leftUsed : left ∉ free
  rightUsed : right ∉ free

section Pages

variable {γ : Type} {holds : Nat → PNode γ → Prop}
variable {top root height parent index : Nat} {kids pages free : List Nat}
variable {seps : List γ} {left right : PagedTree.Part γ} {sep : γ} {frame : Frame γ}
  (neighbours : Neighbours holds top root height parent index kids seps left
    right sep frame)
  (pagesEq : (frame.pages parent (left.pages ++ right.pages)).Perm pages)

include pagesEq in
theorem frame_pages_nodup (distinct : pages.Nodup) :
    (frame.outside ++ frame.others).Nodup ∧
      (left.pages ++ right.pages).Nodup ∧
      parent ∉ left.pages ++ right.pages ∧
      parent ∉ frame.outside ++ frame.others ∧
      ∀ page ∈ frame.outside ++ frame.others,
        page ∉ left.pages ++ right.pages := by
  have together : (parent :: ((frame.outside ++ frame.others) ++
      (left.pages ++ right.pages))).Perm pages := by
    apply List.Perm.trans _ pagesEq
    apply List.perm_iff_count.mpr
    intro some
    unfold Frame.pages Frame.below
    simp only [List.count_append, List.count_cons]
    omega
  have apart := List.nodup_cons.mp (together.nodup_iff.mpr distinct)
  have parts := List.nodup_append.mp apart.2
  refine ⟨parts.1, parts.2.1, ?_, ?_, ?_⟩
  · intro member
    exact apart.1 (List.mem_append_right _ member)
  · intro member
    exact apart.1 (List.mem_append_left _ member)
  · intro page outside inside
    exact parts.2.2 page outside page inside rfl

theorem frame_mem_pages (frame : Frame γ) {parent : Nat} {middle : List Nat}
    {page : Nat} :
    page ∈ frame.pages parent middle ↔
      page ∈ frame.outside ++ frame.others ∨ page = parent ∨
        page ∈ middle := by
  unfold Frame.pages Frame.below
  simp only [List.mem_append, List.mem_cons]
  constructor
  · rintro (outside | own | others | middle)
    · exact Or.inl (Or.inl outside)
    · exact Or.inr (Or.inl own)
    · exact Or.inl (Or.inr others)
    · exact Or.inr (Or.inr middle)
  · rintro ((outside | others) | own | middle)
    · exact Or.inl outside
    · exact Or.inr (Or.inr (Or.inl others))
    · exact Or.inr (Or.inl own)
    · exact Or.inr (Or.inr (Or.inr middle))

include neighbours pagesEq

theorem neighbours_threePages (apart : (pages ++ free).Nodup)
    (rooted : 1 ∈ pages → root = 1) :
    ThreePages free parent left.kid right.kid := by
  have distinct := List.nodup_append.mp apart
  obtain ⟨_, middleDistinct, parentOutside, _, separate⟩ :=
    frame_pages_nodup pagesEq distinct.1
  have leftMember : left.kid ∈ left.pages ++ right.pages :=
    List.mem_append_left _ neighbours.siblings.leftTree.root_mem
  have rightMember : right.kid ∈ left.pages ++ right.pages :=
    List.mem_append_right _ neighbours.siblings.rightTree.root_mem
  have notRoot : ∀ kid ∈ left.pages ++ right.pages, kid ≠ root := by
    rintro kid member rfl
    obtain ⟨steps, path⟩ := neighbours.path
    rcases path.root_above with isParent | further
    · exact parentOutside (isParent ▸ member)
    · exact separate _ (List.mem_append_left _ further) member
  have inPages : ∀ kid ∈ left.pages ++ right.pages, kid ∈ pages :=
    fun kid member => pagesEq.mem_iff.mp
      ((frame_mem_pages frame).mpr (Or.inr (Or.inr member)))
  have parentIn : parent ∈ pages :=
    pagesEq.mem_iff.mp ((frame_mem_pages frame).mpr (Or.inr (Or.inl rfl)))
  have notFirst : ∀ kid ∈ left.pages ++ right.pages, kid ≠ 1 := by
    rintro kid member rfl
    exact notRoot 1 member (rooted (inPages 1 member)).symm
  have used : ∀ page ∈ pages, page ∉ free :=
    fun page member inFree => distinct.2.2 page member page inFree rfl
  exact
    { parentLeft := fun same => parentOutside (same ▸ leftMember)
      parentRight := fun same => parentOutside (same ▸ rightMember)
      leftRight := fun same =>
        (List.nodup_append.mp middleDistinct).2.2 _
          neighbours.siblings.leftTree.root_mem _
          neighbours.siblings.rightTree.root_mem same
      leftNotFirst := notFirst _ leftMember
      rightNotFirst := notFirst _ rightMember
      parentUsed := used _ parentIn
      leftUsed := used _ (inPages _ leftMember)
      rightUsed := used _ (inPages _ rightMember) }

/-- What is kept when only the three pages are written. -/
theorem neighbours_kept (distinct : pages.Nodup) (keeps : Nat → Prop)
    (others : ∀ page ∈ pages, page ≠ parent → page ≠ left.kid →
      page ≠ right.kid → keeps page) :
    (∀ page ∈ frame.outside ++ frame.others, keeps page) ∧
      ∀ page ∈ left.pages ++ right.pages, page ≠ left.kid →
        page ≠ right.kid → keeps page := by
  obtain ⟨_, _, parentOutside, parentApart, separate⟩ :=
    frame_pages_nodup pagesEq distinct
  constructor
  · intro page member
    apply others page
    · exact pagesEq.mem_iff.mp ((frame_mem_pages frame).mpr (Or.inl member))
    · rintro rfl
      exact parentApart member
    · rintro rfl
      exact separate _ member
        (List.mem_append_left _ neighbours.siblings.leftTree.root_mem)
    · rintro rfl
      exact separate _ member
        (List.mem_append_right _ neighbours.siblings.rightTree.root_mem)
  · intro page member notLeft notRight
    apply others page _ _ notLeft notRight
    · exact pagesEq.mem_iff.mp
        ((frame_mem_pages frame).mpr (Or.inr (Or.inr member)))
    · rintro rfl
      exact parentOutside member

end Pages

/-! ## Loaded nodes -/

section Loaded

variable {disk : Disk} {free : List Nat} {page : Nat}

theorem NodeOn.metaFresh (on : NodeOn disk page) (store : Store disk free) :
    MetaFresh free (loadedNode disk page) := by
  have present := on.1.present
  obtain ⟨metaBytes, loadedEq, fresh⟩ := nodercReinitRead_holds on.1 store
  rw [nodercReinitRead_onDisk present] at loadedEq
  have atPage : loadedNode disk (loadedNode disk page).pageNumber =
      loadedNode disk page := congrArg (loadedNode disk) on.2
  have same := atPage.symm.trans (Except.ok.inj (Prod.mk.inj loadedEq).1)
  rw [same]
  exact fresh

theorem NodeOn.present (on : NodeOn disk page) : OnDisk disk page := by
  have present := on.1.present
  rw [on.2] at present
  exact present

/-- A loaded node may be changed and written back. -/
theorem NodeOn.writable (on : NodeOn disk page) (store : Store disk free)
    (used : page ∉ free) : Writable disk free (loadedNode disk page) where
  ok := on.1.ok
  encodable := on.1.encodable
  size := on.1.pageSize_eq store
  present := on.1.present
  used := by
    rw [on.2]
    exact used
  metaFresh := on.metaFresh store

/-- Two pages other than page 1 have cells of one size. -/
theorem maxCellSize_same {node other : BTreeNode}
    (sizes : node.pageSize = other.pageSize) (notFirst : node.pageNumber ≠ 1)
    (otherNotFirst : other.pageNumber ≠ 1) :
    btreeNodeMaxCellSize node = btreeNodeMaxCellSize other := by
  apply Nat.le_antisymm
  · exact maxCellSize_le sizes otherNotFirst
  · exact maxCellSize_le sizes.symm notFirst

end Loaded

end BtreeDb
