import BtreeDb.Tree.Calls
import BtreeDb.Tree.Shape

/-!
# Where a traversal leaves its cursor

`cursor_traverse_to_ex` with any comparison function: the cursor stands at the
end of a way down from the root, and its stack is that way with the crumb of
`cursor_create` below it.
-/

namespace BtreeDb

open BinarySearch PagedTree

/-! ## Searching a node -/

/-- What `btree_node_search_keys` makes of the outcome of a comparison. -/
def searchTurn (result : Int) : Ordering :=
  if result = 0 then .eq
  else if result = -1 then .lt
  else .gt

/-- `btree_node_search_keys`.  The comparison of the key with a cell,
`btree_node_compare_cell` under the functions that the tree comes with, may
read the disk. -/
def nodeSearchKeys (compareCell : Disk → BTreeNode → Nat → Except Stop Int)
    (node : BTreeNode) : BtM (Bool × Nat) := do
  let disk ← BtM.getDisk
  BtM.ofExcept (searchM
    (fun index => (compareCell disk node index).map searchTurn) node.numKeys)

/-- A search that reads only and finds a place among the keys. -/
structure SearchesKeys (searchKeys : BTreeNode → BtM (Bool × Nat)) : Prop where
  reads : ∀ node disk, (searchKeys node disk).2 = disk
  index_le : ∀ {node disk after hit index},
    searchKeys node disk = (.ok (hit, index), after) → index ≤ node.numKeys

theorem searchesKeys_nodeSearchKeys
    (compareCell : Disk → BTreeNode → Nat → Except Stop Int) :
    SearchesKeys (nodeSearchKeys compareCell) where
  reads := by
    intro node disk
    unfold nodeSearchKeys
    rw [BtM.bind_ok (BtM.getDisk_apply disk)]
    cases searchM (fun index => (compareCell disk node index).map searchTurn)
      node.numKeys <;> rfl
  index_le := by
    intro node disk after hit index outcome
    unfold nodeSearchKeys at outcome
    rw [BtM.bind_ok (BtM.getDisk_apply disk)] at outcome
    cases searched : searchM
        (fun index => (compareCell disk node index).map searchTurn)
        node.numKeys with
    | error reason =>
        rw [searched] at outcome
        cases outcome
    | ok found =>
        rw [searched] at outcome
        have foundEq : found = (hit, index) :=
          Except.ok.inj (Prod.mk.inj outcome).1
        rw [foundEq] at searched
        exact (loopM_snd_le (Nat.zero_le _) searched).2

/-- The search by key numbers is one of these. -/
theorem searchesKeys_btreeNodeSearchKeys (key : Nat) :
    SearchesKeys fun node => pure (btreeNodeSearchKeys node key) where
  reads := fun _ _ => rfl
  index_le := by
    intro node disk after hit index outcome
    have foundEq := Except.ok.inj (Prod.mk.inj outcome).1
    have bound := search_snd_le
      (compareAt (fun pageKey : PageKey => compare pageKey.key key) node.keys)
      node.numKeys
    unfold btreeNodeSearchKeys at foundEq
    rw [foundEq] at bound
    exact bound

/-! ## The way down -/

/-- The crumb of `cursor_create`. -/
def rootCrumb (tree : BTree) : CursorBreadcrumb where
  keyIndex := ⟨.limIndex, 0⟩
  pageId := tree.rootPageId

theorem cursorCreate_eq (tree : BTree) :
    cursorCreate tree = cursorAt [rootCrumb tree] := rfl

/-- Crumbs, the last one first, of a way down to a page at the given height
from the root of a tree of height `top`. -/
inductive WayDown (tree : BTree) (disk : Disk) (top : Nat) :
    Nat → Nat → List CursorBreadcrumb → Prop
  | root : WayDown tree disk top top tree.rootPageId []
  | child {height page index : Nat} {crumbs : List CursorBreadcrumb}
      (above : WayDown tree disk top (height + 1) page crumbs)
      (bound : index ≤ keysOn disk page) :
      WayDown tree disk top height (childPage tree disk page index)
        (⟨initKeylistindexFromIndex (loadedNode disk page) index, page⟩ ::
          crumbs)

theorem WayDown.shape {tree : BTree} {disk : Disk} {top height page : Nat}
    {crumbs : List CursorBreadcrumb}
    (way : WayDown tree disk top height page crumbs)
    (whole : WellShaped tree disk top tree.rootPageId) :
    WellShaped tree disk height page := by
  induction way with
  | root => exact whole
  | child above bound inductionHypothesis =>
      exact (inductionHypothesis.2.2 _ bound).2.2

theorem WayDown.length {tree : BTree} {disk : Disk} {top height page : Nat}
    {crumbs : List CursorBreadcrumb}
    (way : WayDown tree disk top height page crumbs) :
    crumbs.length + height = top := by
  induction way with
  | root => simp
  | child above bound inductionHypothesis =>
      rw [List.length_cons]
      omega

/-- A way down leads to a subtree in its place. -/
theorem WayDown.path {γ : Type} {holds : Nat → PNode γ → Prop}
    {tree : BTree} {disk : Disk} {top height page : Nat} {pages : List Nat}
    {flat : List γ} {crumbs : List CursorBreadcrumb}
    (way : WayDown tree disk top height page crumbs)
    (reads : ∀ page content, holds page content →
      ReadsAs tree disk page content)
    (whole : TreeAt holds top tree.rootPageId pages flat) :
    ∃ steps outside own before part behind,
      Path holds top tree.rootPageId height page steps outside before behind ∧
      TreeAt holds height page own part ∧
      flat = before ++ (part ++ behind) ∧ (outside ++ own).Perm pages := by
  induction way with
  | root =>
      refine ⟨[], [], pages, [], flat, [], .here, whole, ?_, List.Perm.refl _⟩
      rw [List.nil_append, List.append_nil]
  | @child height page index crumbs above bound inductionHypothesis =>
      obtain ⟨steps, outside, own, before, part, behind, path, subtree, flatEq,
        pagesEq⟩ := inductionHypothesis
      obtain ⟨seps, kids, here, _, _, children⟩ := path.step subtree
      obtain ⟨_, count, childReads⟩ := (reads page _ here).inner kids seps rfl
      rw [count] at bound
      obtain ⟨hole, holePages, holeFlat, holeOutside, front, back, kidHere,
        holeTree, holePath, partEq, permEq, _⟩ := children index bound
      have childEq : childPage tree disk page index = hole := by
        unfold childPage
        rw [childReads index _ kidHere]
      rw [childEq]
      refine ⟨_, _, _, _, _, _, holePath, holeTree, ?_, permEq.trans pagesEq⟩
      rw [flatEq, partEq]
      simp only [List.append_assoc]

/-- A way down leads to a subtree, which does not have the root in it unless it
is the whole tree. -/
theorem WayDown.subtree {γ : Type} {holds : Nat → PNode γ → Prop}
    {tree : BTree} {disk : Disk} {top height page : Nat} {pages : List Nat}
    {flat : List γ} {crumbs : List CursorBreadcrumb}
    (way : WayDown tree disk top height page crumbs)
    (reads : ∀ page content, holds page content →
      ReadsAs tree disk page content)
    (whole : TreeAt holds top tree.rootPageId pages flat)
    (distinct : pages.Nodup) :
    ∃ own part, TreeAt holds height page own part ∧ own.Nodup ∧
      (∀ some ∈ own, some ∈ pages) ∧
      (page = tree.rootPageId ∨ tree.rootPageId ∉ own) := by
  obtain ⟨steps, outside, own, before, part, behind, path, subtree, _,
    pagesEq⟩ := way.path reads whole
  have parts := List.nodup_append.mp (pagesEq.nodup_iff.mpr distinct)
  refine ⟨own, part, subtree, parts.2.1, ?_, ?_⟩
  · intro some member
    exact pagesEq.mem_iff.mp (List.mem_append_right _ member)
  · rcases path.root_above with isRoot | further
    · exact Or.inl isRoot
    · right
      intro member
      exact parts.2.2 _ further _ member rfl

/-- A cursor at the end of a way down. -/
structure PlacedBy (tree : BTree) (disk : Disk) (top : Nat) (cursor : Cursor)
    (page : Nat) (crumbs : List CursorBreadcrumb) : Prop where
  cursorEq : cursor = cursorAt
    (⟨cursor.currentKeyIndex, page⟩ :: (crumbs ++ [rootCrumb tree]))
  way : ∃ height, WayDown tree disk top height page crumbs
  room : crumbs.length + 2 ≤ maxBreadcrumbs

theorem cursorPush_ok {cursor next : Cursor}
    (pushEq : cursorPush cursor = .ok next) :
    cursor.breadcrumbs.length ≠ maxBreadcrumbs ∧
      next = { cursor with
        breadcrumbs := ⟨cursor.currentKeyIndex, cursor.currentPageId⟩ ::
          cursor.breadcrumbs } := by
  unfold cursorPush at pushEq
  split at pushEq
  · cases pushEq
  · rename_i room
    exact ⟨room, (Except.ok.inj pushEq).symm⟩

theorem traverse_placed {tree : BTree} {disk : Disk} {top : Nat}
    {searchKeys : BTreeNode → BtM (Bool × Nat)}
    (searches : SearchesKeys searchKeys)
    (whole : WellShaped tree disk top tree.rootPageId) :
    ∀ {fuel height page : Nat} {crumbs : List CursorBreadcrumb}
      {cursor result : Cursor} {found hit : Bool} {after : Disk},
      WayDown tree disk top height page crumbs →
      cursor.currentPageId = page →
      cursor.breadcrumbs = crumbs ++ [rootCrumb tree] →
      cursor.breadcrumbs.length ≤ maxBreadcrumbs →
      cursorTraverseLoop tree searchKeys fuel cursor found disk =
        (.ok (hit, result), after) →
      after = disk ∧
        ∃ last lower, PlacedBy tree disk top result last lower ∧
          ((loadedNode disk last).isLeaf = true ∨
            tree.type = .index ∧ hit = true) := by
  intro fuel
  induction fuel with
  | zero =>
      intro height page crumbs cursor result found hit after _ _ _ _ outcome
      cases outcome
  | succ fuel inductionHypothesis =>
      intro height page crumbs cursor result found hit after way atPage stack
        few outcome
      have shape := way.shape whole
      rw [cursorTraverseLoop, atPage,
        BtM.bind_ok (nodercReinitRead_onDisk shape.onDisk)] at outcome
      obtain ⟨⟨found', index⟩, searchDisk, searchEq, outcome⟩ :=
        BtM.bind_eq_ok outcome
      have sameDisk := searches.reads (loadedNode disk page) disk
      rw [searchEq] at sameDisk
      have bound := searches.index_le searchEq
      simp only at sameDisk outcome
      subst sameDisk
      obtain ⟨next, pushDisk, pushEq, outcome⟩ := BtM.bind_eq_ok outcome
      cases pushed : cursorPush
          ⟨page, initKeylistindexFromIndex (loadedNode searchDisk page) index,
            cursor.breadcrumbs⟩ with
      | error reason =>
          rw [pushed] at pushEq
          cases pushEq
      | ok pushedCursor =>
          rw [pushed] at pushEq
          obtain ⟨sameNext, samePush⟩ := Prod.mk.inj pushEq
          have nextEq := Except.ok.inj sameNext
          subst nextEq samePush
          obtain ⟨notFull, rfl⟩ := cursorPush_ok pushed
          simp only [stack] at outcome notFull
          rw [stack] at few
          simp only [List.length_append, List.length_singleton] at few notFull
          split at outcome
          · rename_i goesOn
            obtain ⟨inner, _⟩ := Bool.and_eq_true_iff.mp goesOn
            cases height with
            | zero =>
                rw [shape.2] at inner
                cases inner
            | succ height =>
                obtain ⟨readEq, _, childShape⟩ := shape.2.2 index bound
                rw [readEq, BtM.bind_ok (BtM.ofExcept_ok _ _)] at outcome
                refine inductionHypothesis (.child way bound) rfl ?_ ?_ outcome
                · rfl
                · simp only [List.length_cons, List.length_append,
                    List.length_nil]
                  omega
          · have pairEq := Prod.mk.inj outcome
            obtain ⟨hitEq, resultEq⟩ := Prod.mk.inj (Except.ok.inj pairEq.1)
            refine ⟨pairEq.2.symm, page, crumbs,
              ⟨?_, ⟨height, way⟩, by omega⟩, ?_⟩
            · rw [← resultEq]
              rfl
            · rename_i stops
              rw [← hitEq]
              cases leaf : (loadedNode searchDisk page).isLeaf with
              | true => exact Or.inl rfl
              | false =>
                  refine Or.inr ?_
                  rw [leaf] at stops
                  revert stops
                  cases tree.type <;> cases found || found' <;> simp

/-- The cursor of a fresh traversal. -/
theorem cursorTraverseToEx_placed {tree : BTree} {disk after : Disk}
    {top : Nat} {searchKeys : BTreeNode → BtM (Bool × Nat)}
    {found : Bool} {cursor : Cursor} (searches : SearchesKeys searchKeys)
    (whole : WellShaped tree disk top tree.rootPageId)
    (traversed : cursorTraverseToEx tree searchKeys (cursorCreate tree) disk =
      (.ok (found, cursor), after)) :
    after = disk ∧
      ∃ page crumbs, PlacedBy tree disk top cursor page crumbs := by
  have few : (cursorCreate tree).breadcrumbs.length ≤ maxBreadcrumbs :=
    (by decide : 1 ≤ maxBreadcrumbs)
  obtain ⟨sameDisk, page, crumbs, placed, _⟩ :=
    traverse_placed searches whole .root rfl rfl few traversed
  exact ⟨sameDisk, page, crumbs, placed⟩

end BtreeDb
