import BtreeDb.Tree.Check
import BtreeDb.Tree.Siblings

/-!
# Choosing the rebalance mode

What `bta_decide_rebalance_mode` should look at are the siblings of the
cursor's node under its parent.  It looks at those of the grandparent, and it
leaves the stack where the last look has moved it.  `choosesBySiblings_iff`
says when the choice and the stack come out right all the same.
-/

namespace BtreeDb

/-! ## The choice by the node's own siblings -/

/-- The mode that the numbers of keys of the two siblings ask for. -/
def modeFor (limit : Nat) (left right : Option Nat) : Option RebalanceMode :=
  if right.any fun keys => limit < keys then some .rotateLeft
  else if left.any fun keys => limit < keys then some .rotateRight
  else if left.isSome then some .mergeLeft
  else if right.isSome then some .mergeRight
  else none

/-- The numbers of keys of the pages beside the child at a crumb. -/
def leftSiblingKeys (tree : BTree) (disk : Disk) (parent : CursorBreadcrumb) :
    Option Nat :=
  if parent.keyIndex.index = 0 then none
  else some (keysOn disk
    (childPage tree disk parent.pageId (parent.keyIndex.index - 1)))

def rightSiblingKeys (tree : BTree) (disk : Disk)
    (parent : CursorBreadcrumb) : Option Nat :=
  if parent.keyIndex.index < keysOn disk parent.pageId then
    some (keysOn disk
      (childPage tree disk parent.pageId (parent.keyIndex.index + 1)))
  else none

def wantedMode (tree : BTree) (disk : Disk) (parent : CursorBreadcrumb) :
    Option RebalanceMode :=
  modeFor tree.underflow (leftSiblingKeys tree disk parent)
    (rightSiblingKeys tree disk parent)

/-- The call picks the mode that the node's siblings ask for and leaves the
cursor as it was. -/
def ChoosesBySiblings (tree : BTree) (disk : Disk) (cursor : Cursor) : Prop :=
  ∃ status mode parent, cursor.breadcrumbs[1]? = some parent ∧
    btaDecideRebalanceMode tree cursor disk =
      (.ok (.ok (status, some mode), cursor), disk) ∧
    wantedMode tree disk parent = some mode

/-- What a node of so many keys on the left makes the code choose. -/
def leftMode (tree : BTree) (keys : Nat) : RebalanceMode :=
  if tree.underflow < keys then .rotateRight else .mergeLeft

/-- The node has a great-grandparent; its grandparent has a right sibling,
with too few keys to take one from; its parent is the first child there, so
that going right and back left ends on the crumbs it started from; and the
wanted mode is the one that the grandparent's keys ask for. -/
def TurnsBack (tree : BTree) (disk : Disk) (cursor : Cursor) : Prop :=
  match cursor.breadcrumbs with
  | _ :: parent :: grand :: great :: _ :: _ =>
      great.keyIndex.mode = .limIndex ∧
      keysOn disk (childPage tree disk great.pageId
        (great.keyIndex.index + 1)) ≤ tree.underflow ∧
      grand.keyIndex = ⟨.limIndex, 0⟩ ∧
      wantedMode tree disk parent =
        some (leftMode tree (keysOn disk grand.pageId))
  | _ => False

/-! ## The outcomes of the two checks -/

section Outcomes

variable {tree : BTree} {disk : Disk} {cursor middle later : Cursor}

theorem btaDecideRebalanceMode_of_right
    (right : btaCheckSibling tree .right cursor disk =
      (.ok (.ok (), later), disk)) :
    btaDecideRebalanceMode tree cursor disk =
      (.ok (.ok (.ok (), some .rotateLeft), later), disk) := by
  unfold btaDecideRebalanceMode
  rw [CursorM.bind_ok (CursorM.attempt_of right)]
  rfl

theorem btaDecideRebalanceMode_of_code {code : BTreeE}
    (right : btaCheckSibling tree .right cursor disk =
      (.ok (.error code, later), disk))
    (ends : noUsableSibling code = false) :
    btaDecideRebalanceMode tree cursor disk =
      (.ok (.ok (.error code, none), later), disk) := by
  unfold btaDecideRebalanceMode
  rw [CursorM.bind_ok (CursorM.attempt_of right)]
  simp only [ends, Bool.not_false, if_true]
  rfl

theorem btaDecideRebalanceMode_of_left {code : BTreeE} {page : Nat}
    (right : btaCheckSibling tree .right cursor disk =
      (.ok (.error code, middle), disk))
    (goesOn : noUsableSibling code = true)
    (left : btaCheckSibling tree .left middle disk =
      (.ok (checkResult tree disk page, later), disk)) :
    btaDecideRebalanceMode tree cursor disk =
      (.ok (.ok (checkResult tree disk page,
        some (leftMode tree (keysOn disk page))), later), disk) := by
  unfold btaDecideRebalanceMode
  rw [CursorM.bind_ok (CursorM.attempt_of right)]
  simp only [goesOn, Bool.not_true, Bool.false_eq_true, if_false]
  rw [CursorM.bind_ok (CursorM.attempt_of left)]
  unfold checkResult leftMode
  by_cases few : keysOn disk page ≤ tree.underflow
  · rw [if_pos few, if_neg (Nat.not_lt.mpr few)]
    rfl
  · rw [if_neg few, if_pos (Nat.lt_of_not_le few)]
    rfl

theorem btaDecideRebalanceMode_neither
    (right : btaCheckSibling tree .right cursor disk =
      (.ok (.error .errCursorNoSibling, middle), disk))
    (left : btaCheckSibling tree .left middle disk =
      (.ok (.error .errCursorNoSibling, later), disk)) :
    btaDecideRebalanceMode tree cursor disk = (.error .assertFailed, disk) := by
  unfold btaDecideRebalanceMode
  rw [CursorM.bind_ok (CursorM.attempt_of right)]
  have goesOn : noUsableSibling .errCursorNoSibling = true := rfl
  simp only [goesOn, Bool.not_true, Bool.false_eq_true, if_false]
  rw [CursorM.bind_ok (CursorM.attempt_of left)]
  rfl

end Outcomes

/-! ## A grandparent under a crumb -/

section Grandparent

variable {tree : BTree} {disk : Disk} {height : Nat}
variable {own above grand great : CursorBreadcrumb}
variable {rest : List CursorBreadcrumb}

/-- Looking left from the slot to the right of a crumb. -/
theorem btaCheckSibling_back (own above child : CursorBreadcrumb)
    {page : Nat} (index : Nat) (mode : KeyListIndexMode)
    (room : rest.length + 4 ≤ maxBreadcrumbs)
    (shape : WellShaped tree disk (height + 1) page) :
    btaCheckSibling tree .left
        (cursorAt (own :: above :: child :: ⟨⟨mode, index + 1⟩, page⟩ :: rest))
        disk =
      (.ok (checkResult tree disk (childPage tree disk page index),
        cursorAt (own :: above ::
          ⟨⟨.limIndex, 0⟩, childPage tree disk page index⟩ ::
            ⟨⟨.limIndex, index⟩, page⟩ :: rest)), disk) := by
  have leftSlot : siblingIndex .left (loadedNode disk page)
      ⟨mode, index + 1⟩ = some ⟨.limIndex, index⟩ := rfl
  have back := shape.child index
  have moved := btaCheckSibling_some own above child
    ⟨⟨mode, index + 1⟩, page⟩ room shape.onDisk leftSlot back.1 back.2.2.onDisk
  exact moved

/-- The grandparent is not the last child: the code looks at its right sibling
and, when that has too few keys, back at itself. -/
theorem decide_inside (room : rest.length + 4 ≤ maxBreadcrumbs)
    (shape : WellShaped tree disk (height + 1) great.pageId)
    (atIndex : great.keyIndex.mode = .limIndex) :
    ∃ status mode stack,
      btaDecideRebalanceMode tree
          (cursorAt (own :: above :: grand :: great :: rest)) disk =
        (.ok (.ok (status, some mode), cursorAt (own :: above :: stack)),
          disk) ∧
      (stack = grand :: great :: rest ↔
        keysOn disk (childPage tree disk great.pageId
          (great.keyIndex.index + 1)) ≤ tree.underflow ∧
        grand = ⟨⟨.limIndex, 0⟩,
          childPage tree disk great.pageId great.keyIndex.index⟩) ∧
      (stack = grand :: great :: rest →
        mode = leftMode tree (keysOn disk grand.pageId)) := by
  obtain ⟨slotMode, rightSlot⟩ :=
    siblingIndex_right atIndex shape.rightChild_ne
  have rightChild := shape.child (great.keyIndex.index + 1)
  have right := btaCheckSibling_some own above grand great room shape.onDisk
    rightSlot rightChild.1 rightChild.2.2.onDisk
  by_cases few : keysOn disk (childPage tree disk great.pageId
      (great.keyIndex.index + 1)) ≤ tree.underflow
  · have rightFew : checkResult tree disk (childPage tree disk great.pageId
        (great.keyIndex.index + 1)) = .error .errNodeNotEnoughSpace :=
      if_pos few
    rw [rightFew] at right
    have left := btaCheckSibling_back own above
      ⟨⟨.limIndex, 0⟩, childPage tree disk great.pageId
        (great.keyIndex.index + 1)⟩ great.keyIndex.index slotMode room shape
    have greatEq : great =
        ⟨⟨.limIndex, great.keyIndex.index⟩, great.pageId⟩ := by
      rw [← atIndex]
    refine ⟨_, _, _, btaDecideRebalanceMode_of_left right rfl left, ?_, ?_⟩
    · constructor
      · intro same
        exact ⟨few, (List.cons.inj same).1.symm⟩
      · rintro ⟨_, grandEq⟩
        rw [grandEq]
        exact congrArg (fun crumb => _ :: crumb :: rest) greatEq.symm
    · intro same
      rw [← (List.cons.inj same).1]
  · have rightOk : checkResult tree disk (childPage tree disk great.pageId
        (great.keyIndex.index + 1)) = .ok () := if_neg few
    rw [rightOk] at right
    have moved : besideStack tree disk great
        ⟨slotMode, great.keyIndex.index + 1⟩ rest ≠ grand :: great :: rest := by
      intro same
      unfold besideStack at same
      have second := (List.cons.inj (List.cons.inj same).2).1
      have indexEq := congrArg
        (fun crumb => crumb.keyIndex.index) second
      simp only at indexEq
      omega
    refine ⟨_, _, _, btaDecideRebalanceMode_of_right right, ?_, ?_⟩
    · constructor
      · intro same
        exact absurd same moved
      · rintro ⟨fits, _⟩
        exact absurd fits few
    · intro same
      exact absurd same moved

/-- The grandparent is the last child: the code looks at its left sibling, if
there is one, and stays there. -/
theorem decide_last (room : rest.length + 4 ≤ maxBreadcrumbs)
    (shape : WellShaped tree disk (height + 1) great.pageId)
    (notIndex : great.keyIndex.mode ≠ .limIndex) :
    (∃ status mode stack,
      btaDecideRebalanceMode tree
          (cursorAt (own :: above :: grand :: great :: rest)) disk =
        (.ok (.ok (status, some mode), cursorAt (own :: above :: stack)),
          disk) ∧
      stack ≠ grand :: great :: rest) ∨
    btaDecideRebalanceMode tree
        (cursorAt (own :: above :: grand :: great :: rest)) disk =
      (.error .assertFailed, disk) := by
  have noRight : siblingIndex .right (loadedNode disk great.pageId)
      great.keyIndex = none := by
    unfold siblingIndex
    exact if_pos (Or.inr notIndex)
  have right : btaCheckSibling tree .right _ disk = _ :=
    btaCheckSibling_none own above grand great room shape.onDisk noRight
  by_cases first : great.keyIndex.index = 0
  · have noLeft : siblingIndex .left (loadedNode disk great.pageId)
        great.keyIndex = none := if_pos first
    exact Or.inr (btaDecideRebalanceMode_neither right
      (btaCheckSibling_none own above grand great room shape.onDisk noLeft))
  · have leftSlot : siblingIndex .left (loadedNode disk great.pageId)
        great.keyIndex = some ⟨.limIndex, great.keyIndex.index - 1⟩ :=
      if_neg first
    have leftChild := shape.child (great.keyIndex.index - 1)
    have left := btaCheckSibling_some own above grand great room shape.onDisk
      leftSlot leftChild.1 leftChild.2.2.onDisk
    refine Or.inl ⟨_, _, _, btaDecideRebalanceMode_of_left right rfl left, ?_⟩
    intro same
    unfold besideStack at same
    have second := (List.cons.inj (List.cons.inj same).2).1
    have modeEq := congrArg (fun crumb => crumb.keyIndex.mode) second
    exact notIndex modeEq.symm

end Grandparent

/-! ## Every node of every tree -/

/-- A valid tree of either kind. -/
inductive ValidTree (tree : BTree) (disk : Disk) (height : Nat) : Prop
  | table {free pages : List Nat} {flat : List Mark}
      (isTable : tree.type = .table)
      (valid : TableTree disk free tree.rootPageId height pages flat)
  | index {before : IndexRecord → IndexRecord → Prop} {free pages : List Nat}
      {flat : List IndexRecord} (isIndex : tree.type = .index)
      (valid : IndexTree before disk free tree.rootPageId height pages flat)

theorem ValidTree.wellShaped {tree : BTree} {disk : Disk} {height : Nat}
    (valid : ValidTree tree disk height) :
    WellShaped tree disk height tree.rootPageId := by
  cases valid with
  | table isTable valid => exact valid.wellShaped isTable
  | index isIndex valid => exact valid.wellShaped isIndex

section Crumbs

variable {tree : BTree} {disk : Disk} {height : Nat}
variable {own parent grand great below : CursorBreadcrumb}
variable {rest : List CursorBreadcrumb}

theorem not_choosesBySiblings_of_moved {status : Except BTreeE Unit}
    {mode : Option RebalanceMode} {stack : List CursorBreadcrumb}
    (decided : btaDecideRebalanceMode tree
        (cursorAt (own :: parent :: rest)) disk =
      (.ok (.ok (status, mode), cursorAt (own :: parent :: stack)), disk))
    (moved : stack ≠ rest) :
    ¬ ChoosesBySiblings tree disk (cursorAt (own :: parent :: rest)) := by
  rintro ⟨status', mode', parent', _, decided', _⟩
  rw [decided] at decided'
  have sameCursor :=
    (Prod.mk.inj (Except.ok.inj (Prod.mk.inj decided').1)).2
  have sameStack := congrArg Cursor.breadcrumbs sameCursor
  rw [cursorAt_breadcrumbs, cursorAt_breadcrumbs] at sameStack
  exact moved (List.cons.inj (List.cons.inj sameStack).2).2

theorem not_choosesBySiblings_of_root {lowest : CursorBreadcrumb} :
    ¬ ChoosesBySiblings tree disk (cursorAt [own, parent, lowest]) := by
  rintro ⟨status, mode, parent', _, decided, _⟩
  rw [btaDecideRebalanceMode_of_code
    (btaCheckSibling_noParent own parent) rfl] at decided
  have modes := (Prod.mk.inj (Except.ok.inj
    (Prod.mk.inj (Except.ok.inj (Prod.mk.inj decided).1)).1)).2
  cases modes

theorem choosesBySiblings_iff_of_great
    (room : rest.length + 5 ≤ maxBreadcrumbs)
    (shape : WellShaped tree disk (height + 1) great.pageId)
    (grandPage : grand.pageId =
      childPage tree disk great.pageId great.keyIndex.index) :
    ChoosesBySiblings tree disk
        (cursorAt (own :: parent :: grand :: great :: below :: rest)) ↔
      TurnsBack tree disk
        (cursorAt (own :: parent :: grand :: great :: below :: rest)) := by
  have enough : (below :: rest).length + 4 ≤ maxBreadcrumbs := by
    rw [List.length_cons]
    omega
  by_cases atIndex : great.keyIndex.mode = .limIndex
  · obtain ⟨status, mode, stack, decided, stackIff, modeEq⟩ :=
      @decide_inside tree disk height own parent grand great _ enough shape
        atIndex
    have grandIff : grand = ⟨⟨.limIndex, 0⟩,
        childPage tree disk great.pageId great.keyIndex.index⟩ ↔
        grand.keyIndex = ⟨.limIndex, 0⟩ := by
      rw [← grandPage]
      constructor
      · intro same
        rw [same]
      · intro same
        rw [← same]
    rw [grandIff] at stackIff
    constructor
    · intro chooses
      have same : stack = grand :: great :: below :: rest := by
        by_contra moved
        exact not_choosesBySiblings_of_moved decided moved chooses
      obtain ⟨status', mode', parent', isParent, decided', wanted⟩ := chooses
      have parentEq : parent = parent' := Option.some.inj isParent
      rw [decided] at decided'
      have modes := (Prod.mk.inj (Except.ok.inj
        (Prod.mk.inj (Except.ok.inj (Prod.mk.inj decided').1)).1)).2
      obtain ⟨few, first⟩ := stackIff.mp same
      refine ⟨atIndex, few, first, ?_⟩
      rw [parentEq, wanted, ← modes, modeEq same]
    · rintro ⟨_, few, first, wanted⟩
      have same := stackIff.mpr ⟨few, first⟩
      refine ⟨status, mode, parent, rfl, ?_, ?_⟩
      · rw [decided, same]
      · rw [wanted, modeEq same]
  · refine iff_of_false ?_ fun turns => atIndex turns.1
    rcases @decide_last tree disk height own parent grand great _ enough shape
      atIndex with ⟨status, mode, stack, decided, moved⟩ | failed
    · exact not_choosesBySiblings_of_moved decided moved
    · rintro ⟨status, mode, parent', _, decided, _⟩
      rw [failed] at decided
      cases decided

/-- Below the root's children the code looks at the root's first two
children. -/
theorem not_choosesBySiblings_of_depth_two
    (shape : WellShaped tree disk (height + 1) tree.rootPageId)
    (grandPage : grand.pageId = tree.rootPageId) :
    ¬ ChoosesBySiblings tree disk
      (cursorAt [own, parent, grand, rootCrumb tree]) := by
  obtain ⟨status, mode, stack, decided, stackIff, _⟩ :=
    @decide_inside tree disk height own parent grand (rootCrumb tree) []
      (by decide) shape rfl
  refine not_choosesBySiblings_of_moved decided ?_
  intro same
  obtain ⟨_, grandEq⟩ := stackIff.mp same
  rw [grandEq] at grandPage
  exact (shape.child _).2.1 grandPage

end Crumbs

/-- Wherever a traversal puts a cursor below the root: the mode is chosen by
the siblings of the node and the cursor kept exactly when the code's look at
the grandparent turns back and agrees. -/
theorem choosesBySiblings_iff {tree : BTree} {disk after : Disk}
    {height : Nat} {found : Bool} {cursor : Cursor}
    (compareCell : Disk → BTreeNode → Nat → Except Stop Int)
    (valid : ValidTree tree disk height)
    (placed : cursorTraverseToEx tree (nodeSearchKeys compareCell)
      (cursorCreate tree) disk = (.ok (found, cursor), after))
    (notRoot : cursor.currentPageId ≠ tree.rootPageId) :
    ChoosesBySiblings tree disk cursor ↔ TurnsBack tree disk cursor := by
  have whole := valid.wellShaped
  obtain ⟨_, page, crumbs, position⟩ := cursorTraverseToEx_placed
    (searchesKeys_nodeSearchKeys compareCell) whole placed
  obtain ⟨depth, way⟩ := position.way
  have room := position.room
  rw [position.cursorEq] at notRoot ⊢
  cases way with
  | root => exact absurd rfl notRoot
  | @child _ parentPage _ lower aboveParent parentBound =>
      cases aboveParent with
      | root =>
          refine iff_of_false not_choosesBySiblings_of_root ?_
          exact fun turns => turns
      | @child _ grandPage _ lower aboveGrand grandBound =>
          have grandShape := aboveGrand.shape whole
          cases aboveGrand with
          | root =>
              refine iff_of_false
                (not_choosesBySiblings_of_depth_two whole rfl) ?_
              exact fun turns => turns
          | @child _ greatPage greatIndex lower aboveGreat greatBound =>
              have greatShape := aboveGreat.shape whole
              have indexEq := initKeylistindexFromIndex_index greatBound
              simp only [List.cons_append, List.length_cons] at room ⊢
              cases below : lower ++ [rootCrumb tree] with
              | nil => simp at below
              | cons lowest rest =>
                  have lengths := congrArg List.length below
                  simp only [List.length_append, List.length_cons,
                    List.length_nil] at lengths
                  refine choosesBySiblings_iff_of_great (by omega) greatShape ?_
                  simp only
                  rw [indexEq]

/-! ## Two trees -/

/-- The comparison of a table tree, which looks at the keys. -/
def btreeCompareCell (key : Nat) (_ : Disk) (node : BTreeNode) (index : Nat) :
    Except Stop Int :=
  .ok (if (node.keyAt index).key < key then -1
    else if (node.keyAt index).key = key then 0
    else 1)

/-- The records `0 .. 7`, each in a leaf of its own, at depth three. -/
def deepDisk : Disk :=
  diskOfNodes 216
    [(false, 3, [(3, Bytes.le32 2)]),
      (false, 5, [(1, Bytes.le32 4)]), (false, 7, [(5, Bytes.le32 6)]),
      (false, 9, [(0, Bytes.le32 8)]), (false, 11, [(2, Bytes.le32 10)]),
      (false, 13, [(4, Bytes.le32 12)]), (false, 15, [(6, Bytes.le32 14)]),
      (true, 0, [(0, [10])]), (true, 0, [(1, [11])]), (true, 0, [(2, [12])]),
      (true, 0, [(3, [13])]), (true, 0, [(4, [14])]), (true, 0, [(5, [15])]),
      (true, 0, [(6, [16])]), (true, 0, [(7, [17])])]

def deepTree : BTree := ⟨1, .table, 1⟩

/-- The cursor on record 1, on page 9. -/
def deepCursor : Cursor :=
  cursorAt [⟨⟨.limIndex, 0⟩, 9⟩, ⟨⟨.rightChild, 1⟩, 4⟩, ⟨⟨.limIndex, 0⟩, 2⟩,
    ⟨⟨.limIndex, 0⟩, 1⟩, ⟨⟨.limIndex, 0⟩, 1⟩]

theorem deepDisk_checked : (checkTable deepDisk [] 1 3).isSome = true := by
  decide +kernel

theorem deepTree_valid : ValidTree deepTree deepDisk 3 := by
  obtain ⟨⟨pages, flat⟩, checkEq⟩ := Option.isSome_iff_exists.mp deepDisk_checked
  exact .table rfl (checkTable_sound checkEq)

/-- A leaf where the look at the grandparent turns back and agrees. -/
theorem deepCursor_choosesBySiblings :
    ChoosesBySiblings deepTree deepDisk deepCursor := by
  have placed : cursorTraverseToEx deepTree
      (nodeSearchKeys (btreeCompareCell 1)) (cursorCreate deepTree) deepDisk =
      (.ok (true, deepCursor), deepDisk) := by
    decide +kernel
  refine (choosesBySiblings_iff (btreeCompareCell 1) deepTree_valid placed
    (by decide)).mpr ?_
  exact ⟨rfl, by decide +kernel, rfl, by decide +kernel⟩

/-- A root with two leaves. -/
def twoLeaves : Disk :=
  diskOfNodes 216
    [(false, 3, [(0, Bytes.le32 2)]), (true, 0, [(0, [10])]),
      (true, 0, [(1, [11])])]

/-- For a child of the root the code finds no parent and picks no mode. -/
theorem root_child_gets_no_mode :
    ∃ cursor, ValidTree deepTree twoLeaves 1 ∧
      cursorTraverseToEx deepTree (nodeSearchKeys (btreeCompareCell 1))
        (cursorCreate deepTree) twoLeaves = (.ok (true, cursor), twoLeaves) ∧
      cursor.currentPageId ≠ deepTree.rootPageId ∧
      ¬ ChoosesBySiblings deepTree twoLeaves cursor := by
  refine ⟨cursorAt [⟨⟨.limIndex, 0⟩, 3⟩, ⟨⟨.rightChild, 1⟩, 1⟩,
    ⟨⟨.limIndex, 0⟩, 1⟩], ?_, by decide +kernel, by decide,
    not_choosesBySiblings_of_root⟩
  have checked : (checkTable twoLeaves [] 1 1).isSome = true := by
    decide +kernel
  obtain ⟨⟨pages, flat⟩, checkEq⟩ := Option.isSome_iff_exists.mp checked
  exact .table rfl (checkTable_sound checkEq)

end BtreeDb
