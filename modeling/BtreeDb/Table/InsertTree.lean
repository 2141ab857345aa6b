import BtreeDb.Table.Growing

/-!
# The tree after a split

A leaf that is split leaves a separator and one more child to its parent.  The
parent takes them in, or it is the root and becomes the parent of its own two
halves; a leaf that is the root itself becomes the parent of its halves.
-/

namespace BtreeDb

open PagedTree

/-! ## The marks -/

section Marks

variable {before behind front back : List Mark} {sep : Mark}

/-- A mark between two parts of an ordered list. -/
theorem ordered_between (ordered : (front ++ back).Pairwise Before)
    (low : ∀ mark ∈ front, Before mark sep)
    (high : ∀ mark ∈ back, Before sep mark) :
    (front ++ sep :: back).Pairwise Before := by
  obtain ⟨frontOrdered, backOrdered, across⟩ := List.pairwise_append.mp ordered
  refine List.pairwise_append.mpr
    ⟨frontOrdered, List.pairwise_cons.mpr ⟨high, backOrdered⟩, ?_⟩
  intro mark inFront other later
  rcases List.mem_cons.mp later with rfl | inBack
  · exact low mark inFront
  · exact across mark inFront other inBack

end Marks

section Divided

variable {disk after : Disk} {free rest new chain : List Nat}
variable {leaf left right : BTreeNode} {key : Nat} {payload : List UInt8}
variable {entry : Entry} {before behind : List Mark}

/-- The marks of a tree in which a leaf has been divided. -/
def dividedMarks (before behind : List Mark) (left right : BTreeNode)
    (high : Nat) : List Mark :=
  (before ++ left.entries.map .record) ++
    .separator high :: (right.entries.map .record ++ behind)

variable
  (divided : Divided disk free leaf key payload after rest left right entry new
    chain) (isLeaf : leaf.isLeaf = true)

include divided isLeaf

theorem Divided.leftPart_leaf :
    leftPart left (splitKey leaf) = left.entries := by
  unfold leftPart
  rw [divided.leftIsLeaf, isLeaf]
  rfl

theorem Divided.entriesOf_eq :
    entriesOf (dividedMarks before behind left right (splitKey leaf)) =
      entriesOf before ++ (leaf.entries.insertIdx
        (keyPlace leaf.entries key) entry ++ entriesOf behind) := by
  rw [← divided.entriesEq, divided.leftPart_leaf isLeaf]
  unfold dividedMarks
  simp only [entriesOf_append, entriesOf_separator, entriesOf_records,
    List.append_assoc]

theorem Divided.ordered
    (ordered : (before ++ ((leaf.entries.insertIdx (keyPlace leaf.entries key)
      entry).map Mark.record ++ behind)).Pairwise Before) :
    (dividedMarks before behind left right (splitKey leaf)).Pairwise
      Before := by
  rw [← divided.entriesEq, divided.leftPart_leaf isLeaf, List.map_append,
    List.append_assoc, ← List.append_assoc] at ordered
  have low := divided.low
  obtain ⟨pivot, inLeft, pivotKey⟩ := divided.pivot
  rw [divided.leftPart_leaf isLeaf] at low inLeft
  obtain ⟨first, inRight⟩ := divided.rightSome
  have above := divided.high first inRight
  have ends := List.pairwise_append.mp ordered
  have frontOrdered := (List.pairwise_append.mp ends.1).2.2
  have backOrdered := (List.pairwise_append.mp ends.2.1).2.2
  refine ordered_between ordered ?_ ?_
  · intro mark member
    rcases List.mem_append.mp member with outer | inner
    · have less := frontOrdered mark outer (.record pivot)
        (List.mem_map_of_mem inLeft)
      change mark.rank < 2 * pivot.key at less
      change mark.rank < 2 * splitKey leaf + 1
      omega
    · obtain ⟨other, inside, rfl⟩ := List.mem_map.mp inner
      have atMost := low other inside
      change 2 * other.key < 2 * splitKey leaf + 1
      omega
  · intro mark member
    rcases List.mem_append.mp member with inner | outer
    · obtain ⟨other, inside, rfl⟩ := List.mem_map.mp inner
      have more := divided.high other inside
      change 2 * splitKey leaf + 1 < 2 * other.key
      omega
    · have less := backOrdered (.record first) (List.mem_map_of_mem inRight)
        mark outer
      change 2 * first.key < mark.rank at less
      change 2 * splitKey leaf + 1 < mark.rank
      omega

theorem Divided.left_holds :
    TableHolds after left.pageNumber (leafOf left.entries) :=
  leaf_holds divided.leftHolds rfl (divided.leftIsLeaf.trans isLeaf)
    divided.leftSmall

theorem Divided.right_holds :
    TableHolds after right.pageNumber (leafOf right.entries) :=
  leaf_holds divided.rightHolds rfl (divided.rightIsLeaf.trans isLeaf)
    divided.rightSmall

end Divided

/-! ## Inner nodes -/

section Inner

variable {disk after : Disk} {free rest new chain : List Nat}
variable {node left right : BTreeNode} {slots : List Slot} {slot : Slot}
variable {key : Nat} {payload : List UInt8}

theorem innerOf_insert {index rightChild : Nat} (inside : index ≤ slots.length) :
    innerOf (slots.insertIdx index slot) rightChild =
      (innerOf slots rightChild).insert slot.child (.separator slot.key)
        index := by
  unfold innerOf PNode.insert kidsOf sepsOf
  rw [List.map_insertIdx, List.map_insertIdx]
  dsimp only
  rw [insertIdx_append_below (by rw [List.length_map]; exact inside)]

theorem HasSlots.insertIdx (has : HasSlots node slots) {index : Nat}
    (inside : index ≤ slots.length) (child : slot.child < 2 ^ 32) :
    node.entries.insertIdx index slot.entry =
        (slots.insertIdx index slot).map Slot.entry ∧
      ∀ other ∈ slots.insertIdx index slot, other.child < 2 ^ 32 := by
  refine ⟨?_, ?_⟩
  · rw [has.entriesEq, List.map_insertIdx]
  · intro other member
    rcases (List.mem_insertIdx inside).mp member with rfl | old
    · exact child
    · exact has.children other old

/-- An inner node and a slot for it are dealt to two inner nodes and the
separator between them. -/
theorem Divided.cuts
    (divided : Divided disk free node key payload after rest left right
      slot.entry new chain) (has : HasSlots node slots)
    (child : slot.child < 2 ^ 32) :
    ∃ leftSlots rightSlots,
      HasSlots left leftSlots ∧ HasSlots right rightSlots ∧
      Cuts ((innerOf slots node.rightChild).insert slot.child
          (.separator slot.key) (keyPlace node.entries key))
        (.separator (splitKey node)) (innerOf leftSlots left.rightChild)
        (innerOf rightSlots right.rightChild) := by
  have inside : keyPlace node.entries key ≤ slots.length := by
    have bound := keyPlace_le node.entries key
    rw [has.entriesEq, List.length_map] at bound
    rw [has.entriesEq]
    exact bound
  obtain ⟨insertEq, fits⟩ := has.insertIdx inside child
  have leftInner : left.isLeaf = false := divided.leftIsLeaf.trans has.isInner
  have dealt := divided.entriesEq
  unfold leftPart at dealt
  rw [leftInner, insertEq] at dealt
  simp only [Bool.false_eq_true, if_false, List.append_assoc,
    List.singleton_append] at dealt
  obtain ⟨leftSlots, later, slotsEq, leftEq, laterEq⟩ :=
    List.map_eq_append_iff.mp dealt.symm
  obtain ⟨middle, rightSlots, rfl, middleEq, rightEq⟩ :=
    List.map_eq_cons_iff.mp laterEq
  rw [slotsEq] at fits
  have middleSlot : middle = ⟨left.rightChild, splitKey node⟩ := by
    have same := @slots_unique [middle] [⟨left.rightChild, splitKey node⟩]
      (by
        intro other member
        rw [List.mem_singleton.mp member]
        exact fits middle (by simp))
      (by
        intro other member
        rw [List.mem_singleton.mp member]
        exact divided.leftHolds.encodable.rightChild_lt)
      (congrArg (fun entry => [entry]) middleEq)
    exact (List.cons.inj same).1
  subst middleSlot
  refine ⟨leftSlots, rightSlots, ⟨leftInner, leftEq.symm, ?_⟩,
    ⟨divided.rightIsLeaf.trans has.isInner, rightEq.symm, ?_⟩, ?_⟩
  · exact fun other member => fits other (List.mem_append_left _ member)
  · exact fun other member => fits other
      (List.mem_append_right _ (List.mem_cons_of_mem _ member))
  · rw [← innerOf_insert inside, slotsEq, ← divided.rightChild has.isInner]
    unfold innerOf kidsOf sepsOf
    rw [List.map_append, List.map_append, List.map_cons, List.map_cons,
      List.append_assoc, List.cons_append]
    have cut := Cuts.inner (leftSlots.map Slot.child ++ [left.rightChild])
      (rightSlots.map Slot.child ++ [right.rightChild])
      (leftSlots.map fun slot => Mark.separator slot.key)
      (.separator (splitKey node))
      (rightSlots.map fun slot => Mark.separator slot.key)
      (by rw [List.length_append, List.length_map, List.length_map]; rfl)
    rw [List.append_assoc, List.singleton_append] at cut
    exact cut

end Inner

/-! ## The tree above -/

section Above

variable {disk : Disk} {height root kid index high : Nat}
variable {content : PNode Mark} {own grown : List Nat}
variable {items early late : List Mark} {parent : BTreeNode}

theorem pair_tree {left right : PagedTree.Part Mark}
    (holds : Holds disk parent) (here : parent.pageNumber = root)
    (hasSlots : HasSlots parent [⟨left.kid, high⟩])
    (rightChild : parent.rightChild = right.kid)
    (leftTree : TreeAt (TableHolds disk) height left.kid left.pages left.flat)
    (rightTree : TreeAt (TableHolds disk) height right.kid right.pages
      right.flat) :
    TreeAt (TableHolds disk) (height + 1) root
      (root :: (left.pages ++ right.pages))
      (left.flat ++ .separator high :: right.flat) := by
  have content := hasSlots.holds holds here
  rw [rightChild] at content
  exact (Under.pair leftTree rightTree).tree content (List.Perm.refl _)

variable (intake : Intake (TableHolds disk) height content kid index own grown
  items early late)

include intake

/-- A node that has taken a separator and its child in. -/
theorem intake_tree {page : Nat}
    (here : TableHolds disk page
      (content.insert kid (.separator high) index)) :
    TreeAt (TableHolds disk) height page (page :: grown)
      (early ++ .separator high :: late) :=
  (intake.filled _).tree here (List.Perm.refl _)

/-- A root that has become the parent of its halves, one of which has taken a
separator and its child in. -/
theorem intake_pair {pivot leftPage rightPage : Nat}
    {leftContent rightContent : PNode Mark}
    (cuts : Cuts (content.insert kid (.separator high) index)
      (.separator pivot) leftContent rightContent)
    (leftHere : TableHolds disk leftPage leftContent)
    (rightHere : TableHolds disk rightPage rightContent)
    (holds : Holds disk parent) (here : parent.pageNumber = root)
    (hasSlots : HasSlots parent [⟨leftPage, pivot⟩])
    (rightChild : parent.rightChild = rightPage) :
    TreeAt (TableHolds disk) (height + 1) root
      ([root, leftPage, rightPage] ++ grown)
      (early ++ .separator high :: late) := by
  obtain ⟨front, back, first, second, leftUnder, rightUnder, pagesEq, flatEq⟩ :=
    (intake.filled (.separator high)).cut cuts
  have whole := @pair_tree disk height root pivot parent
    ⟨leftPage, leftPage :: front, first⟩ ⟨rightPage, rightPage :: back, second⟩
    holds here hasSlots rightChild
    (leftUnder.tree leftHere (List.Perm.refl _))
    (rightUnder.tree rightHere (List.Perm.refl _))
  rw [flatEq]
  refine whole.perm ?_
  refine List.Perm.cons root (List.Perm.cons leftPage ?_)
  exact ((pagesEq.cons rightPage).trans List.perm_middle.symm)

end Above

/-! ## The children of the parent -/

section Hung

variable {disk after : Disk} {front : List (PagedTree.Part Mark × Mark)}
variable {back : List (Mark × PagedTree.Part Mark)} {left right : BTreeNode}

/-- Above the two leaves that a leaf has been divided into. -/
theorem hung_intake
    (frontTrees : ∀ entry ∈ front, TreeAt (TableHolds disk) 0 entry.1.kid
      entry.1.pages entry.1.flat)
    (backTrees : ∀ entry ∈ back, TreeAt (TableHolds disk) 0 entry.2.kid
      entry.2.pages entry.2.flat)
    (kept : ∀ page ∈ leftPages front ++ rightPages back,
      after.buffer? page = disk.buffer? page)
    (leftHere : TableHolds after left.pageNumber (leafOf left.entries))
    (rightHere : TableHolds after right.pageNumber (leafOf right.entries)) :
    Intake (TableHolds after) 1
      (.inner (leftKids front ++ right.pageNumber :: rightKids back)
        (front.map Prod.snd ++ back.map Prod.fst))
      left.pageNumber front.length
      (leftPages front ++ ([right.pageNumber] ++ rightPages back))
      (leftPages front ++
        ([left.pageNumber] ++ ([right.pageNumber] ++ rightPages back)))
      (leftFlat front ++ (right.entries.map .record ++ rightFlat back))
      (leftFlat front ++ left.entries.map .record)
      (right.entries.map .record ++ rightFlat back) := by
  refine @Intake.inner Mark (TableHolds after) 0 front back
    ⟨left.pageNumber, [left.pageNumber], left.entries.map .record⟩
    ⟨right.pageNumber, [right.pageNumber], right.entries.map .record⟩ ?_ ?_
    ⟨leftHere, rfl⟩ ⟨rightHere, rfl⟩
  · intro entry member
    refine (frontTrees entry member).mono ?_
    intro page inside node holds
    refine holds.congr (kept page (List.mem_append_left _ ?_))
    exact List.mem_flatMap.mpr ⟨entry, member, inside⟩
  · intro entry member
    refine (backTrees entry member).mono ?_
    intro page inside node holds
    refine holds.congr (kept page (List.mem_append_right _ ?_))
    exact List.mem_flatMap.mpr ⟨entry, member, inside⟩

/-- The place of the separator in the parent. -/
theorem keyPlace_parent {parent : BTreeNode} {slots : List Slot} {high : Nat}
    {before behind : List Mark} (has : HasSlots parent slots)
    (sepsEq : sepsOf slots = front.map Prod.snd ++ back.map Prod.fst)
    (ordered : (dividedMarks (before ++ leftFlat front)
      (rightFlat back ++ behind) left right high).Pairwise Before) :
    keyPlace parent.entries high = front.length := by
  have parts := List.pairwise_append.mp ordered
  have low : ∀ slot ∈ slots.take front.length, slot.key < high := by
    intro slot member
    have inFront : Mark.separator slot.key ∈ front.map Prod.snd := by
      have taken := congrArg (List.take front.length) sepsEq
      rw [List.take_left' (List.length_map _)] at taken
      rw [← taken]
      unfold sepsOf
      rw [← List.map_take]
      exact List.mem_map_of_mem member
    have less := parts.2.2 _ (List.mem_append_left _
      (List.mem_append_right _ (mem_leftFlat inFront))) _ List.mem_cons_self
    change 2 * slot.key + 1 < 2 * high + 1 at less
    omega
  have above : ∀ slot ∈ slots.drop front.length, high ≤ slot.key := by
    intro slot member
    have inBack : Mark.separator slot.key ∈ back.map Prod.fst := by
      have dropped := congrArg (List.drop front.length) sepsEq
      rw [List.drop_left' (List.length_map _)] at dropped
      rw [← dropped]
      unfold sepsOf
      rw [← List.map_drop]
      exact List.mem_map_of_mem member
    have less := (List.pairwise_cons.mp parts.2.1).1 _
      (List.mem_append_right _ (List.mem_append_left _ (mem_rightFlat inBack)))
    change 2 * high + 1 < 2 * slot.key + 1 at less
    omega
  have lengths := congrArg List.length sepsEq
  unfold sepsOf at lengths
  rw [List.length_map, List.length_append, List.length_map,
    List.length_map] at lengths
  rw [has.entriesEq, ← List.take_append_drop front.length slots,
    List.map_append, keyPlace_eq, List.length_map, List.length_take]
  · omega
  · intro entry member
    obtain ⟨slot, inside, rfl⟩ := List.mem_map.mp member
    exact low slot inside
  · intro entry member
    obtain ⟨slot, inside, rfl⟩ := List.mem_map.mp member
    exact above slot inside

end Hung

end BtreeDb
