import BtreeDb.Table.Places
import BtreeDb.Tree.Neighbours

/-!
# Changed nodes of a table tree

What the nodes of a table tree hold after they have been changed in memory:
an inner node as the list of its slots, a leaf as the list of its records.
-/

namespace BtreeDb

open Disk PagedTree

/-! ## Inner nodes -/

/-- The children of an inner node. -/
def kidsOf (slots : List Slot) (rightChild : Nat) : List Nat :=
  slots.map Slot.child ++ [rightChild]

/-- The separators of an inner node. -/
def sepsOf (slots : List Slot) : List Mark :=
  slots.map fun slot => .separator slot.key

/-- The node is an inner one with the given slots. -/
structure HasSlots (node : BTreeNode) (slots : List Slot) : Prop where
  isInner : node.isLeaf = false
  entriesEq : node.entries = slots.map Slot.entry
  children : ∀ slot ∈ slots, slot.child < 2 ^ 32

section Slots

variable {node other : BTreeNode} {slots : List Slot}

theorem HasSlots.numKeys_eq (has : HasSlots node slots) :
    node.numKeys = slots.length := by
  have lengths := congrArg List.length has.entriesEq
  rwa [entries_length, List.length_map] at lengths

theorem HasSlots.entry_at (has : HasSlots node slots) {index : Nat}
    {slot : Slot} (here : slots[index]? = some slot) :
    node.entries[index]? = some slot.entry := by
  rw [has.entriesEq, List.getElem?_map, here]
  rfl

theorem HasSlots.withRightChild (has : HasSlots node slots)
    (rightChild : Nat) : HasSlots (nodeRightChildSet node rightChild) slots :=
  ⟨has.isInner, has.entriesEq, has.children⟩

/-- A node filled with other slots. -/
theorem HasSlots.refilled (has : HasSlots node slots) {others : List Slot}
    (filled : Refilled node (others.map Slot.entry) other)
    (children : ∀ slot ∈ others, slot.child < 2 ^ 32) :
    HasSlots other others :=
  ⟨filled.frame.2.2.2.1.trans has.isInner, filled.entries_eq, children⟩

theorem HasSlots.withMeta (has : HasSlots node slots)
    (metaBytes : List UInt8) :
    HasSlots { node with metaBytes := metaBytes } slots :=
  ⟨has.isInner, has.entriesEq, has.children⟩

theorem HasSlots.insert (has : HasSlots node slots) {position : Nat}
    {slot : Slot} (inside : position ≤ slots.length)
    (child : slot.child < 2 ^ 32)
    (filled : Refilled node (node.entries.insertIdx position slot.entry)
      other) : HasSlots other (slots.insertIdx position slot) := by
  obtain ⟨_, _, _, leaf, _⟩ := filled.frame
  refine ⟨leaf.trans has.isInner, ?_, ?_⟩
  · rw [filled.entries_eq, has.entriesEq, List.map_insertIdx]
  · intro some member
    rcases (List.mem_insertIdx inside).mp member with rfl | old
    · exact child
    · exact has.children some old

theorem HasSlots.erase (has : HasSlots node slots) {index : Nat}
    (erases : ErasesAt node index) :
    HasSlots (nodeRemoveAt node index) (slots.eraseIdx index) := by
  obtain ⟨_, _, _, leaf, _⟩ := erases.frame
  refine ⟨leaf.trans has.isInner, ?_, ?_⟩
  · rw [erases.entries_eq, has.entriesEq, List.eraseIdx_map]
  · intro some member
    exact has.children some (List.mem_of_mem_eraseIdx member)

/-- Slots with another key at an index. -/
def rekeySlots (slots : List Slot) (index key : Nat) : List Slot :=
  slots.modify index fun slot => { slot with key := key }

theorem rekeySlots_kids (index key rightChild : Nat) :
    kidsOf (rekeySlots slots index key) rightChild =
      kidsOf slots rightChild := by
  have same : (rekeySlots slots index key).map Slot.child =
      slots.map Slot.child := by
    apply ListEdit.map_modify_same
    intro slot
    rfl
  unfold kidsOf
  rw [same]

theorem rekeySlots_seps {index : Nat} (inside : index < slots.length)
    (key : Nat) :
    sepsOf (rekeySlots slots index key) =
      (sepsOf slots).set index (.separator key) := by
  apply List.ext_getElem?
  intro place
  unfold sepsOf rekeySlots
  rw [List.getElem?_map, List.getElem?_modify, List.getElem?_set,
    List.getElem?_map, List.length_map]
  by_cases same : index = place
  · subst same
    rw [if_pos rfl, if_pos inside, List.getElem?_eq_getElem inside]
    simp only [if_pos, Option.map_eq_map, Option.map_some]
  · rw [if_neg same]
    cases slots[place]? with
    | none => rfl
    | some slot => simp only [if_neg same, Option.map_eq_map, Option.map_some]

theorem HasSlots.rekey (has : HasSlots node slots) (index key : Nat) :
    HasSlots (nodeKeyAtSet node index key) (rekeySlots slots index key) := by
  refine ⟨has.isInner, ?_, ?_⟩
  · rw [nodeKeyAtSet_entries, has.entriesEq]
    unfold rekeySlots
    rw [ListEdit.map_modify]
    intro slot
    rfl
  · intro some member
    obtain ⟨place, here⟩ := List.mem_iff_getElem?.mp member
    unfold rekeySlots at here
    rw [List.getElem?_modify] at here
    obtain ⟨slot, slotHere, rfl⟩ := Option.map_eq_some_iff.mp here
    have old := has.children slot (List.mem_of_getElem? slotHere)
    by_cases same : index = place
    · rw [if_pos same]
      exact old
    · rw [if_neg same]
      exact old

theorem kidsOf_eraseIdx {index : Nat} (inside : index < slots.length)
    (rightChild : Nat) :
    kidsOf (slots.eraseIdx index) rightChild =
      (kidsOf slots rightChild).eraseIdx index := by
  unfold kidsOf
  rw [List.eraseIdx_append_of_lt_length (by rwa [List.length_map]),
    List.eraseIdx_map]

theorem sepsOf_eraseIdx (index : Nat) :
    sepsOf (slots.eraseIdx index) = (sepsOf slots).eraseIdx index := by
  unfold sepsOf
  rw [List.eraseIdx_map]

end Slots

/-! ## Contents -/

/-- A leaf with the given entries. -/
def leafOf (entries : List Entry) : PNode Mark :=
  .leaf (entries.map Mark.record)

/-- An inner node with the given slots. -/
def innerOf (slots : List Slot) (rightChild : Nat) : PNode Mark :=
  .inner (kidsOf slots rightChild) (sepsOf slots)

section Contents

variable {disk : Disk} {free : List Nat} {page : Nat} {node : BTreeNode}

/-- The contents of a page, in terms of the node that is loaded from it. -/
theorem TableHolds.loaded {content : PNode Mark}
    (holds : TableHolds disk page content) (store : Store disk free) :
    NodeOn disk page ∧
      ((loadedNode disk page).isLeaf = true ∧
          SmallCells (loadedNode disk page) ∧
          content = leafOf (loadedNode disk page).entries ∨
        ∃ slots, HasSlots (loadedNode disk page) slots ∧
          content = innerOf slots (loadedNode disk page).rightChild) := by
  cases holds with
  | @leaf node holds here isLeaf small =>
      obtain ⟨metaBytes, loadedEq⟩ := holds.loadedNode_eq store
      subst here
      rw [NodeOn, loadedEq]
      exact ⟨⟨holds.withMeta metaBytes, rfl⟩, Or.inl ⟨isLeaf, small, rfl⟩⟩
  | @inner node slots holds here isInner entriesEq children =>
      obtain ⟨metaBytes, loadedEq⟩ := holds.loadedNode_eq store
      subst here
      rw [NodeOn, loadedEq]
      exact ⟨⟨holds.withMeta metaBytes, rfl⟩,
        Or.inr ⟨slots, ⟨isInner, entriesEq, children⟩, rfl⟩⟩

theorem HasSlots.holds {slots : List Slot} (has : HasSlots node slots)
    (holds : Holds disk node) (here : node.pageNumber = page) :
    TableHolds disk page (innerOf slots node.rightChild) :=
  .inner holds here has.isInner has.entriesEq has.children

theorem leaf_holds (holds : Holds disk node) (here : node.pageNumber = page)
    (isLeaf : node.isLeaf = true) (small : SmallCells node) :
    TableHolds disk page (leafOf node.entries) :=
  .leaf holds here isLeaf small

/-- Entries small enough for one node stay so in one of the same size. -/
theorem Refilled.smallCells {base : BTreeNode} {entries : List Entry}
    (filled : Refilled base entries node)
    (small : ∀ entry ∈ entries, entry.heapSize ≤ btreeNodeMaxCellSize base) :
    SmallCells node := by
  unfold SmallCells
  rw [filled.entries_eq, filled.maxCellSize_eq]
  exact small

end Contents

/-! ## Separators -/

theorem Before.trans {left middle right : Mark} (first : Before left middle)
    (second : Before middle right) : Before left right :=
  Nat.lt_trans first second

/-- A separator with the last key of a leaf is in its place between the leaf
and the next one. -/
theorem separator_between {front back : List Entry} {last : Entry}
    (ordered : ((front ++ last :: back).map Mark.record).Pairwise Before) :
    ((front ++ [last]).map Mark.record ++
      .separator last.key :: back.map Mark.record).Pairwise Before := by
  rw [List.pairwise_map] at ordered
  have parts := List.pairwise_append.mp ordered
  have later := List.pairwise_cons.mp parts.2.1
  have whole : ((front ++ [last]) ++ back).Pairwise
      fun left right => Before (.record left) (.record right) := by
    rw [List.append_assoc]
    exact ordered
  have cut := List.pairwise_append.mp whole
  rw [List.pairwise_append, List.pairwise_cons, List.pairwise_map,
    List.pairwise_map]
  refine ⟨cut.1, ⟨?_, cut.2.1⟩, ?_⟩
  · intro mark member
    obtain ⟨entry, entryMember, rfl⟩ := List.mem_map.mp member
    have before := later.1 entry entryMember
    unfold Before Mark.rank at before ⊢
    simp only at before ⊢
    omega
  · intro mark member other otherMember
    obtain ⟨entry, entryMember, rfl⟩ := List.mem_map.mp member
    rcases List.mem_cons.mp otherMember with rfl | behind
    · have upTo : entry.key ≤ last.key := by
        rcases List.mem_append.mp entryMember with inFront | isLast
        · have before := parts.2.2 entry inFront last List.mem_cons_self
          unfold Before Mark.rank at before
          simp only at before
          omega
        · rw [List.mem_singleton.mp isLast]
      unfold Before Mark.rank
      simp only
      omega
    · obtain ⟨next, nextMember, rfl⟩ := List.mem_map.mp behind
      exact cut.2.2 entry entryMember next nextMember

/-- The same entries in order, with the separator between them elsewhere but
not at an end. -/
theorem ordered_of_cut {before behind : List Mark} {sep : Mark}
    {left right front back : List Entry} {last : Entry}
    (same : left ++ right = front ++ last :: back) (some_ : back ≠ [])
    (ordered : (before ++ ((left.map Mark.record ++
      sep :: right.map Mark.record) ++ behind)).Pairwise Before) :
    (before ++ (((front ++ [last]).map Mark.record ++
      .separator last.key :: back.map Mark.record) ++ behind)).Pairwise
        Before := by
  have records : ((left ++ right).map Mark.record).Sublist
      (left.map Mark.record ++ sep :: right.map Mark.record) := by
    rw [List.map_append]
    exact (List.Sublist.refl _).append (List.sublist_cons_self _ _)
  have inner := (List.pairwise_append.mp
    (List.pairwise_append.mp ordered).2.1).1.sublist records
  rw [same] at inner
  apply ListEdit.pairwise_replace (fun first second => first.trans second)
    ordered (separator_between inner)
  have isMember : ∀ entry ∈ front ++ last :: back, Mark.record entry ∈
      left.map Mark.record ++ sep :: right.map Mark.record := by
    intro entry member
    rw [← same] at member
    exact records.subset (List.mem_map_of_mem member)
  intro mark member
  rcases List.mem_append.mp member with inFront | later
  · obtain ⟨entry, entryMember, rfl⟩ := List.mem_map.mp inFront
    have here := isMember entry (by
      rcases List.mem_append.mp entryMember with early | isLast
      · exact List.mem_append_left _ early
      · rw [List.mem_singleton.mp isLast]
        exact List.mem_append_right _ List.mem_cons_self)
    exact ⟨_, here, _, here, Or.inl rfl, Or.inl rfl⟩
  · rcases List.mem_cons.mp later with rfl | inBack
    · obtain ⟨next, rest, rfl⟩ := List.exists_cons_of_ne_nil some_
      have lastHere := isMember last
        (List.mem_append_right _ List.mem_cons_self)
      have nextHere := isMember next
        (List.mem_append_right _ (List.mem_cons_of_mem _ List.mem_cons_self))
      have between := separator_between inner
      have parts := List.pairwise_append.mp between
      refine ⟨_, lastHere, _, nextHere, Or.inr ?_, Or.inr ?_⟩
      · exact parts.2.2 _ (List.mem_map_of_mem
          (List.mem_append_right _ (List.mem_singleton_self _))) _
          List.mem_cons_self
      · exact (List.pairwise_cons.mp parts.2.1).1 _ List.mem_cons_self
    · obtain ⟨entry, entryMember, rfl⟩ := List.mem_map.mp inBack
      have here := isMember entry
        (List.mem_append_right _ (List.mem_cons_of_mem _ entryMember))
      exact ⟨_, here, _, here, Or.inl rfl, Or.inl rfl⟩

end BtreeDb
