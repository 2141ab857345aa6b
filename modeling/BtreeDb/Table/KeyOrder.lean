import BtreeDb.Table.InsertRun
import BtreeDb.Tree.Check

/-!
# One order of the keys

A split compares its key as an `int`, the traversal compares it as a `u32`.
The two agree about the halves of a split exactly when the key and the
separator are on the same side of `2 ^ 31`.
-/

namespace BtreeDb

open PagedTree Runs

theorem asInt_agrees_iff {key high : Nat} (keyFits : key < 2 ^ 32)
    (highFits : high < 2 ^ 32) :
    (asInt key ≤ asInt high ↔ key ≤ high) ↔
      (key < 2 ^ 31 ↔ high < 2 ^ 31) := by
  unfold asInt
  by_cases keyLow : key < 2 ^ 31
  · by_cases highLow : high < 2 ^ 31
    · rw [if_pos keyLow, if_pos highLow]
      omega
    · rw [if_pos keyLow, if_neg highLow]
      omega
  · by_cases highLow : high < 2 ^ 31
    · rw [if_neg keyLow, if_pos highLow]
      omega
    · rw [if_neg keyLow, if_neg highLow]
      omega

/-! ## The half that is looked up -/

section Half

variable {tree : BTree} {disk : Disk} {parent : BTreeNode} {slots : List Slot}
variable {index left right high key : Nat}

/-- Between two neighbours the search goes left up to the separator. -/
theorem keyPlace_between (has : HasSlots parent slots)
    (here : slots[index]? = some ⟨left, high⟩)
    (below : ∀ slot ∈ slots.take index, slot.key < key)
    (above : ∀ slot ∈ slots.drop (index + 1), key ≤ slot.key) :
    keyPlace parent.entries key = if key ≤ high then index else index + 1 := by
  obtain ⟨inside, hereEq⟩ := List.getElem?_eq_some_iff.mp here
  have cut : parent.entries = (slots.take index).map Slot.entry ++
      (Slot.mk left high).entry :: (slots.drop (index + 1)).map Slot.entry := by
    rw [has.entriesEq, ← List.map_cons, ← List.map_append, ← hereEq,
      List.getElem_cons_drop, List.take_append_drop]
  have frontLength : ((slots.take index).map Slot.entry).length = index := by
    rw [List.length_map, List.length_take]
    omega
  have frontBelow : ∀ entry ∈ (slots.take index).map Slot.entry,
      entry.key < key := by
    intro entry member
    obtain ⟨slot, slotIn, rfl⟩ := List.mem_map.mp member
    exact below slot slotIn
  have backAbove : ∀ entry ∈ (slots.drop (index + 1)).map Slot.entry,
      key ≤ entry.key := by
    intro entry member
    obtain ⟨slot, slotIn, rfl⟩ := List.mem_map.mp member
    exact above slot slotIn
  by_cases isBelow : key ≤ high
  · rw [if_pos isBelow, cut, keyPlace_eq frontBelow, frontLength]
    intro entry member
    rcases List.mem_cons.mp member with rfl | later
    · exact isBelow
    · exact backAbove entry later
  · rw [if_neg isBelow, cut, ← List.singleton_append, ← List.append_assoc,
      keyPlace_eq _ backAbove, List.length_append, frontLength,
      List.length_singleton]
    intro entry member
    rcases List.mem_append.mp member with inFront | atPivot
    · exact frontBelow entry inFront
    · rw [List.mem_singleton.mp atPivot]
      exact Nat.lt_of_not_le isBelow

/-- The parent of two halves, which holds their separator, and a key between
the separators around them. -/
structure ParentOfHalves (disk : Disk) (parent : BTreeNode) (slots : List Slot)
    (index left right high key : Nat) : Prop where
  holds : Holds disk parent
  has : HasSlots parent slots
  increase : KeysIncrease parent.entries
  here : slots[index]? = some ⟨left, high⟩
  next : (kidsOf slots parent.rightChild)[index + 1]? = some right
  apart : left ≠ right
  below : ∀ slot ∈ slots.take index, slot.key < key
  above : ∀ slot ∈ slots.drop (index + 1), key ≤ slot.key
  keyFits : key < 2 ^ 32
  highFits : high < 2 ^ 32

/-- The traversal goes to the half that a split writes a key to exactly when
the key and the separator have the same sign. -/
theorem writtenHalf_iff (isTable : tree.type = .table)
    (halves : ParentOfHalves disk parent slots index left right high key) :
    readCellPage tree parent (btreeNodeSearchKeys parent key).2 =
        .ok (if asInt key ≤ asInt high then left else right) ↔
      (key < 2 ^ 31 ↔ high < 2 ^ 31) := by
  rw [← asInt_agrees_iff halves.keyFits halves.highFits]
  have leftHere : (kidsOf slots parent.rightChild)[index]? = some left := by
    have inside := (List.getElem?_eq_some_iff.mp halves.here).1
    unfold kidsOf
    rw [List.getElem?_append_left (by rw [List.length_map]; exact inside),
      List.getElem?_map, halves.here]
    rfl
  have goesTo : readCellPage tree parent (btreeNodeSearchKeys parent key).2 =
      .ok (if key ≤ high then left else right) := by
    rw [btreeNodeSearchKeys_eq halves.increase]
    refine readCellPage_table isTable halves.holds halves.has.entriesEq
      halves.has.children ?_
    change (kidsOf slots parent.rightChild)[keyPlace parent.entries key]? = _
    rw [keyPlace_between halves.has halves.here halves.below halves.above]
    split
    · exact leftHere
    · exact halves.next
  rw [goesTo]
  by_cases isBelow : key ≤ high
  · by_cases intBelow : asInt key ≤ asInt high
    · simp only [isBelow, intBelow, if_true]
    · simp only [isBelow, intBelow, if_true, if_false, Except.ok.injEq,
        halves.apart, iff_true]
  · by_cases intBelow : asInt key ≤ asInt high
    · simp only [isBelow, intBelow, if_true, if_false, Except.ok.injEq,
        halves.apart.symm, iff_false, not_true_eq_false]
    · simp only [isBelow, intBelow, if_false]

end Half

/-! ## Runs -/

/-- The writer and the traversal agree about the halves of a split exactly for
keys with the sign of the separator; in a run of insertions that all fit, every
record is found. -/
theorem one_key_order {tree : BTree} (isTable : tree.type = .table) :
    (∀ {disk : Disk} {parent : BTreeNode} {slots : List Slot}
        {index left right high key : Nat},
      ParentOfHalves disk parent slots index left right high key →
        (readCellPage tree parent (btreeNodeSearchKeys parent key).2 =
            .ok (if asInt key ≤ asInt high then left else right) ↔
          (key < 2 ^ 31 ↔ high < 2 ^ 31))) ∧
      ∀ {start disk : Disk} {records calls : List TableRecord},
        LowTable tree start records → NewRecords records calls →
        Run (insertStep tree) (CallFits tree) start calls disk →
          LowTable tree disk (addRecords records calls) ∧
            FindsAll tree disk (addRecords records calls) := by
  refine ⟨fun halves => writtenHalf_iff isTable halves, ?_⟩
  intro start disk records calls low new run
  have grown := insert_run isTable low run new
  obtain ⟨free, height, pages, flat, chains, table, isLow⟩ := grown
  exact ⟨⟨free, height, pages, flat, chains, table, isLow⟩,
    table.findsAll isTable (by unfold maxBreadcrumbs; omega)⟩

/-! ## Keys on both sides -/

def signTree : BTree := ⟨2, .table, 0⟩

/-- An empty leaf on page 2. -/
def signStart : Disk := diskOfNodes 216 [(true, 0, []), (true, 0, [])]

def signRecord (key : Nat) : TableRecord := ⟨key, List.replicate 33 7⟩

/-- Two keys below `2 ^ 31`, then three that are negative as `int`. -/
def signCalls : List TableRecord :=
  [3, 4, 2 ^ 31 + 1, 2 ^ 31 + 2, 2 ^ 31 + 3].map signRecord

theorem signStart_low : LowTable signTree signStart [] :=
  ⟨[], 0, [2], [], [], ⟨checkTable_sound (by decide +kernel), .nil, by decide,
    by decide⟩, by decide⟩

theorem signCalls_new : NewRecords [] signCalls :=
  ⟨by decide, by decide, by decide, by decide⟩

/-- Keys below `2 ^ 31` are found, also after the root has been split. -/
theorem one_key_order_low :
    LowTable signTree
        (([3, 4, 5, 6, 7].map signRecord).foldl (insertStep signTree) signStart)
        (addRecords [] ([3, 4, 5, 6, 7].map signRecord)) ∧
      FindsAll signTree
        (([3, 4, 5, 6, 7].map signRecord).foldl (insertStep signTree) signStart)
        (addRecords [] ([3, 4, 5, 6, 7].map signRecord)) :=
  (@one_key_order signTree rfl).2 signStart_low
    ⟨by decide, by decide, by decide, by decide⟩
    (run_of_allMeet (by decide +kernel))

/-- The last key is written to the half of the keys below it as `int`. -/
theorem signCalls_lose_key :
    LowTable signTree signStart [] ∧ NewRecords [] signCalls ∧
      Run (insertStep signTree) (fun _ _ => True) signStart signCalls
        (signCalls.foldl (insertStep signTree) signStart) ∧
      ¬ FindsAll signTree (signCalls.foldl (insertStep signTree) signStart)
        (addRecords [] signCalls) := by
  have lost : (btreeSelectEx signTree (signRecord (2 ^ 31 + 3)).key 33
      (signCalls.foldl (insertStep signTree) signStart)).1 =
        .error (.err .errKeyNotFound) := by
    decide +kernel
  refine ⟨signStart_low, signCalls_new,
    run_of_allMeet (allMeet_of_forall (fun _ _ => trivial) _ _), ?_⟩
  intro found
  have present : signRecord (2 ^ 31 + 3) ∈ addRecords [] signCalls := by decide
  rw [found _ present 33 (by decide)] at lost
  cases lost

end BtreeDb
