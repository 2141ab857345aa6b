import BtreeDb.Lib.PagedSplit
import BtreeDb.Node.Limit
import BtreeDb.Table.Entering
import BtreeDb.Table.Slots
import BtreeDb.Table.SplitOrder

/-!
# A record in one of two halves

After a leaf is split the record goes to one of the halves.  Together they then
hold the entries of the leaf with the new one among them, cut at the key that
goes up.
-/

namespace BtreeDb

open Bytes PagedTree

/-! ## Places -/

section Places

variable {front back : List Entry} {key : Nat}

/-- The place of a key that belongs in the second of two lists. -/
theorem keyPlace_append_above (below : ∀ entry ∈ front, entry.key < key) :
    keyPlace (front ++ back) key = front.length + keyPlace back key := by
  unfold keyPlace BinarySearch.lowerBound
  rw [List.takeWhile_append_of_pos, List.length_append]
  intro entry member
  change (compare entry.key key == .lt) = true
  rw [Nat.compare_eq_lt.mpr (below entry member)]
  rfl

/-- The place of a key that belongs in the first of two lists. -/
theorem keyPlace_append_below (above : ∀ entry ∈ back, key ≤ entry.key) :
    keyPlace (front ++ back) key = keyPlace front key := by
  induction front with
  | nil =>
      cases back with
      | nil => rfl
      | cons entry back =>
          have least := above entry List.mem_cons_self
          unfold keyPlace
          rw [List.nil_append, BinarySearch.lowerBound_cons, if_neg]
          · rfl
          · intro less
            exact absurd (Nat.compare_eq_lt.mp less) (Nat.not_lt.mpr least)
  | cons entry front inductionHypothesis =>
      unfold keyPlace at inductionHypothesis ⊢
      rw [List.cons_append, BinarySearch.lowerBound_cons,
        BinarySearch.lowerBound_cons, inductionHypothesis]

/-- A place with the smaller keys in front of it. -/
theorem keyPlace_eq (below : ∀ entry ∈ front, entry.key < key)
    (above : ∀ entry ∈ back, key ≤ entry.key) :
    keyPlace (front ++ back) key = front.length := by
  have none : keyPlace back key = 0 := by
    have place := @keyPlace_append_below [] back key above
    rw [List.nil_append] at place
    exact place
  rw [keyPlace_append_above below, none, Nat.add_zero]

theorem insertIdx_append_above {α : Type} {front back : List α} {index : Nat}
    {item : α} :
    (front ++ back).insertIdx (front.length + index) item =
      front ++ back.insertIdx index item := by
  induction front with
  | nil => rw [List.length_nil, Nat.zero_add, List.nil_append, List.nil_append]
  | cons head front inductionHypothesis =>
      rw [List.length_cons, Nat.add_right_comm, List.cons_append,
        List.insertIdx_succ_cons, inductionHypothesis, List.cons_append]

theorem insertIdx_append_below {α : Type} {front back : List α} {index : Nat}
    {item : α} (inside : index ≤ front.length) :
    (front ++ back).insertIdx index item =
      front.insertIdx index item ++ back := by
  rw [ListEdit.insertIdx_eq_append (by rw [List.length_append]; omega),
    ListEdit.insertIdx_eq_append inside, List.take_append_of_le_length inside,
    List.drop_append_of_le_length inside, List.append_assoc, List.cons_append]

end Places

/-! ## Writing to a node -/

section Write

variable {disk : Disk} {free : List Nat} {node : BTreeNode} {key : Nat}
variable {data : List UInt8}

/-- A record that is small enough is stored in its cell. -/
def InlineIfSmall (maxCellSize key : Nat) (data : List UInt8) (entry : Entry) :
    Prop :=
  heapRequiredForInsertion (cellInlineDiskSize data.length) ≤ maxCellSize →
    entry = ⟨key, cellTypeCode .cellTypeInline, data⟩

/-- Writing a record at the place of its key. -/
theorem btreeNodeWrite_stored (roomy : Roomy disk) (store : Store disk free)
    (holds : Holds disk node) (metaFresh : MetaFresh free node)
    (used : node.pageNumber ∉ free) (right : PlacesRight node.keys key)
    (keyFits : key < 2 ^ 32)
    (takes : Takes (btreeNodeMaxCellSize node) node.freeHeap data.length)
    (sizeFits : data.length < 2 ^ 32)
    (room : disk.maxPage + data.length + 1 < pageIdLimit) :
    ∃ stored after left entry chain,
      btreeNodeWrite node key data disk = (.ok stored, after) ∧
      Stored disk free node (keyPlace node.entries key) key data after left
        stored entry chain ∧
      InlineIfSmall (btreeNodeMaxCellSize node) key data entry := by
  have inside : (initInsertionIndexFromIndex node
      (btuBinarySearchKeys node.keys key).2).number node =
        keyPlace node.entries key := by
    rw [right.place]
    refine initInsertionIndexFromIndex_number ?_
    have bound := keyPlace_le node.entries key
    rw [entries_length] at bound
    exact bound
  have within : (initInsertionIndexFromIndex node
      (btuBinarySearchKeys node.keys key).2).number node ≤ node.numKeys :=
    initInsertionIndexFromIndex_le node _
  by_cases isInline :
      heapRequiredForInsertion (cellInlineDiskSize data.length) ≤
        btreeNodeMaxCellSize node
  · obtain ⟨stored, after, writeEq, whole⟩ :=
      btreeNodeWriteAt_inline store holds metaFresh used within keyFits takes
        isInline
    rw [inside] at whole
    exact ⟨stored, after, free, _, [], writeEq, whole, fun _ => rfl⟩
  · have pages := recordPages_le (btreeNodeMaxCellSize node) node.freeHeap
      disk.pageSize data.length
    obtain ⟨stored, after, left, entry, chain, writeEq, whole⟩ :=
      btreeNodeWriteAt_overflow roomy store holds used within keyFits takes
        isInline sizeFits (by omega)
    rw [inside] at whole
    exact ⟨stored, after, left, entry, chain, writeEq, whole,
      fun small => absurd small isInline⟩

/-- A node that does not take a record is left as it is. -/
theorem btreeNodeWrite_full (roomy : Roomy disk)
    (size : node.pageSize = disk.pageSize)
    (full : ¬ Takes (btreeNodeMaxCellSize node) node.freeHeap data.length) :
    btreeNodeWrite node key data disk =
      (.error (.err .errNodeNotEnoughSpace), disk) :=
  btreeNodeWriteAt_full roomy size full

end Write

/-! ## Two nodes, one of which gets an entry -/

/-- Two nodes on a disk of which the one on the side of a key has got an entry
with that key. -/
structure HalfWritten (disk : Disk) (free : List Nat)
    (left right : BTreeNode) (highKey key : Nat) (data : List UInt8)
    (after : Disk) (rest : List Nat) (left' right' : BTreeNode) (entry : Entry)
    (chain : List Nat) : Prop where
  leftHolds : Holds after left'
  rightHolds : Holds after right'
  leftSame : left'.pageNumber = left.pageNumber ∧
    left'.isLeaf = left.isLeaf ∧ left'.rightChild = left.rightChild
  rightSame : right'.pageNumber = right.pageNumber ∧
    right'.isLeaf = right.isLeaf ∧ right'.rightChild = right.rightChild
  leftSmall : SmallCells left'
  rightSmall : SmallCells right'
  below : key ≤ highKey →
    left'.entries = left.entries.insertIdx (keyPlace left.entries key) entry ∧
      right'.entries = right.entries
  above : ¬ key ≤ highKey → left'.entries = left.entries ∧
    right'.entries = right.entries.insertIdx (keyPlace right.entries key) entry
  key_eq : entry.key = key
  resolves : Resolves after entry data chain
  inline : InlineIfSmall (heapCapacity 0 disk.pageSize / 4) key data entry
  notFirst : 1 ∉ chain
  few : chain.length ≤ data.length + 1
  updates : ∃ touched, Updates disk free after rest touched chain ∧
    ∀ page ∈ touched, page = left.pageNumber ∨ page = right.pageNumber

section Halves

variable {disk after : Disk} {free rest chain : List Nat}
variable {left right stored : BTreeNode} {highKey key : Nat}
variable {data : List UInt8} {entry : Entry}

theorem SmallCells.of_congr {node other : BTreeNode} (small : SmallCells node)
    (entriesEq : other.entries = node.entries)
    (maxEq : btreeNodeMaxCellSize other = btreeNodeMaxCellSize node) :
    SmallCells other := by
  intro member inOther
  rw [entriesEq] at inOther
  rw [maxEq]
  exact small member inOther

theorem Stored.few {position : Nat} {node : BTreeNode}
    (whole : Stored disk free node position key data after rest stored entry
      chain) : chain.length ≤ data.length + 1 := by
  rw [whole.chain_length]
  exact recordPages_le _ _ _ _

theorem Stored.smallCells {position : Nat} {node : BTreeNode}
    (whole : Stored disk free node position key data after rest stored entry
      chain) (size : node.pageSize = disk.pageSize)
    (inside : position ≤ node.entries.length) (small : SmallCells node) :
    SmallCells stored := by
  have maxEq : btreeNodeMaxCellSize stored = btreeNodeMaxCellSize node := by
    refine maxCellSize_eq whole.reentered.pageNumber_eq ?_
    rw [whole.holds.pageSize_eq whole.updates.store, whole.updates.pageSize,
      size]
  intro member inStored
  rw [whole.reentered.entries_eq] at inStored
  rw [maxEq]
  rcases (ListEdit.mem_insertIdx_iff inside).mp inStored with rfl | old
  · exact whole.small
  · exact small member old

theorem Holds.smallCells_congr {node other : BTreeNode} {left : List Nat}
    (holds : Holds disk node) (store : Store disk free)
    (otherHolds : Holds after other) (otherStore : Store after left)
    (pageSize : after.pageSize = disk.pageSize)
    (number : other.pageNumber = node.pageNumber)
    (entriesEq : other.entries = node.entries) (small : SmallCells node) :
    SmallCells other := by
  refine small.of_congr entriesEq (maxCellSize_eq number ?_)
  rw [otherHolds.pageSize_eq otherStore, pageSize, holds.pageSize_eq store]

variable (store : Store disk free) (leftHolds : Holds disk left)
  (rightHolds : Holds disk right) (leftSmall : SmallCells left)
  (rightSmall : SmallCells right) (leftUsed : left.pageNumber ∉ free)
  (rightUsed : right.pageNumber ∉ free)
  (apart : left.pageNumber ≠ right.pageNumber)

include store leftHolds rightHolds leftSmall rightSmall leftUsed rightUsed apart

omit leftUsed in
theorem halfWritten_left (isBelow : key ≤ highKey)
    (whole : Stored disk free left (keyPlace left.entries key) key data after
      rest stored entry chain)
    (inline : InlineIfSmall (heapCapacity 0 disk.pageSize / 4) key data entry) :
    HalfWritten disk free left right highKey key data after rest stored right
      entry chain := by
  have rightAfter : Holds after right := by
    refine rightHolds.congr (whole.updates.kept_used ?_ rightUsed
      rightHolds.present.2)
    exact fun member => apart (List.mem_singleton.mp member).symm
  have again := whole.reentered
  refine ⟨whole.holds, rightAfter,
    ⟨again.pageNumber_eq, again.isLeaf_eq, again.rightChild_eq⟩,
    ⟨rfl, rfl, rfl⟩, ?_, rightSmall, fun _ => ⟨again.entries_eq, rfl⟩,
    fun isAbove => absurd isBelow isAbove, whole.key_eq, whole.resolves, inline,
    whole.notFirst, whole.few, [left.pageNumber], whole.updates, ?_⟩
  · exact whole.smallCells (leftHolds.pageSize_eq store) (keyPlace_le _ _)
      leftSmall
  · intro page member
    exact Or.inl (List.mem_singleton.mp member)

omit rightUsed in
theorem halfWritten_right (isAbove : ¬ key ≤ highKey)
    (whole : Stored disk free right (keyPlace right.entries key) key data
      after rest stored entry chain)
    (inline : InlineIfSmall (heapCapacity 0 disk.pageSize / 4) key data entry) :
    HalfWritten disk free left right highKey key data after rest left stored
      entry chain := by
  have leftAfter : Holds after left := by
    refine leftHolds.congr (whole.updates.kept_used ?_ leftUsed
      leftHolds.present.2)
    exact fun member => apart (List.mem_singleton.mp member)
  have again := whole.reentered
  refine ⟨leftAfter, whole.holds, ⟨rfl, rfl, rfl⟩,
    ⟨again.pageNumber_eq, again.isLeaf_eq, again.rightChild_eq⟩, leftSmall, ?_,
    fun isBelow => absurd isBelow isAbove, fun _ => ⟨rfl, again.entries_eq⟩,
    whole.key_eq, whole.resolves, inline, whole.notFirst, whole.few,
    [right.pageNumber], whole.updates, ?_⟩
  · exact whole.smallCells (rightHolds.pageSize_eq store) (keyPlace_le _ _)
      rightSmall
  · intro page member
    exact Or.inr (List.mem_singleton.mp member)

end Halves

/-! ## The entries of the halves -/

section Entries

variable {disk after : Disk} {free rest chain : List Nat}
variable {left right left' right' : BTreeNode} {highKey key : Nat}
variable {data : List UInt8} {entry : Entry} {middle : List Entry}

/-- The two halves with the new entry, and what is between them. -/
theorem HalfWritten.entries_eq
    (written : HalfWritten disk free left right highKey key data after rest
      left' right' entry chain)
    (low : ∀ other ∈ left.entries ++ middle, other.key ≤ highKey)
    (high : ∀ other ∈ middle ++ right.entries, highKey ≤ other.key) :
    left'.entries ++ (middle ++ right'.entries) =
      (left.entries ++ (middle ++ right.entries)).insertIdx
        (keyPlace (left.entries ++ (middle ++ right.entries)) key) entry := by
  by_cases isBelow : key ≤ highKey
  · obtain ⟨leftEq, rightEq⟩ := written.below isBelow
    rw [leftEq, rightEq, keyPlace_append_below,
      insertIdx_append_below (keyPlace_le _ _)]
    intro other member
    exact Nat.le_trans isBelow (high other member)
  · obtain ⟨leftEq, rightEq⟩ := written.above isBelow
    rw [leftEq, rightEq, ← List.append_assoc, ← List.append_assoc,
      keyPlace_append_above, insertIdx_append_above]
    intro other member
    exact Nat.lt_of_le_of_lt (low other member) (Nat.lt_of_not_le isBelow)

end Entries

/-! ## A full node -/

section Full

variable {disk : Disk} {node : BTreeNode} {size : Nat}

/-- Less than the share of one entry is free in a node that does not take a
record. -/
theorem free_of_full (roomy : Roomy disk) (sameSize : node.pageSize = disk.pageSize)
    (full : ¬ Takes (btreeNodeMaxCellSize node) node.freeHeap size) :
    node.freeHeap < btreeNodeMaxCellSize node := by
  have wide := roomy.maxCellSize sameSize
  unfold Takes at full
  split at full
  · omega
  · have least : heapRequiredForInsertion cellOverflowMinDiskSize = 24 := rfl
    omega

theorem sum_heapSize_le {entries : List Entry} {most : Nat}
    (small : ∀ entry ∈ entries, entry.heapSize ≤ most) :
    (entries.map Entry.heapSize).sum ≤ entries.length * most := by
  have bound := List.sum_le_card_nsmul (entries.map Entry.heapSize) most (by
    intro part member
    obtain ⟨entry, inside, rfl⟩ := List.mem_map.mp member
    exact small entry inside)
  rw [List.length_map, smul_eq_mul] at bound
  exact bound

/-- So there are at least four entries in it. -/
theorem four_of_full (ok : NodeOk node) (small : SmallCells node)
    (free : node.freeHeap < btreeNodeMaxCellSize node) : 4 ≤ node.numKeys := by
  have whole := ok.freeHeap_add
  have bound := sum_heapSize_le small
  rw [entries_length] at bound
  have share : btreeNodeMaxCellSize node * 4 ≤
      heapCapacity node.pageNumber node.pageSize := by
    unfold btreeNodeMaxCellSize
    rw [btuGetNodeHeapSize_eq]
    exact Nat.div_mul_le_self _ 4
  by_contra few
  have most : node.numKeys * btreeNodeMaxCellSize node ≤
      3 * btreeNodeMaxCellSize node :=
    Nat.mul_le_mul_right _ (by omega)
  unfold BTreeNode.numKeys at most
  omega

end Full

/-! ## The halves of a node -/

/-- The key that goes up when a node is split. -/
def splitKey (node : BTreeNode) : Nat :=
  (node.keyAt ((node.numKeys + 1) / 2 - 1)).key

/-- The entries of the half on the side of a key. -/
def halfFor (node : BTreeNode) (key : Nat) : List Entry :=
  if key ≤ splitKey node then node.entries.take (leftHalf node)
  else node.entries.drop ((node.numKeys + 1) / 2)

/-- The half on the side of a key is the one that is written, the writer's
search sees all its keys, and it takes a record of a size. -/
structure HalfAdmits (pageSize : Nat) (node : BTreeNode) (key size : Nat) :
    Prop where
  agree : asInt key ≤ asInt (splitKey node) ↔ key ≤ splitKey node
  few : (halfFor node key).length < 2 ^ 8
  takes : Takes (heapCapacity 0 pageSize / 4)
    (heapCapacity 0 pageSize - ((halfFor node key).map Entry.heapSize).sum) size

theorem halfAdmits_iff {pageSize key size : Nat} {node : BTreeNode} :
    HalfAdmits pageSize node key size ↔
      (asInt key ≤ asInt (splitKey node) ↔ key ≤ splitKey node) ∧
      (halfFor node key).length < 2 ^ 8 ∧
      Takes (heapCapacity 0 pageSize / 4) (heapCapacity 0 pageSize -
        ((halfFor node key).map Entry.heapSize).sum) size :=
  ⟨fun admits => ⟨admits.agree, admits.few, admits.takes⟩,
    fun ⟨agree, few, takes⟩ => ⟨agree, few, takes⟩⟩

instance (pageSize key size : Nat) (node : BTreeNode) :
    Decidable (HalfAdmits pageSize node key size) :=
  decidable_of_iff _ halfAdmits_iff.symm

theorem splitKey_eq {node : BTreeNode} {pivot : Entry}
    (here : node.entries[(node.numKeys + 1) / 2 - 1]? = some pivot) :
    splitKey node = pivot.key := by
  obtain ⟨pageKey, found, rfl⟩ := entries_getElem? here
  unfold splitKey
  rw [keyAt_of_getElem? found]
  rfl

/-- The halves of a node on a disk, both on other pages than the first. -/
structure Halved (disk : Disk) (free : List Nat) (node left right : BTreeNode) :
    Prop where
  leftHolds : Holds disk left
  rightHolds : Holds disk right
  leftNotFirst : left.pageNumber ≠ 1
  rightNotFirst : right.pageNumber ≠ 1
  leftUsed : left.pageNumber ∉ free
  rightUsed : right.pageNumber ∉ free
  apart : left.pageNumber ≠ right.pageNumber
  leftEntries : left.entries = node.entries.take (leftHalf node)
  rightEntries : right.entries = node.entries.drop ((node.numKeys + 1) / 2)
  parts : PartsOf node left right (splitKey node)

section Halved

variable {disk : Disk} {free : List Nat} {node left right half : BTreeNode}
variable {key : Nat} {data : List UInt8}

/-- A node with some of the entries of another one, off the first page. -/
theorem smallCells_part {part : List Entry} (store : Store disk free)
    (holds : Holds disk half) (notFirst : half.pageNumber ≠ 1)
    (sameSize : node.pageSize = disk.pageSize) (small : SmallCells node)
    (entriesEq : half.entries = part) (sublist : part.Sublist node.entries) :
    SmallCells half := by
  intro entry member
  rw [entriesEq] at member
  refine Nat.le_trans (small entry (sublist.subset member)) ?_
  refine maxCellSize_le ?_ notFirst
  rw [sameSize, holds.pageSize_eq store]

/-- A record for a half is stored there, whatever metadata the half is loaded
with. -/
theorem half_write {part : List Entry} {metaBytes : List UInt8}
    (roomy : Roomy disk) (store : Store disk free) (holds : Holds disk half)
    (notFirst : half.pageNumber ≠ 1) (used : half.pageNumber ∉ free)
    (sized : metaBytes.length = pagemetaSize) (entriesEq : half.entries = part)
    (increase : KeysIncrease part) (few : part.length < 2 ^ 8)
    (keyFits : key < 2 ^ 32)
    (takes : Takes (heapCapacity 0 disk.pageSize / 4)
      (heapCapacity 0 disk.pageSize - (part.map Entry.heapSize).sum)
      data.length)
    (sizeFits : data.length < 2 ^ 32)
    (room : disk.maxPage + data.length + 1 < pageIdLimit) :
    ∃ stored after rest entry chain,
      btreeNodeWrite { half with metaBytes := metaBytes } key data disk =
        (.ok stored, after) ∧
      Stored disk free half (keyPlace half.entries key) key data after rest
        stored entry chain ∧
      InlineIfSmall (heapCapacity 0 disk.pageSize / 4) key data entry := by
  have capacity : heapCapacity half.pageNumber half.pageSize =
      heapCapacity 0 disk.pageSize := by
    unfold heapCapacity headerOffset
    rw [holds.pageSize_eq store, if_neg notFirst, if_neg (by decide)]
  have most : btreeNodeMaxCellSize half = heapCapacity 0 disk.pageSize / 4 := by
    unfold btreeNodeMaxCellSize
    rw [btuGetNodeHeapSize_eq, capacity]
  have freeEq : half.freeHeap = heapCapacity 0 disk.pageSize -
      (part.map Entry.heapSize).sum := by
    have whole := holds.ok.freeHeap_add
    rw [capacity, entriesEq] at whole
    omega
  rw [← most, ← freeEq] at takes
  have places : PlacesRight half.keys key := by
    refine placesRight_of_length ?_ ?_
    · rw [← entriesEq] at increase
      unfold KeysIncrease BTreeNode.entries at increase
      rw [List.pairwise_map] at increase
      exact increase
    · rw [← entries_length, entriesEq]
      exact few
  obtain ⟨stored, after, rest, entry, chain, writeEq, whole, inline⟩ :=
    @btreeNodeWrite_stored disk free { half with metaBytes := metaBytes } key
      data roomy store (holds.withMeta _) ⟨sized, fun isFirst =>
        absurd isFirst notFirst⟩ used places keyFits takes sizeFits room
  rw [← most]
  exact ⟨stored, after, rest, entry, chain, writeEq,
    ⟨whole.holds, ⟨whole.reentered.pageNumber_eq, whole.reentered.isLeaf_eq,
      whole.reentered.rightChild_eq, whole.reentered.entries_eq⟩, whole.key_eq,
      whole.small, whole.resolves, whole.chain_length, whole.notFirst,
      whole.updates⟩, inline⟩

/-- A record goes to the half on the side of its key. -/
theorem Halved.write {leftMeta rightMeta : List UInt8}
    (halved : Halved disk free node left right) (roomy : Roomy disk)
    (store : Store disk free) (sameSize : node.pageSize = disk.pageSize)
    (small : SmallCells node) (increase : KeysIncrease node.entries)
    (keyFits : key < 2 ^ 32) (takes : HalfAdmits disk.pageSize node key data.length)
    (sizeFits : data.length < 2 ^ 32)
    (room : disk.maxPage + data.length + 1 < pageIdLimit)
    (leftSized : leftMeta.length = pagemetaSize)
    (rightSized : rightMeta.length = pagemetaSize) :
    ∃ stored after rest left' right' entry chain,
      btreeNodeWrite
        (if key ≤ splitKey node then { left with metaBytes := leftMeta }
        else { right with metaBytes := rightMeta }) key data disk =
          (.ok stored, after) ∧
      HalfWritten disk free left right (splitKey node) key data after rest left'
        right' entry chain := by
  have leftSmall : SmallCells left :=
    smallCells_part store halved.leftHolds halved.leftNotFirst sameSize small
      halved.leftEntries (List.take_sublist _ _)
  have rightSmall : SmallCells right :=
    smallCells_part store halved.rightHolds halved.rightNotFirst sameSize small
      halved.rightEntries (List.drop_sublist _ _)
  have few := takes.few
  have fits := takes.takes
  unfold halfFor at few fits
  by_cases isBelow : key ≤ splitKey node
  · rw [if_pos isBelow] at few fits ⊢
    obtain ⟨stored, after, rest, entry, chain, writeEq, whole, inline⟩ :=
      half_write roomy store halved.leftHolds halved.leftNotFirst
        halved.leftUsed leftSized halved.leftEntries
        (increase.sublist (List.take_sublist _ _)) few keyFits fits sizeFits
        room
    exact ⟨stored, after, rest, stored, right, entry, chain, writeEq,
      halfWritten_left store halved.leftHolds halved.rightHolds leftSmall
        rightSmall halved.rightUsed halved.apart isBelow whole inline⟩
  · rw [if_neg isBelow] at few fits ⊢
    obtain ⟨stored, after, rest, entry, chain, writeEq, whole, inline⟩ :=
      half_write roomy store halved.rightHolds halved.rightNotFirst
        halved.rightUsed rightSized halved.rightEntries
        (increase.sublist (List.drop_sublist _ _)) few keyFits fits sizeFits
        room
    exact ⟨stored, after, rest, left, stored, entry, chain, writeEq,
      halfWritten_right store halved.leftHolds halved.rightHolds leftSmall
        rightSmall halved.leftUsed halved.apart isBelow whole inline⟩

end Halved

/-! ## The two splits -/

section Splits

variable {disk : Disk} {free : List Nat} {node : BTreeNode}
variable (roomy : Roomy disk) (store : Store disk free)
  (holds : Holds disk node) (metaFresh : MetaFresh free node)
  (used : node.pageNumber ∉ free) (table : TableNode node)
  (nonempty : node.numKeys ≠ 0)

include roomy store holds metaFresh used table nonempty

/-- `bta_split_node` on a page other than the first. -/
theorem btaSplitNode_halved (notFirst : node.pageNumber ≠ 1)
    (room : disk.maxPage + 1 < pageIdLimit) :
    ∃ left right after,
      btaSplitNode node disk =
        (.ok (right, ⟨left.pageNumber, splitKey node⟩), after) ∧
      Halved after free.tail node left right ∧
      right.pageNumber = node.pageNumber ∧
      right.metaBytes.length = pagemetaSize ∧
      left.pageNumber < pageIdLimit ∧
      Updates disk free after free.tail [node.pageNumber]
        [left.pageNumber] := by
  obtain ⟨inside, _, _⟩ := half_bounds nonempty rfl
  have pivotHere := List.getElem?_eq_getElem inside
  obtain ⟨left, right, after, splitEq, leftWritten, rightWritten, leftNotFirst,
    leftLimit, rightPage, updates⟩ :=
    btaSplitNode_run roomy store holds metaFresh notFirst used room table.small
      nonempty rfl pivotHere
  rw [← splitKey_eq pivotHere] at splitEq
  have parts : PartsOf node left right (splitKey node) := by
    rw [splitKey_eq pivotHere]
    refine partsOf_halves holds.ok table nonempty rfl pivotHere
      leftWritten.isLeaf_eq rightWritten.isLeaf_eq leftWritten.entries_eq
      rightWritten.entries_eq ?_ ?_
    · intro isInner
      rw [leftWritten.rightChild_eq, isInner]
      rfl
    · intro isInner
      rw [rightWritten.rightChild_eq, isInner]
      rfl
  have leftUsed : left.pageNumber ∉ free.tail :=
    (List.nodup_cons.mp updates.distinct).1
  refine ⟨left, right, after, splitEq,
    ⟨leftWritten.holds, rightWritten.holds, leftNotFirst, ?_, leftUsed, ?_, ?_,
      leftWritten.entries_eq, rightWritten.entries_eq, parts⟩, rightPage,
    rightWritten.metaFresh.size, leftLimit, updates⟩
  · rw [rightPage]
    exact notFirst
  · rw [rightPage]
    exact fun member => used (List.mem_of_mem_tail member)
  · intro same
    rw [rightPage] at same
    rcases updates.fresh _ (List.mem_singleton_self _) with wasFree | beyond
    · exact used (same ▸ wasFree)
    · exact absurd holds.present.2 (by omega)

/-- `bta_split_node_as_parent` of a node whose page does not keep the list of
free pages, or keeps an empty one. -/
theorem btaSplitNodeAsParent_halved (noneFree : node.pageNumber = 1 → free = [])
    (room : disk.maxPage + 2 < pageIdLimit) :
    ∃ left right parent after,
      btaSplitNodeAsParent node disk =
        (.ok ⟨left.pageNumber, splitKey node, right.pageNumber⟩, after) ∧
      Halved after free.tail.tail node left right ∧
      Holds after parent ∧ parent.pageNumber = node.pageNumber ∧
      HasSlots parent [⟨left.pageNumber, splitKey node⟩] ∧
      parent.rightChild = right.pageNumber ∧
      Updates disk free after free.tail.tail [node.pageNumber]
        [left.pageNumber, right.pageNumber] := by
  obtain ⟨left, right, copied, highKey, second, halves⟩ :=
    belowHalves_of_table roomy store holds table nonempty room
  obtain ⟨pivot, pivotHere, pivotKey⟩ := halves.pivotHere
  have keyEq : highKey = splitKey node := by
    rw [splitKey_eq pivotHere, pivotKey]
  subst keyEq
  obtain ⟨_, leftWritten⟩ := halves.leftWritten
  obtain ⟨_, rightWritten⟩ := halves.rightWritten
  have pages := halves.apart store holds used
  rw [List.nodup_cons, List.nodup_cons, List.mem_cons, List.mem_singleton,
    List.mem_singleton, not_or] at pages
  obtain ⟨⟨leftRight, leftNode⟩, rightNode, _⟩ := pages
  have usedThen : node.pageNumber ∉ free.tail.tail := fun member =>
    used (List.mem_of_mem_tail (List.mem_of_mem_tail member))
  have present : copied.pageNumber ≠ 0 ∧
      copied.pageNumber ≤ second.maxPage := by
    rw [halves.copiedPage]
    exact ⟨holds.present.1,
      Nat.le_trans holds.present.2 halves.updates.grows⟩
  have copiedFresh : MetaFresh free.tail.tail copied := by
    refine ⟨?_, ?_⟩
    · rw [halves.copiedMeta]
      exact metaFresh.size
    · rw [halves.copiedPage, halves.copiedMeta]
      intro isFirst
      rw [metaFresh.first isFirst, noneFree isFirst]
      rfl
  obtain ⟨metaBytes, after, persistEq, parentHolds, _, persisted⟩ :=
    nodercPersist_existing halves.updates.store halves.copiedOk
      halves.copiedEncodable
      (halves.copiedSize.trans halves.updates.pageSize.symm) present
      (by rw [halves.copiedPage]; exact usedThen) copiedFresh
  have whole := halves.updates.trans persisted
  rw [halves.copiedPage, List.append_nil, List.nil_append] at whole
  have stays : ∀ {half : BTreeNode}, Holds second half →
      half.pageNumber ≠ node.pageNumber → Holds after half := by
    intro half held other
    refine persisted.holds held ?_ List.not_mem_nil
    rw [halves.copiedPage]
    exact fun member => other (List.mem_singleton.mp member)
  have distinct := whole.distinct
  rw [List.cons_append, List.cons_append, List.nil_append, List.nodup_cons,
    List.nodup_cons, List.mem_cons, not_or] at distinct
  refine ⟨left, right, _, after, halves.runs _ _ persistEq,
    ⟨stays leftWritten.holds leftNode, stays rightWritten.holds rightNode,
      halves.leftNotFirst, halves.rightNotFirst, distinct.1.2, distinct.2.1,
      leftRight, leftWritten.entries_eq, rightWritten.entries_eq,
      halves.parts⟩, parentHolds, halves.copiedPage,
    ⟨halves.copiedInner, halves.copiedEntries, ?_⟩, halves.copiedRight, whole⟩
  intro slot member
  rw [List.mem_singleton.mp member]
  exact Nat.lt_trans halves.leftSmall (by decide)

end Splits

/-! ## A node in two -/

/-- A node on a disk has become two nodes, and a record that it did not take is
in one of them. -/
structure Divided (disk : Disk) (free : List Nat) (node : BTreeNode)
    (key : Nat) (data : List UInt8) (after : Disk) (rest : List Nat)
    (left right : BTreeNode) (entry : Entry) (new chain : List Nat) :
    Prop where
  leftHolds : Holds after left
  rightHolds : Holds after right
  leftIsLeaf : left.isLeaf = node.isLeaf
  rightIsLeaf : right.isLeaf = node.isLeaf
  leftSmall : SmallCells left
  rightSmall : SmallCells right
  rightChild : node.isLeaf = false → right.rightChild = node.rightChild
  entriesEq : leftPart left (splitKey node) ++ right.entries =
    node.entries.insertIdx (keyPlace node.entries key) entry
  low : ∀ other ∈ leftPart left (splitKey node), other.key ≤ splitKey node
  high : ∀ other ∈ right.entries, splitKey node < other.key
  pivot : ∃ other ∈ leftPart left (splitKey node), other.key = splitKey node
  rightSome : ∃ other, other ∈ right.entries
  key_eq : entry.key = key
  resolves : Resolves after entry data chain
  inline : InlineIfSmall (heapCapacity 0 disk.pageSize / 4) key data entry
  notFirst : 1 ∉ chain
  newNotFirst : 1 ∉ new
  few : chain.length ≤ data.length + 1
  updates : Updates disk free after rest [node.pageNumber] (new ++ chain)

section Divided

variable {disk middle after : Disk} {free between rest new chain : List Nat}
variable {node left right left' right' : BTreeNode} {key : Nat}
variable {data : List UInt8} {entry : Entry}

/-- What stands between the entries of the halves: in an inner node the slot
that is the right child of the left half. -/
def middlePart (left : BTreeNode) (highKey : Nat) : List Entry :=
  if left.isLeaf then [] else [(Slot.mk left.rightChild highKey).entry]

theorem leftPart_eq (left : BTreeNode) (highKey : Nat) :
    leftPart left highKey = left.entries ++ middlePart left highKey := by
  unfold leftPart middlePart
  split
  · rw [List.append_nil]
  · rfl

/-- The entry changes no half but by joining it. -/
theorem HalfWritten.grows {highKey : Nat}
    (written : HalfWritten middle between left right highKey key data after rest
      left' right' entry chain) :
    left.entries ⊆ left'.entries ∧ right.entries ⊆ right'.entries := by
  have joins : ∀ {entries : List Entry},
      entries ⊆ entries.insertIdx (keyPlace entries key) entry := by
    intro entries other member
    exact (ListEdit.mem_insertIdx_iff (keyPlace_le _ _)).mpr (Or.inr member)
  by_cases isBelow : key ≤ highKey
  · obtain ⟨leftEq, rightEq⟩ := written.below isBelow
    rw [leftEq, rightEq]
    exact ⟨joins, List.Subset.refl _⟩
  · obtain ⟨leftEq, rightEq⟩ := written.above isBelow
    rw [leftEq, rightEq]
    exact ⟨List.Subset.refl _, joins⟩

/-- Halves with the record in one of them. -/
theorem HalfWritten.divided
    (halved : Halved middle between node left right)
    (written : HalfWritten middle between left right (splitKey node) key data
      after rest left' right' entry chain)
    (increase : KeysIncrease node.entries) (several : 2 ≤ node.numKeys)
    (split : Updates disk free middle between [node.pageNumber] new)
    (pages : ∀ page, page = left.pageNumber ∨ page = right.pageNumber →
      page ∈ [node.pageNumber] ∨ page ∈ new)
    (newEq : ∀ page ∈ new, page = left.pageNumber ∨ page = right.pageNumber) :
    Divided disk free node key data after rest left' right' entry new chain := by
  have parts := halved.parts
  obtain ⟨_, leftLeaf, leftChild⟩ := written.leftSame
  obtain ⟨_, rightLeaf, rightChild⟩ := written.rightSame
  have middleEq : middlePart left' (splitKey node) =
      middlePart left (splitKey node) := by
    unfold middlePart
    rw [leftLeaf, leftChild]
  have wholeEq : node.entries = left.entries ++
      (middlePart left (splitKey node) ++ right.entries) := by
    rw [parts.entriesEq, leftPart_eq, List.append_assoc]
  have low : ∀ other ∈ left.entries ++ middlePart left (splitKey node),
      other.key ≤ splitKey node := by
    rw [← leftPart_eq]
    exact parts.highKey_max
  have high : ∀ other ∈ right.entries, splitKey node < other.key := by
    intro other member
    obtain ⟨pivot, inLeft, pivotKey⟩ := parts.highKey_mem
    have ordered := increase
    rw [parts.entriesEq] at ordered
    have less := (List.pairwise_append.mp ordered).2.2 pivot inLeft other member
    rw [pivotKey] at less
    exact less
  have highMiddle : ∀ other ∈ middlePart left (splitKey node) ++ right.entries,
      splitKey node ≤ other.key := by
    intro other member
    rcases List.mem_append.mp member with inMiddle | inRight
    · unfold middlePart at inMiddle
      split at inMiddle
      · exact absurd inMiddle List.not_mem_nil
      · rw [List.mem_singleton.mp inMiddle]
        exact Nat.le_refl _
    · exact Nat.le_of_lt (high other inRight)
  obtain ⟨touched, updates, touchedEq⟩ := written.updates
  have inserted := written.entries_eq low highMiddle
  rw [← wholeEq, ← List.append_assoc, ← middleEq, ← leftPart_eq] at inserted
  refine ⟨written.leftHolds, written.rightHolds, leftLeaf.trans parts.leftIsLeaf,
    rightLeaf.trans parts.rightIsLeaf, written.leftSmall, written.rightSmall,
    fun isInner => rightChild.trans (parts.rightChild isInner), inserted, ?_, ?_,
    ?_, ?_, written.key_eq, written.resolves, ?_, written.notFirst, ?_,
    written.few, ?_⟩
  · rw [leftPart_eq, middleEq]
    intro other member
    rcases List.mem_append.mp member with inLeft | inMiddle
    · by_cases isBelow : key ≤ splitKey node
      · rw [(written.below isBelow).1] at inLeft
        rcases (ListEdit.mem_insertIdx_iff (keyPlace_le _ _)).mp inLeft with
          rfl | old
        · rw [written.key_eq]
          exact isBelow
        · exact low other (List.mem_append_left _ old)
      · rw [(written.above isBelow).1] at inLeft
        exact low other (List.mem_append_left _ inLeft)
    · exact low other (List.mem_append_right _ inMiddle)
  · intro other member
    by_cases isBelow : key ≤ splitKey node
    · rw [(written.below isBelow).2] at member
      exact high other member
    · rw [(written.above isBelow).2] at member
      rcases (ListEdit.mem_insertIdx_iff (keyPlace_le _ _)).mp member with
        rfl | old
      · rw [written.key_eq]
        exact Nat.lt_of_not_le isBelow
      · exact high other old
  · obtain ⟨pivot, inLeft, pivotKey⟩ := parts.highKey_mem
    rw [leftPart_eq, List.mem_append] at inLeft
    rw [leftPart_eq, middleEq]
    exact ⟨pivot, List.mem_append.mpr (inLeft.imp_left
      fun old => written.grows.1 old), pivotKey⟩
  · have some : right.entries ≠ [] := by
      rw [halved.rightEntries]
      refine List.ne_nil_of_length_pos ?_
      rw [List.length_drop, entries_length]
      unfold BTreeNode.numKeys at several ⊢
      omega
    obtain ⟨other, member⟩ := List.exists_mem_of_ne_nil _ some
    exact ⟨other, written.grows.2 member⟩
  · rw [← split.pageSize]
    exact written.inline
  · intro isNew
    rcases newEq 1 isNew with atLeft | atRight
    · exact halved.leftNotFirst atLeft.symm
    · exact halved.rightNotFirst atRight.symm
  · refine (split.trans updates).weaken ?_
    intro page member
    rcases List.mem_append.mp member with atNode | atHalf
    · exact Or.inl atNode
    · exact (pages page (touchedEq page atHalf)).imp_right
        (List.mem_append_left _)

end Divided

end BtreeDb
