import BtreeDb.Node.Layout
import BtreeDb.Tree.Cursor

/-!
# Searching a node

In a node with increasing keys both key searches of the code look for the
number of entries with a smaller key.  The search of the writer takes the
number of keys as an `unsigned char`, so in a larger node it sees a part of
the keys only.
-/

namespace BtreeDb

open BinarySearch

theorem initKeylistindexFromIndex_index {node : BTreeNode} {index : Nat}
    (inside : index ≤ node.numKeys) :
    (initKeylistindexFromIndex node index).index = index := by
  unfold initKeylistindexFromIndex
  split
  · rfl
  · split
    · simp only
      omega
    · simp only
      omega

theorem initKeylistindexFromIndex_mode_iff {node : BTreeNode} {index : Nat} :
    (initKeylistindexFromIndex node index).mode = .limIndex ↔
      index < node.numKeys := by
  unfold initKeylistindexFromIndex
  split
  · rename_i inside
    exact ⟨fun _ => inside, fun _ => rfl⟩
  · rename_i outside
    refine ⟨fun atIndex => ?_, fun inside => absurd inside outside⟩
    split at atIndex <;> cases atIndex

/-- How many of the leading entries have a smaller key. -/
def keyPlace (entries : List Entry) (key : Nat) : Nat :=
  lowerBound (fun entry => compare entry.key key) entries

theorem lowerBound_map {α β : Type} (order : β → Ordering) (f : α → β)
    (items : List α) :
    lowerBound order (items.map f) =
      lowerBound (fun item => order (f item)) items := by
  unfold lowerBound
  rw [List.takeWhile_map, List.length_map]
  rfl

theorem keyPlace_keys (node : BTreeNode) (key : Nat) :
    lowerBound (fun pageKey : PageKey => compare pageKey.key key) node.keys =
      keyPlace node.entries key := by
  unfold keyPlace BTreeNode.entries
  rw [lowerBound_map]
  rfl

def KeysIncrease (entries : List Entry) : Prop :=
  entries.Pairwise fun left right => left.key < right.key

theorem KeysIncrease.ordered {entries : List Entry}
    (increase : KeysIncrease entries) (key : Nat) :
    entries.Pairwise fun left right =>
      compare left.key key = .lt ∨ compare right.key key = .gt := by
  refine List.Pairwise.imp ?_ increase
  intro left right less
  rw [Nat.compare_eq_lt, Nat.compare_eq_gt]
  omega

theorem keyPlace_le (entries : List Entry) (key : Nat) :
    keyPlace entries key ≤ entries.length :=
  lowerBound_le _ _

theorem take_keyPlace {entries : List Entry} {key : Nat} :
    ∀ entry ∈ entries.take (keyPlace entries key), entry.key < key := by
  intro entry member
  have less := @take_lowerBound Entry (fun other => compare other.key key) _ _
    member
  exact Nat.compare_eq_lt.mp less

theorem drop_keyPlace {entries : List Entry} {key : Nat}
    (increase : KeysIncrease entries) :
    ∀ entry ∈ entries.drop (keyPlace entries key), key ≤ entry.key := by
  intro entry member
  have notLess := @drop_lowerBound Entry (fun other => compare other.key key)
    _ _ (increase.ordered key) member
  simp only [Ne, Nat.compare_eq_lt] at notLess
  omega

/-- An entry with the key is at the key's place. -/
theorem keyPlace_present {entries : List Entry} {key : Nat} {entry : Entry}
    (increase : KeysIncrease entries) (member : entry ∈ entries)
    (same : entry.key = key) :
    entries[keyPlace entries key]? = some entry := by
  obtain ⟨index, bound, rfl⟩ := List.getElem_of_mem member
  have place := keyPlace_le entries key
  rcases Nat.lt_trichotomy index (keyPlace entries key) with
    below | exactly | above
  · have inFront : entries[index] ∈ entries.take (keyPlace entries key) :=
      List.mem_iff_getElem?.mpr ⟨index, by
        rw [List.getElem?_take_of_lt below, List.getElem?_eq_getElem bound]⟩
    have less := take_keyPlace _ inFront
    omega
  · rw [← exactly, List.getElem?_eq_getElem bound]
  · have inside : keyPlace entries key < entries.length := by omega
    have atPlace : entries[keyPlace entries key] ∈
        entries.drop (keyPlace entries key) := by
      rw [List.drop_eq_getElem_cons inside]
      exact List.mem_cons_self
    have least := drop_keyPlace increase _ atPlace
    have less := List.pairwise_iff_getElem.mp increase _ _ inside bound above
    omega

theorem btreeNodeSearchKeys_eq {node : BTreeNode} {key : Nat}
    (increase : KeysIncrease node.entries) :
    btreeNodeSearchKeys node key =
      (decide (∃ entry ∈ node.entries, entry.key = key),
        keyPlace node.entries key) := by
  have ordered : node.keys.Pairwise fun left right : PageKey =>
      compare left.key key = .lt ∨ compare right.key key = .gt := by
    have entriesOrdered := increase.ordered key
    unfold BTreeNode.entries at entriesOrdered
    rw [List.pairwise_map] at entriesOrdered
    exact entriesOrdered
  unfold btreeNodeSearchKeys
  rw [search_ordered ordered, keyPlace_keys]
  congr 1
  rw [decide_eq_decide]
  constructor
  · rintro ⟨inside, equal⟩
    rw [compareAt, List.getElem?_eq_getElem inside] at equal
    exact ⟨_, List.mem_map_of_mem (List.getElem_mem inside),
      Nat.compare_eq_eq.mp equal⟩
  · rintro ⟨entry, member, same⟩
    have present := keyPlace_present increase member same
    have inside := (List.getElem?_eq_some_iff.mp present).1
    unfold BTreeNode.entries at present
    rw [List.getElem?_map] at present
    rw [entries_length] at inside
    refine ⟨inside, ?_⟩
    unfold compareAt
    cases found : node.keys[keyPlace node.entries key]? with
    | none =>
        rw [List.getElem?_eq_none_iff] at found
        omega
    | some pageKey =>
        unfold BTreeNode.entries at found
        rw [found] at present
        have entryEq := Option.some.inj present
        rw [← entryEq] at same
        exact Nat.compare_eq_eq.mpr same

/-- The writer's search sees enough of the keys to find the key's place. -/
def PlacesRight (keys : List PageKey) (key : Nat) : Prop :=
  (btuBinarySearchKeys keys key).2 =
    lowerBound (fun pageKey : PageKey => compare pageKey.key key) keys

instance (keys : List PageKey) (key : Nat) : Decidable (PlacesRight keys key) :=
  inferInstanceAs (Decidable (_ = _))

theorem PlacesRight.place {node : BTreeNode} {key : Nat}
    (right : PlacesRight node.keys key) :
    (btuBinarySearchKeys node.keys key).2 = keyPlace node.entries key := by
  rw [← keyPlace_keys]
  exact right

/-- The search reads nothing but the keys. -/
theorem PlacesRight.congr {keys others : List PageKey} {key : Nat}
    (right : PlacesRight keys key)
    (same : others.map PageKey.key = keys.map PageKey.key) :
    PlacesRight others key := by
  have lengths := congrArg List.length same
  rw [List.length_map, List.length_map] at lengths
  have sameCompare : compareAt
      (fun pageKey : PageKey => compare pageKey.key key) others =
      compareAt (fun pageKey : PageKey => compare pageKey.key key) keys := by
    funext index
    have item := congrArg (fun list => list[index]?) same
    simp only [List.getElem?_map] at item
    unfold compareAt
    cases left : others[index]? <;> cases right : keys[index]? <;>
      simp_all
  have sameBound := congrArg
    (lowerBound fun value : Nat => compare value key) same
  rw [lowerBound_map, lowerBound_map] at sameBound
  unfold PlacesRight btuBinarySearchKeys at right ⊢
  rw [sameCompare, lengths, right, sameBound]

theorem placesRight_of_length {keys : List PageKey} {key : Nat}
    (ordered : keys.Pairwise fun left right => left.key < right.key)
    (few : keys.length < 2 ^ 8) : PlacesRight keys key := by
  unfold PlacesRight btuBinarySearchKeys
  rw [Nat.mod_eq_of_lt few, search_ordered]
  refine ordered.imp ?_
  intro left right less
  rw [Nat.compare_eq_lt, Nat.compare_eq_gt]
  omega

/-! ## The two searches -/

/-- Both searches give the first position whose key is not smaller, and say
whether the key is there. -/
structure SearchesAgree (node : BTreeNode) (key : Nat) : Prop where
  same : btuBinarySearchKeys node.keys key = btreeNodeSearchKeys node key
  index_eq : (btuBinarySearchKeys node.keys key).2 = keyPlace node.entries key
  found_iff : (btuBinarySearchKeys node.keys key).1 = true ↔
    ∃ entry ∈ node.entries, entry.key = key

theorem KeysIncrease.keysOrdered {node : BTreeNode}
    (increase : KeysIncrease node.entries) (key : Nat) :
    node.keys.Pairwise fun left right : PageKey =>
      compare left.key key = .lt ∨ compare right.key key = .gt := by
  have entriesOrdered := increase.ordered key
  unfold BTreeNode.entries at entriesOrdered
  rw [List.pairwise_map] at entriesOrdered
  exact entriesOrdered

/-- What the writer's search gives: it sees the first keys only. -/
theorem btuBinarySearchKeys_eq {node : BTreeNode} (key : Nat)
    (increase : KeysIncrease node.entries) :
    btuBinarySearchKeys node.keys key =
      (decide (min (keyPlace node.entries key) (node.numKeys % 2 ^ 8) <
          node.numKeys % 2 ^ 8 ∧
        compareAt (fun pageKey : PageKey => compare pageKey.key key) node.keys
          (min (keyPlace node.entries key) (node.numKeys % 2 ^ 8)) = .eq),
        min (keyPlace node.entries key) (node.numKeys % 2 ^ 8)) := by
  have splits := splits_lowerBound (increase.keysOrdered key)
  rw [keyPlace_keys] at splits
  exact search_eq_of_splits (splits.first (Nat.mod_le _ _))

/-- The searches agree exactly when the keys that the writer's search does not
see are all greater. -/
theorem searchesAgree_iff {node : BTreeNode} (key : Nat)
    (increase : KeysIncrease node.entries) :
    SearchesAgree node key ↔
      ∀ pageKey ∈ node.keys.drop (node.numKeys % 2 ^ 8),
        key < pageKey.key := by
  have writerEq := btuBinarySearchKeys_eq key increase
  have readerEq := @btreeNodeSearchKeys_eq node key increase
  have splits := splits_lowerBound (increase.keysOrdered key)
  rw [keyPlace_keys] at splits
  have seen : node.numKeys % 2 ^ 8 ≤ node.keys.length := Nat.mod_le _ _
  generalize node.numKeys % 2 ^ 8 = few at *
  constructor
  · intro agree pageKey member
    have placeLe : keyPlace node.entries key ≤ few := by
      have index := agree.index_eq
      rw [writerEq] at index
      simp only at index
      omega
    obtain ⟨offset, bound, rfl⟩ := List.getElem_of_mem member
    rw [List.length_drop] at bound
    rw [List.getElem_drop]
    have inside : few + offset < node.keys.length := by omega
    by_cases beyond : keyPlace node.entries key < few + offset
    · have greater := splits.after _ beyond inside
      rw [compareAt, List.getElem?_eq_getElem inside] at greater
      exact Nat.compare_eq_gt.mp greater
    · have atPlace : few + offset = keyPlace node.entries key := by omega
      have notLess := splits.here (by omega)
      rw [← atPlace, compareAt, List.getElem?_eq_getElem inside] at notLess
      have missed : ¬ ∃ entry ∈ node.entries, entry.key = key := by
        rw [← agree.found_iff, writerEq]
        simp only [decide_eq_true_eq]
        omega
      have apart : node.keys[few + offset].key ≠ key := fun same =>
        missed ⟨_, List.mem_map_of_mem (List.getElem_mem inside), same⟩
      simp only [Ne, Nat.compare_eq_lt] at notLess
      omega
  · intro unseenGreater
    have placeLe : keyPlace node.entries key ≤ few := by
      by_contra beyond
      have inside : few < node.keys.length := by
        have bound := splits.le
        omega
      have less := splits.before few (by omega)
      rw [compareAt, List.getElem?_eq_getElem inside] at less
      have greater := unseenGreater node.keys[few] (by
        rw [List.drop_eq_getElem_cons inside]
        exact List.mem_cons_self)
      have smaller := Nat.compare_eq_lt.mp less
      omega
    have sameIndex : min (keyPlace node.entries key) few =
        keyPlace node.entries key := Nat.min_eq_left placeLe
    have foundIff : (btuBinarySearchKeys node.keys key).1 = true ↔
        ∃ entry ∈ node.entries, entry.key = key := by
      rw [writerEq, sameIndex]
      simp only [decide_eq_true_eq]
      constructor
      · rintro ⟨inside, equal⟩
        have bound : keyPlace node.entries key < node.keys.length := by omega
        rw [compareAt, List.getElem?_eq_getElem bound] at equal
        exact ⟨_, List.mem_map_of_mem (List.getElem_mem bound),
          Nat.compare_eq_eq.mp equal⟩
      · rintro ⟨entry, member, same⟩
        obtain ⟨pageKey, keyHere, entryEq⟩ :=
          entries_getElem? (keyPlace_present increase member same)
        have sameKey : pageKey.key = key := by
          rw [← same, entryEq]
          rfl
        refine ⟨?_, ?_⟩
        · by_contra unseen
          have atPlace : few = keyPlace node.entries key := by omega
          have greater := unseenGreater pageKey (List.mem_of_getElem? (by
            rw [atPlace, List.getElem?_drop, Nat.add_zero]
            exact keyHere))
          omega
        · rw [compareAt, keyHere]
          exact Nat.compare_eq_eq.mpr sameKey
    have indexEq : (btuBinarySearchKeys node.keys key).2 =
        keyPlace node.entries key := by
      rw [writerEq]
      exact sameIndex
    refine ⟨?_, indexEq, foundIff⟩
    rw [readerEq]
    refine Prod.ext ?_ indexEq
    rw [Bool.eq_iff_iff, foundIff, decide_eq_true_eq]

/-! ## A leaf with many keys -/

/-- A leaf with the keys `0 .. count - 1` and empty records, on a page that it
fills. -/
def emptyRecordsLeaf (count : Nat) : BTreeNode where
  pageNumber := 2
  metaBytes := List.replicate pagemetaSize 0
  leadBytes := []
  isLeaf := true
  freeHeap := 0
  rightChild := 0
  cellHighWaterOffset := 4 * count
  keys := (List.range count).map fun key =>
    ⟨key, 4 * (key + 1), cellTypeCode .cellTypeInline⟩
  heap := List.replicate (4 * count) 0

theorem emptyRecordsLeaf_increase (count : Nat) :
    KeysIncrease (emptyRecordsLeaf count).entries := by
  unfold KeysIncrease BTreeNode.entries emptyRecordsLeaf
  simp only [List.map_map, List.pairwise_map]
  exact List.pairwise_lt_range

theorem emptyRecordsLeaf_cellTotal (count offset : Nat) :
    cellTotal (emptyRecordsLeaf count).heap offset = 4 := by
  have zero : ∀ size, Bytes.fromLe (List.replicate size 0) = 0 := by
    intro size
    induction size with
    | zero => rfl
    | succ size inductionHypothesis =>
        rw [List.replicate_succ, Bytes.fromLe, inductionHypothesis]
        rfl
  unfold cellTotal cellInlineSize fromHighwater emptyRecordsLeaf Bytes.u32At
    Bytes.slice
  rw [List.drop_replicate, List.drop_replicate, List.take_replicate, zero]

theorem emptyRecordsLeaf_ok (count : Nat) :
    NodeOk (emptyRecordsLeaf count) := by
  have heapLength : (emptyRecordsLeaf count).heap.length = 4 * count :=
    List.length_replicate
  have cells : (emptyRecordsLeaf count).entries.map Entry.cellSize =
      List.replicate count 4 := by
    have each : ∀ key ∈ List.range count,
        4 + (cellAt (emptyRecordsLeaf count).heap (4 * (key + 1))).length =
          4 := by
      intro key member
      have bound := List.mem_range.mp member
      have total := emptyRecordsLeaf_cellTotal count (4 * (key + 1))
      have length := @cellAt_length (emptyRecordsLeaf count).heap
        (4 * (key + 1)) (by omega) (by omega)
      omega
    have whole := List.map_eq_replicate_iff.mpr each
    rw [List.length_range] at whole
    unfold BTreeNode.entries
    rw [List.map_map]
    unfold emptyRecordsLeaf at whole ⊢
    rw [List.map_map]
    exact whole
  refine ⟨rfl, by rw [heapLength]; exact Nat.zero_add _, ?_, ?_, ?_⟩
  · rw [cells, List.sum_replicate_nat]
    exact Nat.mul_comm 4 count
  · intro pageKey member
    obtain ⟨key, keyMember, rfl⟩ := List.mem_map.mp member
    have bound := List.mem_range.mp keyMember
    refine ⟨?_, ?_⟩
    · rw [emptyRecordsLeaf_cellTotal]
      simp only
      omega
    · change 4 * (key + 1) ≤ 4 * count
      omega
  · refine List.pairwise_map.mpr (List.pairwise_lt_range.imp ?_)
    intro left right less
    refine Or.inl ?_
    rw [emptyRecordsLeaf_cellTotal]
    simp only
    omega

theorem manyKeys_agree_iff :
    SearchesAgree (emptyRecordsLeaf 256) 5 ↔
      ∀ pageKey ∈ (emptyRecordsLeaf 256).keys.drop
        ((emptyRecordsLeaf 256).numKeys % 2 ^ 8), 5 < pageKey.key :=
  searchesAgree_iff 5 (emptyRecordsLeaf_increase 256)

/-- With 256 keys the writer's search sees none of them. -/
theorem writer_misses_present_key :
    NodeOk (emptyRecordsLeaf 256) ∧
      KeysIncrease (emptyRecordsLeaf 256).entries ∧
      ¬ SearchesAgree (emptyRecordsLeaf 256) 5 := by
  refine ⟨emptyRecordsLeaf_ok 256, emptyRecordsLeaf_increase 256, ?_⟩
  intro agree
  have nothing : (btuBinarySearchKeys (emptyRecordsLeaf 256).keys 5).1 =
      false := by
    have count : (emptyRecordsLeaf 256).keys.length % 2 ^ 8 = 0 := by
      unfold emptyRecordsLeaf
      rw [List.length_map, List.length_range]
      rfl
    unfold btuBinarySearchKeys
    rw [count]
    rfl
  have present : ∃ entry ∈ (emptyRecordsLeaf 256).entries, entry.key = 5 :=
    ⟨_, List.mem_map_of_mem (List.mem_map_of_mem
      (List.mem_range.mpr (show 5 < 256 by decide))), rfl⟩
  rw [agree.found_iff.mpr present] at nothing
  cases nothing

end BtreeDb
