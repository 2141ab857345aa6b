import Mathlib.Data.List.Nodup
import BtreeDb.Tree.Rebalance
import BtreeDb.Tree.Walk

/-!
# The records along a walk

The positions of `inOrder` hold the records of the tree, in order and each
once.
-/

namespace BtreeDb

open PagedTree

/-- The entry at a position. -/
def entryOn (disk : Disk) (position : Position) : Entry :=
  let node := loadedNode disk position.1
  entryAt node.heap (node.keyAt position.2.index)

theorem entryOn_eq {disk : Disk} {page index : Nat} {entry : Entry}
    (here : (loadedNode disk page).entries[index]? = some entry) :
    entryOn disk (page, ⟨.limIndex, index⟩) = entry := by
  unfold BTreeNode.entries at here
  rw [List.getElem?_map] at here
  obtain ⟨key, keyHere, entryEq⟩ := Option.map_eq_some_iff.mp here
  unfold entryOn BTreeNode.keyAt
  simp only [keyHere]
  exact entryEq

/-- The entries of a leaf are those of its positions. -/
theorem leafFrom_entries {disk : Disk} {page : Nat} :
    (leafFrom page (keysOn disk page) 0).map (entryOn disk) =
      (loadedNode disk page).entries := by
  unfold leafFrom
  refine List.ext_getElem ?_ ?_
  · unfold keysOn
    rw [List.length_map, List.length_map, List.length_range', entries_length]
  · intro index left right
    simp only [List.getElem_map, List.getElem_range', Nat.zero_add,
      Nat.one_mul]
    exact entryOn_eq (List.getElem?_eq_getElem right)

/-! ## Values of the positions -/

/-- How the items of a tree's nodes are read off positions: `records` picks
the items that are records. -/
structure ReadsRecords {γ β : Type} (tree : BTree) (disk : Disk)
    (holds : Nat → PNode γ → Prop) (value : Position → β)
    (records : List γ → List β) : Prop where
  reads : ∀ page content, holds page content → ReadsAs tree disk page content
  nil : records [] = []
  append : ∀ left right,
    records (left ++ right) = records left ++ records right
  leaf : ∀ page items, holds page (.leaf items) →
    (leafFrom page (keysOn disk page) 0).map value = records items
  inner : ∀ page kids seps, holds page (.inner kids seps) →
    ∀ index sep, seps[index]? = some sep →
      (ownPosition tree page index).map value = records [sep]

section Values

variable {γ β : Type} {tree : BTree} {disk : Disk}
variable {holds : Nat → PNode γ → Prop} {value : Position → β}
variable {records : List γ → List β}

theorem slotsFrom_values (readsRecords : ReadsRecords tree disk holds value records)
    {own below : Nat → List Position} :
    ∀ (rest : List (γ × PagedTree.Part γ)) (first : PagedTree.Part γ) (index : Nat),
      (below index).map value = records first.flat →
      (∀ place entry, rest[place]? = some entry →
        (own (index + place)).map value = records [entry.1] ∧
          (below (index + place + 1)).map value = records entry.2.flat) →
      (slotsFrom own below rest.length index).map value =
        records (first.flat ++ rightFlat rest)
  | [], first, index, firstEq, _ => by
      rw [List.length_nil, slotsFrom, firstEq]
      simp [rightFlat]
  | entry :: rest, first, index, firstEq, restEq => by
      obtain ⟨ownEq, belowEq⟩ := restEq 0 entry rfl
      have later := @slotsFrom_values readsRecords own below rest entry.2
        (index + 1) belowEq (by
          intro place other here
          have next := restEq (place + 1) other here
          rwa [← Nat.add_assoc, Nat.add_right_comm index place 1] at next)
      have flatEq : rightFlat (entry :: rest) =
          [entry.1] ++ (entry.2.flat ++ rightFlat rest) := rfl
      rw [Nat.add_zero] at ownEq
      rw [List.length_cons, slotsFrom, List.map_append, List.map_append,
        firstEq, ownEq, later, flatEq]
      simp only [readsRecords.append]

/-- The children of an inner node by their places. -/
theorem childPage_of_reads {page : Nat} {first : PagedTree.Part γ}
    {rest : List (γ × PagedTree.Part γ)}
    (read : ReadsAs tree disk page
      (.inner (first.kid :: rightKids rest) (rest.map Prod.fst))) :
    keysOn disk page = rest.length ∧
      childPage tree disk page 0 = first.kid ∧
      ∀ place entry, rest[place]? = some entry →
        childPage tree disk page (place + 1) = entry.2.kid := by
  obtain ⟨_, count, childReads⟩ := read.inner _ _ rfl
  refine ⟨?_, ?_, ?_⟩
  · rw [count, List.length_map]
  · unfold childPage
    rw [childReads 0 first.kid rfl]
  · intro place entry here
    unfold childPage
    rw [childReads (place + 1) entry.2.kid (by
      rw [List.getElem?_cons_succ, rightKids, List.getElem?_map, here]
      rfl)]

theorem inOrder_values
    (readsRecords : ReadsRecords tree disk holds value records) :
    ∀ {height page : Nat} {pages : List Nat} {flat : List γ},
      TreeAt holds height page pages flat →
        (inOrder tree disk height page).map value = records flat := by
  intro height
  induction height with
  | zero =>
      rintro page pages flat ⟨here, _⟩
      exact readsRecords.leaf page flat here
  | succ height inductionHypothesis =>
      rintro page pages flat
        ⟨first, rest, here, firstTree, restTrees, _, rfl⟩
      obtain ⟨count, firstKid, restKids⟩ :=
        childPage_of_reads (readsRecords.reads page _ here)
      rw [inOrder, count]
      refine slotsFrom_values readsRecords rest first 0 ?_ ?_
      · rw [firstKid]
        exact inductionHypothesis firstTree
      · intro place entry entryHere
        rw [Nat.zero_add]
        refine ⟨readsRecords.inner page _ _ here place entry.1 ?_, ?_⟩
        · rw [List.getElem?_map, entryHere]
          rfl
        · rw [restKids place entry entryHere]
          exact inductionHypothesis
            (restTrees entry (List.mem_of_getElem? entryHere))

/-! ## Each position once -/

theorem slotsFrom_nodup {below : Nat → List Position} {page : Nat} :
    ∀ (rest : List (γ × PagedTree.Part γ)) (first : PagedTree.Part γ) (index : Nat),
      (page :: (first.pages ++ rightPages rest)).Nodup →
      (below index).Nodup ∧ (∀ position ∈ below index,
        position.1 ∈ first.pages) →
      (∀ place entry, rest[place]? = some entry →
        (below (index + place + 1)).Nodup ∧
          ∀ position ∈ below (index + place + 1),
            position.1 ∈ entry.2.pages) →
      (slotsFrom (ownPosition tree page) below rest.length index).Nodup ∧
        ∀ position ∈
            slotsFrom (ownPosition tree page) below rest.length index,
          position.1 ∈ first.pages ++ rightPages rest ∨
            position.1 = page ∧ index ≤ position.2.index
  | [], first, index, _, firstBelow, _ => by
      rw [List.length_nil, slotsFrom]
      refine ⟨firstBelow.1, ?_⟩
      intro position member
      exact Or.inl (List.mem_append_left _ (firstBelow.2 position member))
  | entry :: rest, first, index, distinct, firstBelow, restBelow => by
      have pagesEq : rightPages (entry :: rest) =
          entry.2.pages ++ rightPages rest := rfl
      rw [pagesEq] at distinct ⊢
      have parts := List.nodup_cons.mp distinct
      have split := List.nodup_append.mp parts.2
      have nextBelow := restBelow 0 entry rfl
      obtain ⟨laterNodup, laterPages⟩ := @slotsFrom_nodup below page rest entry.2
        (index + 1) (List.nodup_cons.mpr ⟨fun member => parts.1
          (List.mem_append_right _ member), split.2.1⟩) nextBelow (by
          intro place other here
          have next := restBelow (place + 1) other here
          rwa [← Nat.add_assoc, Nat.add_right_comm index place 1] at next)
      have ownPlace : ∀ position ∈ ownPosition tree page index,
          position.1 = page ∧ position.2.index = index := by
        intro position member
        unfold ownPosition at member
        split at member
        · cases member
        · rw [List.mem_singleton.mp member]
          exact ⟨rfl, rfl⟩
      have ownNodup : (ownPosition tree page index).Nodup := by
        unfold ownPosition
        split <;> simp
      rw [List.length_cons, slotsFrom]
      refine ⟨?_, ?_⟩
      · rw [List.nodup_append, List.nodup_append]
        refine ⟨firstBelow.1, ⟨ownNodup, laterNodup, ?_⟩, ?_⟩
        · intro position ownMember other laterMember same
          subst same
          obtain ⟨ownPage, ownIndex⟩ := ownPlace position ownMember
          rcases laterPages position laterMember with inPages | ⟨_, beyond⟩
          · rw [ownPage] at inPages
            exact parts.1 (List.mem_append_right _ inPages)
          · omega
        · intro position firstMember other otherMember same
          subst same
          have inFirst := firstBelow.2 position firstMember
          rcases List.mem_append.mp otherMember with ownMember | laterMember
          · rw [(ownPlace position ownMember).1] at inFirst
            exact parts.1 (List.mem_append_left _ inFirst)
          · rcases laterPages position laterMember with inPages | ⟨here, _⟩
            · exact split.2.2 _ inFirst _ inPages rfl
            · rw [here] at inFirst
              exact parts.1 (List.mem_append_left _ inFirst)
      · intro position member
        rcases List.mem_append.mp member with firstMember | otherMember
        · exact Or.inl (List.mem_append_left _
            (firstBelow.2 position firstMember))
        · rcases List.mem_append.mp otherMember with ownMember | laterMember
          · obtain ⟨ownPage, ownIndex⟩ := ownPlace position ownMember
            exact Or.inr ⟨ownPage, Nat.le_of_eq ownIndex.symm⟩
          · rcases laterPages position laterMember with inPages | ⟨here, beyond⟩
            · exact Or.inl (List.mem_append_right _ inPages)
            · exact Or.inr ⟨here, by omega⟩

theorem inOrder_nodup
    (reads : ∀ page content, holds page content →
      ReadsAs tree disk page content) :
    ∀ {height page : Nat} {pages : List Nat} {flat : List γ},
      TreeAt holds height page pages flat → pages.Nodup →
        (inOrder tree disk height page).Nodup ∧
          ∀ position ∈ inOrder tree disk height page, position.1 ∈ pages := by
  intro height
  induction height with
  | zero =>
      rintro page pages flat ⟨_, rfl⟩ _
      unfold inOrder leafFrom
      refine ⟨?_, ?_⟩
      · refine List.Nodup.map ?_ (List.nodup_range')
        intro left right same
        exact congrArg (fun position : Position => position.2.index) same
      · intro position member
        obtain ⟨index, _, rfl⟩ := List.mem_map.mp member
        exact List.mem_singleton_self _
  | succ height inductionHypothesis =>
      rintro page pages flat
        ⟨first, rest, here, firstTree, restTrees, pagesEq, _⟩ distinct
      obtain ⟨count, firstKid, restKids⟩ :=
        childPage_of_reads (reads page _ here)
      have spread := pagesEq.nodup_iff.mp distinct
      have parts := List.nodup_append.mp (List.nodup_cons.mp spread).2
      have whole := @slotsFrom_nodup γ tree
        (fun index =>
          inOrder tree disk height (childPage tree disk page index))
        page rest first 0 spread
        (by
          simp only [firstKid]
          exact inductionHypothesis firstTree parts.1)
        (by
          intro place entry entryHere
          have member := List.mem_of_getElem? entryHere
          simp only [Nat.zero_add, restKids place entry entryHere]
          refine inductionHypothesis (restTrees entry member) ?_
          exact (List.nodup_flatMap.mp parts.2.1).1 entry member)
      rw [inOrder, count]
      refine ⟨whole.1, ?_⟩
      intro position member
      refine pagesEq.mem_iff.mpr ?_
      rcases whole.2 position member with inPages | ⟨isPage, _⟩
      · exact List.mem_cons_of_mem _ inPages
      · rw [isPage]
        exact List.mem_cons_self

end Values

/-! ## Table trees -/

theorem TableHolds.readsRecords {tree : BTree} {disk : Disk} {free : List Nat}
    (isTable : tree.type = .table) (store : Store disk free) :
    ReadsRecords tree disk (TableHolds disk) (entryOn disk) entriesOf where
  reads := TableHolds.readsAs isTable store
  nil := rfl
  append := entriesOf_append
  leaf := by
    intro page items here
    generalize contents : PNode.leaf items = content at here
    cases here with
    | inner holds here isInner entriesEq children => cases contents
    | @leaf node holds here isLeaf small =>
        obtain ⟨metaBytes, loadedEq⟩ := holds.loadedNode_eq store
        subst here
        rw [PNode.leaf.inj contents, entriesOf_records, leafFrom_entries,
          loadedEq]
        rfl
  inner := by
    intro page kids seps here index sep sepHere
    generalize contents : PNode.inner kids seps = content at here
    cases here with
    | leaf holds here isLeaf small => cases contents
    | @inner node slots holds here isInner entriesEq children =>
        rw [(PNode.inner.inj contents).2, List.getElem?_map] at sepHere
        obtain ⟨slot, _, sepEq⟩ := Option.map_eq_some_iff.mp sepHere
        unfold ownPosition
        rw [isTable, ← sepEq]
        rfl

/-! ## Index trees -/

def recordOn (disk : Disk) (position : Position) : IndexRecord :=
  (entryOn disk position).record

theorem IndexHolds.readsRecords {tree : BTree} {disk : Disk} {free : List Nat}
    (isIndex : tree.type = .index) (store : Store disk free) :
    ReadsRecords tree disk (IndexHolds disk) (recordOn disk)
      (fun flat => flat) where
  reads := IndexHolds.readsAs isIndex store
  nil := rfl
  append := fun _ _ => rfl
  leaf := by
    intro page items here
    generalize contents : PNode.leaf items = content at here
    cases here with
    | inner holds here isInner small => cases contents
    | @leaf node holds here isLeaf small =>
        obtain ⟨metaBytes, loadedEq⟩ := holds.loadedNode_eq store
        subst here
        have values : recordOn disk = Entry.record ∘ entryOn disk := rfl
        rw [PNode.leaf.inj contents, values, ← List.map_map,
          leafFrom_entries, loadedEq]
        rfl
  inner := by
    intro page kids seps here index sep sepHere
    generalize contents : PNode.inner kids seps = content at here
    cases here with
    | leaf holds here isLeaf small => cases contents
    | @inner node holds here isInner small =>
        obtain ⟨metaBytes, loadedEq⟩ := holds.loadedNode_eq store
        subst here
        rw [(PNode.inner.inj contents).2, List.getElem?_map] at sepHere
        obtain ⟨entry, entryHere, sepEq⟩ := Option.map_eq_some_iff.mp sepHere
        have onPage : entryOn disk (node.pageNumber, ⟨.limIndex, index⟩) =
            entry := entryOn_eq (by rw [loadedEq]; exact entryHere)
        unfold ownPosition recordOn
        rw [isIndex]
        simp only [List.map_cons, List.map_nil, onPage, sepEq]

/-! ## Both kinds -/

/-- Iterating over a valid tree whose nodes all have keys, of at most eight
levels, visits the positions of its records in ascending order, each once, and
then reports the end. -/
theorem cursorWalk_in_order :
    (∀ {tree : BTree} {disk : Disk} {free pages : List Nat} {height : Nat}
      {flat : List Mark}, tree.type = .table →
      TableTree disk free tree.rootPageId height pages flat →
      EveryNodeKeyed tree disk height tree.rootPageId → height + 1 ≤ 8 →
        ∃ positions, WalksThrough tree disk positions ∧ positions.Nodup ∧
          positions.map (entryOn disk) = entriesOf flat ∧
          KeysIncrease (entriesOf flat)) ∧
    (∀ {before : IndexRecord → IndexRecord → Prop} {tree : BTree} {disk : Disk}
      {free pages : List Nat} {height : Nat} {flat : List IndexRecord},
      tree.type = .index →
      IndexTree before disk free tree.rootPageId height pages flat →
      EveryNodeKeyed tree disk height tree.rootPageId → height + 1 ≤ 8 →
        ∃ positions, WalksThrough tree disk positions ∧ positions.Nodup ∧
          positions.map (recordOn disk) = flat ∧ flat.Pairwise before) := by
  constructor
  · intro tree disk free pages height flat isTable valid keyed low
    have distinct := (List.nodup_append.mp valid.apart).1
    exact ⟨_, walksThrough_inOrder ⟨valid.wellShaped isTable, keyed⟩ low,
      (inOrder_nodup (TableHolds.readsAs isTable valid.store) valid.tree
        distinct).1,
      inOrder_values (TableHolds.readsRecords isTable valid.store) valid.tree,
      keysIncrease_entriesOf valid.ordered⟩
  · intro before tree disk free pages height flat isIndex valid keyed low
    have distinct := (List.nodup_append.mp valid.apart).1
    exact ⟨_, walksThrough_inOrder ⟨valid.wellShaped isIndex, keyed⟩ low,
      (inOrder_nodup (IndexHolds.readsAs isIndex valid.store) valid.tree
        distinct).1,
      inOrder_values (IndexHolds.readsRecords isIndex valid.store) valid.tree,
      valid.ordered⟩

/-! ## Walks over two small trees -/

instance decidableEveryNodeKeyed (tree : BTree) (disk : Disk) :
    (height page : Nat) → Decidable (EveryNodeKeyed tree disk height page)
  | 0, page => inferInstanceAs (Decidable (0 < keysOn disk page))
  | height + 1, page =>
      have (child : Nat) : Decidable (EveryNodeKeyed tree disk height child) :=
        decidableEveryNodeKeyed tree disk height child
      decidable_of_iff
        (0 < keysOn disk page ∧ ∀ index, index < keysOn disk page + 1 →
          EveryNodeKeyed tree disk height (childPage tree disk page index))
        (and_congr Iff.rfl (forall_congr' fun index => by
          rw [Nat.lt_succ_iff]))

/-- Seven records, those of the inner nodes among them. -/
def indexDisk : Disk :=
  diskOfNodes 216
    [(false, 3, [(2, [40])]), (false, 5, [(4, [20])]), (false, 7, [(6, [60])]),
      (true, 0, [(0, [10])]), (true, 0, [(0, [30])]), (true, 0, [(0, [50])]),
      (true, 0, [(0, [70])])]

def indexTree : BTree := ⟨1, .index, 1⟩

theorem small_walks_in_order :
    (∃ pages flat positions,
      checkTable deepDisk [] 1 3 = some (pages, flat) ∧
      WalksThrough deepTree deepDisk positions ∧
      positions.map (entryOn deepDisk) = entriesOf flat) ∧
    ∃ pages flat positions,
      checkIndex indexDisk [] 1 2 = some (pages, flat) ∧
      WalksThrough indexTree indexDisk positions ∧
      positions.map (recordOn indexDisk) = flat := by
  constructor
  · obtain ⟨⟨pages, flat⟩, checkEq⟩ :=
      Option.isSome_iff_exists.mp deepDisk_checked
    obtain ⟨positions, walks, _, values, _⟩ :=
      cursorWalk_in_order.1 (rfl : deepTree.type = .table)
        (checkTable_sound checkEq) (by decide +kernel) (by decide)
    exact ⟨pages, flat, positions, checkEq, walks, values⟩
  · have checked : (checkIndex indexDisk [] 1 2).isSome = true := by
      decide +kernel
    obtain ⟨⟨pages, flat⟩, checkEq⟩ := Option.isSome_iff_exists.mp checked
    have ordered : ∀ flat, (checkIndex indexDisk [] 1 2).map Prod.snd =
        some flat → flat.Pairwise fun left right : IndexRecord =>
          left.cell < right.cell := by
      intro flat flatEq
      have all : ∀ flat ∈ (checkIndex indexDisk [] 1 2).map Prod.snd,
          flat.Pairwise fun left right : IndexRecord =>
            left.cell < right.cell := by
        decide +kernel
      exact all flat flatEq
    obtain ⟨positions, walks, _, values, _⟩ :=
      cursorWalk_in_order.2 (rfl : indexTree.type = .index)
        (checkIndex_sound checkEq (ordered flat (by rw [checkEq]; rfl)))
        (by decide +kernel) (by decide)
    exact ⟨pages, flat, positions, checkEq, walks, values⟩

end BtreeDb
