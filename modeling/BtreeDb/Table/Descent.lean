import BtreeDb.Table.Insert
import BtreeDb.Table.Tree

/-!
# The way down a table tree

`cursor_traverse_to` goes to the leaf in which a key belongs.  It reports the
key as found when a record has it, and also when only a separator on the way
has it.
-/

namespace BtreeDb

open PagedTree

/-- The leaf in which a key belongs, in the tree around it. -/
structure Landing (disk : Disk) (root top key : Nat) (pages : List Nat)
    (flat : List Mark) (leaf : BTreeNode) (steps : List Step)
    (outside : List Nat) (before behind : List Mark) : Prop where
  holds : Holds disk leaf
  isLeaf : leaf.isLeaf = true
  small : ∀ entry ∈ leaf.entries,
    entry.heapSize ≤ btreeNodeMaxCellSize leaf
  path : Path (TableHolds disk) top root 0 leaf.pageNumber steps outside
    before behind
  flatEq : flat = before ++ (leaf.entries.map Mark.record ++ behind)
  below : ∀ mark ∈ before, mark.rank < 2 * key
  above : ∀ mark ∈ behind, 2 * key < mark.rank
  pagesEq : (outside ++ [leaf.pageNumber]).Perm pages

/-- The step that a breadcrumb stands for. -/
def crumbStep (crumb : CursorBreadcrumb) : Step where
  page := crumb.pageId
  index := crumb.keyIndex.index

/-- The index of the place of a key in its leaf. -/
def landingIndex (leaf : BTreeNode) (key : Nat) : ChildListIndex :=
  initKeylistindexFromIndex leaf (keyPlace leaf.entries key)

/-- Marks with the key that separators have. -/
theorem found_in_slots {slots : List Slot} {key : Nat} :
    (∃ entry ∈ slots.map Slot.entry, entry.key = key) ↔
      Mark.separator key ∈ slots.map fun slot => Mark.separator slot.key := by
  constructor
  · rintro ⟨entry, member, same⟩
    obtain ⟨slot, slotMember, rfl⟩ := List.mem_map.mp member
    exact List.mem_map.mpr ⟨slot, slotMember, congrArg Mark.separator same⟩
  · intro member
    obtain ⟨slot, slotMember, same⟩ := List.mem_map.mp member
    exact ⟨_, List.mem_map_of_mem slotMember, Mark.separator.inj same⟩

/-- A mark whose rank is beside the place of a key has another key, unless it
is a separator with the key. -/
theorem key_of_rank {mark : Mark} {key : Nat} (same : mark.key = key) :
    mark.rank = 2 * key ∨ mark = .separator key := by
  cases mark with
  | record entry => exact Or.inl (by rw [← same]; rfl)
  | separator other => exact Or.inr (congrArg Mark.separator same)

/-- The order of the children of an inner node around the place of a key. -/
theorem around_keyPlace {slots : List Slot} {key : Nat} {flat front back : List Mark}
    (sublist : (slots.map fun slot => Mark.separator slot.key).Sublist flat)
    (ordered : flat.Pairwise Before)
    (bounds : (∀ item ∈ front,
        ∃ sep ∈ (slots.map fun slot => Mark.separator slot.key).take
          (keyPlace (slots.map Slot.entry) key),
          item = sep ∨ Before item sep) ∧
      ∀ item ∈ back,
        ∃ sep ∈ (slots.map fun slot => Mark.separator slot.key).drop
          (keyPlace (slots.map Slot.entry) key),
          item = sep ∨ Before sep item) :
    KeysIncrease (slots.map Slot.entry) ∧
      (∀ mark ∈ front, mark.rank < 2 * key) ∧
      (∀ mark ∈ back, 2 * key < mark.rank) ∧
      ∀ mark ∈ back, mark.key = key →
        Mark.separator key ∈ slots.map fun slot => Mark.separator slot.key := by
  have sepsOrdered := ordered.sublist sublist
  have increase : KeysIncrease (slots.map Slot.entry) := by
    unfold KeysIncrease
    rw [List.pairwise_map] at sepsOrdered ⊢
    refine sepsOrdered.imp ?_
    intro left right before
    unfold Before Mark.rank at before
    unfold Slot.entry
    simp only at before ⊢
    omega
  have frontBelow : ∀ sep ∈ (slots.map fun slot => Mark.separator slot.key).take
      (keyPlace (slots.map Slot.entry) key), sep.rank < 2 * key := by
    intro sep member
    rw [← List.map_take] at member
    obtain ⟨slot, slotMember, rfl⟩ := List.mem_map.mp member
    have less := take_keyPlace slot.entry (by
      rw [← List.map_take]
      exact List.mem_map_of_mem slotMember)
    unfold Slot.entry at less
    unfold Mark.rank
    simp only at less ⊢
    omega
  have backAbove : ∀ sep ∈ (slots.map fun slot => Mark.separator slot.key).drop
      (keyPlace (slots.map Slot.entry) key), 2 * key < sep.rank := by
    intro sep member
    rw [← List.map_drop] at member
    obtain ⟨slot, slotMember, rfl⟩ := List.mem_map.mp member
    have least := drop_keyPlace increase slot.entry (by
      rw [← List.map_drop]
      exact List.mem_map_of_mem slotMember)
    unfold Slot.entry at least
    unfold Mark.rank
    simp only at least ⊢
    omega
  have backBeyond : ∀ mark ∈ back, 2 * key < mark.rank := by
    intro mark member
    obtain ⟨sep, sepMember, same | before⟩ := bounds.2 mark member
    · rw [same]
      exact backAbove sep sepMember
    · exact Nat.lt_trans (backAbove sep sepMember) before
  refine ⟨increase, ?_, backBeyond, ?_⟩
  · intro mark member
    obtain ⟨sep, sepMember, same | before⟩ := bounds.1 mark member
    · rw [same]
      exact frontBelow sep sepMember
    · exact Nat.lt_trans before (frontBelow sep sepMember)
  · intro mark member same
    have beyond := backBeyond mark member
    rcases key_of_rank same with atKey | isSeparator
    · omega
    · obtain ⟨sep, sepMember, itself | before⟩ := bounds.2 mark member
      · rw [← isSeparator, itself]
        exact List.mem_of_mem_drop sepMember
      · have least := backAbove sep sepMember
        unfold Before at before
        rw [isSeparator] at before
        have rankEq : (Mark.separator key).rank = 2 * key + 1 := rfl
        omega

theorem key_ne_of_rank_lt {mark : Mark} {key : Nat}
    (below : mark.rank < 2 * key) : mark.key ≠ key := by
  cases mark with
  | record entry =>
      unfold Mark.rank at below
      unfold Mark.key
      simp only at below ⊢
      omega
  | separator other =>
      unfold Mark.rank at below
      unfold Mark.key
      simp only at below ⊢
      omega

/-- The cursor with a crumb for a node. -/
def pushed (cursor : Cursor) (node : BTreeNode) (key : Nat) : Cursor where
  currentPageId := cursor.currentPageId
  currentKeyIndex := landingIndex node key
  breadcrumbs := ⟨landingIndex node key, cursor.currentPageId⟩ ::
    cursor.breadcrumbs

/-- One turn of the loop in a leaf. -/
theorem traverse_leaf (tree : BTree) {disk : Disk} {free : List Nat}
    {node : BTreeNode} {cursor : Cursor} (key fuel : Nat)
    (found : Bool) (store : Store disk free) (holds : Holds disk node)
    (here : cursor.currentPageId = node.pageNumber)
    (depth : cursor.breadcrumbs.length < maxBreadcrumbs)
    (increase : KeysIncrease node.entries) (isLeaf : node.isLeaf = true) :
    cursorTraverseLoop tree (fun node => pure (btreeNodeSearchKeys node key))
        (fuel + 1) cursor found disk =
      (.ok (found || decide (∃ entry ∈ node.entries, entry.key = key),
        pushed cursor node key), disk) := by
  obtain ⟨metaBytes, readEq, _⟩ := nodercReinitRead_holds holds store
  have searchEq : btreeNodeSearchKeys { node with metaBytes := metaBytes } key =
      (decide (∃ entry ∈ node.entries, entry.key = key),
        keyPlace node.entries key) := btreeNodeSearchKeys_eq increase
  unfold cursorTraverseLoop
  have placeEq : initKeylistindexFromIndex { node with metaBytes := metaBytes }
      (keyPlace node.entries key) = landingIndex node key := rfl
  rw [here, BtM.bind_ok readEq, searchEq, BtM.bind_ok (BtM.pure_apply _ disk)]
  simp only
  rw [cursorPush, if_neg (by simp only; omega),
    BtM.bind_ok (BtM.ofExcept_ok _ disk), placeEq]
  simp only [isLeaf, Bool.not_true, Bool.false_and, Bool.false_eq_true,
    if_false]
  unfold pushed
  rw [here]
  rfl

/-- One turn of the loop in an inner node. -/
theorem traverse_inner {tree : BTree} {disk : Disk} {free : List Nat}
    {node : BTreeNode} {slots : List Slot} {cursor : Cursor}
    {key hole : Nat} (fuel : Nat) (found : Bool)
    (isTable : tree.type = .table) (store : Store disk free) (holds : Holds disk node)
    (here : cursor.currentPageId = node.pageNumber)
    (depth : cursor.breadcrumbs.length < maxBreadcrumbs)
    (isInner : node.isLeaf = false)
    (entriesEq : node.entries = slots.map Slot.entry)
    (children : ∀ slot ∈ slots, slot.child < 2 ^ 32)
    (increase : KeysIncrease (slots.map Slot.entry))
    (holeHere : (slots.map Slot.child ++ [node.rightChild])[
      keyPlace (slots.map Slot.entry) key]? = some hole) :
    cursorTraverseLoop tree (fun node => pure (btreeNodeSearchKeys node key))
        (fuel + 1) cursor found disk =
      cursorTraverseLoop tree
        (fun node => pure (btreeNodeSearchKeys node key)) fuel
        { pushed cursor node key with currentPageId := hole }
        (found || decide (∃ entry ∈ slots.map Slot.entry, entry.key = key))
        disk := by
  obtain ⟨metaBytes, readEq, _⟩ := nodercReinitRead_holds holds store
  have searchEq : btreeNodeSearchKeys { node with metaBytes := metaBytes } key =
      (decide (∃ entry ∈ slots.map Slot.entry, entry.key = key),
        keyPlace (slots.map Slot.entry) key) := by
    rw [← entriesEq] at increase ⊢
    exact btreeNodeSearchKeys_eq increase
  have pageEq := readCellPage_table isTable (holds.withMeta metaBytes)
    entriesEq children holeHere
  have notIndex : (tree.type != .index) = true := by
    rw [isTable]
    rfl
  have placeEq : initKeylistindexFromIndex { node with metaBytes := metaBytes }
      (keyPlace (slots.map Slot.entry) key) = landingIndex node key := by
    unfold landingIndex
    rw [entriesEq]
    rfl
  conv_lhs => unfold cursorTraverseLoop
  rw [here, BtM.bind_ok readEq, searchEq, BtM.bind_ok (BtM.pure_apply _ disk)]
  simp only
  rw [cursorPush, if_neg (by simp only; omega),
    BtM.bind_ok (BtM.ofExcept_ok _ disk), pageEq, placeEq]
  simp only [isInner, Bool.not_false, Bool.true_and, notIndex, Bool.true_or,
    if_true]
  rw [BtM.bind_ok (BtM.ofExcept_ok _ disk)]
  unfold pushed
  rw [here]

theorem traverse_run {bTree : BTree} {disk : Disk} {free : List Nat} {top : Nat}
    (isTable : bTree.type = .table) (store : Store disk free) (root key : Nat) :
    ∀ {height page : Nat} {steps : List Step} {outside pages : List Nat}
      {before behind flat : List Mark} (cursor : Cursor) (fuel : Nat)
      (found : Bool),
      Path (TableHolds disk) top root height page steps outside before behind →
      TreeAt (TableHolds disk) height page pages flat →
      flat.Pairwise Before →
      (∀ mark ∈ before, mark.rank < 2 * key) →
      (∀ mark ∈ behind, 2 * key < mark.rank) →
      cursor.currentPageId = page →
      cursor.breadcrumbs.length + height < maxBreadcrumbs → height < fuel →
      ∃ hit leaf crumbs lowerSteps lowerOutside front back,
        cursorTraverseLoop bTree
            (fun node => pure (btreeNodeSearchKeys node key)) fuel cursor found
            disk =
          (.ok (hit,
            { currentPageId := leaf.pageNumber
              currentKeyIndex := landingIndex leaf key
              breadcrumbs := ⟨landingIndex leaf key, leaf.pageNumber⟩ ::
                (crumbs ++ cursor.breadcrumbs) }), disk) ∧
        lowerSteps = crumbs.map crumbStep ++ steps ∧
        Landing disk root top key (outside ++ pages)
          (before ++ (flat ++ behind)) leaf lowerSteps lowerOutside
          (before ++ front) (back ++ behind) ∧
        (hit = true ↔ found = true ∨ ∃ mark ∈ flat, mark.key = key) := by
  intro height
  induction height with
  | zero =>
      intro page steps outside pages before behind flat cursor fuel found path
        tree ordered below above atPage depth enough
      obtain ⟨here, pagesEq⟩ := tree
      generalize contents : PNode.leaf flat = content at here
      cases here with
      | inner holds here isInner entriesEq children => cases contents
      | @leaf node holds here isLeaf small =>
          have flatEq := PNode.leaf.inj contents
          obtain ⟨turns, rfl⟩ := Nat.exists_eq_succ_of_ne_zero
            (Nat.pos_iff_ne_zero.mp enough)
          rw [flatEq] at ordered
          have turn := traverse_leaf bTree key turns found store holds
            (atPage.trans here.symm) (by omega)
            (keysIncrease_of_before ordered) isLeaf
          subst here
          refine ⟨found || decide (∃ entry ∈ node.entries, entry.key = key),
            node, [], steps, outside, [], [], ?_, rfl, ?_, ?_⟩
          · rw [turn]
            unfold pushed
            rw [atPage]
            rfl
          · rw [List.append_nil, List.nil_append, flatEq, pagesEq]
            exact ⟨holds, isLeaf, small, path, rfl, below, above,
              List.Perm.refl _⟩
          · rw [flatEq, Bool.or_eq_true, decide_eq_true_eq]
            refine or_congr Iff.rfl ?_
            constructor
            · rintro ⟨entry, member, same⟩
              exact ⟨_, List.mem_map_of_mem member, same⟩
            · rintro ⟨mark, member, same⟩
              obtain ⟨entry, entryMember, rfl⟩ := List.mem_map.mp member
              exact ⟨entry, entryMember, same⟩
  | succ height inductionHypothesis =>
      intro page steps outside pages before behind flat cursor fuel found path
        tree ordered below above atPage depth enough
      obtain ⟨seps, kids, here, lengths, sublist, children⟩ := path.step tree
      generalize contents : PNode.inner kids seps = content at here
      cases here with
      | leaf holds here isLeaf small => cases contents
      | @inner node slots holds here isInner entriesEq childFits =>
          obtain ⟨kidsEq, sepsEq⟩ := PNode.inner.inj contents
          subst kidsEq sepsEq
          obtain ⟨turns, rfl⟩ := Nat.exists_eq_succ_of_ne_zero
            (Nat.pos_iff_ne_zero.mp (Nat.zero_lt_of_lt enough))
          have place := keyPlace_le (slots.map Slot.entry) key
          rw [List.length_map] at place
          obtain ⟨hole, holePages, holeFlat, holeOutside, front, back, holeHere,
            holeTree, holePath, flatEq, pagesEq, bounds⟩ :=
            children (keyPlace (slots.map Slot.entry) key)
              (by rw [List.length_map]; exact place)
          obtain ⟨increase, frontBelow, backAbove, backKey⟩ :=
            around_keyPlace sublist ordered (bounds Before ordered)
          have turn := traverse_inner turns found isTable store holds
            (atPage.trans here.symm) (by omega) isInner entriesEq childFits
            increase holeHere
          rw [flatEq] at ordered
          have parts := List.pairwise_append.mp ordered
          obtain ⟨hit, leaf, crumbs, lowerSteps, lowerOutside, innerFront,
            innerBack, runEq, stepsEq, landing, hitIff⟩ :=
            inductionHypothesis
              { pushed cursor node key with currentPageId := hole } turns
              (found ||
                decide (∃ entry ∈ slots.map Slot.entry, entry.key = key))
              holePath holeTree (List.pairwise_append.mp parts.2.1).1
              (by
                intro mark member
                rcases List.mem_append.mp member with outer | inner
                · exact below mark outer
                · exact frontBelow mark inner)
              (by
                intro mark member
                rcases List.mem_append.mp member with inner | outer
                · exact backAbove mark inner
                · exact above mark outer)
              rfl
              (by
                unfold pushed
                simp only [List.length_cons]
                omega)
              (Nat.lt_of_succ_lt_succ enough)
          refine ⟨hit, leaf, crumbs ++ [⟨landingIndex node key, page⟩],
            lowerSteps, lowerOutside, front ++ innerFront, innerBack ++ back,
            ?_, ?_, ?_, ?_⟩
          · rw [turn, runEq]
            unfold pushed
            rw [atPage, List.append_assoc]
            rfl
          · rw [stepsEq, List.map_append, List.append_assoc]
            have indexEq : (landingIndex node key).index =
                keyPlace (slots.map Slot.entry) key := by
              unfold landingIndex
              rw [initKeylistindexFromIndex_index, entriesEq]
              have bound := keyPlace_le node.entries key
              rwa [entries_length] at bound
            simp only [List.map_cons, List.map_nil, crumbStep, indexEq,
              List.singleton_append]
          · have whole : before ++ front ++ (holeFlat ++ (back ++ behind)) =
                before ++ (flat ++ behind) := by
              rw [flatEq]
              simp only [List.append_assoc]
            rw [whole] at landing
            refine ⟨landing.holds, landing.isLeaf, landing.small, ?_, ?_, ?_,
              ?_, ?_⟩
            · have inner := landing.path
              simpa only [List.append_assoc] using inner
            · have inner := landing.flatEq
              simpa only [List.append_assoc] using inner
            · have inner := landing.below
              simpa only [List.append_assoc] using inner
            · have inner := landing.above
              simpa only [List.append_assoc] using inner
            · exact landing.pagesEq.trans pagesEq
          · rw [hitIff, Bool.or_eq_true, decide_eq_true_eq, found_in_slots]
            constructor
            · rintro ((already | inSeps) | ⟨mark, member, same⟩)
              · exact Or.inl already
              · exact Or.inr ⟨_, sublist.subset inSeps, rfl⟩
              · refine Or.inr ⟨mark, ?_, same⟩
                rw [flatEq]
                exact List.mem_append_right _ (List.mem_append_left _ member)
            · rintro (already | ⟨mark, member, same⟩)
              · exact Or.inl (Or.inl already)
              · rw [flatEq] at member
                rcases List.mem_append.mp member with inFront | later
                · exact absurd same (key_ne_of_rank_lt (frontBelow mark inFront))
                · rcases List.mem_append.mp later with inHole | inBack
                  · exact Or.inr ⟨mark, inHole, same⟩
                  · exact Or.inl (Or.inr (backKey mark inBack same))

end BtreeDb
