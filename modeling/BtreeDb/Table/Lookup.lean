import BtreeDb.Table.Descent

/-!
# Lookup in a table tree

`btree_select_ex` gives the payload of the record with a key.  Without such a
record it reports that the key is missing, as long as no separator has the key
either.
-/

namespace BtreeDb

open PagedTree

section Lookup

variable {tree : BTree} {disk : Disk} {free pages : List Nat} {height : Nat}
  {flat : List Mark} (isTable : tree.type = .table)
  (valid : TableTree disk free tree.rootPageId height pages flat)
  (shallow : height + 1 < maxBreadcrumbs)

include isTable valid shallow

theorem cursorTraverseTo_landing (key : Nat) :
    ∃ hit leaf crumbs outside before behind,
      cursorTraverseTo tree (cursorCreate tree) key disk =
        (.ok (hit,
          { currentPageId := leaf.pageNumber
            currentKeyIndex := landingIndex leaf key
            breadcrumbs := ⟨landingIndex leaf key, leaf.pageNumber⟩ ::
              (crumbs ++ (cursorCreate tree).breadcrumbs) }), disk) ∧
      Landing disk tree.rootPageId height key pages flat leaf
        (crumbs.map crumbStep) outside before behind ∧
      (hit = true ↔ ∃ mark ∈ flat, mark.key = key) := by
  obtain ⟨hit, leaf, crumbs, steps, outside, front, back, runEq, stepsEq,
    landing, hitIff⟩ := traverse_run isTable valid.store tree.rootPageId key
      (cursorCreate tree) (maxBreadcrumbs + 1) false Path.here valid.tree valid.ordered (by simp) (by simp) rfl
      (by unfold cursorCreate; simp only [List.length_singleton]; omega)
      (by omega)
  simp only [List.append_nil, List.nil_append] at stepsEq landing
  subst stepsEq
  refine ⟨hit, leaf, crumbs, outside, front, back, runEq, landing, ?_⟩
  simpa using hitIff

omit isTable shallow in
/-- The records with a key are in the leaf in which the key belongs. -/
theorem Landing.record_here {key : Nat} {leaf : BTreeNode} {steps : List Step}
    {outside : List Nat} {before behind : List Mark} {entry : Entry}
    (landing : Landing disk tree.rootPageId height key pages flat leaf steps
      outside before behind)
    (member : entry ∈ entriesOf flat) (same : entry.key = key) :
    leaf.entries[keyPlace leaf.entries key]? = some entry := by
  have ordered := valid.ordered
  rw [landing.flatEq] at ordered
  have parts := List.pairwise_append.mp ordered
  have increase := keysIncrease_of_before (List.pairwise_append.mp parts.2.1).1
  have inFlat := mem_entriesOf.mp member
  have rankEq : (Mark.record entry).rank = 2 * key := by
    rw [← same]
    rfl
  rw [landing.flatEq] at inFlat
  rcases List.mem_append.mp inFlat with inFront | later
  · have less := landing.below _ inFront
    omega
  · rcases List.mem_append.mp later with here | inBack
    · obtain ⟨other, otherMember, otherEq⟩ := List.mem_map.mp here
      cases otherEq
      exact keyPlace_present increase otherMember same
    · have more := landing.above _ inBack
      omega

theorem btreeSelectEx_present {key bufferSize : Nat} {entry : Entry}
    {payload : List UInt8} {chain : List Nat} (member : entry ∈ entriesOf flat)
    (same : entry.key = key) (resolves : Resolves disk entry payload chain)
    (room : payload.length ≤ bufferSize) :
    btreeSelectEx tree key bufferSize disk = (.ok payload, disk) := by
  obtain ⟨hit, leaf, crumbs, outside, before, behind, traverseEq, landing,
    hitIff⟩ := cursorTraverseTo_landing isTable valid shallow key
  have isHit : hit = true :=
    hitIff.mpr ⟨_, mem_entriesOf.mp member, same⟩
  have here := landing.record_here valid member same
  have inside := (List.getElem?_eq_some_iff.mp here).1
  rw [entries_length] at inside
  obtain ⟨metaBytes, readEq, _⟩ :=
    nodercReinitRead_holds landing.holds valid.store
  have indexEq : (landingIndex leaf key).index = keyPlace leaf.entries key :=
    initKeylistindexFromIndex_index (Nat.le_of_lt inside)
  have notEnd : ((landingIndex leaf key).index !=
      leaf.numKeys) = true := by
    rw [indexEq, bne_iff_ne]
    exact Nat.ne_of_lt inside
  unfold btreeSelectEx
  rw [BtM.bind_ok traverseEq]
  simp only [isHit, Bool.not_true, Bool.false_eq_true, if_false]
  rw [BtM.bind_ok readEq, BtM.bind_ok (BtM.assert_of notEnd disk), indexEq]
  exact btreeNodeReadAt_resolves (landing.holds.ok.withMeta metaBytes) here
    resolves room

theorem btreeSelectEx_absent {key : Nat} (bufferSize : Nat)
    (absent : ∀ mark ∈ flat, mark.key ≠ key) :
    btreeSelectEx tree key bufferSize disk =
      (.error (.err .errKeyNotFound), disk) := by
  obtain ⟨hit, leaf, crumbs, outside, before, behind, traverseEq, landing,
    hitIff⟩ := cursorTraverseTo_landing isTable valid shallow key
  have missed : hit = false := by
    rw [Bool.eq_false_iff]
    intro isHit
    obtain ⟨mark, member, same⟩ := hitIff.mp isHit
    exact absent mark member same
  unfold btreeSelectEx
  rw [BtM.bind_ok traverseEq]
  simp only [missed, Bool.not_false, if_true]
  rfl

end Lookup

end BtreeDb
