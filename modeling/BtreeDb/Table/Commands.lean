import BtreeDb.Lib.KeyedRows
import BtreeDb.Table.Delete
import BtreeDb.Table.DeleteScan
import BtreeDb.Table.UniformInserts
import Mathlib.Logic.Function.Basic

/-!
# Commands

Insertions, deletions by key and deleting scans.  What a table is for is a map
from keys to payloads; a call that fits does to the tree on the disk what the
command is for, and a lookup gives what the map says.
-/

namespace BtreeDb

open KeyedRows PagedTree Runs Sweep

/-! ## The map -/

/-- What a table says about its keys. -/
abbrev TableMap := Nat → Option (List UInt8)

def contents (records : List TableRecord) : TableMap := fun key =>
  (records.find? fun record => record.key = key).map TableRecord.payload

section Contents

variable {records : List TableRecord} {key other : Nat} {payload : List UInt8}

theorem contents_none : contents records key = none ↔
    ∀ record ∈ records, record.key ≠ key := by
  unfold contents
  rw [Option.map_eq_none_iff]
  exact find_eq_none_iff

theorem contents_some (distinct : (records.map TableRecord.key).Nodup) :
    contents records key = some payload ↔ ⟨key, payload⟩ ∈ records := by
  unfold contents
  rw [Option.map_eq_some_iff]
  constructor
  · rintro ⟨record, found, rfl⟩
    obtain ⟨member, sameKey⟩ := (find_eq_some_iff distinct).mp found
    rw [← sameKey]
    exact member
  · intro member
    exact ⟨_, (find_eq_some_iff distinct).mpr ⟨member, rfl⟩, rfl⟩

end Contents

/-! ## The commands -/

inductive TableCommand where
  | insert (record : TableRecord)
  | delete (key : Nat)
  | sweep (chosen : List UInt8 → Bool) (turns : Nat)

/-- What a command is for. -/
def TableCommand.apply : TableCommand → TableMap → TableMap
  | .insert record, map => Function.update map record.key (some record.payload)
  | .delete key, map => Function.update map key none
  | .sweep chosen _, map => fun key =>
      (map key).filter fun payload => !chosen payload

/-- What it does to the records in key order. -/
def TableCommand.records : TableCommand → List TableRecord → List TableRecord
  | .insert record, records => addRecord record.key record.payload records
  | .delete key, records => dropRecord key records
  | .sweep chosen _, records =>
      records.filter fun record => !chosen record.payload

/-- The call of the program. -/
def TableCommand.run (tree : BTree) : TableCommand → BtM Unit
  | .insert record => btreeInsert tree record.key record.payload
  | .delete key => btreeDelete tree key
  | .sweep chosen turns => do
      let (_, status) ← btreeSweep tree chosen turns
      match status with
      | .ok () => pure ()
      | .error code => BtM.fail code

/-- The length of the way along the first children. -/
def treeHeight (tree : BTree) (disk : Disk) : Nat → Nat → Nat
  | 0, _ => 0
  | fuel + 1, page =>
      if (loadedNode disk page).isLeaf then 0
      else treeHeight tree disk fuel (childPage tree disk page 0) + 1

theorem WellShaped.treeHeight_eq {tree : BTree} {disk : Disk} :
    ∀ {height page fuel : Nat}, WellShaped tree disk height page →
      height ≤ fuel → treeHeight tree disk fuel page = height := by
  intro height
  induction height with
  | zero =>
      intro page fuel shape _
      cases fuel with
      | zero => rfl
      | succ fuel => rw [treeHeight, if_pos shape.2]
  | succ height inductionHypothesis =>
      intro page fuel shape enough
      obtain ⟨turns, rfl⟩ := Nat.exists_eq_succ_of_ne_zero
        (Nat.pos_iff_ne_zero.mp (Nat.zero_lt_of_lt enough))
      obtain ⟨_, _, child⟩ := shape.child 0
      rw [treeHeight, if_neg (by rw [shape.2.1]; exact Bool.false_ne_true),
        inductionHypothesis child (Nat.le_of_succ_le_succ enough)]

/-- The search ends with `found` set. -/
def keyFound (tree : BTree) (disk : Disk) (key : Nat) : Bool :=
  match (cursorTraverseTo tree (cursorCreate tree) key disk).1 with
  | .ok (found, _) => found
  | .error _ => true

/-- A state of the program with the records that its tree is to have. -/
structure TableState where
  disk : Disk
  records : List TableRecord

/-- Both go on by a command. -/
def TableState.step (tree : BTree) (state : TableState)
    (command : TableCommand) : TableState where
  disk := (command.run tree state.disk).2
  records := command.records state.records

/-- Insertions are of new keys and split no page in a way that loses records;
deletions leave no leaf below an inner page without records, or find nothing;
scans find no leaf without records and choose no two neighbours of a leaf. -/
def CommandFits (tree : BTree) (state : TableState) : TableCommand → Prop
  | .insert record =>
      (∀ other ∈ state.records, other.key ≠ record.key) ∧
        record.key < 2 ^ 32 ∧ record.payload.length < 2 ^ 32 ∧
        CallFits tree state.disk record
  | .delete key =>
      (∃ record ∈ state.records, record.key = key) ∧
          DeleteFits tree state.disk key ∨
        keyFound tree state.disk key = false
  | .sweep chosen turns =>
      let height := treeHeight tree state.disk 2 tree.rootPageId
      state.records.length < turns ∧ EvenlyFilled tree state.disk height ∧
        SweepFits tree chosen state.disk height state.records ∧
        ∀ row ∈ leafRows tree state.disk height state.records, row.IsChain
          fun left right => ¬ (chosen left.payload ∧ chosen right.payload)

instance (tree : BTree) (state : TableState) :
    ∀ command, Decidable (CommandFits tree state command)
  | .insert _ => inferInstanceAs (Decidable (_ ∧ _ ∧ _ ∧ _))
  | .delete _ => inferInstanceAs (Decidable (_ ∧ _ ∨ _))
  | .sweep _ _ => inferInstanceAs (Decidable (_ ∧ _ ∧ _ ∧ ∀ row ∈ _, _))

/-! ## One command -/

section Step

variable {tree : BTree} {disk : Disk} {records : List TableRecord}

theorem LowTable.distinct (low : LowTable tree disk records) :
    (records.map TableRecord.key).Nodup := by
  obtain ⟨free, height, pages, flat, chains, table, _⟩ := low
  have increase := table.increase
  exact (List.pairwise_map.mpr increase).imp Nat.ne_of_lt

/-- A command that fits returns `BTREE_OK`, does what it is for, and touches
nothing outside of its tree. -/
theorem TableCommand.run_within {state : TableState} {command : TableCommand}
    {free pages chains : List Nat} {height : Nat} {flat : List Mark}
    (isTable : tree.type = .table)
    (table : TableStore state.disk free tree.rootPageId height pages flat chains
      state.records)
    (bound : height ≤ 2) (fits : CommandFits tree state command) :
    ∃ after left high grown marks more,
      command.run tree state.disk = (.ok (), after) ∧
      TableStore after left tree.rootPageId high grown marks more
        (command.records state.records) ∧
      high ≤ 2 ∧
      Within state.disk free (pages ++ chains) after left (grown ++ more) := by
  have shallow : height + 1 < maxBreadcrumbs := by
    unfold maxBreadcrumbs
    omega
  cases command with
  | insert record =>
      obtain ⟨absent, keyFits, sizeFits, call⟩ := fits
      obtain ⟨after, insertEq, rest, high, grown, marks, more, kept, low, _,
        within⟩ := btreeInsert_within isTable table shallow absent keyFits
          sizeFits call.2 call.1
      exact ⟨after, rest, high, grown, marks, more, insertEq, kept, by omega,
        within⟩
  | delete key =>
      rcases fits with ⟨present, safely⟩ | missing
      · obtain ⟨after, marks, lost, more, runEq, kept, within, _⟩ :=
          btreeDelete_run isTable table shallow present safely
        exact ⟨after, free, height, pages, marks, more, runEq, kept, bound,
          within⟩
      · obtain ⟨hit, leaf, crumbs, _, _, _, traverseEq, _, hitIff⟩ :=
          cursorTraverseTo_landing isTable table.valid shallow key
        have noMark : ∀ mark ∈ flat, mark.key ≠ key := by
          intro mark member same
          unfold keyFound at missing
          rw [traverseEq, hitIff.mpr ⟨mark, member, same⟩] at missing
          cases missing
        have same : dropRecord key state.records = state.records := by
          refine List.filter_eq_self.mpr fun record member => ?_
          obtain ⟨entry, _, inFlat, entryKey, _⟩ := table.entry_of member
          rw [← entryKey]
          exact decide_eq_true (noMark _ (mem_entriesOf.mp inFlat))
        refine ⟨state.disk, free, height, pages, flat, chains,
          btreeDelete_absent isTable table shallow noMark, ?_, bound,
          Within.refl _ _ _⟩
        rw [TableCommand.records, same]
        exact table
  | sweep chosen turns =>
      have heightEq := (table.valid.wellShaped isTable).treeHeight_eq bound
      obtain ⟨enough, filled, safely, apart⟩ := fits
      rw [heightEq] at filled safely apart
      obtain ⟨after, freed, marks, more, runEq, kept, _, within⟩ :=
        btreeSweep_run isTable table (by unfold maxBreadcrumbs; omega) filled
          safely
      have swept : sweptRecords tree chosen state.disk height state.records =
          state.records.filter fun record => !chosen record.payload := by
        have every := (@flatMap_sweep_eq_filter_iff _
          (fun record : TableRecord => chosen record.payload)
          (leafRows tree state.disk height state.records)).mpr apart
        rw [leafRows_flatten isTable table] at every
        exact every
      rw [swept] at kept
      refine ⟨after, _, height, pages, marks, more, ?_, kept, bound, within⟩
      rw [TableCommand.run, BtM.bind_ok (runEq turns enough)]
      rfl

theorem TableCommand.run_ok {state : TableState} {command : TableCommand}
    (isTable : tree.type = .table) (low : LowTable tree state.disk state.records)
    (fits : CommandFits tree state command) :
    (command.run tree state.disk).1 = .ok () ∧
      LowTable tree (state.step tree command).disk
        (state.step tree command).records := by
  obtain ⟨free, height, pages, flat, chains, table, bound⟩ := low
  obtain ⟨after, left, high, grown, marks, more, runEq, kept, lower, _⟩ :=
    command.run_within isTable table bound fits
  unfold TableState.step
  rw [runEq]
  exact ⟨rfl, left, high, grown, marks, more, kept, lower⟩

/-- On the level of the map. -/
theorem TableCommand.contents_records {command : TableCommand}
    (distinct : (records.map TableRecord.key).Nodup)
    (after : ((command.records records).map TableRecord.key).Nodup) :
    contents (command.records records) = command.apply (contents records) := by
  funext key
  refine Option.ext fun payload => ?_
  rw [contents_some after]
  cases command with
  | insert record =>
      have members : ∀ other, other ∈ addRecord record.key record.payload
          records ↔ other = record ∨ other ∈ records := by
        intro other
        rw [(addRecord_perm record.key record.payload records).mem_iff,
          List.mem_cons]
      rw [TableCommand.records, TableCommand.apply, members]
      by_cases same : key = record.key
      · rw [same, Function.update_self, ← members]
        constructor
        · intro member
          have own := (members record).mpr (Or.inl rfl)
          rw [← List.inj_on_of_nodup_map after member own rfl]
        · rintro ⟨⟩
          exact (members record).mpr (Or.inl rfl)
      · rw [Function.update_of_ne same, contents_some distinct]
        constructor
        · rintro (isRecord | member)
          · rw [← isRecord] at same
            exact absurd rfl same
          · exact member
        · exact Or.inr
  | delete gone =>
      rw [TableCommand.records, TableCommand.apply, dropRecord, List.mem_filter]
      by_cases same : key = gone
      · rw [same, Function.update_self]
        simp
      · rw [Function.update_of_ne same, contents_some distinct]
        simp [same]
  | sweep chosen turns =>
      rw [TableCommand.records, TableCommand.apply, List.mem_filter,
        Option.filter_eq_some_iff, contents_some distinct]

end Step

/-! ## Lookups -/

/-- `btree_select_ex` gives what a map says, and an error where it says
nothing. -/
def LookupAgrees (tree : BTree) (disk : Disk) (map : TableMap) : Prop :=
  ∀ key bufferSize,
    (∀ payload, map key = some payload → payload.length ≤ bufferSize →
      btreeSelectEx tree key bufferSize disk = (.ok payload, disk)) ∧
    (map key = none →
      ∃ reason, btreeSelectEx tree key bufferSize disk = (.error reason, disk))

theorem LowTable.lookupAgrees {tree : BTree} {disk : Disk}
    {records : List TableRecord} (isTable : tree.type = .table)
    (low : LowTable tree disk records) :
    LookupAgrees tree disk (contents records) := by
  have distinct := low.distinct
  obtain ⟨free, height, pages, flat, chains, table, bound⟩ := low
  have shallow : height + 1 < maxBreadcrumbs := by
    unfold maxBreadcrumbs
    omega
  intro key bufferSize
  constructor
  · intro payload isThere room
    exact table.findsAll isTable shallow _
      ((contents_some distinct).mp isThere) bufferSize room
  · intro isMissing
    have absent := contents_none.mp isMissing
    obtain ⟨hit, leaf, crumbs, _, _, _, traverseEq, landing, hitIff⟩ :=
      cursorTraverseTo_landing isTable table.valid shallow key
    cases hit with
    | false =>
        refine ⟨.err .errKeyNotFound, ?_⟩
        unfold btreeSelectEx
        rw [BtM.bind_ok traverseEq]
        rfl
    | true =>
        -- a separator has the key, and the cursor is behind the last record
        obtain ⟨mark, member, same⟩ := hitIff.mp rfl
        have noRecord : ∀ entry ∈ entriesOf flat, entry.key ≠ key := by
          intro entry inFlat sameKey
          have keys := table.holds.keys_eq
          have isKey : key ∈ records.map TableRecord.key := by
            rw [keys, ← sameKey]
            exact List.mem_map_of_mem inFlat
          obtain ⟨record, inRecords, recordKey⟩ := List.mem_map.mp isKey
          exact absent record inRecords recordKey
        have isSeparator : Mark.separator key ∈ flat := by
          cases mark with
          | record entry => exact absurd same (noRecord entry (mem_entriesOf.mpr member))
          | separator other =>
              have otherIs : other = key := same
              rw [← otherIs]
              exact member
        have place := landing.below_separator table.valid.ordered isSeparator
          noRecord
        rw [entries_length] at place
        have atEnd : (landingIndex leaf key).index = leaf.numKeys := by
          unfold landingIndex initKeylistindexFromIndex
          rw [place]
          split
          · rfl
          · split <;> rfl
        obtain ⟨metaBytes, loadedEq⟩ :=
          landing.holds.loadedNode_eq table.valid.store
        have readEq := nodercReinitRead_onDisk landing.holds.present
        rw [loadedEq] at readEq
        refine ⟨.assertFailed, ?_⟩
        unfold btreeSelectEx
        rw [BtM.bind_ok traverseEq]
        simp only [Bool.not_true, Bool.false_eq_true, if_false]
        rw [BtM.bind_ok readEq, atEnd]
        have failed : BtM.assert (leaf.numKeys !=
            BTreeNode.numKeys { leaf with metaBytes := metaBytes }) disk =
              (.error .assertFailed, disk) := by
          have same : (leaf.numKeys !=
              BTreeNode.numKeys { leaf with metaBytes := metaBytes }) =
                false := bne_self_eq_false leaf.numKeys
          rw [same]
          rfl
        rw [BtM.bind_error failed]

end BtreeDb
