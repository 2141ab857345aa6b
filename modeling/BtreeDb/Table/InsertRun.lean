import BtreeDb.Lib.Runs
import BtreeDb.Table.InsertStep

/-!
# Runs of insertions

Calls of `btree_insert`, one after the other.  As long as every call fits, the
tree is the tree of all the records, and every one of them is found.
-/

namespace BtreeDb

open PagedTree Runs

/-! ## Record lists -/

theorem addRecord_perm (key : Nat) (payload : List UInt8)
    (records : List TableRecord) :
    (addRecord key payload records).Perm (⟨key, payload⟩ :: records) := by
  have parts : records.takeWhile (fun record => decide (record.key < key)) ++
      records.dropWhile (fun record => decide (record.key < key)) = records :=
    List.takeWhile_append_dropWhile
  unfold addRecord
  refine List.perm_middle.trans ?_
  rw [parts]

/-- The records of a table after more have been added, one after the other. -/
def addRecords (records calls : List TableRecord) : List TableRecord :=
  calls.foldl (fun records call => addRecord call.key call.payload records)
    records

theorem addRecords_append (records calls : List TableRecord)
    (call : TableRecord) :
    addRecords records (calls ++ [call]) =
      addRecord call.key call.payload (addRecords records calls) := by
  unfold addRecords
  rw [List.foldl_append]
  rfl

theorem addRecords_perm (records : List TableRecord) :
    ∀ calls : List TableRecord,
      (addRecords records calls).Perm (records ++ calls) := by
  intro calls
  induction calls using List.reverseRecOn with
  | nil => rw [List.append_nil]; exact List.Perm.refl _
  | append_singleton calls call inductionHypothesis =>
      rw [addRecords_append]
      refine (addRecord_perm _ _ _).trans ?_
      refine (inductionHypothesis.cons call).trans ?_
      rw [← List.append_assoc]
      exact (List.perm_append_singleton call (records ++ calls)).symm

/-! ## Finding records -/

section Found

variable {tree : BTree} {disk : Disk} {free pages chains : List Nat}
variable {height : Nat} {flat : List Mark} {records : List TableRecord}

/-- `btree_select_ex` gives the payload of every record. -/
def FindsAll (tree : BTree) (disk : Disk) (records : List TableRecord) : Prop :=
  ∀ record ∈ records, ∀ bufferSize, record.payload.length ≤ bufferSize →
    btreeSelectEx tree record.key bufferSize disk = (.ok record.payload, disk)

theorem RecordsOf.entry_of {entries : List Entry} {record : TableRecord}
    (holds : RecordsOf disk entries records chains) (member : record ∈ records) :
    ∃ entry ∈ entries, entry.key = record.key ∧
      ∃ chain, Resolves disk entry record.payload chain := by
  induction holds with
  | nil => exact absurd member List.not_mem_nil
  | @cons entry payload chain _ entries _ resolves rest inductionHypothesis =>
      rcases List.mem_cons.mp member with rfl | later
      · exact ⟨entry, List.mem_cons_self, rfl, chain, resolves⟩
      · obtain ⟨other, otherMember, found⟩ := inductionHypothesis later
        exact ⟨other, List.mem_cons_of_mem _ otherMember, found⟩

theorem TableStore.findsAll (isTable : tree.type = .table)
    (table : TableStore disk free tree.rootPageId height pages flat chains
      records) (shallow : height + 1 < maxBreadcrumbs) :
    FindsAll tree disk records := by
  intro record member bufferSize room
  obtain ⟨entry, entryMember, same, chain, resolves⟩ :=
    table.holds.entry_of member
  exact btreeSelectEx_present isTable table.valid shallow entryMember same
    resolves room

end Found

/-! ## Runs -/

/-- A call of `btree_insert`, as a step from disk to disk. -/
def insertStep (tree : BTree) (disk : Disk) (record : TableRecord) : Disk :=
  (btreeInsert tree record.key record.payload disk).2

/-- The call fits, and there are page numbers left for it. -/
def CallFits (tree : BTree) (disk : Disk) (record : TableRecord) : Prop :=
  InsertFits tree disk record.key record.payload.length ∧
    disk.maxPage + record.payload.length + 16 < pageIdLimit

instance (tree : BTree) (disk : Disk) (record : TableRecord) :
    Decidable (CallFits tree disk record) :=
  inferInstanceAs (Decidable (_ ∧ _))

section Run

variable {tree : BTree} {start disk : Disk}
variable {records calls : List TableRecord}

/-- The keys of calls are new and distinct, keys and sizes are words. -/
structure NewRecords (records calls : List TableRecord) : Prop where
  distinct : (calls.map TableRecord.key).Nodup
  absent : ∀ call ∈ calls, ∀ record ∈ records, record.key ≠ call.key
  keysFit : ∀ call ∈ calls, call.key < 2 ^ 32
  sizesFit : ∀ call ∈ calls, call.payload.length < 2 ^ 32

theorem NewRecords.init {call : TableRecord}
    (new : NewRecords records (calls ++ [call])) : NewRecords records calls where
  distinct := by
    have distinct := new.distinct
    rw [List.map_append] at distinct
    exact (List.nodup_append.mp distinct).1
  absent := fun other member => new.absent other (List.mem_append_left _ member)
  keysFit := fun other member =>
    new.keysFit other (List.mem_append_left _ member)
  sizesFit := fun other member =>
    new.sizesFit other (List.mem_append_left _ member)

/-- The key of the last call is none of those before. -/
theorem NewRecords.last_absent {call : TableRecord}
    (new : NewRecords records (calls ++ [call])) :
    ∀ record ∈ addRecords records calls, record.key ≠ call.key := by
  have isLast : call ∈ calls ++ [call] :=
    List.mem_append_right _ (List.mem_singleton_self _)
  intro record member
  rcases List.mem_append.mp ((addRecords_perm _ _).mem_iff.mp member) with
    old | earlier
  · exact new.absent call isLast record old
  · have distinct := new.distinct
    rw [List.map_append] at distinct
    exact (List.nodup_append.mp distinct).2.2 record.key
      (List.mem_map_of_mem earlier) call.key (by simp)

/-- A table of at most three levels. -/
def LowTable (tree : BTree) (disk : Disk) (records : List TableRecord) : Prop :=
  ∃ free height pages flat chains,
    TableStore disk free tree.rootPageId height pages flat chains records ∧
    height ≤ 2

theorem lowTable_insert {call : TableRecord} (isTable : tree.type = .table)
    (low : LowTable tree disk records)
    (absent : ∀ record ∈ records, record.key ≠ call.key)
    (keyFits : call.key < 2 ^ 32) (sizeFits : call.payload.length < 2 ^ 32)
    (fits : CallFits tree disk call) :
    LowTable tree (insertStep tree disk call)
      (addRecord call.key call.payload records) := by
  obtain ⟨free, height, pages, flat, chains, table, isLow⟩ := low
  have shallow : height + 1 < maxBreadcrumbs := by
    unfold maxBreadcrumbs
    omega
  obtain ⟨after, insertEq, inserted⟩ := btreeInsert_inserted isTable table shallow
    absent keyFits sizeFits fits.2 fits.1
  obtain ⟨rest, high, grown, marks, more, grownTable, bound, _⟩ := inserted.table
  unfold insertStep
  rw [insertEq]
  exact ⟨rest, high, grown, marks, more, grownTable, by omega⟩

/-- A run of insertions that all fit: the tree has all the records. -/
theorem insert_run (isTable : tree.type = .table)
    (low : LowTable tree start records)
    (run : Run (insertStep tree) (CallFits tree) start calls disk)
    (new : NewRecords records calls) :
    LowTable tree disk (addRecords records calls) := by
  refine @Run.induct _ _ _ _ _ (fun calls disk => NewRecords records calls →
    LowTable tree disk (addRecords records calls)) (fun _ => low) ?_ _ _ run new
  intro calls state call inductionHypothesis met new
  have isLast : call ∈ calls ++ [call] :=
    List.mem_append_right _ (List.mem_singleton_self _)
  rw [addRecords_append]
  exact lowTable_insert isTable (inductionHypothesis new.init) new.last_absent
    (new.keysFit call isLast) (new.sizesFit call isLast) met

end Run

end BtreeDb
