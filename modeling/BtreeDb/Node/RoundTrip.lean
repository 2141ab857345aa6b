import BtreeDb.Node.Check
import BtreeDb.Node.Storing

/-!
# Writing and reading back

A record that `btree_node_write_ex` stored is read back with its size and its
bytes, whether it needed overflow pages or not, and the other records of the
node are read back as before.
-/

namespace BtreeDb

open Bytes

/-- The cell at an index is read back as a payload, by every buffer that can
take it. -/
structure ReadsBack (disk : Disk) (node : BTreeNode) (index : Nat)
    (payload : List UInt8) : Prop where
  size_eq : btreeNodePayloadSizeAt node index = payload.length
  whole : ∀ bufferSize, payload.length ≤ bufferSize →
    btreeNodeReadAt node index bufferSize disk = (.ok payload, disk)
  tooSmall : ∀ bufferSize, bufferSize < payload.length →
    btreeNodeReadAt node index bufferSize disk =
      (.error (.err .errBufferTooSmall), disk)

section Reading

variable {disk : Disk} {node : BTreeNode} {index : Nat} {entry : Entry}
variable {payload : List UInt8} {chain : List Nat}

theorem btreeNodePayloadSizeAt_resolves (ok : NodeOk node)
    (here : node.entries[index]? = some entry)
    (resolves : Resolves disk entry payload chain) :
    btreeNodePayloadSizeAt node index = payload.length := by
  have reads := ok.reads here
  cases resolves with
  | inline =>
      have notOverflow : pkeyIsCellType (btuGetCellFlags node index)
          .cellTypeOverflow = false := by
        rw [btuGetCellFlags, reads.flags_eq]
        rfl
      unfold btreeNodePayloadSizeAt
      simp only [notOverflow, Bool.false_eq_true, if_false]
      exact reads.size_eq
  | overflow pages pageFits sizeFits =>
      obtain ⟨totalEq, _, _⟩ := reads.overflow sizeFits pageFits
      have isOverflow : pkeyIsCellType (btuGetCellFlags node index)
          .cellTypeOverflow = true := by
        rw [btuGetCellFlags, reads.flags_eq]
        rfl
      unfold btreeNodePayloadSizeAt
      simp only [isOverflow, if_true]
      exact totalEq

/-- A buffer that is too small is refused, whatever the cell. -/
theorem btreeNodeReadAt_small {bufferSize : Nat}
    (small : bufferSize < btreeNodePayloadSizeAt node index) :
    btreeNodeReadAt node index bufferSize disk =
      (.error (.err .errBufferTooSmall), disk) := by
  unfold btreeNodePayloadSizeAt at small
  unfold btreeNodeReadAt
  simp only at small ⊢
  split at small
  · rename_i isOverflow
    rw [if_pos isOverflow, if_pos small]
    rfl
  · rename_i notOverflow
    rw [if_neg notOverflow, if_pos small]
    rfl

theorem ReadsBack.of_resolves (ok : NodeOk node)
    (here : node.entries[index]? = some entry)
    (resolves : Resolves disk entry payload chain) :
    ReadsBack disk node index payload := by
  have sizeEq := btreeNodePayloadSizeAt_resolves ok here resolves
  refine ⟨sizeEq, fun _ room => btreeNodeReadAt_resolves ok here resolves room,
    fun _ small => btreeNodeReadAt_small ?_⟩
  rw [sizeEq]
  exact small

end Reading

/-! ## The round trip -/

section Write

variable {disk after : Disk} {free : List Nat} {node stored : BTreeNode}
variable {position : ChildListIndex} {key : Nat} {data : List UInt8}

/-- Where an old cell is after an insertion. -/
def shiftedIndex (position index : Nat) : Nat :=
  if index < position then index else index + 1

theorem getElem?_insertIdx_shifted {items : List Entry} {position index : Nat}
    {item : Entry} :
    (items.insertIdx position item)[shiftedIndex position index]? =
      items[index]? := by
  unfold shiftedIndex
  by_cases before : index < position
  · rw [if_pos before, List.getElem?_insertIdx_of_lt before]
  · rw [if_neg before, List.getElem?_insertIdx_of_gt (by omega)]
    rfl

/-- A write that returns `BTREE_OK` stores a record that is read back, under
its key, and leaves every other stored record as it is read. -/
theorem write_then_read (roomy : Roomy disk) (store : Store disk free)
    (holds : Holds disk node) (metaFresh : MetaFresh free node)
    (used : node.pageNumber ∉ free)
    (inside : position.number node ≤ node.numKeys) (keyFits : key < 2 ^ 32)
    (sizeFits : data.length < 2 ^ 32)
    (room : disk.maxPage + recordPages (btreeNodeMaxCellSize node)
      node.freeHeap disk.pageSize data.length < pageIdLimit)
    (written : btreeNodeWriteAt node position key data disk =
      (.ok stored, after)) :
    ReadsBack after stored (position.number node) data ∧
      (stored.keyAt (position.number node)).key = key ∧
      ∀ (index : Nat) (entry : Entry) (payload : List UInt8)
        (chain : List Nat), node.entries[index]? = some entry →
        Resolves disk entry payload chain →
        (∀ page ∈ chain, page ∉ free ∧ page ≠ node.pageNumber) →
          ReadsBack disk node index payload ∧
          ReadsBack after stored
            (shiftedIndex (position.number node) index) payload ∧
          (stored.keyAt (shiftedIndex (position.number node) index)).key =
            (node.keyAt index).key := by
  by_cases takes : Takes (btreeNodeMaxCellSize node) node.freeHeap data.length
  · obtain ⟨other, last, left, newEntry, new, writeEq, whole⟩ :=
      btreeNodeWriteAt_stored roomy store holds metaFresh used inside keyFits
        takes sizeFits room
    rw [writeEq] at written
    obtain ⟨otherEq, lastEq⟩ := Prod.mk.inj written
    have otherEq := Except.ok.inj otherEq
    subst otherEq lastEq
    have entriesEq := whole.reentered.entries_eq
    have bound : position.number node ≤ node.entries.length := by
      rw [entries_length]
      exact inside
    have newHere : other.entries[position.number node]? = some newEntry := by
      rw [entriesEq, List.getElem?_insertIdx_self, if_pos bound]
    refine ⟨.of_resolves whole.holds.ok newHere whole.resolves, ?_, ?_⟩
    · rw [(whole.holds.ok.reads newHere).key_eq]
      exact whole.key_eq
    · intro index entry payload chain here resolves apart
      have stillHere : other.entries[shiftedIndex (position.number node)
          index]? = some entry := by
        rw [entriesEq, getElem?_insertIdx_shifted]
        exact here
      have kept : ∀ page ∈ chain, last.buffer? page = disk.buffer? page := by
        intro page member
        have present := resolves.present page member
        unfold Disk.buffer? at present
        rw [Option.isSome_map] at present
        refine whole.updates.kept_used ?_ (apart page member).1
          (page?_isSome_iff.mp present).2
        rw [List.mem_singleton]
        exact (apart page member).2
      refine ⟨.of_resolves holds.ok here resolves,
        .of_resolves whole.holds.ok stillHere
          (resolves.congr whole.updates.pageSize kept), ?_⟩
      rw [(whole.holds.ok.reads stillHere).key_eq,
        (holds.ok.reads here).key_eq]
  · rw [btreeNodeWriteAt_full roomy (holds.pageSize_eq store) takes] at written
    cases (Prod.mk.inj written).1

end Write

/-! ## A record on two overflow pages -/

theorem BtM.exists_of_isOk {α : Type} {call : BtM α} {disk : Disk}
    (isOk : (call disk).1.isOk = true) :
    ∃ value after, call disk = (.ok value, after) := by
  cases outcome : call disk with
  | mk result after =>
      rw [outcome] at isOk
      cases result with
      | ok value => exact ⟨value, after, rfl⟩
      | error stop => cases isOk

/-- Two records in the first page. -/
def twoRecordsDisk : Disk :=
  diskOfNodes 216 [(true, 0, [(1, [10]), (2, [20])])]

def twoRecordsLeaf : BTreeNode := loadedNode twoRecordsDisk 1

def longRecord : List UInt8 := (List.range 300).map UInt8.ofNat

theorem long_record_read_back :
    ∃ stored after,
      btreeNodeWriteAt twoRecordsLeaf ⟨.limIndex, 1⟩ 7 longRecord
        twoRecordsDisk = (.ok stored, after) ∧
      ReadsBack after stored 1 longRecord ∧ (stored.keyAt 1).key = 7 ∧
      ReadsBack after stored 2 [20] := by
  have isOk : (btreeNodeWriteAt twoRecordsLeaf ⟨.limIndex, 1⟩ 7 longRecord
      twoRecordsDisk).1.isOk = true := by
    decide +kernel
  obtain ⟨stored, after, writeEq⟩ := BtM.exists_of_isOk isOk
  have checked : CheckedStore twoRecordsDisk [] := by decide +kernel
  have roundTrip := write_then_read ⟨by decide, by decide⟩ checked.store
    (by decide +kernel : Holds twoRecordsDisk twoRecordsLeaf)
    ⟨by decide +kernel, fun _ => by decide +kernel⟩
    (by decide +kernel) (by decide +kernel) (by decide)
    (by decide +kernel) (by decide +kernel) writeEq
  have second : twoRecordsLeaf.entries[1]? =
      some ⟨2, cellTypeCode .cellTypeInline, [20]⟩ := by
    decide +kernel
  exact ⟨stored, after, writeEq, roundTrip.1, roundTrip.2.1,
    (roundTrip.2.2 1 _ [20] [] second .inline (by simp)).2.1⟩

end BtreeDb
