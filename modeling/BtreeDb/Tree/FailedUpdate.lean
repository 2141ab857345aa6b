import BtreeDb.Index.Slots
import BtreeDb.Lib.PagedLoss
import BtreeDb.Table.Update
import BtreeDb.Tree.Check

/-!
# Updates that fail

Both kinds of operation delete the record before they write the new one, and
write the node back in between.  A new payload that the node has no room for
is refused then, and the tree has a record less.
-/

namespace BtreeDb

open Bytes PagedTree

/-! ## Refused payloads -/

section Rewrite

variable {tree : BTree} {disk : Disk} {free : List Nat} {node : BTreeNode}
variable {index : Nat} {entry : Entry} {old payload : List UInt8}
variable {chain : List Nat}

/-- A payload that does not fit is refused after the deletion. -/
theorem rewriteRecord_full (roomy : Roomy disk) (store : Store disk free)
    (holds : Holds disk node) (metaFresh : MetaFresh free node)
    (here : node.entries[index]? = some entry)
    (resolves : Resolves disk entry old chain)
    (apart : (node.pageNumber :: (chain ++ free)).Nodup)
    (notFirst : 1 ∉ chain) (safe : GcSafe node index)
    (full : ¬ Takes (btreeNodeMaxCellSize node)
      (node.freeHeap + entry.heapSize) payload.length) :
    ∃ left after,
      rewriteRecord tree node ⟨.limIndex, index⟩ payload disk =
        (.error (.err .errNodeNotEnoughSpace), after) ∧
      Deleted disk after (chain.reverse ++ free) node index entry left := by
  obtain ⟨left, after, deleteEq, deleted⟩ := btreeNodeDelete_run roomy store
    holds metaFresh here resolves apart notFirst safe
  have sameMax := maxCellSize_eq deleted.reentered.pageNumber_eq
    deleted.pageSize_eq
  have refused : btreeNodeWriteAt left ⟨.limIndex, index⟩
      (left.keyAt index).key payload after =
        (.error (.err .errNodeNotEnoughSpace), after) := by
    refine btreeNodeWriteAt_full (roomy.congr deleted.pageSize) ?_ ?_
    · rw [deleted.pageSize_eq, deleted.pageSize]
      exact holds.pageSize_eq store
    · rw [sameMax, deleted.freeHeap_eq]
      exact full
  refine ⟨left, after, ?_, deleted⟩
  unfold rewriteRecord
  rw [BtM.bind_ok deleteEq]
  exact refused

end Rewrite

/-! ## Records of trees -/

/-- The cell of a record of an index tree.  The key beside it is not its
own. -/
def IndexRecord.entry (record : IndexRecord) : Entry where
  key := 0
  flags := record.flags
  cell := record.cell

/-- An index on a disk: its tree, the overflow pages of its records, and their
payloads. -/
structure IndexStore (before : IndexRecord → IndexRecord → Prop) (disk : Disk)
    (free : List Nat) (root height : Nat) (pages : List Nat)
    (flat : List IndexRecord) (chains : List Nat)
    (payloads : List (List UInt8)) : Prop where
  valid : IndexTree before disk free root height pages flat
  holds : RecordsOf disk (flat.map IndexRecord.entry)
    (payloads.map (TableRecord.mk 0)) chains
  apart : (pages ++ (chains ++ free)).Nodup
  notFirst : 1 ∉ chains

/-- A disk has an index with the given payloads. -/
def HasIndex (before : IndexRecord → IndexRecord → Prop) (disk : Disk)
    (root : Nat) (payloads : List (List UInt8)) : Prop :=
  ∃ free height pages flat chains,
    IndexStore before disk free root height pages flat chains payloads

/-- A record of a valid tree of either type, by its node and its index there,
and what a disk has on which no record of the tree has changed. -/
inductive StoredRecord (tree : BTree) (disk : Disk) (free : List Nat)
    (node : BTreeNode) (index : Nat) (entry : Entry) : (Disk → Prop) → Prop
  | table {height : Nat} {pages chains : List Nat} {flat : List Mark}
      {records : List TableRecord} (isTable : tree.type = .table)
      (store : TableStore disk free tree.rootPageId height pages flat chains
        records)
      (place : RecordPlace disk pages node index entry) :
      StoredRecord tree disk free node index entry fun after =>
        HasTable after tree.rootPageId records
  | index {before : IndexRecord → IndexRecord → Prop} {height : Nat}
      {pages chains : List Nat} {flat : List IndexRecord}
      {payloads : List (List UInt8)} (isIndex : tree.type = .index)
      (store : IndexStore before disk free tree.rootPageId height pages flat
        chains payloads)
      (holds : Holds disk node) (page_mem : node.pageNumber ∈ pages)
      (here : node.entries[index]? = some entry) :
      StoredRecord tree disk free node index entry fun after =>
        HasIndex before after tree.rootPageId payloads

/-- What a deletion needs to know of a record. -/
structure Removable (disk : Disk) (free : List Nat) (node : BTreeNode)
    (index : Nat) (entry : Entry) (old : List UInt8) (chain : List Nat) :
    Prop where
  roomy : Roomy disk
  store : Store disk free
  holds : Holds disk node
  here : node.entries[index]? = some entry
  resolves : Resolves disk entry old chain
  apart : (node.pageNumber :: (chain ++ free)).Nodup
  notFirst : 1 ∉ chain

section Records

variable {tree : BTree} {disk after : Disk} {free left : List Nat}
variable {node stored : BTreeNode} {index : Nat} {entry : Entry}
variable {intact : Disk → Prop}

theorem Resolves.rekey {payload : List UInt8} {chain : List Nat} {key : Nat}
    (resolves : Resolves disk ⟨key, entry.flags, entry.cell⟩ payload chain) :
    Resolves disk entry payload chain := by
  obtain ⟨own, flags, cell⟩ := entry
  cases resolves with
  | inline => exact .inline
  | overflow pages pageFits sizeFits => exact .overflow pages pageFits sizeFits

theorem chain_apart {pages chains chain front back : List Nat} {page : Nat}
    (apart : (pages ++ (chains ++ free)).Nodup) (member : page ∈ pages)
    (chainsEq : chains = front ++ (chain ++ back)) :
    (page :: (chain ++ free)).Nodup := by
  have within : chain.Sublist chains := by
    rw [chainsEq]
    exact (List.sublist_append_left chain back).trans
      (List.sublist_append_right front _)
  exact apart.sublist ((List.singleton_sublist.mpr member).append
    (within.append_right free))

/-- What a page of an index tree holds. -/
theorem IndexTree.nodeHolds {before : IndexRecord → IndexRecord → Prop}
    {root height : Nat} {pages : List Nat} {flat : List IndexRecord}
    (valid : IndexTree before disk free root height pages flat)
    (holds : Holds disk node) (member : node.pageNumber ∈ pages) :
    SmallCells node ∧
      IndexHolds disk node.pageNumber (indexContent node) := by
  obtain ⟨content, contentHere⟩ := valid.tree.holds_of_mem member
  obtain ⟨other, otherHolds, number, small, _⟩ := contentHere.ofNode
  have same := holds.unique otherHolds number
  rw [same] at small
  exact ⟨small, index_holds holds rfl small⟩

/-- The records of a node are records of its tree. -/
theorem IndexTree.record_mem {before : IndexRecord → IndexRecord → Prop}
    {root height : Nat} {pages : List Nat} {flat : List IndexRecord}
    (valid : IndexTree before disk free root height pages flat)
    (holds : Holds disk node) (member : node.pageNumber ∈ pages)
    (inNode : entry ∈ node.entries) : entry.record ∈ flat := by
  obtain ⟨_, onPage⟩ := valid.nodeHolds holds member
  obtain ⟨low, _, _, before, behind, _, part, _, ownTree, flatEq, _⟩ :=
    Path.toPage .here valid.tree member
  simp only [List.nil_append, List.append_nil] at flatEq
  have inPart : entry.record ∈ part := by
    have inRecords := List.mem_map_of_mem (f := Entry.record) inNode
    by_cases isLeaf : node.isLeaf = true
    · rw [indexContent_leaf isLeaf] at onPage
      cases low with
      | zero =>
          rw [PNode.leaf.inj (IndexHolds.functional disk _ _ _ ownTree.1
            onPage)]
          exact inRecords
      | succ low =>
          obtain ⟨_, _, inner, _⟩ := ownTree
          cases IndexHolds.functional disk _ _ _ inner onPage
    · rw [indexContent_inner (Bool.eq_false_iff.mpr isLeaf)] at onPage
      cases low with
      | zero => cases IndexHolds.functional disk _ _ _ ownTree.1 onPage
      | succ low =>
          obtain ⟨seps, kids, inner, _, within, _⟩ := ownTree.focus
          obtain ⟨_, sepsEq⟩ := PNode.inner.inj
            (IndexHolds.functional disk _ _ _ inner onPage)
          rw [sepsEq] at within
          exact within.subset inRecords
  rw [flatEq]
  exact List.mem_append_right _ (List.mem_append_left _ inPart)

theorem StoredRecord.removable
    (record : StoredRecord tree disk free node index entry intact) :
    ∃ old chain, Removable disk free node index entry old chain := by
  cases record with
  | table isTable store place =>
      obtain ⟨outside, before, behind, leafAt⟩ :=
        store.valid.leafAt place.holds place.isLeaf place.page_mem
      obtain ⟨old, chain, front, back, _, resolves, chainsEq, _⟩ :=
        store.holds.around (leafAt.entry_here place.here)
      refine ⟨old, chain, store.valid.roomy, store.valid.store, place.holds,
        place.here, resolves, chain_apart store.apart place.page_mem chainsEq,
        fun isFirst => store.notFirst ?_⟩
      rw [chainsEq]
      exact List.mem_append_right _ (List.mem_append_left _ isFirst)
  | @index before height pages chains flat payloads isIndex store holds member
      here =>
      have inFlat := store.valid.record_mem holds member
        (List.mem_of_getElem? here)
      obtain ⟨position, recordHere⟩ := List.mem_iff_getElem?.mp inFlat
      have entryHere : (flat.map IndexRecord.entry)[position]? =
          some entry.record.entry := by
        rw [List.getElem?_map, recordHere]
        rfl
      obtain ⟨old, chain, front, back, _, resolves, chainsEq, _⟩ :=
        store.holds.around entryHere
      refine ⟨old, chain, store.valid.roomy, store.valid.store, holds, here,
        resolves.rekey, chain_apart store.apart member chainsEq,
        fun isFirst => store.notFirst ?_⟩
      rw [chainsEq]
      exact List.mem_append_right _ (List.mem_append_left _ isFirst)

/-! ## Records that are gone -/

/-- Records count, separators do not. -/
def Mark.count : Mark → Nat
  | .record _ => 1
  | .separator _ => 0

theorem total_count (flat : List Mark) :
    total Mark.count flat = (entriesOf flat).length := by
  induction flat with
  | nil => rfl
  | cons mark flat inductionHypothesis =>
      unfold total at inductionHypothesis ⊢
      rw [List.map_cons, List.sum_cons, inductionHypothesis]
      cases mark with
      | record entry =>
          change 1 + (entriesOf flat).length = (entriesOf flat).length + 1
          omega
      | separator key => exact Nat.zero_add _

theorem Deleted.small (deleted : Deleted disk after left node index entry stored)
    (small : SmallCells node) : SmallCells stored := by
  intro other member
  rw [deleted.reentered.entries_eq] at member
  rw [maxCellSize_eq deleted.reentered.pageNumber_eq deleted.pageSize_eq]
  exact small other (List.mem_of_mem_eraseIdx member)

theorem Deleted.length (deleted : Deleted disk after left node index entry stored)
    (here : node.entries[index]? = some entry) :
    stored.entries.length + 1 = node.entries.length := by
  have bound := (List.getElem?_eq_some_iff.mp here).1
  rw [deleted.reentered.entries_eq, List.length_eraseIdx_of_lt bound]
  omega

/-- A table without one of its records has other records. -/
theorem Deleted.not_hasTable {root height : Nat} {pages chains : List Nat}
    {flat : List Mark} {records : List TableRecord}
    (deleted : Deleted disk after left node index entry stored)
    (store : TableStore disk free root height pages flat chains records)
    (place : RecordPlace disk pages node index entry) :
    ¬ HasTable after root records := by
  rintro ⟨_, high, others, flat', _, again⟩
  obtain ⟨onPage, small⟩ :=
    store.valid.leafHolds place.holds place.isLeaf place.page_mem
  have there : TableHolds after node.pageNumber
      (.leaf (stored.entries.map Mark.record)) :=
    .leaf deleted.holds deleted.reentered.pageNumber_eq
      (deleted.reentered.isLeaf_eq.trans place.isLeaf) (deleted.small small)
  have loses : Loses Mark.count (.leaf (node.entries.map Mark.record))
      (.leaf (stored.entries.map Mark.record)) := by
    refine .leaf ?_
    rw [total_count, total_count, entriesOf_records, entriesOf_records]
    have shorter := deleted.length place.here
    omega
  have fewer := TreeAt.lighter (TableHolds.functional disk)
    (TableHolds.functional after) store.valid.tree
    (List.nodup_append.mp store.apart).1 place.page_mem onPage there loses
    (fun own _ other => TableHolds.agreesOn fun page isOwn => by
      rw [List.mem_singleton.mp isOwn]
      exact deleted.kept own other)
    again.valid.tree
  rw [total_count, total_count, ← again.holds.length_eq,
    ← store.holds.length_eq] at fewer
  exact absurd fewer (Nat.lt_irrefl _)

theorem total_one {γ : Type} (items : List γ) :
    total (fun _ => 1) items = items.length := by
  unfold total
  rw [List.map_const', List.sum_replicate, smul_eq_mul, Nat.mul_one]

/-- A node of an index tree without one of its records has a child less, or is
a leaf with a record less. -/
theorem Deleted.loses (deleted : Deleted disk after left node index entry stored)
    (here : node.entries[index]? = some entry) :
    Loses (fun _ => 1) (indexContent node) (indexContent stored) := by
  have lighter : total (fun _ => 1) (stored.entries.map Entry.record) <
      total (fun _ => 1) (node.entries.map Entry.record) := by
    rw [total_one, total_one, List.length_map, List.length_map]
    have shorter := deleted.length here
    omega
  by_cases isLeaf : node.isLeaf = true
  · rw [indexContent_leaf isLeaf,
      indexContent_leaf (deleted.reentered.isLeaf_eq.trans isLeaf)]
    exact .leaf lighter
  · have isInner := Bool.eq_false_iff.mpr isLeaf
    have bound := (List.getElem?_eq_some_iff.mp here).1
    have kidsEq : indexKids stored = (indexKids node).eraseIdx index := by
      unfold indexKids
      rw [deleted.reentered.entries_eq, deleted.reentered.rightChild_eq,
        List.eraseIdx_append_of_lt_length (by
          rw [List.length_map]
          exact bound), List.eraseIdx_map]
    rw [indexContent_inner isInner,
      indexContent_inner (deleted.reentered.isLeaf_eq.trans isInner), kidsEq]
    exact .inner index lighter

theorem IndexHolds.agreesOn {pages : List Nat}
    (kept : ∀ page ∈ pages, after.buffer? page = disk.buffer? page) :
    AgreesOn (IndexHolds disk) (IndexHolds after) pages := by
  intro page member first second firstHolds secondHolds
  exact IndexHolds.functional after page first second
    (firstHolds.congr (kept page member)) secondHolds

/-- An index without one of its records has other payloads. -/
theorem Deleted.not_hasIndex {before : IndexRecord → IndexRecord → Prop}
    {root height : Nat} {pages chains : List Nat} {flat : List IndexRecord}
    {payloads : List (List UInt8)}
    (deleted : Deleted disk after left node index entry stored)
    (store : IndexStore before disk free root height pages flat chains
      payloads) (holds : Holds disk node)
    (member : node.pageNumber ∈ pages)
    (here : node.entries[index]? = some entry) :
    ¬ HasIndex before after root payloads := by
  rintro ⟨_, high, others, flat', _, again⟩
  obtain ⟨small, onPage⟩ := store.valid.nodeHolds holds member
  have there : IndexHolds after node.pageNumber (indexContent stored) :=
    index_holds deleted.holds deleted.reentered.pageNumber_eq
      (deleted.small small)
  have fewer := TreeAt.lighter (IndexHolds.functional disk)
    (IndexHolds.functional after) store.valid.tree
    (List.nodup_append.mp store.apart).1 member onPage there
    (deleted.loses here)
    (fun own _ other => IndexHolds.agreesOn fun page isOwn => by
      rw [List.mem_singleton.mp isOwn]
      exact deleted.kept own other)
    again.valid.tree
  have lengths := again.holds.length_eq
  rw [store.holds.length_eq, List.length_map, List.length_map] at lengths
  rw [total_one, total_one, lengths] at fewer
  exact absurd fewer (Nat.lt_irrefl _)

theorem StoredRecord.lost
    (record : StoredRecord tree disk free node index entry intact)
    (deleted : Deleted disk after left node index entry stored) :
    ¬ intact after := by
  cases record with
  | table isTable store place => exact deleted.not_hasTable store place
  | index isIndex store holds member here =>
      exact deleted.not_hasIndex store holds member here

end Records

/-! ## The operations -/

/-- Whenever a call returns an error, the disk afterwards is as wanted. -/
def FailureLeaves {σ : Type} (intact : Disk → Prop) (disk : Disk)
    (status : σ → Option BTreeE) (call : BtM σ) : Prop :=
  ∀ result after, call disk = (.ok result, after) → status result ≠ none →
    intact after

section Update

variable {tree : BTree} {disk : Disk} {free : List Nat} {node : BTreeNode}
variable {index : Nat} {entry : Entry} {payload : List UInt8}
variable {intact : Disk → Prop}

/-- Both operations rewrite the record at their cursor. -/
theorem opUpdateCommitBody_found {op : OpUpdate} (found : op.notFound = false) :
    opUpdateCommitBody tree op payload =
      btreeOpScanUpdate.updateBody tree ⟨none, 0, op.cursor, .iterating⟩
        payload := by
  unfold opUpdateCommitBody
  simp only [found, Bool.false_eq_true, if_false]
  rfl

/-- The node that an update reads is the record's. -/
theorem Removable.updateBody_eq {old : List UInt8} {chain : List Nat}
    {op : OpScan} (removable : Removable disk free node index entry old chain)
    (standing : op.cursor.position = (node.pageNumber, ⟨.limIndex, index⟩)) :
    ∃ metaBytes,
      btreeOpScanUpdate.updateBody tree op payload disk =
        rewriteRecord tree { node with metaBytes := metaBytes }
          ⟨.limIndex, index⟩ payload disk ∧
      MetaFresh free { node with metaBytes := metaBytes } := by
  obtain ⟨onPage, onIndex⟩ := Prod.mk.inj standing
  obtain ⟨metaBytes, readEq, fresh⟩ :=
    nodercReinitRead_holds removable.holds removable.store
  refine ⟨metaBytes, ?_, fresh⟩
  unfold btreeOpScanUpdate.updateBody
  rw [onPage, BtM.bind_ok readEq, onIndex]

/-- A payload with room is written. -/
theorem StoredRecord.rewrites {op : OpScan}
    (record : StoredRecord tree disk free node index entry intact)
    (safe : GcSafe node index)
    (fits : FitsAfterRemoval disk node entry payload)
    (standing : op.cursor.position = (node.pageNumber, ⟨.limIndex, index⟩)) :
    ∃ stored after,
      btreeOpScanUpdate.updateBody tree op payload disk =
        (.ok stored, after) := by
  obtain ⟨old, chain, removable⟩ := record.removable
  obtain ⟨metaBytes, bodyEq, fresh⟩ :=
    @Removable.updateBody_eq tree disk free node index entry payload old chain
      op removable standing
  have apart : ([node.pageNumber] ++ (chain ++ free)).Nodup := removable.apart
  obtain ⟨stored, after, _, _, _, runEq, _⟩ :=
    @rewriteRecord_run tree disk free { node with metaBytes := metaBytes }
      index entry old payload chain [node.pageNumber] removable.roomy
      removable.store (removable.holds.withMeta metaBytes) fresh
      removable.here removable.resolves apart (List.mem_singleton_self _)
      (fun page member => by
        rw [List.mem_singleton.mp member]
        exact removable.holds.present.2)
      removable.notFirst safe ⟨fits.takes, fits.sized, fits.room⟩
  exact ⟨stored, after, bodyEq.trans runEq⟩

/-- A payload without room is refused, and the record is gone. -/
theorem StoredRecord.refuses {op : OpScan}
    (record : StoredRecord tree disk free node index entry intact)
    (safe : GcSafe node index)
    (full : ¬ Takes (btreeNodeMaxCellSize node)
      (node.freeHeap + entry.heapSize) payload.length)
    (standing : op.cursor.position = (node.pageNumber, ⟨.limIndex, index⟩)) :
    ∃ after,
      btreeOpScanUpdate.updateBody tree op payload disk =
        (.error (.err .errNodeNotEnoughSpace), after) ∧
      ¬ intact after := by
  obtain ⟨old, chain, removable⟩ := record.removable
  obtain ⟨metaBytes, bodyEq, fresh⟩ :=
    @Removable.updateBody_eq tree disk free node index entry payload old chain
      op removable standing
  obtain ⟨stored, after, runEq, deleted⟩ :=
    @rewriteRecord_full tree disk free { node with metaBytes := metaBytes }
      index entry old payload chain removable.roomy removable.store
      (removable.holds.withMeta metaBytes) fresh removable.here
      removable.resolves removable.apart removable.notFirst safe full
  have again := deleted.reentered
  have lost : Deleted disk after (chain.reverse ++ free) node index entry
      stored := ⟨deleted.holds, deleted.metaFresh, ⟨again.pageNumber_eq,
        again.isLeaf_eq, again.rightChild_eq, again.entries_eq⟩,
      deleted.freeHeap_eq, deleted.pageSize_eq, deleted.reread, deleted.store,
      deleted.pageSize, deleted.maxPage, deleted.kept⟩
  exact ⟨after, bodyEq.trans runEq, record.lost lost⟩

theorem btreeOpUpdateCommit_found {op : OpUpdate} {after : Disk}
    {result : Except BTreeE BTreeNode} (prepared : op.step = .prepared)
    (found : op.notFound = false)
    (bodyEq : BtM.attempt (btreeOpScanUpdate.updateBody tree
      ⟨none, 0, op.cursor, .iterating⟩ payload) disk = (.ok result, after)) :
    btreeOpUpdateCommit tree op payload disk =
      (.ok { op with step := .done, lastStatus := statusOf result }, after) := by
  rw [← opUpdateCommitBody_found found] at bodyEq
  exact btreeOpUpdateCommit_of prepared bodyEq

theorem btreeOpScanUpdate_of {op : OpScan} {after : Disk}
    {result : Except BTreeE BTreeNode}
    (bodyEq : BtM.attempt (btreeOpScanUpdate.updateBody tree op payload) disk =
      (.ok result, after)) :
    btreeOpScanUpdate tree op payload disk =
      (.ok { op with lastStatus := statusOf result }, after) := by
  unfold btreeOpScanUpdate
  rw [BtM.bind_ok bodyEq]
  rfl

/-- A call with one outcome. -/
theorem failureLeaves_iff {σ : Type} {status : σ → Option BTreeE}
    {call : BtM σ} {outcome : σ} {after : Disk}
    (callEq : call disk = (.ok outcome, after)) :
    FailureLeaves intact disk status call ↔
      (status outcome ≠ none → intact after) := by
  constructor
  · intro leaves
    exact leaves outcome after callEq
  · intro leaves result last resultEq
    obtain ⟨outcomeEq, afterEq⟩ := Prod.mk.inj (callEq.symm.trans resultEq)
    rw [← Except.ok.inj outcomeEq, ← afterEq]
    exact leaves

theorem StoredRecord.commit_refused {op : OpUpdate}
    (record : StoredRecord tree disk free node index entry intact)
    (safe : GcSafe node index)
    (full : ¬ Takes (btreeNodeMaxCellSize node)
      (node.freeHeap + entry.heapSize) payload.length)
    (prepared : op.step = .prepared) (found : op.notFound = false)
    (standing : op.cursor.position = (node.pageNumber, ⟨.limIndex, index⟩)) :
    ¬ FailureLeaves intact disk OpUpdate.lastStatus
      (btreeOpUpdateCommit tree op payload) := by
  obtain ⟨after, bodyEq, gone⟩ := record.refuses safe full
    (show (OpScan.mk none 0 op.cursor .iterating).cursor.position = _ from
      standing)
  rw [failureLeaves_iff (btreeOpUpdateCommit_found prepared found
    (BtM.attempt_error bodyEq))]
  exact fun leaves => gone (leaves (Option.some_ne_none _))

theorem StoredRecord.commit_iff {op : OpUpdate}
    (record : StoredRecord tree disk free node index entry intact)
    (safe : GcSafe node index) (sized : payload.length < 2 ^ 32)
    (room : disk.maxPage + recordPages (btreeNodeMaxCellSize node)
      (node.freeHeap + entry.heapSize) disk.pageSize payload.length <
        pageIdLimit)
    (prepared : op.step = .prepared) (found : op.notFound = false)
    (standing : op.cursor.position = (node.pageNumber, ⟨.limIndex, index⟩)) :
    FailureLeaves intact disk OpUpdate.lastStatus
        (btreeOpUpdateCommit tree op payload) ↔
      Takes (btreeNodeMaxCellSize node) (node.freeHeap + entry.heapSize)
        payload.length := by
  constructor
  · intro leaves
    by_contra full
    exact record.commit_refused safe full prepared found standing leaves
  · intro takes
    obtain ⟨stored, after, bodyEq⟩ := record.rewrites safe
      ⟨takes, sized, room⟩
      (show (OpScan.mk none 0 op.cursor .iterating).cursor.position = _ from
        standing)
    rw [failureLeaves_iff (btreeOpUpdateCommit_found prepared found
      (BtM.attempt_ok bodyEq))]
    exact fun fails => absurd rfl fails

theorem StoredRecord.scanUpdate_iff {op : OpScan}
    (record : StoredRecord tree disk free node index entry intact)
    (safe : GcSafe node index) (sized : payload.length < 2 ^ 32)
    (room : disk.maxPage + recordPages (btreeNodeMaxCellSize node)
      (node.freeHeap + entry.heapSize) disk.pageSize payload.length <
        pageIdLimit)
    (standing : op.cursor.position = (node.pageNumber, ⟨.limIndex, index⟩)) :
    FailureLeaves intact disk OpScan.lastStatus
        (btreeOpScanUpdate tree op payload) ↔
      Takes (btreeNodeMaxCellSize node) (node.freeHeap + entry.heapSize)
        payload.length := by
  constructor
  · intro leaves
    by_contra full
    obtain ⟨after, bodyEq, gone⟩ := record.refuses safe full standing
    rw [failureLeaves_iff (btreeOpScanUpdate_of (BtM.attempt_error bodyEq))]
      at leaves
    exact gone (leaves (Option.some_ne_none _))
  · intro takes
    obtain ⟨stored, after, bodyEq⟩ := record.rewrites safe
      ⟨takes, sized, room⟩ standing
    rw [failureLeaves_iff (btreeOpScanUpdate_of (BtM.attempt_ok bodyEq))]
    exact fun fails => absurd rfl fails

end Update

def packedTree : BTree := ⟨2, .table, 0⟩

/-- Two small and three large records in the root leaf on page 2. -/
def packedRecords : List TableRecord :=
  [⟨1, [1]⟩, ⟨2, [2]⟩, ⟨3, List.replicate 33 3⟩, ⟨4, List.replicate 33 4⟩,
    ⟨5, List.replicate 33 5⟩]

def packedDisk : Disk :=
  diskOfNodes 216 [(true, 0, []),
    (true, 0, packedRecords.map fun record => (record.key, record.payload))]

def packedLeaf : BTreeNode := loadedNode packedDisk 2

def largerPayload : List UInt8 := List.replicate 30 1

theorem packedDisk_checked :
    checkTable packedDisk [] packedTree.rootPageId 0 =
        some ([2], packedRecords.map fun record =>
          .record ⟨record.key, cellTypeCode .cellTypeInline,
            record.payload⟩) ∧
      (Holds packedDisk packedLeaf ∧ packedLeaf.isLeaf = true ∧
        packedLeaf.pageNumber = 2 ∧
        packedLeaf.entries[0]? = some ⟨1, 1, [1]⟩) ∧
      GcSafe packedLeaf 0 ∧
      ¬ Takes (btreeNodeMaxCellSize packedLeaf)
        (packedLeaf.freeHeap + (Entry.mk 1 1 [1]).heapSize)
        largerPayload.length ∧
      (btreeOpUpdatePrepare packedTree (btreeOpUpdateAcquireTbl packedTree 1)
        packedDisk).2 = packedDisk ∧
      (btreeOpUpdatePrepare packedTree (btreeOpUpdateAcquireTbl packedTree 1)
        packedDisk).1.map (fun op =>
          (op.step, op.notFound, op.cursor.position)) =
        .ok (.prepared, false, (2, ⟨.limIndex, 0⟩)) := by
  decide +kernel

theorem packedDisk_store :
    TableStore packedDisk [] packedTree.rootPageId 0 [2]
      (packedRecords.map fun record =>
        .record ⟨record.key, cellTypeCode .cellTypeInline, record.payload⟩) []
      packedRecords :=
  ⟨checkTable_sound packedDisk_checked.1,
    .cons .inline (.cons .inline (.cons .inline (.cons .inline
      (.cons .inline .nil)))), by decide, by decide⟩

end BtreeDb
