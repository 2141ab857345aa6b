import BtreeDb.Node.Codec
import BtreeDb.Node.Rc
import BtreeDb.Pager.FreeList

/-!
# Nodes on disk

`Holds` says that a node's contents are what the disk has at its page, and
`Updates` what a call did to the disk: which pages it rewrote, which it
allocated, and what became of the free list.  Loading, rewriting and
allocating a node are described in these terms.
-/

namespace BtreeDb

open Bytes Disk

/-! ## What a call did to the disk -/

/-- From `disk` with free list `free` to `after` with free list `left`: only
`touched` and `new` pages have other contents, and the `new` ones were free or
not on disk. -/
structure Updates (disk : Disk) (free : List Nat) (after : Disk)
    (left touched new : List Nat) : Prop where
  store : Store after left
  pageSize : after.pageSize = disk.pageSize
  kept : ∀ page, page ∉ touched → page ∉ new →
    after.buffer? page = disk.buffer? page
  grows : disk.maxPage ≤ after.maxPage
  bounded : after.maxPage ≤ disk.maxPage + new.length
  fresh : ∀ page ∈ new, page ∈ free ∨ disk.maxPage < page
  present : ∀ page ∈ new, page ≤ after.maxPage
  distinct : (new ++ left).Nodup
  taken : left = free.drop new.length

theorem Updates.shrinks {disk after : Disk} {free left touched new : List Nat}
    (updates : Updates disk free after left touched new) :
    ∀ page ∈ left, page ∈ free := by
  intro page member
  rw [updates.taken] at member
  exact List.mem_of_mem_drop member

theorem Updates.refl {disk : Disk} {free : List Nat} (store : Store disk free) :
    Updates disk free disk free [] [] where
  store := store
  pageSize := rfl
  kept := fun _ _ _ => rfl
  grows := Nat.le_refl _
  bounded := Nat.le_refl _
  fresh := by simp
  present := by simp
  distinct := store.distinct
  taken := rfl

theorem Updates.trans {disk middle after : Disk}
    {free kept left touched others new newer : List Nat}
    (first : Updates disk free middle kept touched new)
    (second : Updates middle kept after left others newer) :
    Updates disk free after left (touched ++ others) (new ++ newer) where
  store := second.store
  pageSize := second.pageSize.trans first.pageSize
  kept := by
    intro page notTouched notNew
    simp only [List.mem_append, not_or] at notTouched notNew
    rw [second.kept page notTouched.2 notNew.2,
      first.kept page notTouched.1 notNew.1]
  grows := Nat.le_trans first.grows second.grows
  bounded := by
    have low := first.bounded
    have high := second.bounded
    simp only [List.length_append]
    omega
  fresh := by
    intro page member
    rcases List.mem_append.mp member with early | late
    · exact first.fresh page early
    · rcases second.fresh page late with wasFree | beyond
      · exact Or.inl (first.shrinks page wasFree)
      · exact Or.inr (Nat.lt_of_le_of_lt first.grows beyond)
  present := by
    intro page member
    rcases List.mem_append.mp member with early | late
    · exact Nat.le_trans (first.present page early) second.grows
    · exact second.present page late
  distinct := by
    have firstDistinct := List.nodup_append.mp first.distinct
    rw [List.append_assoc, List.nodup_append]
    refine ⟨firstDistinct.1, second.distinct, ?_⟩
    intro page early other later same
    subst same
    rcases List.mem_append.mp later with newerMember | leftMember
    · rcases second.fresh page newerMember with wasFree | beyond
      · exact firstDistinct.2.2 page early page wasFree rfl
      · exact Nat.not_lt.mpr (first.present page early) beyond
    · exact firstDistinct.2.2 page early page
        (second.shrinks page leftMember) rfl
  taken := by
    rw [second.taken, first.taken, List.drop_drop, List.length_append]

/-- The order of the new pages does not matter. -/
theorem Updates.perm {disk after : Disk}
    {free left touched new others : List Nat}
    (updates : Updates disk free after left touched new)
    (same : new.Perm others) : Updates disk free after left touched others where
  store := updates.store
  pageSize := updates.pageSize
  kept := fun page notTouched notNew => updates.kept page notTouched
    fun member => notNew (same.mem_iff.mp member)
  grows := updates.grows
  bounded := by
    rw [← same.length_eq]
    exact updates.bounded
  fresh := fun page member => updates.fresh page (same.mem_iff.mpr member)
  present := fun page member => updates.present page (same.mem_iff.mpr member)
  distinct := (same.append_right left).nodup_iff.mp updates.distinct
  taken := by
    rw [← same.length_eq]
    exact updates.taken

theorem Updates.weaken {disk after : Disk}
    {free left touched others new : List Nat}
    (updates : Updates disk free after left touched new)
    (more : ∀ page ∈ touched, page ∈ others ∨ page ∈ new) :
    Updates disk free after left others new :=
  { updates with
    kept := fun page notTouched notNew => updates.kept page
      (fun member => (more page member).elim notTouched notNew) notNew }

/-- Pages in use before the call are none of those it allocated or left
free. -/
theorem Updates.used_apart {disk after : Disk}
    {free left touched new used : List Nat}
    (updates : Updates disk free after left touched new)
    (apart : (used ++ free).Nodup)
    (present : ∀ page ∈ used, page ≤ disk.maxPage) :
    (used ++ new ++ left).Nodup := by
  have parts := List.nodup_append.mp apart
  rw [List.append_assoc, List.nodup_append]
  refine ⟨parts.1, updates.distinct, ?_⟩
  intro page inUse other later same
  subst same
  rcases List.mem_append.mp later with isNew | isLeft
  · rcases updates.fresh page isNew with wasFree | beyond
    · exact parts.2.2 page inUse page wasFree rfl
    · exact Nat.not_lt.mpr (present page inUse) beyond
  · exact parts.2.2 page inUse page (updates.shrinks page isLeft) rfl

/-- A page in use keeps its contents unless the call rewrites it. -/
theorem Updates.kept_used {disk after : Disk}
    {free left touched new : List Nat} {page : Nat}
    (updates : Updates disk free after left touched new)
    (notTouched : page ∉ touched) (notFree : page ∉ free)
    (present : page ≤ disk.maxPage) :
    after.buffer? page = disk.buffer? page := by
  refine updates.kept page notTouched ?_
  intro isNew
  rcases updates.fresh page isNew with wasFree | beyond
  · exact notFree wasFree
  · exact Nat.not_lt.mpr present beyond

/-! ## Nodes on disk -/

/-- The contents of a node are on disk, and the node is well formed. -/
structure Holds (disk : Disk) (node : BTreeNode) : Prop where
  buffer : disk.buffer? node.pageNumber = some node.page.pageBuffer
  ok : NodeOk node
  encodable : Encodable node

/-- The metadata of a node in memory is fit to be written back. -/
structure MetaFresh (free : List Nat) (node : BTreeNode) : Prop where
  size : node.metaBytes.length = pagemetaSize
  first : node.pageNumber = 1 → u32At node.metaBytes 1 = free.headD 0

theorem Holds.present {disk : Disk} {node : BTreeNode}
    (holds : Holds disk node) :
    node.pageNumber ≠ 0 ∧ node.pageNumber ≤ disk.maxPage := by
  have buffer := holds.buffer
  unfold Disk.buffer? at buffer
  apply page?_isSome_iff.mp
  cases found : disk.page? node.pageNumber with
  | some image => rfl
  | none =>
      rw [found] at buffer
      cases buffer

theorem Holds.pageSize_eq {disk : Disk} {free : List Nat} {node : BTreeNode}
    (holds : Holds disk node) (store : Store disk free) :
    node.pageSize = disk.pageSize := by
  have buffer := holds.buffer
  unfold Disk.buffer? at buffer
  cases found : disk.page? node.pageNumber with
  | none =>
      rw [found] at buffer
      cases buffer
  | some image =>
      rw [found] at buffer
      have sized := (store.sized _ image found).2
      rw [← page_pageBuffer_length, ← sized]
      exact congrArg List.length (Option.some.inj buffer).symm

/-- The same contents under another page's metadata. -/
theorem page_pageBuffer_withMeta (node : BTreeNode) (metaBytes : List UInt8) :
    { node with metaBytes := metaBytes : BTreeNode }.page.pageBuffer =
      node.page.pageBuffer := rfl

theorem NodeOk.withMeta {node : BTreeNode} (ok : NodeOk node)
    (metaBytes : List UInt8) :
    NodeOk { node with metaBytes := metaBytes } :=
  ⟨ok.lead, ok.free, ok.used, ok.placed, ok.apart⟩

theorem Encodable.withMeta {node : BTreeNode} (encodable : Encodable node)
    (metaBytes : List UInt8) :
    Encodable { node with metaBytes := metaBytes } :=
  ⟨encodable.rightChild_lt, encodable.key_lt, encodable.flags_lt,
    encodable.pageSize_lt⟩

theorem Holds.withMeta {disk : Disk} {node : BTreeNode}
    (holds : Holds disk node) (metaBytes : List UInt8) :
    Holds disk { node with metaBytes := metaBytes } :=
  ⟨holds.buffer, holds.ok.withMeta _, holds.encodable.withMeta _⟩

theorem Holds.congr {disk after : Disk} {node : BTreeNode}
    (holds : Holds disk node)
    (same : after.buffer? node.pageNumber = disk.buffer? node.pageNumber) :
    Holds after node :=
  ⟨same.trans holds.buffer, holds.ok, holds.encodable⟩

theorem Updates.holds {disk after : Disk} {free left touched new : List Nat}
    {node : BTreeNode} (updates : Updates disk free after left touched new)
    (holds : Holds disk node) (notTouched : node.pageNumber ∉ touched)
    (notNew : node.pageNumber ∉ new) : Holds after node :=
  holds.congr (updates.kept _ notTouched notNew)

/-! ## Loading -/

theorem readPage_present {disk : Disk} {pageId : Nat} {image : PageImage}
    (present : disk.page? pageId = some image) :
    readPage pageId disk =
      (.ok ⟨pageId, image.metaBytes, image.pageBuffer⟩, disk) := by
  have pagerRead : (do
      let blank := blankPage (← get) pageCreateNewPage
      pagerReadPage pageId blank : PagerM Disk _) disk =
        some ((.ok, ⟨pageId, image.metaBytes, image.pageBuffer⟩), disk) := by
    rw [PagerM.bind_some (PagerM.get_apply disk)]
    exact diskRead_present present _
  unfold readPage
  rw [BtM.bind_ok (BtM.ofPager_some pagerRead)]
  rfl

theorem BtM.ofExcept_eq_ok {α : Type} {outcome : Except Stop α} {value : α}
    {disk after : Disk}
    (given : BtM.ofExcept outcome disk = (.ok value, after)) :
    outcome = .ok value ∧ after = disk := by
  cases outcome with
  | ok result => exact ⟨(Prod.mk.inj given).1, (Prod.mk.inj given).2.symm⟩
  | error reason => cases given

/-- Reading a page that is not there: a failed assertion for page 0, an error
for the others. -/
theorem readPage_absent {disk : Disk} {pageId : Nat}
    (absent : disk.page? pageId = none) :
    readPage pageId disk =
      (.error (if pageId = pageCreateNewPage then .assertFailed
        else .err .errPaging), disk) := by
  by_cases isNew : pageId = pageCreateNewPage
  · rw [if_pos isNew, isNew]
    rfl
  · have numbered : (pageId != pageCreateNewPage) = true := by
      simpa using isNew
    have pagerRead : (do
        let blank := blankPage (← get) pageCreateNewPage
        pagerReadPage pageId blank : PagerM Disk _) disk =
          some ((.errNif, { blankPage disk pageCreateNewPage with
            pageId := pageId }), disk) := by
      rw [PagerM.bind_some (PagerM.get_apply disk)]
      change diskRead pageId _ disk = _
      unfold diskRead
      simp only [cAssert, numbered, if_true, pure_bind]
      simp only [Bind.bind, StateT.bind, get, getThe, MonadStateOf.get,
        StateT.get, pure, Option.bind_some, absent, PagerM.pure_state]
    unfold readPage
    rw [BtM.bind_ok (BtM.ofPager_some pagerRead), if_neg isNew]
    rfl

/-- Reading the page of a node that the disk holds gives the node, with the
metadata on disk. -/
theorem readPage_holds {disk : Disk} {free : List Nat} {node : BTreeNode}
    (holds : Holds disk node) (store : Store disk free) :
    ∃ metaBytes,
      readPage node.pageNumber disk =
        (.ok { node with metaBytes := metaBytes : BTreeNode }.page, disk) ∧
      MetaFresh free { node with metaBytes := metaBytes } := by
  have buffer := holds.buffer
  unfold Disk.buffer? at buffer
  cases found : disk.page? node.pageNumber with
  | none =>
      rw [found] at buffer
      cases buffer
  | some image =>
      rw [found] at buffer
      have bufferEq : image.pageBuffer = node.page.pageBuffer :=
        Option.some.inj buffer
      refine ⟨image.metaBytes, ?_, (store.sized _ image found).1, ?_⟩
      · rw [readPage_present found, bufferEq]
        rfl
      · intro isFirst
        simp only at isFirst
        rw [isFirst] at found
        have head := store.chain.head
        unfold Disk.nextFree at head
        rw [found] at head
        exact head

theorem nodercReinitRead_holds {disk : Disk} {free : List Nat}
    {node : BTreeNode} (holds : Holds disk node) (store : Store disk free) :
    ∃ metaBytes,
      nodercReinitRead node.pageNumber disk =
        (.ok { node with metaBytes := metaBytes }, disk) ∧
      MetaFresh free { node with metaBytes := metaBytes } := by
  obtain ⟨metaBytes, readEq, metaFresh⟩ := readPage_holds holds store
  refine ⟨metaBytes, ?_, metaFresh⟩
  unfold nodercReinitRead
  rw [BtM.bind_ok readEq, nodeInitFromPage_page (holds.ok.withMeta _)
    (holds.encodable.withMeta _)]
  rfl

/-! ## Writing -/

theorem writePage_apply {disk after : Disk} {page written : Page}
    (writeEq : pagerWritePage page disk = some ((.ok, written), after)) :
    writePage page disk = (.ok written, after) := by
  unfold writePage
  rw [BtM.bind_ok (BtM.ofPager_some writeEq)]
  rfl

/-- Writing a node that has a page, whatever its contents. -/
theorem nodercPersist_numbered {disk : Disk} {node : BTreeNode}
    (numbered : node.pageNumber ≠ 0) (small : node.pageNumber < pageIdLimit) :
    nodercPersist node disk =
      (.ok { node with metaBytes := (setInUse node.page).metaBytes },
        disk.store node.pageNumber (setInUse node.page).image) := by
  unfold nodercPersist
  rw [BtM.bind_ok
    (writePage_apply (pagerWritePage_existing numbered small))]
  rfl

/-- Writing over a page changes that page only, whatever its metadata says. -/
theorem nodercPersist_over {disk : Disk} {free : List Nat} {node : BTreeNode}
    (store : Store disk free) (ok : NodeOk node) (encodable : Encodable node)
    (present : node.pageNumber ≠ 0 ∧ node.pageNumber ≤ disk.maxPage) :
    ∃ metaBytes after,
      nodercPersist node disk =
        (.ok { node with metaBytes := metaBytes }, after) ∧
      after = disk.store node.pageNumber (setInUse node.page).image ∧
      Holds after { node with metaBytes := metaBytes } ∧
      after.pageSize = disk.pageSize ∧ after.maxPage = disk.maxPage ∧
      ∀ page, page ≠ node.pageNumber →
        after.buffer? page = disk.buffer? page := by
  have small : node.page.pageId < pageIdLimit :=
    Nat.lt_of_le_of_lt present.2 store.few
  have place : node.pageNumber ≤ disk.maxPage + 1 :=
    Nat.le_succ_of_le present.2
  have numbered : node.pageNumber ≠ 0 := present.1
  refine ⟨(setInUse node.page).metaBytes, _,
    nodercPersist_numbered numbered small, rfl, ?_, rfl, ?_, ?_⟩
  · refine ⟨?_, ok.withMeta _, encodable.withMeta _⟩
    rw [store_buffer? numbered place]
    exact if_pos rfl
  · rw [store_maxPage place, if_neg]
    exact Nat.ne_of_lt (Nat.lt_succ_of_le present.2)
  · intro page other
    rw [store_buffer? numbered place, if_neg other]

/-- Writing a node back to its page. -/
theorem nodercPersist_existing {disk : Disk} {free : List Nat}
    {node : BTreeNode} (store : Store disk free) (ok : NodeOk node)
    (encodable : Encodable node) (size : node.pageSize = disk.pageSize)
    (present : node.pageNumber ≠ 0 ∧ node.pageNumber ≤ disk.maxPage)
    (used : node.pageNumber ∉ free) (metaFresh : MetaFresh free node) :
    ∃ metaBytes after,
      nodercPersist node disk =
        (.ok { node with metaBytes := metaBytes }, after) ∧
      Holds after { node with metaBytes := metaBytes } ∧
      MetaFresh free { node with metaBytes := metaBytes } ∧
      Updates disk free after free [node.pageNumber] [] := by
  have bufferSize : node.page.pageBuffer.length = disk.pageSize := by
    rw [page_pageBuffer_length, size]
  have current : node.page.pageId = 1 →
      u32At node.page.metaBytes 1 = disk.nextFree 1 := by
    intro isFirst
    rw [store.chain.head]
    exact metaFresh.first isFirst
  have small : node.page.pageId < pageIdLimit :=
    Nat.lt_of_le_of_lt present.2 store.few
  have place : node.page.pageId ≤ disk.maxPage + 1 :=
    Nat.le_succ_of_le present.2
  have numbered : node.page.pageId ≠ 0 := present.1
  have written : Store (disk.store node.page.pageId (setInUse node.page).image)
      free :=
    store.write numbered present.2 used metaFresh.size bufferSize current
  refine ⟨(setInUse node.page).metaBytes,
    disk.store node.page.pageId (setInUse node.page).image,
    nodercPersist_numbered numbered small, ?_, ?_, ?_⟩
  · refine ⟨?_, ok.withMeta _, encodable.withMeta _⟩
    rw [store_buffer? numbered place]
    exact if_pos rfl
  · refine ⟨setInUse_metaBytes_length metaFresh.size, ?_⟩
    intro isFirst
    rw [← metaFresh.first isFirst]
    exact setInUse_nextFree metaFresh.size
  · have sameMax : (disk.store node.page.pageId
        (setInUse node.page).image).maxPage = disk.maxPage := by
      rw [store_maxPage place, if_neg]
      exact Nat.ne_of_lt (Nat.lt_succ_of_le present.2)
    refine ⟨written, rfl, ?_, Nat.le_of_eq sameMax.symm, Nat.le_of_eq sameMax,
      by simp, by simp, store.distinct, rfl⟩
    intro page notTouched _
    rw [store_buffer? numbered place, if_neg]
    intro same
    exact notTouched (List.mem_singleton.mpr same)

/-- Writing a page that is not on disk yet. -/
theorem writePage_new {disk : Disk} {free : List Nat} {page : Page}
    (store : Store disk free) (isNew : page.pageId = 0)
    (metaSize : page.metaBytes.length = pagemetaSize)
    (bufferSize : page.pageBuffer.length = disk.pageSize)
    (room : disk.maxPage + 1 < pageIdLimit) :
    ∃ pageId metaBytes after,
      writePage page disk =
        (.ok ⟨pageId, metaBytes, page.pageBuffer⟩, after) ∧
      metaBytes.length = pagemetaSize ∧ pageId ≠ 0 ∧ pageId ≠ 1 ∧
      pageId < pageIdLimit ∧
      after.buffer? pageId = some page.pageBuffer ∧
      Updates disk free after free.tail [] [pageId] := by
  obtain ⟨metaBytes, after, writeEq, metaLength, afterStore, sameSize, buffers,
    _, newMax⟩ := pagerWritePage_new store isNew metaSize bufferSize
      fun _ => room
  have first := store.first
  have few := store.few
  have choice : nextNewPage disk free ∈ free ∨
      free = [] ∧ nextNewPage disk free = disk.maxPage + 1 := by
    cases free with
    | nil => exact Or.inr ⟨rfl, rfl⟩
    | cons head rest => exact Or.inl List.mem_cons_self
  have inFree : ∀ page ∈ free, page ≠ 0 ∧ page ≤ disk.maxPage :=
    store.free_le
  have notTail : nextNewPage disk free ∉ free.tail := by
    cases free with
    | nil => simp
    | cons head rest => exact (List.nodup_cons.mp store.distinct).1
  refine ⟨nextNewPage disk free, metaBytes, after, writePage_apply writeEq,
    metaLength, ?_, ?_, ?_, ?_, ?_⟩
  · rcases choice with member | ⟨_, isLast⟩
    · exact (inFree _ member).1
    · omega
  · rcases choice with member | ⟨_, isLast⟩
    · intro isFirst
      exact store.firstUsed (isFirst ▸ member)
    · omega
  · rcases choice with member | ⟨_, isLast⟩
    · exact Nat.lt_of_le_of_lt (inFree _ member).2 few
    · omega
  · rw [buffers, if_pos rfl]
  · refine ⟨afterStore, sameSize, ?_, ?_, ?_, ?_, ?_, ?_, ?_⟩
    · intro other _ notNew
      rw [buffers, if_neg]
      intro same
      exact notNew (List.mem_singleton.mpr same)
    · rw [newMax]
      split <;> omega
    · rw [newMax, List.length_singleton]
      split <;> omega
    · intro other member
      rw [List.mem_singleton.mp member]
      rcases choice with member | ⟨_, isLast⟩
      · exact Or.inl member
      · exact Or.inr (by omega)
    · intro other member
      rw [List.mem_singleton.mp member, newMax]
      rcases choice with member | ⟨isEmpty, isLast⟩
      · have inside := (inFree _ member).2
        split <;> omega
      · rw [if_pos isEmpty]
        omega
    · rw [List.singleton_append, List.nodup_cons]
      exact ⟨notTail, store.distinct.tail⟩
    · exact (List.drop_one).symm

/-! ## Fresh nodes -/

theorem fromLe_replicate_zero : ∀ count : Nat,
    fromLe (List.replicate count 0) = 0
  | 0 => rfl
  | count + 1 => by
      rw [List.replicate_succ, fromLe, fromLe_replicate_zero count]
      rfl

theorem u32At_replicate_zero (count offset : Nat) :
    u32At (List.replicate count 0) offset = 0 := by
  unfold u32At slice
  rw [List.drop_replicate, List.take_replicate, fromLe_replicate_zero]

theorem blankPage_eq (disk : Disk) (pageId : Nat) :
    blankPage disk pageId =
      ⟨pageId, List.replicate pagemetaSize 0,
        List.replicate disk.pageSize 0⟩ := by
  unfold blankPage pageCreate
  simp only [ PageIO.diskPageSize, Nat.add_sub_cancel]

/-- An empty node of a given page. -/
structure Fresh (disk : Disk) (pageId : Nat) (node : BTreeNode) : Prop where
  pageNumber_eq : node.pageNumber = pageId
  metaBytes_length : node.metaBytes.length = pagemetaSize
  isInner : node.isLeaf = false
  noRightChild : node.rightChild = 0
  empty : node.entries = []
  ok : NodeOk node
  pageSize_eq : node.pageSize = disk.pageSize

theorem blank_fresh {disk : Disk} (pageId : Nat)
    (wide : btreeHeaderSize + pageHeaderSize ≤ disk.pageSize) :
    Fresh disk pageId (nodeInitFromPage (blankPage disk pageId)) := by
  have offset_le : headerOffset pageId ≤ btreeHeaderSize := by
    unfold headerOffset
    split <;> omega
  have noKeys : (nodeOfPage (blankPage disk pageId)).keys = [] := by
    unfold nodeOfPage
    simp only [blankPage_eq, u32At_replicate_zero, List.range_zero,
      List.map_nil]
  have leadLength : (nodeInitFromPage (blankPage disk pageId)).leadBytes.length =
      headerOffset pageId := by
    unfold nodeInitFromPage nodeOfPage
    simp only [blankPage_eq, List.length_take, List.length_replicate]
    omega
  have heapLength : (nodeInitFromPage (blankPage disk pageId)).heap.length =
      heapCapacity pageId disk.pageSize := by
    unfold nodeInitFromPage nodeOfPage heapCapacity
    simp only [blankPage_eq, u32At_replicate_zero, List.length_drop,
      List.length_replicate]
    omega
  have freeEq : (nodeInitFromPage (blankPage disk pageId)).freeHeap =
      heapCapacity pageId disk.pageSize := by
    have noCount : (nodeOfPage (blankPage disk pageId)).numKeys = 0 := by
      rw [BTreeNode.numKeys, noKeys, List.length_nil]
    unfold nodeInitFromPage
    simp only [noCount, if_true]
    rw [blankPage_eq]
    simp only [List.length_replicate]
  have highWater :
      (nodeInitFromPage (blankPage disk pageId)).cellHighWaterOffset = 0 := by
    unfold nodeInitFromPage nodeOfPage
    simp only [blankPage_eq, u32At_replicate_zero]
  have keysEq : (nodeInitFromPage (blankPage disk pageId)).keys = [] := noKeys
  have pageNumber :
      (nodeInitFromPage (blankPage disk pageId)).pageNumber = pageId := by
    unfold nodeInitFromPage nodeOfPage
    rw [blankPage_eq]
  have entriesEq : (nodeInitFromPage (blankPage disk pageId)).entries = [] := by
    unfold BTreeNode.entries
    rw [keysEq, List.map_nil]
  refine ⟨pageNumber, ?_, ?_, ?_, entriesEq, ⟨?_, ?_, ?_, ?_, ?_⟩, ?_⟩
  · unfold nodeInitFromPage nodeOfPage
    simp only [blankPage_eq, List.length_replicate]
  · have zero : (List.replicate disk.pageSize (0 : UInt8)).getD
        (headerOffset pageId) 0 = 0 := by
      rw [List.getD_eq_getElem?_getD, List.getElem?_replicate]
      split <;> rfl
    unfold nodeInitFromPage nodeOfPage
    simp only [blankPage_eq, zero]
    rfl
  · unfold nodeInitFromPage nodeOfPage
    simp only [blankPage_eq, u32At_replicate_zero]
  · rw [leadLength, pageNumber]
  · rw [freeEq, highWater, heapLength, Nat.add_zero]
  · rw [highWater, entriesEq]
    rfl
  · simp [keysEq]
  · simp [keysEq]
  · unfold BTreeNode.pageSize BTreeNode.numKeys
    rw [leadLength, keysEq, heapLength]
    unfold heapCapacity
    simp only [List.length_nil]
    omega

theorem nodercAcquire_fresh {disk : Disk}
    (wide : btreeHeaderSize + pageHeaderSize ≤ disk.pageSize) :
    ∃ node, nodercAcquire disk = (.ok node, disk) ∧
      Fresh disk pageCreateNewPage node :=
  ⟨_, rfl, blank_fresh pageCreateNewPage wide⟩

theorem nodercReinitAs_fresh {disk : Disk} (pageId : Nat)
    (wide : btreeHeaderSize + pageHeaderSize ≤ disk.pageSize) :
    ∃ node, nodercReinitAs pageId disk = (.ok node, disk) ∧
      Fresh disk pageId node :=
  ⟨_, rfl, blank_fresh pageId wide⟩

/-- Writing a node that has no page yet. -/
theorem nodercPersist_new {disk : Disk} {free : List Nat} {node : BTreeNode}
    (store : Store disk free) (ok : NodeOk node) (encodable : Encodable node)
    (size : node.pageSize = disk.pageSize) (isNew : node.pageNumber = 0)
    (metaSize : node.metaBytes.length = pagemetaSize)
    (room : disk.maxPage + 1 < pageIdLimit) :
    ∃ pageId metaBytes after,
      nodercPersist node disk =
        (.ok { node with pageNumber := pageId, metaBytes := metaBytes },
          after) ∧
      metaBytes.length = pagemetaSize ∧ pageId ≠ 0 ∧ pageId ≠ 1 ∧
      pageId < pageIdLimit ∧
      Holds after
        { node with pageNumber := pageId, metaBytes := metaBytes } ∧
      Updates disk free after free.tail [] [pageId] := by
  obtain ⟨pageId, metaBytes, after, writeEq, metaLength, numbered, notFirst,
    small, found, updates⟩ := writePage_new store (show node.page.pageId = 0
      from isNew) metaSize (by rw [page_pageBuffer_length, size]) room
  refine ⟨pageId, metaBytes, after, ?_, metaLength, numbered, notFirst, small,
    ⟨found, ?_, ?_⟩, updates⟩
  · unfold nodercPersist
    rw [BtM.bind_ok writeEq]
    rfl
  · refine ⟨?_, ok.free, ok.used, ok.placed, ok.apart⟩
    have lead := ok.lead
    unfold headerOffset at lead ⊢
    rw [if_neg (by omega)] at lead
    rw [if_neg notFirst]
    exact lead
  · exact ⟨encodable.rightChild_lt, encodable.key_lt, encodable.flags_lt,
      encodable.pageSize_lt⟩

end BtreeDb
