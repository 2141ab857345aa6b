import BtreeDb.Pager.Refinement

/-!
# A file that may fail

`PagerOps` with any behaviour: a read or a write may fail at any call, and a
failed read may leave anything in the buffer.  `OpsPager` is the pager of
`pager_internal.c` over such operations; it keeps an account of what it asked
of them and of the result code that it made of theirs.  `pager_internal_write`
does not look at the result of the write, and of the results of a read
`pager_internal_cached_read` knows `PAGER_READ_ERR` only.
-/

namespace BtreeDb

open Bytes

/-! ## The pager over any operations -/

/-- `read` and `write` of `struct PagerOps`, for a file in a state of the given
type.  A read gets the buffer as it is and gives it back as the call leaves
it. -/
structure PagerOps (φ : Type) where
  read : φ → List UInt8 → Int → Nat → PagerE × List UInt8 × φ
  write : φ → List UInt8 → Int → PagerE × φ

/-- A call of `read` or `write`: the page, the bytes, the result of the call
and the result code that the function around it returned. -/
inductive IoCall where
  | read (pageId : Nat) (bytes : List UInt8) (result reported : PagerE)
  | write (pageId : Nat) (bytes : List UInt8) (result reported : PagerE)
  deriving DecidableEq, Repr

structure OpsPager (φ : Type) where
  ops : PagerOps φ
  file : φ
  diskPageSize : Nat
  maxPage : Nat
  cache : PageCache
  /-- The calls so far, the last one first; no code reads them. -/
  calls : List IoCall

section Primitives

variable {φ : Type}

/-- `pager_internal_cached_read` over `read_from_disk`. -/
def opsCachedRead (pageId : Nat) (page : Page) :
    PagerM (OpsPager φ) (PagerE × Page) := do
  cAssert (pageId != pageCreateNewPage)
  let pager ← get
  match pageCacheAcquire pager.cache pageId with
  | some (cachedPage, cache) =>
      set { pager with cache := pageCacheRelease cache cachedPage.pageId }
      pure (.ok,
        { page.withDiskBytes cachedPage.diskBytes with pageId := pageId })
  | none =>
      let blank := pageCreate pager.diskPageSize
      let (result, bytes, file) := pager.ops.read pager.file blank.diskBytes
        (pageOffset pager.diskPageSize pageId) pager.diskPageSize
      let cachedPage := { blank.withDiskBytes bytes with pageId := pageId }
      if result = .readErr then
        set { pager with
          file := file
          calls := .read pageId bytes result .errNif :: pager.calls }
        pure (.errNif, { page with pageId := pageId })
      else
        -- `page_commit`
        let cache ← StateT.lift (pageCacheInsert pager.cache cachedPage)
        set { pager with
          file := file
          cache := pageCacheRelease cache cachedPage.pageId
          calls := .read pageId bytes result .ok :: pager.calls }
        pure (.ok,
          { page.withDiskBytes cachedPage.diskBytes with pageId := pageId })

/-- `pager_internal_cached_write` over `pager_internal_write`. -/
def opsCachedWrite (page : Page) : PagerM (OpsPager φ) PagerE := do
  let pager ← get
  let cache :=
    match pageCacheAcquire pager.cache page.pageId with
    | some (cachedPage, cache) =>
        pageCacheRelease (pageCacheStore cache page.pageId page.diskBytes)
          cachedPage.pageId
    | none => pager.cache
  let (result, file) := pager.ops.write pager.file page.diskBytes
    (pageOffset pager.diskPageSize page.pageId)
  set { pager with
    file := file
    maxPage :=
      if page.pageId > pager.maxPage then page.pageId else pager.maxPage
    cache := cache
    calls := .write page.pageId page.diskBytes result .ok :: pager.calls }
  pure .ok

instance : PageIO (OpsPager φ) where
  diskPageSize pager := pager.diskPageSize
  maxPage pager := pager.maxPage
  cachedRead := opsCachedRead
  cachedWrite := opsCachedWrite

end Primitives

/-! ## The file of the other pagers -/

/-- The operations of `pager_ops_cstd.c` on a file that is a byte list. -/
def fileOps : PagerOps (List UInt8) where
  read file buffer offset readSize :=
    match opsRead file offset readSize with
    | (.ok, bytes) => (.ok, bytes, file)
    | (result, _) => (result, buffer, file)
  write file data offset :=
    (if offset < 0 then .seekErr else .ok, opsWrite file offset data)

/-- The pager that these operations make. -/
def OpsPager.pager (pager : OpsPager (List UInt8)) : Pager where
  diskPageSize := pager.diskPageSize
  maxPage := pager.maxPage
  file := pager.file
  cache := pager.cache

theorem pageCreate_withDiskBytes (diskPageSize : Nat) :
    (pageCreate diskPageSize).withDiskBytes
      (pageCreate diskPageSize).diskBytes = pageCreate diskPageSize := by
  have size : (pageCreate diskPageSize).metaBytes.length = pagemetaSize :=
    List.length_replicate
  unfold Page.withDiskBytes Page.diskBytes
  rw [List.take_left' size, List.drop_left' size]

theorem opsCachedWrite_fileOps {pager : OpsPager (List UInt8)}
    (isFile : pager.ops = fileOps) (page : Page) :
    (opsCachedWrite page pager).map (fun out => (out.1, out.2.pager)) =
      pagerInternalCachedWrite page pager.pager := by
  unfold opsCachedWrite pagerInternalCachedWrite
  rw [PagerM.bind_some (PagerM.get_apply pager),
    PagerM.bind_some (PagerM.get_apply pager.pager), isFile]
  rfl

/-- A read of the file fills the buffer as `read_from_disk` does. -/
theorem fileOps_read (pager : OpsPager (List UInt8)) (pageId : Nat) :
    ∃ bytes, fileOps.read pager.file (pageCreate pager.diskPageSize).diskBytes
        (pageOffset pager.diskPageSize pageId) pager.diskPageSize =
          ((pagerInternalRead pager.pager.toFilePager pageId
            (pageCreate pager.diskPageSize)).1, bytes, pager.file) ∧
      { (pageCreate pager.diskPageSize).withDiskBytes bytes with
          pageId := pageId } =
        (pagerInternalRead pager.pager.toFilePager pageId
          (pageCreate pager.diskPageSize)).2 := by
  have readEq : opsRead pager.pager.file
      (pageOffset pager.pager.diskPageSize pageId) pager.pager.diskPageSize =
      opsRead pager.file (pageOffset pager.diskPageSize pageId)
        pager.diskPageSize := rfl
  unfold pagerInternalRead fileOps
  simp only
  rw [readEq]
  rcases opsRead pager.file (pageOffset pager.diskPageSize pageId)
    pager.diskPageSize with ⟨result, bytes⟩
  by_cases isOk : result = .ok
  · rw [isOk]
    exact ⟨bytes, rfl, rfl⟩
  · refine ⟨(pageCreate pager.diskPageSize).diskBytes, ?_, ?_⟩
    · cases result <;> first | rfl | exact absurd rfl isOk
    · rw [pageCreate_withDiskBytes]
      cases result <;> first | rfl | exact absurd rfl isOk

theorem opsCachedRead_fileOps {pager : OpsPager (List UInt8)}
    (isFile : pager.ops = fileOps) (pageId : Nat) (page : Page) :
    (opsCachedRead pageId page pager).map (fun out => (out.1, out.2.pager)) =
      pagerInternalCachedRead pageId page pager.pager := by
  unfold opsCachedRead pagerInternalCachedRead
  by_cases isNew : pageId = pageCreateNewPage
  · rw [isNew]
    rfl
  · have numbered : (pageId != pageCreateNewPage) = true := by
      simpa using isNew
    simp only [cAssert, numbered, if_true, pure_bind]
    rw [PagerM.bind_some (PagerM.get_apply pager),
      PagerM.bind_some (PagerM.get_apply pager.pager)]
    have sameCache : pager.pager.cache = pager.cache := rfl
    have sameSize : pager.pager.diskPageSize = pager.diskPageSize := rfl
    rw [sameCache, sameSize, isFile]
    cases pageCacheAcquire pager.cache pageId with
    | some slot => rfl
    | none =>
        obtain ⟨bytes, readEq, pageEq⟩ := fileOps_read pager pageId
        simp only [readEq, pageEq]
        by_cases failed : (pagerInternalRead pager.pager.toFilePager pageId
            (pageCreate pager.diskPageSize)).1 = .readErr
        · rw [if_pos failed, if_pos failed]
          rfl
        · rw [if_neg failed, if_neg failed]
          have sameId : (pagerInternalRead pager.pager.toFilePager pageId
              (pageCreate pager.diskPageSize)).2.pageId = pageId := by
            rw [← pageEq]
          cases insertEq : pageCacheInsert pager.cache
              (pagerInternalRead pager.pager.toFilePager pageId
                (pageCreate pager.diskPageSize)).2 with
          | none =>
              simp only [Bind.bind, StateT.bind, StateT.lift, Option.bind_none,
                Option.map_none]
          | some cache =>
              simp only [Bind.bind, StateT.bind, StateT.lift, Option.bind_some,
                sameId]
              rfl

/-! ## What a cache holds -/

/-- The slots of the array without their reference counts. -/
def PageCache.slots (cache : PageCache) : List (Nat × Page) :=
  cache.pages.map fun key => (key.pageId, key.page)

theorem slots_set {cache : PageCache} {index ref : Nat} {key : PageCacheKey}
    (here : cache.pages[index]? = some key) :
    ({ cache with pages := cache.pages.set index { key with ref := ref } } :
      PageCache).slots = cache.slots := by
  obtain ⟨inside, keyEq⟩ := List.getElem?_eq_some_iff.mp here
  unfold PageCache.slots
  apply List.ext_getElem?
  intro position
  rw [List.getElem?_map, List.getElem?_map, List.getElem?_set]
  by_cases same : index = position
  · subst same
    rw [if_pos rfl, if_pos inside, here]
    rfl
  · rw [if_neg same]

theorem pageCacheRelease_slots (cache : PageCache) (pageId : Nat) :
    (pageCacheRelease cache pageId).slots = cache.slots := by
  unfold pageCacheRelease
  simp only
  by_cases found : (findInCache cache pageId).1 = true
  · rw [if_pos found]
    cases here : cache.pages[(findInCache cache pageId).2]? with
    | none => rfl
    | some key => exact slots_set here
  · rw [if_neg found]

theorem pageCacheRelease_capacity (cache : PageCache) (pageId : Nat) :
    (pageCacheRelease cache pageId).capacity = cache.capacity := by
  unfold pageCacheRelease
  simp only
  split
  · split <;> rfl
  · rfl

theorem pageCacheAcquire_slots {cache acquired : PageCache} {pageId : Nat}
    {page : Page} (acquireEq : pageCacheAcquire cache pageId =
      some (page, acquired)) :
    acquired.slots = cache.slots ∧ acquired.capacity = cache.capacity := by
  unfold pageCacheAcquire at acquireEq
  simp only at acquireEq
  by_cases found : (findInCache cache pageId).1 = true
  · rw [if_pos found] at acquireEq
    cases here : cache.pages[(findInCache cache pageId).2]? with
    | none =>
        rw [here] at acquireEq
        cases acquireEq
    | some key =>
        rw [here] at acquireEq
        rw [← (Prod.mk.inj (Option.some.inj acquireEq)).2]
        exact ⟨slots_set here, rfl⟩
  · rw [if_neg found] at acquireEq
    cases acquireEq

/-- The order of a cache is that of its slots. -/
theorem PageCache.Ordered.congr {cache other : PageCache}
    (ordered : cache.Ordered) (slots : other.slots = cache.slots)
    (capacity : other.capacity = cache.capacity) : other.Ordered := by
  have ids : other.pages.map PageCacheKey.pageId =
      cache.pages.map PageCacheKey.pageId := by
    have firsts := congrArg (List.map Prod.fst) slots
    unfold PageCache.slots at firsts
    rw [List.map_map, List.map_map] at firsts
    exact firsts
  refine ⟨?_, ?_, ?_⟩
  · rw [capacity]
    exact ordered.capacity_pos
  · have sorted := ordered.sorted
    rw [← List.pairwise_map] at sorted ⊢
    rwa [ids]
  · have lengths := congrArg List.length ids
    rw [List.length_map, List.length_map] at lengths
    rw [lengths, capacity]
    exact ordered.room

/-- Writing through the pointer of a cached page changes its slot only. -/
theorem pageCacheStore_slots {cache : PageCache} (ordered : cache.Ordered)
    (pageId : Nat) (bytes : List UInt8) :
    (pageCacheStore cache pageId bytes).Ordered ∧
      ∀ slot ∈ (pageCacheStore cache pageId bytes).slots,
        slot.1 = pageId ∧ slot.2.diskBytes = bytes ∨
          slot ∈ cache.slots ∧ slot.1 ≠ pageId := by
  by_cases cached : ∃ key ∈ cache.pages, key.pageId = pageId
  · obtain ⟨key, member, rfl⟩ := cached
    obtain ⟨index, found, here⟩ := findInCache_member ordered member
    have storeEq : pageCacheStore cache key.pageId bytes =
        { cache with
          pages := cache.pages.set index
            { key with page := key.page.withDiskBytes bytes } } := by
      unfold pageCacheStore
      rw [found]
      simp only [if_true, here]
    rw [storeEq]
    refine ⟨⟨ordered.capacity_pos, ?_, ?_⟩, ?_⟩
    · have sorted := ordered.sorted
      rw [← List.pairwise_map] at sorted ⊢
      rwa [pageIds_set here]
      rfl
    · simp only [List.length_set]
      exact ordered.room
    · intro slot slotMember
      obtain ⟨other, otherMember, rfl⟩ := List.mem_map.mp slotMember
      rcases mem_set_slot ordered.sorted here other otherMember with
        rfl | ⟨old, different⟩
      · exact Or.inl ⟨rfl, withDiskBytes_diskBytes _ _⟩
      · exact Or.inr ⟨List.mem_map_of_mem old, different⟩
  · have absent : ∀ key ∈ cache.pages, key.pageId ≠ pageId :=
      fun key member same => cached ⟨key, member, same⟩
    obtain ⟨index, -, notFound, -, -⟩ := findInCache_absent ordered absent
    have storeEq : pageCacheStore cache pageId bytes = cache := by
      unfold pageCacheStore
      rw [notFound]
      simp
    rw [storeEq]
    refine ⟨ordered, ?_⟩
    intro slot member
    obtain ⟨key, keyMember, rfl⟩ := List.mem_map.mp member
    exact Or.inr ⟨member, absent key keyMember⟩

theorem evictIfFull_some {cache kept : PageCache} (ordered : cache.Ordered)
    (keptEq : evictIfFull cache = some kept) :
    kept.capacity = cache.capacity ∧ kept.pages.Sublist cache.pages ∧
      kept.pages.length < kept.capacity := by
  have room := ordered.room
  unfold evictIfFull at keptEq
  by_cases full : cache.pages.length = cache.capacity
  · rw [if_pos full] at keptEq
    unfold cacheEvict at keptEq
    split at keptEq
    · rename_i index found
      obtain rfl := Option.some.inj keptEq
      have inside := (List.findIdx?_eq_some_iff_getElem.mp found).1
      refine ⟨rfl, List.eraseIdx_sublist _ _, ?_⟩
      simp only [List.length_eraseIdx, inside, if_true]
      omega
    · cases keptEq
  · rw [if_neg full] at keptEq
    obtain rfl := Option.some.inj keptEq
    exact ⟨rfl, List.Sublist.refl _, by omega⟩

theorem pageCacheInsert_slots {cache inserted : PageCache}
    (ordered : cache.Ordered) {page : Page}
    (insertEq : pageCacheInsert cache page = some inserted) :
    inserted.Ordered ∧
      ∀ slot ∈ inserted.slots,
        slot ∈ cache.slots ∨ slot = (page.pageId, page) := by
  unfold pageCacheInsert at insertEq
  by_cases isNew : page.pageId = 0
  · rw [if_pos isNew] at insertEq
    cases insertEq
  · rw [if_neg isNew] at insertEq
    obtain ⟨kept, keptEq, insertEq⟩ := Option.bind_eq_some_iff.mp insertEq
    obtain ⟨sameCapacity, sublist, room⟩ := evictIfFull_some ordered keptEq
    have keptOrdered : kept.Ordered :=
      { capacity_pos := by rw [sameCapacity]; exact ordered.capacity_pos
        sorted := ordered.sorted.sublist sublist
        room := Nat.le_of_lt room }
    by_cases cached : ∃ key ∈ kept.pages, key.pageId = page.pageId
    · obtain ⟨key, member, sameId⟩ := cached
      obtain ⟨index, found, -⟩ := findInCache_member keptOrdered member
      rw [sameId] at found
      simp only [found, if_true] at insertEq
      cases insertEq
    · obtain ⟨index, bound, notFound, before, after⟩ :=
        findInCache_absent keptOrdered
          fun key member same => cached ⟨key, member, same⟩
      simp only [notFound, Bool.false_eq_true, if_false] at insertEq
      split at insertEq
      · obtain rfl := Option.some.inj insertEq
        refine ⟨⟨keptOrdered.capacity_pos, ?_, ?_⟩, ?_⟩
        · exact ListEdit.pairwise_insertIdx bound keptOrdered.sorted before after
        · simp only [List.length_insertIdx, bound, if_true]
          omega
        · intro slot member
          obtain ⟨key, keyMember, rfl⟩ := List.mem_map.mp member
          rcases (ListEdit.mem_insertIdx_iff bound).mp keyMember with
            rfl | old
          · exact Or.inr rfl
          · exact Or.inl (List.mem_map_of_mem (sublist.subset old))
      · cases insertEq

/-! ## The account of the calls -/

/-- The bytes last stored for each page, by calls the last of which comes
first, when `stored` gives those before them. -/
def storedBy (stored : Nat → List UInt8) : List IoCall → Nat → List UInt8
  | [], pageId => stored pageId
  | .write written bytes result _ :: calls, pageId =>
      if result = .ok ∧ written = pageId then bytes
      else storedBy stored calls pageId
  | .read _ _ _ _ :: calls, pageId => storedBy stored calls pageId

/-- A read that succeeds gives the bytes that were last stored. -/
def HonestReads (stored : Nat → List UInt8) : List IoCall → Prop
  | [] => True
  | .write _ _ _ _ :: calls => HonestReads stored calls
  | .read pageId bytes result _ :: calls =>
      (result = .ok → bytes = storedBy stored calls pageId) ∧
        HonestReads stored calls

/-- The function around the call says `PAGER_OK` only if the call did. -/
def IoCall.Reported : IoCall → Prop
  | .read _ _ result reported => reported = .ok → result = .ok
  | .write _ _ result reported => reported = .ok → result = .ok

/-- A write that succeeds; a read that succeeds or finds no page. -/
def IoCall.Succeeds : IoCall → Prop
  | .read _ _ result _ => result = .ok ∨ result = .readErr
  | .write _ _ result _ => result = .ok

/-- Every cached page has the bytes last stored for it. -/
structure Holding {φ : Type} (stored : Nat → List UInt8)
    (pager : OpsPager φ) : Prop where
  ordered : pager.cache.Ordered
  fresh : ∀ slot ∈ pager.cache.slots,
    slot.2.diskBytes = storedBy stored pager.calls slot.1

theorem HonestReads.suffix {stored : Nat → List UInt8} {calls : List IoCall} :
    ∀ {made : List IoCall}, HonestReads stored (made ++ calls) →
      HonestReads stored calls := by
  intro made
  induction made with
  | nil => exact id
  | cons call rest inductionHypothesis =>
      intro honest
      cases call with
      | read pageId bytes result reported =>
          exact inductionHypothesis honest.2
      | write pageId bytes result reported => exact inductionHypothesis honest

/-- A call of the pager adds calls to the account.  Each of them that fails is
one that is not reported, and when none of them fails the cache goes on
holding what is stored. -/
def Accounts {φ α : Type} (stored : Nat → List UInt8)
    (call : PagerM (OpsPager φ) α) : Prop :=
  ∀ pager result after, call pager = some (result, after) →
    ∃ made, after.calls = made ++ pager.calls ∧
      (∀ io ∈ made, io.Reported ↔ io.Succeeds) ∧
      (HonestReads stored after.calls → (∀ io ∈ made, io.Succeeds) →
        Holding stored pager → Holding stored after)

section Rules

variable {φ α β : Type} {stored : Nat → List UInt8}

theorem Accounts.pure (result : α) :
    Accounts stored (Pure.pure result : PagerM (OpsPager φ) α) := by
  intro pager value after runEq
  cases runEq
  refine ⟨[], rfl, ?_, fun _ _ holding => holding⟩
  intro io member
  cases member

theorem Accounts.bind {call : PagerM (OpsPager φ) α}
    {next : α → PagerM (OpsPager φ) β} (first : Accounts stored call)
    (then_ : ∀ result, Accounts stored (next result)) :
    Accounts stored (call >>= next) := by
  intro pager value after runEq
  simp only [Bind.bind, StateT.bind] at runEq
  cases callEq : call pager with
  | none =>
      rw [callEq] at runEq
      cases runEq
  | some outcome =>
      obtain ⟨result, middle⟩ := outcome
      rw [callEq] at runEq
      obtain ⟨made, madeEq, reported, holds⟩ := first pager result middle callEq
      obtain ⟨later, laterEq, laterReported, laterHolds⟩ :=
        then_ result middle value after runEq
      refine ⟨later ++ made, ?_, ?_, ?_⟩
      · rw [laterEq, madeEq, List.append_assoc]
      · intro io member
        rcases List.mem_append.mp member with isLater | isMade
        · exact laterReported io isLater
        · exact reported io isMade
      · intro honest succeed holding
        have middleHonest : HonestReads stored middle.calls := by
          rw [laterEq] at honest
          exact honest.suffix
        apply laterHolds honest
        · exact fun io member => succeed io (List.mem_append_left _ member)
        · apply holds middleHonest _ holding
          exact fun io member => succeed io (List.mem_append_right _ member)

theorem Accounts.get {next : OpsPager φ → PagerM (OpsPager φ) α}
    (then_ : ∀ pager, Accounts stored (next pager)) :
    Accounts stored (MonadState.get >>= next) :=
  fun pager value after runEq => then_ pager pager value after runEq

theorem Accounts.assert {condition : Bool} {next : PagerM (OpsPager φ) α}
    (then_ : Accounts stored next) :
    Accounts stored (cAssert condition >>= fun _ => next) := by
  intro pager value after runEq
  cases condition with
  | true => exact then_ pager value after runEq
  | false => cases runEq

end Rules

/-! ## The primitives -/

section Primitives

variable {φ : Type} {stored : Nat → List UInt8}

theorem pageCacheAcquire_none {cache : PageCache} (ordered : cache.Ordered)
    {pageId : Nat} (missed : pageCacheAcquire cache pageId = none) :
    ∀ slot ∈ cache.slots, slot.1 ≠ pageId := by
  intro slot member same
  obtain ⟨key, keyMember, rfl⟩ := List.mem_map.mp member
  obtain ⟨index, found, here⟩ := findInCache_member ordered keyMember
  simp only at same
  rw [same] at found
  unfold pageCacheAcquire at missed
  rw [found] at missed
  simp only [if_true, here] at missed
  cases missed

/-- The cache that `pager_internal_cached_write` leaves. -/
theorem cachedWrite_slots {cache after : PageCache} (ordered : cache.Ordered)
    {pageId : Nat} {bytes : List UInt8}
    (afterEq : (match pageCacheAcquire cache pageId with
      | some (cachedPage, acquired) =>
          pageCacheRelease (pageCacheStore acquired pageId bytes)
            cachedPage.pageId
      | none => cache) = after) :
    after.Ordered ∧
      ∀ slot ∈ after.slots,
        slot.1 = pageId ∧ slot.2.diskBytes = bytes ∨
          slot ∈ cache.slots ∧ slot.1 ≠ pageId := by
  cases acquireEq : pageCacheAcquire cache pageId with
  | none =>
      rw [acquireEq] at afterEq
      subst afterEq
      have absent := pageCacheAcquire_none ordered acquireEq
      exact ⟨ordered, fun slot member => Or.inr ⟨member, absent slot member⟩⟩
  | some hit =>
      obtain ⟨cachedPage, acquired⟩ := hit
      rw [acquireEq] at afterEq
      subst afterEq
      obtain ⟨sameSlots, sameCapacity⟩ := pageCacheAcquire_slots acquireEq
      have acquiredOrdered := ordered.congr sameSlots sameCapacity
      obtain ⟨storeOrdered, slots⟩ :=
        pageCacheStore_slots acquiredOrdered pageId bytes
      refine ⟨storeOrdered.congr (pageCacheRelease_slots _ _)
        (pageCacheRelease_capacity _ _), ?_⟩
      intro slot member
      rw [pageCacheRelease_slots] at member
      rw [← sameSlots]
      exact slots slot member

theorem accounts_cachedWrite (page : Page) :
    Accounts stored
      ( PageIO.cachedWrite page : PagerM (OpsPager φ) PagerE) := by
  intro pager result after runEq
  obtain ⟨rfl, rfl⟩ := Prod.mk.inj (Option.some.inj runEq)
  refine ⟨[_], rfl, ?_, ?_⟩
  · intro io member
    obtain rfl := List.mem_singleton.mp member
    exact ⟨fun reported => reported rfl, fun succeeds _ => succeeds⟩
  · intro _ succeed holding
    have written := succeed _ (List.mem_singleton.mpr rfl)
    obtain ⟨ordered, slots⟩ := @cachedWrite_slots _ _ holding.ordered
      page.pageId page.diskBytes rfl
    refine ⟨ordered, ?_⟩
    intro slot member
    unfold IoCall.Succeeds at written
    rcases slots slot member with ⟨sameId, sameBytes⟩ | ⟨old, different⟩
    · rw [storedBy, if_pos ⟨written, sameId.symm⟩]
      exact sameBytes
    · rw [storedBy, if_neg fun both => different both.2.symm]
      exact holding.fresh slot old

/-- What a read can do: find the page in the cache, find no page, or cache
what the call left in the buffer. -/
theorem opsCachedRead_cases {pageId : Nat} {page : Page}
    {pager after : OpsPager φ} {outcome : PagerE × Page}
    (runEq : opsCachedRead pageId page pager = some (outcome, after)) :
    (∃ cachedPage acquired,
      pageCacheAcquire pager.cache pageId = some (cachedPage, acquired) ∧
      after = { pager with
        cache := pageCacheRelease acquired cachedPage.pageId }) ∨
    (∃ bytes file, outcome.1 = .errNif ∧
      after = { pager with
        file := file
        calls := .read pageId bytes .readErr .errNif :: pager.calls }) ∨
    ∃ result bytes file cachedPage inserted,
      result ≠ .readErr ∧ cachedPage.pageId = pageId ∧
      cachedPage.diskBytes = bytes ∧
      pageCacheInsert pager.cache cachedPage = some inserted ∧
      after = { pager with
        file := file
        cache := pageCacheRelease inserted cachedPage.pageId
        calls := .read pageId bytes result .ok :: pager.calls } := by
  unfold opsCachedRead at runEq
  by_cases isNew : pageId = pageCreateNewPage
  · rw [isNew] at runEq
    cases runEq
  · have numbered : (pageId != pageCreateNewPage) = true := by
      simpa using isNew
    simp only [cAssert, numbered, if_true, pure_bind] at runEq
    rw [PagerM.bind_some (PagerM.get_apply pager)] at runEq
    cases acquireEq : pageCacheAcquire pager.cache pageId with
    | some hit =>
        obtain ⟨cachedPage, acquired⟩ := hit
        rw [acquireEq] at runEq
        obtain ⟨rfl, rfl⟩ := Prod.mk.inj (Option.some.inj runEq)
        exact Or.inl ⟨cachedPage, acquired, rfl, rfl⟩
    | none =>
        rw [acquireEq] at runEq
        rcases readEq : pager.ops.read pager.file
          (pageCreate pager.diskPageSize).diskBytes
          (pageOffset pager.diskPageSize pageId) pager.diskPageSize with
          ⟨result, bytes, file⟩
        simp only [readEq] at runEq
        by_cases missing : result = .readErr
        · rw [if_pos missing, missing] at runEq
          obtain ⟨rfl, rfl⟩ := Prod.mk.inj (Option.some.inj runEq)
          exact Or.inr (Or.inl ⟨bytes, file, rfl, rfl⟩)
        · rw [if_neg missing] at runEq
          simp only [Bind.bind, StateT.bind, StateT.lift] at runEq
          cases insertEq : pageCacheInsert pager.cache
              { (pageCreate pager.diskPageSize).withDiskBytes bytes with
                  pageId := pageId } with
          | none =>
              rw [insertEq] at runEq
              cases runEq
          | some inserted =>
              rw [insertEq] at runEq
              obtain ⟨rfl, rfl⟩ := Prod.mk.inj (Option.some.inj runEq)
              exact Or.inr (Or.inr ⟨result, bytes, file,
                { (pageCreate pager.diskPageSize).withDiskBytes bytes with
                    pageId := pageId },
                inserted, missing, rfl, withDiskBytes_diskBytes
                  (pageCreate pager.diskPageSize) bytes, insertEq, rfl⟩)

theorem accounts_cachedRead (pageId : Nat) (page : Page) :
    Accounts stored
      ( PageIO.cachedRead pageId page :
        PagerM (OpsPager φ) (PagerE × Page)) := by
  intro pager outcome after runEq
  rcases opsCachedRead_cases runEq with
    ⟨cachedPage, acquired, acquireEq, rfl⟩ | ⟨bytes, file, -, rfl⟩ |
    ⟨result, bytes, file, cachedPage, inserted, found, rfl, rfl, insertEq, rfl⟩
  · obtain ⟨sameSlots, sameCapacity⟩ := pageCacheAcquire_slots acquireEq
    refine ⟨[], rfl, fun io member => (List.not_mem_nil member).elim, ?_⟩
    intro _ _ holding
    refine ⟨(holding.ordered.congr sameSlots sameCapacity).congr
      (pageCacheRelease_slots _ _) (pageCacheRelease_capacity _ _), ?_⟩
    intro slot member
    rw [pageCacheRelease_slots, sameSlots] at member
    exact holding.fresh slot member
  · refine ⟨[_], rfl, ?_, ?_⟩
    · intro io member
      obtain rfl := List.mem_singleton.mp member
      exact ⟨fun _ => Or.inr rfl, fun _ isOk => by cases isOk⟩
    · intro _ _ holding
      exact ⟨holding.ordered, holding.fresh⟩
  · have isOk_of_succeeds :
        (IoCall.read cachedPage.pageId cachedPage.diskBytes result
          .ok).Succeeds → result = .ok := by
      rintro (isOk | isMissing)
      · exact isOk
      · exact absurd isMissing found
    refine ⟨[_], rfl, ?_, ?_⟩
    · intro io member
      obtain rfl := List.mem_singleton.mp member
      constructor
      · exact fun reported => Or.inl (reported rfl)
      · exact fun succeeds _ => isOk_of_succeeds succeeds
    · intro honest succeed holding
      have isOk := isOk_of_succeeds (succeed _ (List.mem_singleton.mpr rfl))
      obtain ⟨ordered, slots⟩ := pageCacheInsert_slots holding.ordered insertEq
      refine ⟨ordered.congr (pageCacheRelease_slots _ _)
        (pageCacheRelease_capacity _ _), ?_⟩
      intro slot member
      rw [pageCacheRelease_slots] at member
      rcases slots slot member with old | rfl
      · exact holding.fresh slot old
      · exact honest.1 isOk

end Primitives

/-! ## The calls of the pager -/

section Calls

variable {φ : Type} {stored : Nat → List UInt8}

theorem accounts_freelistPop :
    Accounts stored (pagerFreelistPop : PagerM (OpsPager φ) (PagerE × Nat)) := by
  unfold pagerFreelistPop
  apply Accounts.get
  intro pager
  apply Accounts.bind (accounts_cachedRead _ _)
  rintro ⟨result, rootPage⟩
  simp only
  split
  · split
    · exact Accounts.pure _
    · apply Accounts.bind (accounts_cachedRead _ _)
      rintro ⟨nextResult, page⟩
      simp only
      split
      · apply Accounts.bind (accounts_cachedWrite _)
        exact fun _ => Accounts.pure _
      · exact Accounts.pure _
  · exact Accounts.pure _

theorem accounts_placePage (page : Page) :
    Accounts stored
      (pagerPlacePage page : PagerM (OpsPager φ) (PagerE × Page)) := by
  unfold pagerPlacePage pagerDiskPage
  split
  · apply Accounts.get
    intro pager
    split
    · exact Accounts.pure _
    · apply Accounts.bind accounts_freelistPop
      rintro ⟨result, nextPageId⟩
      simp only
      split
      · exact Accounts.pure _
      · split
        · apply Accounts.get
          exact fun _ => Accounts.pure _
        · exact Accounts.pure _
  · exact Accounts.pure _

theorem accounts_writePage (page : Page) :
    Accounts stored
      (pagerWritePage page : PagerM (OpsPager φ) (PagerE × Page)) := by
  unfold pagerWritePage
  apply Accounts.bind (accounts_placePage page)
  rintro ⟨result, placed⟩
  simp only
  split
  · apply Accounts.bind (accounts_cachedWrite _)
    exact fun _ => Accounts.pure _
  · exact Accounts.pure _

/-- When `pager_write_page` says `PAGER_OK`, the last call wrote the page. -/
theorem pagerWritePage_last {page : Page} {pager after : OpsPager φ}
    {outcome : PagerE × Page}
    (runEq : pagerWritePage page pager = some (outcome, after))
    (isOk : outcome.1 = .ok) :
    ∃ bytes result,
      after.calls.head? = some (.write outcome.2.pageId bytes result .ok) := by
  unfold pagerWritePage at runEq
  simp only [Bind.bind, StateT.bind] at runEq
  cases placeEq : pagerPlacePage page pager with
  | none =>
      rw [placeEq] at runEq
      cases runEq
  | some placing =>
      obtain ⟨⟨placeResult, placed⟩, middle⟩ := placing
      rw [placeEq] at runEq
      by_cases placedOk : placeResult = .ok
      · rw [placedOk] at runEq
        obtain ⟨rfl, rfl⟩ := Prod.mk.inj (Option.some.inj runEq)
        exact ⟨_, _, rfl⟩
      · simp only [Option.bind_some, if_neg placedOk] at runEq
        obtain ⟨rfl, -⟩ := Prod.mk.inj (Option.some.inj runEq)
        exact absurd isOk placedOk

/-- When `pager_read_page` says `PAGER_OK`, the page was cached or the last
call read it. -/
theorem pagerReadPage_last {pageId : Nat} {page : Page}
    {pager after : OpsPager φ} {outcome : PagerE × Page}
    (ordered : pager.cache.Ordered)
    (runEq : pagerReadPage pageId page pager = some (outcome, after))
    (isOk : outcome.1 = .ok) :
    (∃ slot ∈ pager.cache.slots, slot.1 = pageId) ∨
      ∃ bytes result,
        after.calls.head? = some (.read pageId bytes result .ok) := by
  rcases opsCachedRead_cases runEq with
    ⟨cachedPage, acquired, acquireEq, rfl⟩ | ⟨bytes, file, failed, rfl⟩ |
    ⟨result, bytes, file, cachedPage, inserted, found, rfl, rfl, insertEq, rfl⟩
  · left
    by_contra absent
    have others : ∀ key ∈ pager.cache.pages, key.pageId ≠ pageId :=
      fun key member same =>
        absent ⟨(key.pageId, key.page), List.mem_map_of_mem member, same⟩
    obtain ⟨index, -, notFound, -, -⟩ := findInCache_absent ordered others
    rw [pageCacheAcquire_absent notFound] at acquireEq
    cases acquireEq
  · rw [failed] at isOk
    cases isOk
  · exact Or.inr ⟨_, _, rfl⟩

end Calls

/-! ## Failures that are reported -/

/-- What `pager_write_page` owes its caller when the operations may fail: no
failure is taken for a success, `PAGER_OK` stands for a write of the page that
succeeded, and the cache holds what is stored. -/
structure WriteReported {φ : Type} (stored : Nat → List UInt8)
    (outcome : PagerE × Page) (after : OpsPager φ) : Prop where
  calls : ∀ io ∈ after.calls, io.Reported
  result : outcome.1 = .ok → ∃ bytes,
    after.calls.head? = some (.write outcome.2.pageId bytes .ok .ok)
  cache : Holding stored after

/-- The same of `pager_read_page`, from the pager before it. -/
structure ReadReported {φ : Type} (stored : Nat → List UInt8)
    (pager : OpsPager φ) (pageId : Nat) (outcome : PagerE × Page)
    (after : OpsPager φ) : Prop where
  calls : ∀ io ∈ after.calls, io.Reported
  result : outcome.1 = .ok →
    (∃ slot ∈ pager.cache.slots, slot.1 = pageId) ∨ ∃ bytes,
      after.calls.head? = some (.read pageId bytes .ok .ok)
  cache : Holding stored after

section Reported

variable {φ : Type} {stored : Nat → List UInt8}

theorem writeReported_iff {page : Page} {pager after : OpsPager φ}
    {outcome : PagerE × Page} (fresh : pager.calls = [])
    (holding : Holding stored pager)
    (runEq : pagerWritePage page pager = some (outcome, after))
    (honest : HonestReads stored after.calls) :
    WriteReported stored outcome after ↔ ∀ io ∈ after.calls, io.Succeeds := by
  obtain ⟨made, madeEq, reported, holds⟩ :=
    accounts_writePage page pager outcome after runEq
  rw [fresh, List.append_nil] at madeEq
  subst madeEq
  constructor
  · intro reports io member
    exact (reported io member).mp (reports.calls io member)
  · intro succeed
    refine ⟨fun io member => (reported io member).mpr (succeed io member), ?_,
      holds honest succeed holding⟩
    intro isOk
    obtain ⟨bytes, result, last⟩ := pagerWritePage_last runEq isOk
    have written : result = .ok := succeed _ (List.mem_of_mem_head? last)
    rw [written] at last
    exact ⟨bytes, last⟩

theorem readReported_iff {pageId : Nat} {page : Page}
    {pager after : OpsPager φ} {outcome : PagerE × Page}
    (fresh : pager.calls = []) (holding : Holding stored pager)
    (runEq : pagerReadPage pageId page pager = some (outcome, after))
    (honest : HonestReads stored after.calls) :
    ReadReported stored pager pageId outcome after ↔
      ∀ io ∈ after.calls, io.Succeeds := by
  obtain ⟨made, madeEq, reported, holds⟩ :=
    accounts_cachedRead pageId page pager outcome after runEq
  rw [fresh, List.append_nil] at madeEq
  subst madeEq
  constructor
  · intro reports io member
    exact (reported io member).mp (reports.calls io member)
  · intro succeed
    have reports : ∀ io ∈ after.calls, io.Reported :=
      fun io member => (reported io member).mpr (succeed io member)
    refine ⟨reports, ?_, holds honest succeed holding⟩
    intro isOk
    rcases pagerReadPage_last holding.ordered runEq isOk with
      cached | ⟨bytes, result, last⟩
    · exact Or.inl cached
    · have found : result = .ok := reports _ (List.mem_of_mem_head? last) rfl
      rw [found] at last
      exact Or.inr ⟨bytes, last⟩

end Reported

/-- The two calls of the pager report every failure exactly when no write
fails, and no read other than for want of the page. -/
theorem failures_reported_iff {φ : Type} {stored : Nat → List UInt8}
    {pager : OpsPager φ} (fresh : pager.calls = [])
    (holding : Holding stored pager) :
    (∀ page outcome after,
      pagerWritePage page pager = some (outcome, after) →
      HonestReads stored after.calls →
      (WriteReported stored outcome after ↔
        ∀ io ∈ after.calls, io.Succeeds)) ∧
    ∀ pageId page outcome after,
      pagerReadPage pageId page pager = some (outcome, after) →
      HonestReads stored after.calls →
      (ReadReported stored pager pageId outcome after ↔
        ∀ io ∈ after.calls, io.Succeeds) := by
  constructor
  · intro page outcome after runEq honest
    exact writeReported_iff fresh holding runEq honest
  · intro pageId page outcome after runEq honest
    exact readReported_iff fresh holding runEq honest

/-! ## One cached page -/

/-- A pager of one page of sixteen zeros, which is cached. -/
def onePageOf {φ : Type} (ops : PagerOps φ) (file : φ) : OpsPager φ where
  ops := ops
  file := file
  diskPageSize := 16
  maxPage := 1
  cache :=
    { pages := [{ pageId := 1, page := { pageCreate 16 with pageId := 1 }, ref := 0 }]
      capacity := 4 }
  calls := []

theorem onePageOf_holding {φ : Type} (ops : PagerOps φ) (file : φ) :
    Holding (fun _ => List.replicate 16 0) (onePageOf ops file) := by
  have positive : 0 < 4 := by omega
  have room : 1 ≤ 4 := by omega
  refine ⟨⟨positive, List.pairwise_singleton _ _, room⟩, ?_⟩
  intro slot member
  obtain rfl := List.mem_singleton.mp member
  rfl

/-- The page that is written over it. -/
def overwritten : Page where
  pageId := 1
  metaBytes := List.replicate pagemetaSize 0
  pageBuffer := [1, 2, 3, 4]

theorem overwritten_write_reported :
    ∃ outcome after,
      pagerWritePage overwritten (onePageOf fileOps (List.replicate 16 0)) =
        some (outcome, after) ∧
      WriteReported (fun _ => List.replicate 16 0) outcome after := by
  have runs : ((pagerWritePage overwritten
      (onePageOf fileOps (List.replicate 16 0))).map fun run => run.2.calls) =
        some [.write 1 (setInUse overwritten).diskBytes .ok .ok] := by
    decide +kernel
  obtain ⟨⟨outcome, after⟩, runEq, calls⟩ := Option.map_eq_some_iff.mp runs
  simp only at calls
  refine ⟨outcome, after, runEq, ?_⟩
  refine ((failures_reported_iff rfl (onePageOf_holding _ _)).1 overwritten
    outcome after runEq ?_).mpr ?_
  · rw [calls]
    exact trivial
  · rw [calls]
    intro io member
    obtain rfl := List.mem_singleton.mp member
    rfl

/-- A file that is not there any more. -/
def failingOps : PagerOps Unit where
  read _ buffer _ _ := (.readErr, buffer, ())
  write _ _ _ := (.writeErr, ())

/-- The write fails, the caller is told that it succeeded, and the cached page
has bytes that are stored nowhere. -/
theorem failed_write_unreported :
    ∃ outcome after,
      pagerWritePage overwritten (onePageOf failingOps ()) =
        some (outcome, after) ∧
      Holding (fun _ => List.replicate 16 0) (onePageOf failingOps ()) ∧
      HonestReads (fun _ => List.replicate 16 0) after.calls ∧
      outcome.1 = .ok ∧
      (¬ ∃ bytes, after.calls.head? =
        some (.write outcome.2.pageId bytes .ok .ok)) ∧
      ¬ Holding (fun _ => List.replicate 16 0) after := by
  have runs : ((pagerWritePage overwritten (onePageOf failingOps ())).map
      fun run => (run.1.1, run.2.calls, run.2.cache.slots)) =
        some (.ok, [.write 1 (setInUse overwritten).diskBytes .writeErr .ok],
          [(1, setInUse overwritten)]) := by
    decide +kernel
  obtain ⟨⟨outcome, after⟩, runEq, seen⟩ := Option.map_eq_some_iff.mp runs
  simp only [Prod.mk.injEq] at seen
  obtain ⟨isOk, calls, slots⟩ := seen
  refine ⟨outcome, after, runEq, onePageOf_holding _ _, ?_, isOk, ?_, ?_⟩
  · rw [calls]
    exact trivial
  · rw [calls]
    rintro ⟨bytes, clash⟩
    simp only [List.head?_cons, Option.some.injEq, IoCall.write.injEq] at clash
    exact absurd clash.2.2.1 (by decide)
  · intro holding
    have fresh := holding.fresh (1, setInUse overwritten) (by rw [slots]; simp)
    rw [calls] at fresh
    exact absurd fresh (by decide +kernel)

end BtreeDb
