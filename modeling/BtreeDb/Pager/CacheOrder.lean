import BtreeDb.Lib.ListEdit
import BtreeDb.Pager.Cache

/-!
# The order of the page cache

The cached ids are strictly increasing and there are at most `capacity` of
them.  Under this order the binary search finds a page exactly when it is
cached, taking and returning a reference leaves the cache as it was, and an
insertion keeps the order, after an eviction when the cache is full.
-/

namespace BtreeDb

open Bytes

structure PageCache.Ordered (cache : PageCache) : Prop where
  capacity_pos : 0 < cache.capacity
  sorted : cache.pages.Pairwise fun left right => left.pageId < right.pageId
  room : cache.pages.length ≤ cache.capacity

/-! ## Searching -/

theorem findInCache_congr {left right : PageCache}
    (sameIds : left.pages.map PageCacheKey.pageId =
      right.pages.map PageCacheKey.pageId) (pageId : Nat) :
    findInCache left pageId = findInCache right pageId := by
  have sameLength : left.pages.length = right.pages.length := by
    have lengths := congrArg List.length sameIds
    simpa using lengths
  have sameOrder : ∀ index,
      BinarySearch.compareAt
          (fun key : PageCacheKey => compare key.pageId pageId) left.pages index =
        BinarySearch.compareAt
          (fun key : PageCacheKey => compare key.pageId pageId) right.pages
          index := by
    intro index
    have here := congrArg (fun ids : List Nat => ids[index]?) sameIds
    simp only [List.getElem?_map] at here
    unfold BinarySearch.compareAt
    cases leftKey : left.pages[index]? with
    | none =>
        rw [leftKey, Option.map_none] at here
        rw [Option.map_eq_none_iff.mp here.symm]
    | some key =>
        rw [leftKey, Option.map_some] at here
        obtain ⟨other, otherKey, same⟩ := Option.map_eq_some_iff.mp here.symm
        rw [otherKey]
        simp only [same]
  unfold findInCache
  rw [funext sameOrder, sameLength]

theorem PageCache.Ordered.splits {cache : PageCache} (ordered : cache.Ordered)
    (pageId : Nat) :
    cache.pages.Pairwise fun left right =>
      compare left.pageId pageId = .lt ∨ compare right.pageId pageId = .gt := by
  refine ordered.sorted.imp ?_
  intro left right less
  rcases Nat.lt_or_ge left.pageId pageId with below | above
  · exact Or.inl (Nat.compare_eq_lt.mpr below)
  · exact Or.inr (Nat.compare_eq_gt.mpr (by omega))

/-- An id is cached in one slot only. -/
theorem slot_eq_of_pageId {pages : List PageCacheKey}
    (sorted : pages.Pairwise fun left right => left.pageId < right.pageId)
    {left right : Nat} {leftKey rightKey : PageCacheKey}
    (leftHere : pages[left]? = some leftKey)
    (rightHere : pages[right]? = some rightKey)
    (same : leftKey.pageId = rightKey.pageId) : left = right := by
  obtain ⟨leftBound, rfl⟩ := List.getElem?_eq_some_iff.mp leftHere
  obtain ⟨rightBound, rfl⟩ := List.getElem?_eq_some_iff.mp rightHere
  have increasing := List.pairwise_iff_getElem.mp sorted
  rcases Nat.lt_trichotomy left right with below | equal | above
  · have less := increasing left right leftBound rightBound below
    omega
  · exact equal
  · have less := increasing right left rightBound leftBound above
    omega

theorem findInCache_member {cache : PageCache} (ordered : cache.Ordered)
    {key : PageCacheKey} (member : key ∈ cache.pages) :
    ∃ index, findInCache cache key.pageId = (true, index) ∧
      cache.pages[index]? = some key := by
  have answer := BinarySearch.search_ordered (ordered.splits key.pageId)
  have notBefore : key ∉ cache.pages.take (BinarySearch.lowerBound
      (fun other => compare other.pageId key.pageId) cache.pages) := by
    intro early
    have less := BinarySearch.take_lowerBound early
    exact Nat.lt_irrefl _ (Nat.compare_eq_lt.mp less)
  have splits := BinarySearch.splits_lowerBound (ordered.splits key.pageId)
  generalize BinarySearch.lowerBound
    (fun other => compare other.pageId key.pageId) cache.pages = position
    at answer notBefore splits
  obtain ⟨index, bound, here⟩ := List.getElem_of_mem member
  have equal : BinarySearch.compareAt
      (fun other => compare other.pageId key.pageId) cache.pages index =
        .eq := by
    rw [BinarySearch.compareAt, List.getElem?_eq_getElem bound, here]
    exact Nat.compare_eq_eq.mpr rfl
  have same : index = position := by
    rcases Nat.lt_trichotomy index position with below | same | above
    · rw [splits.before index below] at equal
      cases equal
    · exact same
    · rw [splits.after index above bound] at equal
      cases equal
  subst same
  refine ⟨index, ?_, ?_⟩
  · rw [findInCache, answer]
    simp [bound, equal]
  · rw [List.getElem?_eq_getElem bound, here]

theorem findInCache_absent {cache : PageCache} (ordered : cache.Ordered)
    {pageId : Nat} (absent : ∀ key ∈ cache.pages, key.pageId ≠ pageId) :
    ∃ index, index ≤ cache.pages.length ∧
      findInCache cache pageId = (false, index) ∧
      (∀ key ∈ cache.pages.take index, key.pageId < pageId) ∧
      ∀ key ∈ cache.pages.drop index, pageId < key.pageId := by
  have answer := BinarySearch.search_ordered (ordered.splits pageId)
  refine ⟨BinarySearch.lowerBound (fun key => compare key.pageId pageId)
    cache.pages, BinarySearch.lowerBound_le _ _, ?_, ?_, ?_⟩
  · rw [findInCache, answer]
    simp only [Prod.mk.injEq, and_true, decide_eq_false_iff_not, not_and]
    intro bound equal
    rw [BinarySearch.compareAt, List.getElem?_eq_getElem bound] at equal
    exact absent _ (List.getElem_mem bound) (Nat.compare_eq_eq.mp equal)
  · intro key member
    have less := BinarySearch.take_lowerBound member
    exact Nat.compare_eq_lt.mp less
  · intro key member
    have notLess := BinarySearch.drop_lowerBound (ordered.splits pageId) member
    have different := absent key (List.mem_of_mem_drop member)
    have notBelow : ¬ key.pageId < pageId :=
      fun below => notLess (Nat.compare_eq_lt.mpr below)
    omega

/-! ## Slots -/

/-- Overwriting a slot under its id keeps the ids. -/
theorem pageIds_set {pages : List PageCacheKey} {index : Nat}
    {key other : PageCacheKey} (here : pages[index]? = some key)
    (sameId : other.pageId = key.pageId) :
    (pages.set index other).map PageCacheKey.pageId =
      pages.map PageCacheKey.pageId := by
  obtain ⟨bound, rfl⟩ := List.getElem?_eq_some_iff.mp here
  rw [List.map_set, sameId]
  apply List.ext_getElem?
  intro position
  rw [List.getElem?_set]
  by_cases same : index = position
  · subst same
    simp [bound]
  · simp [same]

/-- The other slots are under other ids. -/
theorem mem_set_slot {pages : List PageCacheKey} {index : Nat}
    {key other : PageCacheKey}
    (sorted : pages.Pairwise fun left right => left.pageId < right.pageId)
    (here : pages[index]? = some key) :
    ∀ slot ∈ pages.set index other,
      slot = other ∨ slot ∈ pages ∧ slot.pageId ≠ key.pageId := by
  intro slot member
  obtain ⟨position, slotHere⟩ := List.mem_iff_getElem?.mp member
  rw [List.getElem?_set] at slotHere
  by_cases same : index = position
  · obtain ⟨bound, _⟩ := List.getElem?_eq_some_iff.mp here
    rw [if_pos same, if_pos bound] at slotHere
    exact Or.inl (Option.some.inj slotHere).symm
  · rw [if_neg same] at slotHere
    refine Or.inr ⟨List.mem_of_getElem? slotHere, ?_⟩
    intro clash
    exact same (slot_eq_of_pageId sorted here slotHere clash.symm)

/-! ## References -/

section Hit

variable {cache : PageCache} {pageId index : Nat} {key : PageCacheKey}
  (found : findInCache cache pageId = (true, index))
  (here : cache.pages[index]? = some key)

include found here

theorem findInCache_set (other : PageCacheKey)
    (sameId : other.pageId = key.pageId) :
    findInCache { cache with pages := cache.pages.set index other } pageId =
      (true, index) := by
  rw [← found]
  exact findInCache_congr (pageIds_set here sameId) pageId

/-- An unreferenced page that is taken and released leaves no trace. -/
theorem pageCacheRelease_acquire (unused : key.ref = 0) :
    ∃ acquired, pageCacheAcquire cache pageId = some (key.page, acquired) ∧
      pageCacheRelease acquired pageId = cache := by
  obtain ⟨bound, keyHere⟩ := List.getElem?_eq_some_iff.mp here
  refine ⟨{ cache with
    pages := cache.pages.set index { key with ref := key.ref + 1 } }, ?_, ?_⟩
  · rw [pageCacheAcquire, found]
    simp only [if_true, here]
  · rw [pageCacheRelease,
      findInCache_set found here { key with ref := key.ref + 1 } rfl]
    simp only [if_true, List.getElem?_set_self bound, unused, List.set_set]
    simp only [Nat.zero_add, ne_eq, Nat.one_ne_zero, not_false_eq_true,
      if_true, Nat.sub_self]
    rw [← unused, ← keyHere, List.set_getElem_self]

/-- Storing bytes into a page that is taken and released. -/
theorem pageCacheRelease_store (unused : key.ref = 0) (bytes : List UInt8) :
    ∃ acquired, pageCacheAcquire cache pageId = some (key.page, acquired) ∧
      pageCacheRelease (pageCacheStore acquired pageId bytes) pageId =
        { cache with
          pages := cache.pages.set index
            { key with page := key.page.withDiskBytes bytes } } := by
  obtain ⟨bound, keyHere⟩ := List.getElem?_eq_some_iff.mp here
  refine ⟨{ cache with
    pages := cache.pages.set index { key with ref := key.ref + 1 } }, ?_, ?_⟩
  · rw [pageCacheAcquire, found]
    simp only [if_true, here]
  · have stored : pageCacheStore
        { cache with
          pages := cache.pages.set index { key with ref := key.ref + 1 } }
        pageId bytes =
          { cache with
            pages := cache.pages.set index
              { key with
                ref := key.ref + 1
                page := key.page.withDiskBytes bytes } } := by
      rw [pageCacheStore,
        findInCache_set found here { key with ref := key.ref + 1 } rfl]
      simp only [if_true, List.getElem?_set_self bound, List.set_set]
    rw [stored, pageCacheRelease, findInCache_set found here
      { key with
        ref := key.ref + 1
        page := key.page.withDiskBytes bytes } rfl]
    simp only [if_true, List.getElem?_set_self bound, unused, List.set_set]
    simp

end Hit

theorem pageCacheAcquire_absent {cache : PageCache} {pageId index : Nat}
    (notFound : findInCache cache pageId = (false, index)) :
    pageCacheAcquire cache pageId = none := by
  rw [pageCacheAcquire, notFound]
  simp

/-! ## Insertion and eviction -/

/-- With no page referenced the first one is evicted. -/
theorem cacheEvict_unused {cache : PageCache} (ordered : cache.Ordered)
    (full : cache.pages.length = cache.capacity)
    (unused : ∀ key ∈ cache.pages, key.ref = 0) :
    cacheEvict cache = some { cache with pages := cache.pages.eraseIdx 0 } := by
  have positive := ordered.capacity_pos
  match pagesEq : cache.pages with
  | [] =>
      rw [pagesEq] at full
      simp only [List.length_nil] at full
      omega
  | first :: rest =>
      have firstUnused := unused first (by rw [pagesEq]; simp)
      simp [cacheEvict, pagesEq, List.findIdx?_cons, firstUnused]

theorem cacheCorrect_of_sorted {pages : List PageCacheKey}
    (sorted : pages.Pairwise fun left right => left.pageId < right.pageId)
    (small : ∀ key ∈ pages, key.pageId < 2 ^ 31) (size : Nat) :
    cacheCorrect size pages = true := by
  unfold cacheCorrect
  rw [List.all_eq_true]
  intro index _
  cases leftEq : pages[index]? with
  | none => rfl
  | some left =>
      cases rightEq : pages[index + 1]? with
      | none => rfl
      | some right =>
          obtain ⟨leftBound, rfl⟩ := List.getElem?_eq_some_iff.mp leftEq
          obtain ⟨rightBound, rfl⟩ := List.getElem?_eq_some_iff.mp rightEq
          have less := List.pairwise_iff_getElem.mp sorted index (index + 1)
            leftBound rightBound (Nat.lt_succ_self _)
          have leftSmall := small _ (List.getElem_mem leftBound)
          have rightSmall := small _ (List.getElem_mem rightBound)
          simp only [asInt, if_pos leftSmall, if_pos rightSmall,
            decide_eq_true_eq]
          omega

/-- Making room keeps a part of the pages that leaves a slot. -/
theorem evictIfFull_keeps {cache : PageCache} (ordered : cache.Ordered)
    (unused : ∀ key ∈ cache.pages, key.ref = 0) :
    ∃ kept : PageCache,
      evictIfFull cache = some kept ∧
      kept.capacity = cache.capacity ∧
      kept.pages.Sublist cache.pages ∧
      kept.pages.length < kept.capacity := by
  have room := ordered.room
  unfold evictIfFull
  by_cases full : cache.pages.length = cache.capacity
  · rw [if_pos full, cacheEvict_unused ordered full unused]
    have positive := ordered.capacity_pos
    refine ⟨_, rfl, rfl, List.eraseIdx_sublist _ _, ?_⟩
    simp only [List.length_eraseIdx, full, positive, if_true]
    omega
  · rw [if_neg full]
    exact ⟨cache, rfl, rfl, List.Sublist.refl _, by omega⟩

/-- Inserting a page that is not cached and releasing it. -/
theorem pageCacheInsert_release {cache : PageCache} (page : Page)
    (ordered : cache.Ordered) (unused : ∀ key ∈ cache.pages, key.ref = 0)
    (small : ∀ key ∈ cache.pages, key.pageId < 2 ^ 31)
    (absent : ∀ key ∈ cache.pages, key.pageId ≠ page.pageId)
    (notNew : page.pageId ≠ 0) (pageSmall : page.pageId < 2 ^ 31) :
    ∃ inserted after, pageCacheInsert cache page = some inserted ∧
      pageCacheRelease inserted page.pageId = after ∧ after.Ordered ∧
      after.capacity = cache.capacity ∧
      ∀ key ∈ after.pages,
        key ∈ cache.pages ∨ key = { pageId := page.pageId, page, ref := 0 } := by
  obtain ⟨kept, keptEq, keptCapacity, sublist, slot⟩ :=
    evictIfFull_keeps ordered unused
  have keptOrdered : kept.Ordered :=
    { capacity_pos := by rw [keptCapacity]; exact ordered.capacity_pos
      sorted := ordered.sorted.sublist sublist
      room := Nat.le_of_lt slot }
  obtain ⟨index, bound, notFound, before, after⟩ :=
    findInCache_absent keptOrdered
      fun key member => absent key (sublist.subset member)
  have insertedSorted : ∀ ref, (kept.pages.insertIdx index
      { pageId := page.pageId, page, ref }).Pairwise
        fun left right => left.pageId < right.pageId := by
    intro ref
    exact ListEdit.pairwise_insertIdx bound keptOrdered.sorted
      (fun key member => before key member)
      (fun key member => after key member)
  have insertedMember : ∀ ref, ∀ key ∈ kept.pages.insertIdx index
      { pageId := page.pageId, page, ref },
        key = { pageId := page.pageId, page, ref } ∨ key ∈ kept.pages :=
    fun ref key member => (ListEdit.mem_insertIdx_iff bound).mp member
  have correct : cacheCorrect kept.pages.length (kept.pages.insertIdx index
      { pageId := page.pageId, page, ref := 1 }) = true := by
    refine cacheCorrect_of_sorted (insertedSorted 1) ?_ _
    intro key member
    rcases insertedMember 1 key member with rfl | old
    · exact pageSmall
    · exact small key (sublist.subset old)
  have insertEq : pageCacheInsert cache page = some { kept with
      pages := kept.pages.insertIdx index
        { pageId := page.pageId, page, ref := 1 } } := by
    unfold pageCacheInsert
    rw [if_neg notNew, keptEq]
    simp only [Option.bind_eq_bind, Option.bind_some, notFound,
      Bool.false_eq_true, if_false, correct, if_true]
  have insertedOrdered : ∀ ref, PageCache.Ordered { kept with
      pages := kept.pages.insertIdx index
        { pageId := page.pageId, page, ref } } := by
    intro ref
    refine ⟨keptOrdered.capacity_pos, insertedSorted ref, ?_⟩
    simp only [List.length_insertIdx, bound, if_true]
    omega
  obtain ⟨place, found, here⟩ := findInCache_member (insertedOrdered 1)
    ((ListEdit.mem_insertIdx_iff bound).mpr (Or.inl rfl))
  have releaseEq : pageCacheRelease { kept with
      pages := kept.pages.insertIdx index
        { pageId := page.pageId, page, ref := 1 } } page.pageId =
      { kept with
        pages := kept.pages.insertIdx index
          { pageId := page.pageId, page, ref := 0 } } := by
    rw [pageCacheRelease, found]
    simp only [if_true, here]
    simp only [ne_eq, Nat.one_ne_zero, not_false_eq_true, if_true,
      Nat.sub_self, PageCache.mk.injEq, and_true]
    have cut : (kept.pages.take index).length = index := by
      rw [List.length_take]
      omega
    have placeEq : place = index := by
      refine slot_eq_of_pageId (insertedSorted 1) here ?_ rfl
      rw [ListEdit.insertIdx_eq_append bound,
        List.getElem?_append_right (by rw [cut]), cut, Nat.sub_self]
      rfl
    rw [placeEq, ListEdit.insertIdx_eq_append bound,
      ListEdit.insertIdx_eq_append bound]
    rw [List.set_append_right _ _ (by omega), cut, Nat.sub_self, List.set_cons_zero]
  refine ⟨_, _, insertEq, releaseEq, insertedOrdered 0, keptCapacity, ?_⟩
  intro key member
  rcases insertedMember 0 key member with same | old
  · exact Or.inr same
  · exact Or.inl (sublist.subset old)

end BtreeDb
