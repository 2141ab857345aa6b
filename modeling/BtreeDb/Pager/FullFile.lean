import BtreeDb.Pager.FreeStack

/-!
# A file of `2 ^ 31` bytes does not grow

The offset of a page is an `int`, so no page lies behind the first `2 ^ 31`
bytes: a write there is dropped, or it wraps to a place inside.  A file of
that length keeps it in every run, and the new page that a run puts behind its
end is lost, with the part of the free list that goes through it.
-/

namespace BtreeDb

open Bytes

/-- All cached pages have the page size. -/
def CachedSized (diskPageSize : Nat) (cache : PageCache) : Prop :=
  ∀ key ∈ cache.pages, key.page.diskBytes.length = diskPageSize

/-- A file of `2 ^ 31` bytes whose cached pages have the page size. -/
structure FullFile (diskPageSize : Nat) (pager : Pager) : Prop where
  sameSize : pager.diskPageSize = diskPageSize
  length : pager.file.length = 2 ^ 31
  cached : CachedSized diskPageSize pager.cache

/-- A call that leaves a full file full, with a result of which `post` holds.
-/
def KeepsFull {α : Type} (diskPageSize : Nat) (call : PagerM Pager α)
    (post : α → Prop) : Prop :=
  ∀ pager result after, FullFile diskPageSize pager →
    call pager = some (result, after) →
    FullFile diskPageSize after ∧ post result

section Rules

variable {diskPageSize : Nat} {α β : Type}

theorem KeepsFull.pure {result : α} {post : α → Prop} (holds : post result) :
    KeepsFull diskPageSize (Pure.pure result) post := by
  intro pager value after full runEq
  cases runEq
  exact ⟨full, holds⟩

theorem KeepsFull.bind {call : PagerM Pager α} {next : α → PagerM Pager β}
    {mid : α → Prop} {post : β → Prop}
    (first : KeepsFull diskPageSize call mid)
    (then_ : ∀ result, mid result → KeepsFull diskPageSize (next result) post) :
    KeepsFull diskPageSize (call >>= next) post := by
  intro pager value after full runEq
  simp only [Bind.bind, StateT.bind] at runEq
  cases callEq : call pager with
  | none =>
      rw [callEq] at runEq
      cases runEq
  | some outcome =>
      obtain ⟨result, middle⟩ := outcome
      rw [callEq] at runEq
      obtain ⟨middleFull, holds⟩ := first pager result middle full callEq
      exact then_ result holds middle value after middleFull runEq

/-- A call that starts by looking at the pager. -/
theorem KeepsFull.get {next : Pager → PagerM Pager α} {post : α → Prop}
    (then_ : ∀ pager, pager.diskPageSize = diskPageSize →
      KeepsFull diskPageSize (next pager) post) :
    KeepsFull diskPageSize (MonadState.get >>= next) post := by
  intro pager value after full runEq
  exact then_ pager full.sameSize pager value after full runEq

theorem KeepsFull.assert {condition : Bool} {next : PagerM Pager α}
    {post : α → Prop} (then_ : KeepsFull diskPageSize next post) :
    KeepsFull diskPageSize (cAssert condition >>= fun _ => next) post := by
  intro pager value after full runEq
  cases condition with
  | true => exact then_ pager value after full runEq
  | false => cases runEq

end Rules

/-! ## The cache -/

section Cache

variable {diskPageSize : Nat} {cache : PageCache}
  (cached : CachedSized diskPageSize cache)

include cached

theorem CachedSized.set {index : Nat} {key : PageCacheKey}
    (size : key.page.diskBytes.length = diskPageSize) :
    CachedSized diskPageSize { cache with pages := cache.pages.set index key } := by
  intro other member
  rcases List.mem_or_eq_of_mem_set member with old | rfl
  · exact cached other old
  · exact size

theorem CachedSized.acquire {pageId : Nat} {page : Page} {acquired : PageCache}
    (acquireEq : pageCacheAcquire cache pageId = some (page, acquired)) :
    page.diskBytes.length = diskPageSize ∧
      CachedSized diskPageSize acquired := by
  unfold pageCacheAcquire at acquireEq
  simp only at acquireEq
  split at acquireEq
  · split at acquireEq
    · rename_i key here
      have size := cached key (List.mem_of_getElem? here)
      obtain ⟨rfl, rfl⟩ := Prod.mk.inj (Option.some.inj acquireEq)
      exact ⟨size, cached.set size⟩
    · cases acquireEq
  · cases acquireEq

theorem CachedSized.release (pageId : Nat) :
    CachedSized diskPageSize (pageCacheRelease cache pageId) := by
  unfold pageCacheRelease
  simp only
  split
  · split
    · rename_i key here
      have size := cached key (List.mem_of_getElem? here)
      exact cached.set size
    · exact cached
  · exact cached

theorem CachedSized.store (pageId : Nat) {bytes : List UInt8}
    (size : bytes.length = diskPageSize) :
    CachedSized diskPageSize (pageCacheStore cache pageId bytes) := by
  unfold pageCacheStore
  simp only
  split
  · split
    · apply cached.set
      simp only [withDiskBytes_diskBytes]
      exact size
    · exact cached
  · exact cached

theorem CachedSized.insert {page : Page} {inserted : PageCache}
    (size : page.diskBytes.length = diskPageSize)
    (insertEq : pageCacheInsert cache page = some inserted) :
    CachedSized diskPageSize inserted := by
  unfold pageCacheInsert at insertEq
  split at insertEq
  · cases insertEq
  · obtain ⟨kept, keptEq, insertEq⟩ := Option.bind_eq_some_iff.mp insertEq
    have keptSized : CachedSized diskPageSize kept := by
      unfold evictIfFull cacheEvict at keptEq
      split at keptEq
      · split at keptEq
        · obtain rfl := Option.some.inj keptEq
          intro key member
          exact cached key (List.mem_of_mem_eraseIdx member)
        · cases keptEq
      · obtain rfl := Option.some.inj keptEq
        exact cached
    simp only at insertEq
    split at insertEq
    · cases insertEq
    · split at insertEq
      · obtain rfl := Option.some.inj insertEq
        intro key member
        rcases List.eq_or_mem_of_mem_insertIdx member with rfl | old
        · exact size
        · exact keptSized key old
      · cases insertEq

end Cache

/-! ## The primitives -/

section Primitives

variable {diskPageSize : Nat} (divides : diskPageSize ∣ 2 ^ 31)

include divides

/-- A write goes to a place inside a file of `2 ^ 31` bytes, or nowhere. -/
theorem pagerInternalWrite_full {pager : FilePager} {page : Page}
    (sameSize : pager.diskPageSize = diskPageSize)
    (length : pager.file.length = 2 ^ 31)
    (size : page.diskBytes.length = diskPageSize) :
    (pagerInternalWrite pager page).file.length = 2 ^ 31 := by
  have positive : 0 < diskPageSize := Nat.pos_of_dvd_of_pos divides (by decide)
  unfold pagerInternalWrite pageOffset opsWrite
  simp only [sameSize]
  generalize wordEq : diskPageSize * u32Pred page.pageId % 2 ^ 32 = word
  split
  · exact length
  · rename_i inside
    unfold asInt at inside ⊢
    have small : word < 2 ^ 31 := by
      by_contra large
      have bound : word < 2 ^ 32 := by
        rw [← wordEq]
        exact Nat.mod_lt _ (by decide)
      rw [if_neg large] at inside
      omega
    have aligned : diskPageSize ∣ word := by
      rw [← wordEq]
      exact (Nat.dvd_mod_iff (divides.trans ⟨2, rfl⟩)).mpr
        (Nat.dvd_mul_right _ _)
    have fits : word + diskPageSize ≤ 2 ^ 31 := by
      obtain ⟨count, rfl⟩ := aligned
      obtain ⟨whole, wholeEq⟩ := divides
      rw [wholeEq] at small ⊢
      have less := Nat.lt_of_mul_lt_mul_left small
      rw [← Nat.mul_succ]
      exact Nat.mul_le_mul_left _ less
    rw [if_pos small, Int.toNat_natCast, splice_length]
    · rw [List.length_append, List.length_replicate]
      omega
    · rw [List.length_append, List.length_replicate]
      omega

theorem keepsFull_cachedWrite {page : Page}
    (size : page.diskBytes.length = diskPageSize) :
    KeepsFull diskPageSize ( PageIO.cachedWrite page) fun _ => True := by
  intro pager result after full runEq
  obtain ⟨rfl, rfl⟩ := Prod.mk.inj (Option.some.inj runEq)
  refine ⟨⟨full.sameSize, ?_, ?_⟩, trivial⟩
  · exact pagerInternalWrite_full divides full.sameSize full.length size
  · simp only
    split
    · rename_i cachedPage cache acquireEq
      have acquired := (full.cached.acquire acquireEq).2
      exact (acquired.store _ size).release _
    · exact full.cached

omit divides in
theorem pagerInternalRead_size {pager : FilePager}
    (metaFits : pagemetaSize ≤ diskPageSize)
    (sameSize : pager.diskPageSize = diskPageSize) (pageId : Nat) :
    (pagerInternalRead pager pageId
        (pageCreate pager.diskPageSize)).2.diskBytes.length =
      diskPageSize := by
  subst sameSize
  have blankSized := pageCreate_sized metaFits
  unfold pagerInternalRead
  split
  · rename_i bytes readEq
    unfold opsRead at readEq
    rw [Page.diskBytes_renumber, withDiskBytes_diskBytes]
    split at readEq
    · cases readEq
    · split at readEq
      · rename_i inside
        obtain ⟨-, rfl⟩ := Prod.mk.inj readEq
        exact slice_length inside
      · cases readEq
  · exact blankSized.diskBytes_length

omit divides in
theorem keepsFull_cachedRead {pageId : Nat} {page : Page}
    (metaFits : pagemetaSize ≤ diskPageSize) (sized : page.Sized diskPageSize) :
    KeepsFull diskPageSize ( PageIO.cachedRead pageId page) fun outcome =>
      outcome.2.Sized diskPageSize := by
  refine KeepsFull.assert ?_
  intro pager result after full runEq
  rw [PagerM.bind_some (PagerM.get_apply pager)] at runEq
  cases acquireEq : pageCacheAcquire pager.cache pageId with
  | some hit =>
    obtain ⟨cachedPage, cache⟩ := hit
    rw [acquireEq] at runEq
    obtain ⟨size, acquired⟩ := full.cached.acquire acquireEq
    obtain ⟨rfl, rfl⟩ := Prod.mk.inj (Option.some.inj runEq)
    refine ⟨⟨full.sameSize, full.length, acquired.release _⟩, ?_⟩
    exact (withDiskBytes_sized page metaFits size).renumber pageId
  | none =>
    rw [acquireEq] at runEq
    have size := pagerInternalRead_size metaFits full.sameSize pageId
    simp only at runEq
    split at runEq
    · obtain ⟨rfl, rfl⟩ := Prod.mk.inj (Option.some.inj runEq)
      exact ⟨full, sized.renumber pageId⟩
    · simp only [Bind.bind, StateT.bind, StateT.lift] at runEq
      cases insertEq : pageCacheInsert pager.cache
          (pagerInternalRead pager.toFilePager pageId
            (pageCreate pager.diskPageSize)).2 with
      | none =>
          rw [insertEq] at runEq
          cases runEq
      | some cache =>
          rw [insertEq] at runEq
          have inserted := full.cached.insert size insertEq
          obtain ⟨rfl, rfl⟩ := Prod.mk.inj (Option.some.inj runEq)
          refine ⟨⟨full.sameSize, full.length, inserted.release _⟩, ?_⟩
          exact (withDiskBytes_sized page metaFits size).renumber pageId

end Primitives

/-! ## The calls -/

section Calls

variable {diskPageSize : Nat} (divides : diskPageSize ∣ 2 ^ 31)
  (metaFits : pagemetaSize ≤ diskPageSize)

include divides metaFits

theorem keepsFull_freelistPop :
    KeepsFull diskPageSize pagerFreelistPop fun _ => True := by
  have blankSized := pageCreate_sized metaFits
  unfold pagerFreelistPop
  refine KeepsFull.get fun pager sameSize => ?_
  have blankEq : PageIO.diskPageSize pager = diskPageSize := sameSize
  rw [blankEq]
  refine KeepsFull.bind (keepsFull_cachedRead metaFits blankSized) ?_
  rintro ⟨result, rootPage⟩ rootSized
  simp only at rootSized ⊢
  split
  · split
    · exact KeepsFull.pure trivial
    · refine KeepsFull.bind (keepsFull_cachedRead metaFits blankSized) ?_
      rintro ⟨nextResult, page⟩ -
      simp only
      split
      · refine KeepsFull.bind (keepsFull_cachedWrite divides
          (rootSized.pagemetaWrite _).diskBytes_length) ?_
        exact fun _ _ => KeepsFull.pure trivial
      · exact KeepsFull.pure trivial
  · exact KeepsFull.pure trivial

theorem keepsFull_freelistPushPage {page : Page}
    (sized : page.Sized diskPageSize) :
    KeepsFull diskPageSize (pagerFreelistPushPage page) fun _ => True := by
  have blankSized := pageCreate_sized metaFits
  unfold pagerFreelistPushPage
  refine KeepsFull.assert (KeepsFull.get fun pager sameSize => ?_)
  have blankEq : PageIO.diskPageSize pager = diskPageSize := sameSize
  rw [blankEq]
  refine KeepsFull.bind (keepsFull_cachedRead metaFits blankSized) ?_
  rintro ⟨result, rootPage⟩ rootSized
  simp only at rootSized ⊢
  split
  · refine KeepsFull.bind (keepsFull_cachedWrite divides
      (rootSized.pagemetaWrite _).diskBytes_length) ?_
    intro rootResult _
    split
    · refine KeepsFull.bind (keepsFull_cachedWrite divides
        (sized.pagemetaWrite _).diskBytes_length) ?_
      exact fun _ _ => KeepsFull.pure trivial
    · exact KeepsFull.pure trivial
  · exact KeepsFull.pure trivial

theorem keepsFull_freelistPush (pageId : Nat) :
    KeepsFull diskPageSize (pagerFreelistPush pageId) fun _ => True := by
  have blankSized := pageCreate_sized metaFits
  unfold pagerFreelistPush
  refine KeepsFull.get fun pager sameSize => ?_
  have blankEq : PageIO.diskPageSize pager = diskPageSize := sameSize
  rw [blankEq]
  refine KeepsFull.bind (keepsFull_cachedRead metaFits blankSized) ?_
  rintro ⟨result, page⟩ sized
  simp only at sized ⊢
  split
  · refine KeepsFull.bind
      (keepsFull_freelistPushPage divides metaFits sized) ?_
    exact fun _ _ => KeepsFull.pure trivial
  · exact KeepsFull.pure trivial

theorem keepsFull_diskPage {page : Page} (sized : page.Sized diskPageSize) :
    KeepsFull diskPageSize (pagerDiskPage page) fun outcome =>
      outcome.2.Sized diskPageSize := by
  unfold pagerDiskPage
  refine KeepsFull.get fun pager _ => ?_
  split
  · exact KeepsFull.pure ((sized.renumber 1).pagemetaWrite _)
  · refine KeepsFull.bind (keepsFull_freelistPop divides metaFits) ?_
    rintro ⟨result, nextPageId⟩ -
    simp only
    split
    · exact KeepsFull.pure ((sized.renumber nextPageId).pagemetaWrite _)
    · split
      · refine KeepsFull.get fun after _ => ?_
        exact KeepsFull.pure ((sized.renumber _).pagemetaWrite _)
      · exact KeepsFull.pure sized

theorem keepsFull_writePage {page : Page} (sized : page.Sized diskPageSize) :
    KeepsFull diskPageSize (pagerWritePage page) fun _ => True := by
  have placed : KeepsFull diskPageSize (pagerPlacePage page) fun outcome =>
      outcome.2.Sized diskPageSize := by
    unfold pagerPlacePage
    split
    · exact keepsFull_diskPage divides metaFits sized
    · exact KeepsFull.pure sized
  unfold pagerWritePage
  refine KeepsFull.bind placed ?_
  rintro ⟨result, placedPage⟩ placedSized
  simp only at placedSized ⊢
  split
  · refine KeepsFull.bind (keepsFull_cachedWrite divides
      (placedSized.pagemetaWrite _).diskBytes_length) ?_
    exact fun _ _ => KeepsFull.pure trivial
  · exact KeepsFull.pure trivial

theorem keepsFull_runPagerOp {state : PageStack} {op : PagerOp}
    (permitted : state.Permits diskPageSize op) :
    KeepsFull diskPageSize (runPagerOp op) fun _ => True := by
  cases op with
  | read pageId =>
      refine KeepsFull.get fun pager sameSize => ?_
      have blankEq : PageIO.diskPageSize pager = diskPageSize := sameSize
      rw [blankEq]
      refine KeepsFull.bind
        (keepsFull_cachedRead metaFits (pageCreate_sized metaFits)) ?_
      exact fun _ _ => KeepsFull.pure trivial
  | write page =>
      refine KeepsFull.bind
        (keepsFull_writePage divides metaFits permitted.2) ?_
      exact fun _ _ => KeepsFull.pure trivial
  | freelistPush pageId =>
      refine KeepsFull.bind
        (keepsFull_freelistPush divides metaFits pageId) ?_
      exact fun _ _ => KeepsFull.pure trivial
  | freelistPushPage page =>
      refine KeepsFull.bind
        (keepsFull_freelistPushPage divides metaFits permitted.2) ?_
      exact fun _ _ => KeepsFull.pure trivial
  | freelistPop =>
      refine KeepsFull.bind (keepsFull_freelistPop divides metaFits) ?_
      exact fun _ _ => KeepsFull.pure trivial

theorem keepsFull_runPagerOps {ops : List PagerOp} :
    ∀ {state : PageStack}, state.PermitsRun diskPageSize ops →
      KeepsFull diskPageSize (runPagerOps ops) fun _ => True := by
  induction ops with
  | nil =>
      intro state _
      exact KeepsFull.pure trivial
  | cons op ops inductionHypothesis =>
      intro state permitted
      refine KeepsFull.bind
        (keepsFull_runPagerOp divides metaFits permitted.1) ?_
      intro out _
      refine KeepsFull.bind (inductionHypothesis permitted.2) ?_
      exact fun _ _ => KeepsFull.pure trivial

end Calls

/-! ## The lost page -/

/-- A page behind the end of the file names no next page. -/
theorem nextFree_behind {pager : FilePager} {pageId : Nat}
    (outside : pager.file.length ≤ pager.diskPageSize * (pageId - 1)) :
    (diskOf pager).nextFree pageId = 0 := by
  unfold Disk.nextFree
  split
  · rename_i image found
    unfold Disk.page? diskOf at found
    split at found
    · cases found
    · rw [List.getElem?_map] at found
      obtain ⟨index, indexEq, rfl⟩ := Option.map_eq_some_iff.mp found
      obtain ⟨bound, rangeEq⟩ := List.getElem?_eq_some_iff.mp indexEq
      rw [List.getElem_range] at rangeEq
      have nothing : slice pager.file (pager.diskPageSize * index)
          pager.diskPageSize = [] := by
        unfold slice
        rw [← rangeEq, List.drop_eq_nil_of_le outside, List.take_nil]
      rw [nothing]
      rfl
  · rfl

theorem Disk.FreeChain.next {disk : Disk} {later : List Nat} {here next : Nat} :
    ∀ {earlier : List Nat} {pageId : Nat},
      FreeChain disk pageId (earlier ++ here :: next :: later) →
      disk.nextFree here = next
  | [], _, ⟨_, _, chain⟩ => chain.1
  | _ :: _, _, ⟨_, _, chain⟩ => Disk.FreeChain.next chain

/-- A stack with a page behind the end of the file below its bottom is not in
the file. -/
theorem not_showsStack_of_behind {pager : FilePager} {state : PageStack}
    {earlier later : List Nat} {behind next : Nat}
    (stackEq : state.stack = earlier ++ behind :: next :: later)
    (outside : pager.file.length ≤ pager.diskPageSize * (behind - 1)) :
    ¬ ShowsStack pager state := by
  intro shown
  have chain := shown.store.chain
  rw [stackEq] at chain
  have nextEq := chain.next
  rw [nextFree_behind outside] at nextEq
  have numbered := (shown.store.free_le next (by rw [stackEq]; simp)).1
  exact numbered nextEq.symm

/-- A new page behind the end of the file, freed on top of page 2. -/
def lostRun : List PagerOp :=
  [.write (pageCreate 4096), .freelistPush 2, .freelistPush 524289]

section LostRun

variable {file : List UInt8} (length : file.length = 2 ^ 31)
  (blank : slice file 0 4096 = List.replicate 4096 0)

include length

theorem pagerOpen_maxPage_of_full :
    (pagerOpen 4096 1 file).maxPage = 524288 := by
  unfold pagerOpen
  simp only [length]
  decide

theorem pagerOpen_coherent_of_full : Coherent 1 (pagerOpen 4096 1 file) :=
  pagerOpen_coherent (by decide) (by decide) (by decide)
    (by rw [length]; decide)

theorem lostRun_permitted :
    (openedStack (pagerOpen 4096 1 file).toFilePager).PermitsRun 4096
      lostRun := by
  refine ⟨⟨rfl, pageCreate_sized (by decide)⟩, ⟨?_, ?_, ?_⟩, ⟨?_, ?_, ?_⟩,
    trivial⟩
  all_goals
    simp [PageStack.step, PageStack.newPage, openedStack,
      pagerOpen_maxPage_of_full length]

/-- The chain does not go past the lost page. -/
theorem lostRun_breaks :
    ¬ FreeListIsStack 1 (pagerOpen 4096 1 file)
      (openedStack (pagerOpen 4096 1 file).toFilePager) lostRun := by
  rintro ⟨outs, after, runEq, -, -, shown⟩
  have opened : FullFile 4096 (pagerOpen 4096 1 file) :=
    ⟨rfl, length, by intro key member; cases member⟩
  obtain ⟨full, -⟩ := keepsFull_runPagerOps (by decide) (by decide)
    (lostRun_permitted length) _ _ _ opened runEq
  have stackEq : ((openedStack (pagerOpen 4096 1 file).toFilePager).run
      lostRun).stack = [] ++ 524289 :: 2 :: [] := by
    simp [PageStack.run, PageStack.step, lostRun, openedStack]
  refine not_showsStack_of_behind stackEq ?_ shown
  rw [full.length, full.sameSize]
  decide

include blank

theorem openedStack_shows_of_full :
    ShowsStack (pagerOpen 4096 1 file).toFilePager
      (openedStack (pagerOpen 4096 1 file).toFilePager) := by
  have coherent := pagerOpen_coherent_of_full length
  refine openedStack_shows coherent ?_ ?_
  · rw [pagerOpen_maxPage_of_full length]
    decide
  · have page : filePage (pagerOpen 4096 1 file).toFilePager 1 =
        some (List.replicate 4096 0) := by
      unfold filePage pagerOpen
      simp only [Nat.sub_self, Nat.mul_zero, Nat.zero_add]
      rw [blank, length, if_pos (by decide)]
    unfold Disk.nextFree
    rw [diskOf_page? coherent.wellFormed (by decide), page]
    simp only [Option.map_some, imageOf, List.take_replicate]
    rw [Nat.min_eq_left (by decide)]
    decide

end LostRun

/-- A file of 524288 pages of `0x1000` zero bytes. -/
@[irreducible]
def fullFile : List UInt8 := List.replicate (2 ^ 31) 0

theorem fullFile_length : fullFile.length = 2 ^ 31 := by
  unfold fullFile
  exact List.length_replicate

theorem fullFile_page : slice fullFile 0 4096 = List.replicate 4096 0 := by
  unfold slice fullFile
  rw [List.drop_zero, List.take_replicate, Nat.min_eq_left (by decide)]

theorem lost_page_ends_chain :
    Coherent 1 (pagerOpen 4096 1 fullFile) ∧
      ShowsStack (pagerOpen 4096 1 fullFile).toFilePager
        (openedStack (pagerOpen 4096 1 fullFile).toFilePager) ∧
      (openedStack (pagerOpen 4096 1 fullFile).toFilePager).PermitsRun 4096
        lostRun ∧
      ¬ FreeListIsStack 1 (pagerOpen 4096 1 fullFile)
        (openedStack (pagerOpen 4096 1 fullFile).toFilePager) lostRun :=
  ⟨pagerOpen_coherent_of_full fullFile_length,
    openedStack_shows_of_full fullFile_length fullFile_page,
    lostRun_permitted fullFile_length, lostRun_breaks fullFile_length⟩

end BtreeDb
