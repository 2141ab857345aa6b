import BtreeDb.Pager.Refinement

/-!
# The page cache is invisible

A run of pager calls gives the results of the same run on the file, the cache
stays ordered with a page to evict, and reopening the file shows the same
pages.  This holds as long as every page that the run touches starts below
offset `2 ^ 31`: beyond, `disk_page_size * (page_id - 1)` wraps and two page
ids share one place in the file but not one cache slot.
-/

namespace BtreeDb

/-- Reading a page through a pager that is in the given state. -/
def readPageFrom (pager : Pager) (pageId : Nat) : Option (PagerE × Page) :=
  (pagerReadPage pageId (pageCreate pager.diskPageSize) pager).map Prod.fst

/-- What the cache may not change: the results of a run and the file it
leaves, the order and the bound of the cached ids, a page to evict, and the
pages that a reopened file shows. -/
structure CacheInvisible (diskPageSize capacity : Nat) (file : List UInt8)
    (ops : List PagerOp) : Prop where
  sameResults :
    (runPagerOps ops (pagerOpen diskPageSize capacity file)).map
        (fun run => (run.1, run.2.toFilePager)) =
      runPagerOps ops (pagerOpen diskPageSize capacity file).toFilePager
  ordered : ∀ outs after,
    runPagerOps ops (pagerOpen diskPageSize capacity file) =
        some (outs, after) →
      (after.cache.pages.Pairwise fun left right =>
          left.pageId < right.pageId) ∧
        after.cache.pages.length ≤ capacity
  evictable : ∀ outs after,
    runPagerOps ops (pagerOpen diskPageSize capacity file) =
        some (outs, after) →
      after.cache.pages.length = capacity →
        ∃ key ∈ after.cache.pages, key.ref = 0
  reopens : ∀ outs after,
    runPagerOps ops (pagerOpen diskPageSize capacity file) =
        some (outs, after) →
      (pagerOpen diskPageSize capacity after.file).maxPage = after.maxPage ∧
        ∀ pageId, InRange diskPageSize pageId →
          readPageFrom (pagerOpen diskPageSize capacity after.file) pageId =
            readPageFrom after pageId

theorem readPageFrom_eq {capacity pageId : Nat} {pager : Pager}
    (coherent : Coherent capacity pager)
    (inRange : InRange pager.diskPageSize pageId) :
    readPageFrom pager pageId =
      (fileRead pageId (pageCreate pager.diskPageSize)
        pager.toFilePager).map Prod.fst := by
  have agrees := agrees_cachedRead coherent inRange
    (pageCreate_sized coherent.wellFormed.metaFits)
  have sameResult := agrees.map_eq
  unfold readPageFrom pagerReadPage
  simp only [ PageIO.cachedRead] at sameResult ⊢
  rw [← sameResult, Option.map_map]
  rfl

theorem cacheInvisible_of_runFits {diskPageSize capacity : Nat}
    {file : List UInt8} {ops : List PagerOp} (capacity_pos : 0 < capacity)
    (metaFits : pagemetaSize ≤ diskPageSize)
    (sizeFits : diskPageSize < 2 ^ 31) (fileFits : file.length < 2 ^ 32)
    (fits : RunFits (pagerOpen diskPageSize capacity file).toFilePager ops) :
    CacheInvisible diskPageSize capacity file ops := by
  have agrees := agrees_runPagerOps
    (pagerOpen_coherent capacity_pos metaFits sizeFits fileFits) fits
  refine ⟨agrees.map_eq, ?_, ?_, ?_⟩
  · intro outs after runEq
    obtain ⟨coherent, _⟩ := agrees.after_coherent runEq
    refine ⟨coherent.ordered.sorted, ?_⟩
    rw [← coherent.capacity_eq]
    exact coherent.ordered.room
  · intro outs after runEq full
    obtain ⟨coherent, _⟩ := agrees.after_coherent runEq
    obtain ⟨key, member⟩ := List.exists_mem_of_length_pos
      (by rw [full]; exact capacity_pos)
    exact ⟨key, member, coherent.unused key member⟩
  · intro outs after runEq
    obtain ⟨coherent, sameSize⟩ := agrees.after_coherent runEq
    change after.diskPageSize = diskPageSize at sameSize
    have afterFits := coherent.wellFormed.fileFits
    have reopened := pagerOpen_coherent capacity_pos metaFits sizeFits afterFits
    have sameMax : (pagerOpen diskPageSize capacity after.file).maxPage =
        after.maxPage := by
      rw [reopened.wellFormed.maxPage_eq, coherent.wellFormed.maxPage_eq,
        sameSize]
      rfl
    have sameFile : (pagerOpen diskPageSize capacity after.file).toFilePager =
        after.toFilePager := by
      obtain ⟨⟨afterSize, afterMax, afterFile⟩, afterCache⟩ := after
      simp only at sameSize
      subst sameSize
      simp only at sameMax
      simp only [pagerOpen] at sameMax ⊢
      rw [sameMax]
    refine ⟨sameMax, ?_⟩
    intro pageId inRange
    rw [readPageFrom_eq coherent (by rw [sameSize]; exact inRange),
      readPageFrom_eq reopened inRange, sameFile, sameSize]

/-- Rewriting page 1 behind a second page id that wraps to its place. -/
def aliasedRun : List PagerOp :=
  [.read 67108865,
    .write
      { pageId := 1
        metaBytes := List.replicate 12 0
        pageBuffer := List.replicate 52 1 },
    .read 67108865]

def blankFile : List UInt8 := List.replicate 64 0

theorem aliased_page_reads_stale :
    ¬ CacheInvisible 64 1 blankFile aliasedRun := by
  intro invisible
  have same := invisible.sameResults
  revert same
  decide +kernel

/-- Two new pages, both freed and one taken again, under a cache of one page.
-/
def recycledRun : List PagerOp :=
  [.write (pageCreate 64), .write (pageCreate 64), .freelistPush 2, .read 2,
    .freelistPop, .read 1]

theorem recycled_pages_invisible : CacheInvisible 64 1 [] recycledRun :=
  cacheInvisible_of_runFits (by decide) (by decide) (by decide) (by decide)
    (by decide +kernel)

end BtreeDb
