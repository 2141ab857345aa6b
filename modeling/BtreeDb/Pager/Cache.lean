import BtreeDb.Lib.BinarySearch
import BtreeDb.Pager.Defs

/-!
# The page cache and the file

`page_cache.c`, `pager_internal.c` and the part of `pager.c` that opens a
file.  The file is a byte list with the behaviour of a seekable file: a read
that does not lie inside it fails, a write past its end leaves zeros in
between.  `Pager` reads and writes through the cache; `FilePager` is the same
pager with every access going to the file.
-/

namespace BtreeDb

open Bytes

/-- An unsigned 32-bit word read as an `int`. -/
def asInt (word : Nat) : Int :=
  if word < 2 ^ 31 then (word : Int) else (word : Int) - 2 ^ 32

/-- `word - 1` on a `u32`. -/
def u32Pred (word : Nat) : Nat :=
  if word = 0 then 2 ^ 32 - 1 else word - 1

/-- `int offset = pager->disk_page_size * (page_id - 1)`: a 32-bit product
stored in an `int`. -/
def pageOffset (diskPageSize pageId : Nat) : Int :=
  asInt (diskPageSize * u32Pred pageId % 2 ^ 32)

/-! ## The file operations -/

/-- `PagerOps.read`: seek, then read the whole range or fail. -/
def opsRead (file : List UInt8) (offset : Int) (readSize : Nat) :
    PagerE × List UInt8 :=
  if offset < 0 then
    (.seekErr, [])
  else if offset.toNat + readSize ≤ file.length then
    (.ok, slice file offset.toNat readSize)
  else
    (.readErr, [])

/-- `PagerOps.write`: seek, then write; the gap before a write past the end
reads as zeros. -/
def opsWrite (file : List UInt8) (offset : Int) (data : List UInt8) :
    List UInt8 :=
  if offset < 0 then file
  else
    splice (file ++ List.replicate (offset.toNat - file.length) 0)
      offset.toNat data

/-! ## The page cache -/

structure PageCacheKey where
  pageId : Nat
  page : Page
  ref : Nat
  deriving DecidableEq, Repr

/-- `pages` lists the first `size` slots of the array. -/
structure PageCache where
  pages : List PageCacheKey
  capacity : Nat
  deriving DecidableEq, Repr

def pageCacheCreate (capacity : Nat) : PageCache where
  pages := []
  capacity := capacity

/-- `find_in_cache`: whether the id is present, and its place. -/
def findInCache (cache : PageCache) (pageId : Nat) : Bool × Nat :=
  BinarySearch.search
    (BinarySearch.compareAt
      (fun key : PageCacheKey => compare key.pageId pageId) cache.pages)
    cache.pages.length

/-- `page_cache_acquire`: the cached page, with one more reference; `none` is
`PAGER_ERR_CACHE_MISS`. -/
def pageCacheAcquire (cache : PageCache) (pageId : Nat) :
    Option (Page × PageCache) :=
  let (found, cacheIndex) := findInCache cache pageId
  if found then
    match cache.pages[cacheIndex]? with
    | some key =>
        some (key.page,
          { cache with
            pages := cache.pages.set cacheIndex
              { key with ref := key.ref + 1 } })
    | none => none
  else
    none

/-- A write through the page pointer that `page_cache_acquire` returned. -/
def pageCacheStore (cache : PageCache) (pageId : Nat) (bytes : List UInt8) :
    PageCache :=
  let (found, cacheIndex) := findInCache cache pageId
  if found then
    match cache.pages[cacheIndex]? with
    | some key =>
        { cache with
          pages := cache.pages.set cacheIndex
            { key with page := key.page.withDiskBytes bytes } }
    | none => cache
  else
    cache

def pageCacheRelease (cache : PageCache) (pageId : Nat) : PageCache :=
  let (found, cacheIndex) := findInCache cache pageId
  if found then
    match cache.pages[cacheIndex]? with
    | some key =>
        { cache with
          pages := cache.pages.set cacheIndex
            { key with ref := key.ref - if key.ref ≠ 0 then 1 else 0 } }
    | none => cache
  else
    cache

/-- `cache_evict`: drop the first page without references; `none` when one of
its two assertions fails. -/
def cacheEvict (cache : PageCache) : Option PageCache :=
  match cache.pages.findIdx? (fun key => key.ref == 0) with
  | some evictIndex =>
      some { cache with pages := cache.pages.eraseIdx evictIndex }
  | none => none

/-- The condition of `assert_cache_correct` over the first `size` slots. -/
def cacheCorrect (size : Nat) (pages : List PageCacheKey) : Bool :=
  (List.range (size - 1)).all fun index =>
    match pages[index]?, pages[index + 1]? with
    | some left, some right => asInt left.pageId < asInt right.pageId
    | _, _ => true

/-- The eviction that `page_cache_insert` starts with when the cache is
full. -/
def evictIfFull (cache : PageCache) : Option PageCache :=
  if cache.pages.length = cache.capacity then cacheEvict cache else some cache

/-- `page_cache_insert`; `none` when an assertion fails.  The order is checked
before `size` counts the new page, so the last slot is not looked at. -/
def pageCacheInsert (cache : PageCache) (page : Page) : Option PageCache := do
  if page.pageId = 0 then none
  else
    let cache ← evictIfFull cache
    let (found, cacheIndex) := findInCache cache page.pageId
    if found then none
    else
      let pages := cache.pages.insertIdx cacheIndex
        { pageId := page.pageId, page := page, ref := 1 }
      if cacheCorrect cache.pages.length pages then
        some { cache with pages := pages }
      else
        none

/-! ## The two pagers -/

/-- A pager whose every access goes to the file. -/
structure FilePager where
  diskPageSize : Nat
  maxPage : Nat
  file : List UInt8
  deriving DecidableEq, Repr

/-- The pager of the source, with its cache. -/
structure Pager extends FilePager where
  cache : PageCache
  deriving DecidableEq, Repr

/-- `pager_create` followed by `pager_open`: `int size` goes back to a `u32`
before the division. -/
def pagerOpen (diskPageSize capacity : Nat) (file : List UInt8) : Pager where
  diskPageSize := diskPageSize
  maxPage := file.length % 2 ^ 32 / diskPageSize
  file := file
  cache := pageCacheCreate capacity

/-- `read_from_disk`, that is `pager_internal_read`. -/
def pagerInternalRead (pager : FilePager) (pageId : Nat) (page : Page) :
    PagerE × Page :=
  match opsRead pager.file (pageOffset pager.diskPageSize pageId)
      pager.diskPageSize with
  | (.ok, bytes) => (.ok, { page.withDiskBytes bytes with pageId := pageId })
  | (result, _) => (result, { page with pageId := pageId })

/-- `pager_internal_write`: the result of the write is not looked at. -/
def pagerInternalWrite (pager : FilePager) (page : Page) : FilePager :=
  { pager with
    file := opsWrite pager.file
      (pageOffset pager.diskPageSize page.pageId) page.diskBytes
    maxPage :=
      if page.pageId > pager.maxPage then page.pageId else pager.maxPage }

/-- `pager_internal_cached_read`. -/
def pagerInternalCachedRead (pageId : Nat) (page : Page) :
    PagerM Pager (PagerE × Page) := do
  cAssert (pageId != pageCreateNewPage)
  let pager ← get
  match pageCacheAcquire pager.cache pageId with
  | some (cachedPage, cache) =>
      set { pager with cache := pageCacheRelease cache cachedPage.pageId }
      pure (.ok,
        { page.withDiskBytes cachedPage.diskBytes with pageId := pageId })
  | none =>
      let (result, cachedPage) := pagerInternalRead pager.toFilePager pageId
        (pageCreate pager.diskPageSize)
      if result = .readErr then
        pure (.errNif, { page with pageId := pageId })
      else
        -- `page_commit`
        let cache ← StateT.lift (pageCacheInsert pager.cache cachedPage)
        set { pager with cache := pageCacheRelease cache cachedPage.pageId }
        pure (.ok,
          { page.withDiskBytes cachedPage.diskBytes with pageId := pageId })

/-- `pager_internal_cached_write`. -/
def pagerInternalCachedWrite (page : Page) : PagerM Pager PagerE := do
  let pager ← get
  let cache :=
    match pageCacheAcquire pager.cache page.pageId with
    | some (cachedPage, cache) =>
        pageCacheRelease (pageCacheStore cache page.pageId page.diskBytes)
          cachedPage.pageId
    | none => pager.cache
  set { pagerInternalWrite pager.toFilePager page with cache := cache : Pager }
  pure .ok

instance : PageIO Pager where
  diskPageSize pager := pager.diskPageSize
  maxPage pager := pager.maxPage
  cachedRead := pagerInternalCachedRead
  cachedWrite := pagerInternalCachedWrite

/-- Reading a page straight from the file, under the result codes of
`pager_read_page`: a page past the end is not in the file. -/
def fileRead (pageId : Nat) (page : Page) :
    PagerM FilePager (PagerE × Page) := do
  cAssert (pageId != pageCreateNewPage)
  let (result, diskPage) := pagerInternalRead (← get) pageId
    (pageCreate (← get).diskPageSize)
  if result = .readErr then
    pure (.errNif, { page with pageId := pageId })
  else
    pure (.ok,
      { page.withDiskBytes diskPage.diskBytes with pageId := pageId })

def fileWrite (page : Page) : PagerM FilePager PagerE := do
  set (pagerInternalWrite (← get) page)
  pure .ok

instance : PageIO FilePager where
  diskPageSize pager := pager.diskPageSize
  maxPage pager := pager.maxPage
  cachedRead := fileRead
  cachedWrite := fileWrite

/-! ## Runs -/

/-- The calls of the pager interface.  A written page is given by its id and
its bytes; the id `PAGE_CREATE_NEW_PAGE` asks for a new page. -/
inductive PagerOp where
  | read (pageId : Nat)
  | write (page : Page)
  | freelistPush (pageId : Nat)
  | freelistPushPage (page : Page)
  | freelistPop
  deriving DecidableEq, Repr

/-- What a call gives back: its result code, the page it filled or
renumbered, and the page id it handed out. -/
structure PagerOut where
  result : PagerE
  page : Option Page
  pageId : Option Nat
  deriving DecidableEq, Repr

section Runs

variable {σ : Type} [ PageIO σ]

def runPagerOp : PagerOp → PagerM σ PagerOut
  | .read pageId => do
      let blank := pageCreate ( PageIO.diskPageSize (← get))
      let (result, page) ← pagerReadPage pageId blank
      pure ⟨result, some page, none⟩
  | .write page => do
      let (result, page) ← pagerWritePage page
      pure ⟨result, some page, none⟩
  | .freelistPush pageId => do
      let result ← pagerFreelistPush pageId
      pure ⟨result, none, none⟩
  | .freelistPushPage page => do
      let (result, page) ← pagerFreelistPushPage page
      pure ⟨result, some page, none⟩
  | .freelistPop => do
      let (result, pageId) ← pagerFreelistPop
      pure ⟨result, none, some pageId⟩

def runPagerOps : List PagerOp → PagerM σ (List PagerOut)
  | [] => pure []
  | op :: ops => do
      let out ← runPagerOp op
      let outs ← runPagerOps ops
      pure (out :: outs)

end Runs

end BtreeDb
