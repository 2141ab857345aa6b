import BtreeDb.Lib.Bytes

/-!
# Pages, page metadata and the free list

The part of the pager that does not depend on how a page reaches the file.
A page in memory is its page id, the twelve metadata bytes that precede
`page_buffer`, and the bytes of `page_buffer`; on disk the metadata comes
first.  The two primitives `pager_internal_cached_read` and
`pager_internal_cached_write` are the methods of `PageIO`; allocation and the
free list are written over them, as in `pager.c` and `pager_freelist.c`.
-/

namespace BtreeDb

open Bytes

inductive PagerE where
  | ok
  | errPagePersistenceUnknown
  | errCacheMiss
  | errNoFreePage
  | errNoMem
  | errNif
  | unkErr
  | openErr
  | seekErr
  | readErr
  | writeErr
  deriving DecidableEq, Repr

structure Page where
  pageId : Nat
  /-- The bytes between `pagemeta_deadjust_buffer(page_buffer)` and
  `page_buffer`. -/
  metaBytes : List UInt8
  pageBuffer : List UInt8
  deriving DecidableEq, Repr

/-- `PAGE_CREATE_NEW_PAGE`: the id of a page that is not on disk yet. -/
def pageCreateNewPage : Nat := 0

def pagemetaSize : Nat := 1 + 4 + 4 + 3

/-- The `disk_page_size` bytes of a page as `pagemeta_memcpy_page` sees
them. -/
def Page.diskBytes (page : Page) : List UInt8 :=
  page.metaBytes ++ page.pageBuffer

/-- Fill a page from the bytes read at its place in the file. -/
def Page.withDiskBytes (page : Page) (bytes : List UInt8) : Page :=
  { page with
    metaBytes := bytes.take pagemetaSize
    pageBuffer := bytes.drop pagemetaSize }

/-- `page_create`: zeroed memory of the pager's disk page size. -/
def pageCreate (diskPageSize : Nat) : Page where
  pageId := pageCreateNewPage
  metaBytes := List.replicate pagemetaSize 0
  pageBuffer := List.replicate (diskPageSize - pagemetaSize) 0

structure PageMetadata where
  isFree : Bool
  nextFreePage : Nat
  pageNumber : Nat
  deriving DecidableEq, Repr

def pagemetaWrite (page : Page) (pageMeta : PageMetadata) : Page :=
  { page with
    metaBytes :=
      splice page.metaBytes 0
        ((if pageMeta.isFree then 0xCC else 0xAF) ::
          (le32 pageMeta.nextFreePage ++ le32 pageMeta.pageNumber)) }

def pagemetaRead (page : Page) : PageMetadata where
  isFree := page.metaBytes.headD 0 != 0xAF
  nextFreePage := u32At page.metaBytes 1
  pageNumber := u32At page.metaBytes 5

/-- A pager call: the pager before and after, or a failed assertion. -/
abbrev PagerM (σ : Type) : Type → Type := StateT σ Option

/-- `assert(condition)`. -/
def cAssert {σ : Type} (condition : Bool) : PagerM σ Unit :=
  if condition then pure () else StateT.lift none

/-- Running past a call that succeeds. -/
theorem PagerM.bind_some {σ α β : Type} {call : PagerM σ α}
    {next : α → PagerM σ β} {pager after : σ} {value : α}
    (first : call pager = some (value, after)) :
    (call >>= next) pager = next value after := by
  simp only [Bind.bind, StateT.bind, first, Option.bind_some]

theorem PagerM.get_apply {σ : Type} (pager : σ) :
    (get : PagerM σ σ) pager = some (pager, pager) := rfl

theorem PagerM.pure_apply {σ α : Type} (value : α) (pager : σ) :
    (pure value : PagerM σ α) pager = some (value, pager) := rfl

theorem PagerM.pure_state {σ α : Type} (value : α) (pager : σ) :
    (StateT.pure value : PagerM σ α) pager = some (value, pager) := rfl

theorem PagerM.set_state {σ : Type} (after pager : σ) :
    (StateT.set after : PagerM σ PUnit) pager = some (⟨⟩, after) := rfl

/-- How pages reach the file: the primitives of `pager_internal.c`.
`cachedRead` gets the page that the caller passes in, whose buffer it leaves
alone when it fails. -/
class PageIO (σ : Type) where
  diskPageSize : σ → Nat
  maxPage : σ → Nat
  cachedRead : Nat → Page → PagerM σ (PagerE × Page)
  cachedWrite : Page → PagerM σ PagerE

section Pager

variable {σ : Type} [ PageIO σ]

/-- `pager_freelist_pop`.  The second component is `*out_free_page`. -/
def pagerFreelistPop : PagerM σ (PagerE × Nat) := do
  let blank := pageCreate ( PageIO.diskPageSize (← get))
  let (result, rootPage) ← PageIO.cachedRead 1 blank
  if result = .ok then
    let rootMeta := pagemetaRead rootPage
    if rootMeta.nextFreePage = 0 then
      pure (.errNoFreePage, 0)
    else
      let (result, page) ← PageIO.cachedRead rootMeta.nextFreePage blank
      if result = .ok then
        let pageMeta := pagemetaRead page
        let result ← PageIO.cachedWrite
          (pagemetaWrite rootPage
            { rootMeta with nextFreePage := pageMeta.nextFreePage })
        pure (result, rootMeta.nextFreePage)
      else
        pure (result, 0)
  else
    pure (result, 0)

/-- `pager_freelist_push_page`.  The page's own metadata is rewritten in
memory, so it is returned. -/
def pagerFreelistPushPage (page : Page) : PagerM σ (PagerE × Page) := do
  cAssert (page.pageId != pageCreateNewPage)
  let blank := pageCreate ( PageIO.diskPageSize (← get))
  let (result, rootPage) ← PageIO.cachedRead 1 blank
  if result = .ok then
    let rootMeta := pagemetaRead rootPage
    let oldFreeHeadId := rootMeta.nextFreePage
    let result ← PageIO.cachedWrite
      (pagemetaWrite rootPage { rootMeta with nextFreePage := page.pageId })
    if result = .ok then
      let pageMeta := pagemetaRead page
      let page := pagemetaWrite page
        { pageMeta with isFree := true, nextFreePage := oldFreeHeadId }
      let result ← PageIO.cachedWrite page
      pure (result, page)
    else
      pure (result, page)
  else
    pure (result, page)

/-- `pager_freelist_push`. -/
def pagerFreelistPush (pageNumber : Nat) : PagerM σ PagerE := do
  let blank := pageCreate ( PageIO.diskPageSize (← get))
  let (result, page) ← PageIO.cachedRead pageNumber blank
  if result = .ok then
    let (result, _) ← pagerFreelistPushPage page
    pure result
  else
    pure result

def pagerReadPage (pageId : Nat) (page : Page) : PagerM σ (PagerE × Page) :=
  PageIO.cachedRead pageId page

def writeNewPageMeta (page : Page) (pageNumber : Nat) : Page :=
  pagemetaWrite page
    { isFree := false, nextFreePage := 0, pageNumber := pageNumber }

/-- `pager_disk_page`: choose the id of a page that is not on disk yet. -/
def pagerDiskPage (page : Page) : PagerM σ (PagerE × Page) := do
  if PageIO.maxPage (← get) = 0 then
    pure (.ok, writeNewPageMeta { page with pageId := 1 } 1)
  else
    let (result, nextPageId) ← pagerFreelistPop
    if result = .ok then
      pure (.ok,
        writeNewPageMeta { page with pageId := nextPageId } nextPageId)
    else if result = .errNoFreePage then
      let freshId := PageIO.maxPage (← get) + 1
      pure (.ok, writeNewPageMeta { page with pageId := freshId } freshId)
    else
      pure (result, page)

def setInUse (page : Page) : Page :=
  pagemetaWrite page
    { isFree := false
      nextFreePage := (pagemetaRead page).nextFreePage
      pageNumber := page.pageId }

/-- The first step of `pager_write_page`: a page without an id gets one. -/
def pagerPlacePage (page : Page) : PagerM σ (PagerE × Page) :=
  if page.pageId = pageCreateNewPage then pagerDiskPage page
  else pure (.ok, page)

def pagerWritePage (page : Page) : PagerM σ (PagerE × Page) := do
  let (result, page) ← pagerPlacePage page
  if result = .ok then
    let page := setInUse page
    let result ← PageIO.cachedWrite page
    pure (result, page)
  else
    pure (result, page)

/-- `pager_next_unused`. -/
def pagerNextUnused (pager : σ) : Nat := PageIO.maxPage pager + 1

end Pager

/-! ## Metadata bytes -/

@[simp]
theorem pagemetaWrite_pageId (page : Page) (pageMeta : PageMetadata) :
    (pagemetaWrite page pageMeta).pageId = page.pageId := rfl

@[simp]
theorem pagemetaWrite_pageBuffer (page : Page) (pageMeta : PageMetadata) :
    (pagemetaWrite page pageMeta).pageBuffer = page.pageBuffer := rfl

theorem pagemetaWrite_metaBytes_length {page : Page}
    (size : page.metaBytes.length = pagemetaSize)
    (pageMeta : PageMetadata) :
    (pagemetaWrite page pageMeta).metaBytes.length = pagemetaSize := by
  unfold pagemetaWrite
  rw [splice_length (by simp [size, pagemetaSize]), size]

/-- Metadata is read back as it was written, its words modulo `2 ^ 32`. -/
theorem pagemetaRead_pagemetaWrite {page : Page}
    (size : page.metaBytes.length = pagemetaSize)
    (pageMeta : PageMetadata) :
    pagemetaRead (pagemetaWrite page pageMeta) =
      { isFree := pageMeta.isFree
        nextFreePage := pageMeta.nextFreePage % 2 ^ 32
        pageNumber := pageMeta.pageNumber % 2 ^ 32 } := by
  obtain ⟨pageId, metaBytes, pageBuffer⟩ := page
  simp only [pagemetaSize] at size
  match metaBytes, size with
  | [a, b, c, d, e, f, g, h, i, j, k, l], _ =>
      have next := fromLe_le32 pageMeta.nextFreePage
      have number := fromLe_le32 pageMeta.pageNumber
      simp only [le32] at next number
      unfold pagemetaRead pagemetaWrite
      simp only [splice, le32, List.take_zero, List.nil_append,
        List.cons_append, List.length_cons, List.length_nil, List.drop_succ_cons,
        List.drop_zero, List.headD_cons, u32At, slice, List.take_succ_cons,
        next, number, PageMetadata.mk.injEq, and_true]
      cases pageMeta.isFree <;> decide

@[simp]
theorem setInUse_pageId (page : Page) : (setInUse page).pageId = page.pageId :=
  rfl

@[simp]
theorem setInUse_pageBuffer (page : Page) :
    (setInUse page).pageBuffer = page.pageBuffer := rfl

theorem setInUse_metaBytes_length {page : Page}
    (size : page.metaBytes.length = pagemetaSize) :
    (setInUse page).metaBytes.length = pagemetaSize :=
  pagemetaWrite_metaBytes_length size _

/-- Marking a page as used keeps the page it names as next free one. -/
theorem setInUse_nextFreePage {page : Page}
    (size : page.metaBytes.length = pagemetaSize) :
    (pagemetaRead (setInUse page)).nextFreePage =
      (pagemetaRead page).nextFreePage := by
  unfold setInUse
  rw [pagemetaRead_pagemetaWrite size]
  exact Nat.mod_eq_of_lt (u32At_lt _ _)

end BtreeDb
