import BtreeDb.Pager.Disk

/-!
# Allocation and the free list

`Store disk free` is the invariant of the allocator: the pages have the right
size, their ids fit an `int`, and the chain of free pages that starts in the
metadata of page 1 is `free`, without page 1 and without repetitions.  Writing
a page that exists, allocating a page and freeing one keep it; each changes
the buffer of one page at most.
-/

namespace BtreeDb

open Bytes

namespace Disk

/-- What the trees see of a page. -/
def buffer? (disk : Disk) (pageId : Nat) : Option (List UInt8) :=
  (disk.page? pageId).map PageImage.pageBuffer

/-- The page that a page's metadata names as the next free one. -/
def nextFree (disk : Disk) (pageId : Nat) : Nat :=
  match disk.page? pageId with
  | some image => u32At image.metaBytes 1
  | none => 0

/-- The chain of free pages from a page on. -/
def FreeChain (disk : Disk) : Nat → List Nat → Prop
  | pageId, [] => pageId = 0
  | pageId, first :: rest =>
      pageId = first ∧ (disk.page? first).isSome ∧
        FreeChain disk (disk.nextFree first) rest

end Disk

open Disk

structure Store (disk : Disk) (free : List Nat) : Prop where
  sized : ∀ pageId image, disk.page? pageId = some image →
    image.metaBytes.length = pagemetaSize ∧
      image.pageBuffer.length = disk.pageSize
  few : disk.maxPage < pageIdLimit
  first : disk.maxPage ≠ 0
  chain : FreeChain disk (disk.nextFree 1) free
  distinct : free.Nodup
  firstUsed : 1 ∉ free

/-! ## Storing a page -/

theorem page?_isSome_iff {disk : Disk} {pageId : Nat} :
    (disk.page? pageId).isSome ↔ pageId ≠ 0 ∧ pageId ≤ disk.maxPage := by
  unfold Disk.page? Disk.maxPage pageCreateNewPage
  by_cases zero : pageId = 0
  · simp [zero]
  · simp [zero, Nat.sub_lt_iff_lt_add (Nat.one_le_iff_ne_zero.mpr zero),
      Nat.lt_add_one_iff]

theorem store_maxPage {disk : Disk} {pageId : Nat} {image : PageImage}
    (place : pageId ≤ disk.maxPage + 1) :
    (disk.store pageId image).maxPage =
      if pageId = disk.maxPage + 1 then disk.maxPage + 1
      else disk.maxPage := by
  unfold Disk.store Disk.maxPage at *
  simp only [List.length_set, List.length_append, List.length_replicate]
  split <;> omega

theorem store_page? {disk : Disk} {pageId : Nat} {image : PageImage}
    (numbered : pageId ≠ 0) (place : pageId ≤ disk.maxPage + 1)
    (other : Nat) :
    (disk.store pageId image).page? other =
      if other = pageId then some image else disk.page? other := by
  unfold Disk.page? Disk.store Disk.maxPage pageCreateNewPage at *
  by_cases zero : other = 0
  · have different : ¬ 0 = pageId := fun same => numbered same.symm
    simp [zero, different]
  · rw [if_neg zero, if_neg zero]
    simp only
    rw [List.getElem?_set, List.length_append, List.length_replicate]
    by_cases same : other = pageId
    · subst same
      rw [if_pos rfl, if_pos rfl, if_pos (by omega)]
    · rw [if_neg same, if_neg (by omega)]
      by_cases old : other - 1 < disk.pages.length
      · rw [List.getElem?_append_left old]
      · rw [List.getElem?_eq_none (by simp; omega),
          List.getElem?_eq_none (by omega)]

theorem store_pageSize (disk : Disk) (pageId : Nat) (image : PageImage) :
    (disk.store pageId image).pageSize = disk.pageSize := rfl

theorem store_buffer? {disk : Disk} {pageId : Nat} {image : PageImage}
    (numbered : pageId ≠ 0) (place : pageId ≤ disk.maxPage + 1)
    (other : Nat) :
    (disk.store pageId image).buffer? other =
      if other = pageId then some image.pageBuffer
      else disk.buffer? other := by
  unfold Disk.buffer?
  rw [store_page? numbered place]
  split <;> rfl

theorem store_nextFree {disk : Disk} {pageId : Nat} {image : PageImage}
    (numbered : pageId ≠ 0) (place : pageId ≤ disk.maxPage + 1)
    (other : Nat) :
    (disk.store pageId image).nextFree other =
      if other = pageId then u32At image.metaBytes 1
      else disk.nextFree other := by
  unfold Disk.nextFree
  rw [store_page? numbered place]
  by_cases same : other = pageId
  · rw [if_pos same, if_pos same]
  · rw [if_neg same, if_neg same]

/-! ## Chains -/

/-- A chain depends on the metadata of its own pages only. -/
theorem Disk.FreeChain.congr {disk after : Disk} :
    ∀ {free : List Nat} {pageId : Nat}, FreeChain disk pageId free →
      (∀ page ∈ free, (after.page? page).isSome ∧
        after.nextFree page = disk.nextFree page) →
      FreeChain after pageId free
  | [], _, chain, _ => chain
  | first :: rest, _, ⟨start, _, chain⟩, same => by
      have here := same first List.mem_cons_self
      refine ⟨start, here.1, ?_⟩
      rw [here.2]
      exact Disk.FreeChain.congr chain fun page member =>
        same page (List.mem_cons_of_mem _ member)

theorem Disk.FreeChain.present {disk : Disk} :
    ∀ {free : List Nat} {pageId : Nat}, FreeChain disk pageId free →
      ∀ page ∈ free, (disk.page? page).isSome
  | first :: rest, _, ⟨_, here, chain⟩, page, member => by
      rcases List.mem_cons.mp member with rfl | later
      · exact here
      · exact Disk.FreeChain.present chain page later

theorem Disk.FreeChain.head {disk : Disk} {free : List Nat} {pageId : Nat}
    (chain : FreeChain disk pageId free) :
    pageId = free.headD 0 := by
  cases free with
  | nil => exact chain
  | cons first rest => exact chain.1

theorem Store.free_le {disk : Disk} {free : List Nat}
    (store : Store disk free) :
    ∀ page ∈ free, page ≠ 0 ∧ page ≤ disk.maxPage := fun page member =>
  page?_isSome_iff.mp (store.chain.present page member)

/-! ## Reading -/

theorem diskRead_present {disk : Disk} {pageId : Nat} {image : PageImage}
    (present : disk.page? pageId = some image) (page : Page) :
    PageIO.cachedRead pageId page disk =
      some ((.ok,
        { pageId := pageId
          metaBytes := image.metaBytes
          pageBuffer := image.pageBuffer }), disk) := by
  have numbered : (pageId != pageCreateNewPage) = true := by
    have some := page?_isSome_iff.mp (by rw [present]; rfl)
    simpa [pageCreateNewPage] using some.1
  change diskRead pageId page disk = _
  unfold diskRead
  simp only [cAssert, numbered, if_true, pure_bind]
  simp only [Bind.bind, StateT.bind, get, getThe, MonadStateOf.get, StateT.get,
    pure, Option.bind_some, present, PagerM.pure_state]

theorem diskWrite_apply {disk : Disk} {page : Page}
    (small : page.pageId < pageIdLimit) :
    PageIO.cachedWrite page disk =
      some (.ok, disk.store page.pageId page.image) := by
  change diskWrite page disk = _
  unfold diskWrite
  rw [if_pos small]
  rfl

/-! ## Writing a page that exists -/

theorem pagemetaWrite_nextFree {page : Page}
    (size : page.metaBytes.length = pagemetaSize) (pageMeta : PageMetadata)
    (small : pageMeta.nextFreePage < 2 ^ 32) :
    u32At (pagemetaWrite page pageMeta).metaBytes 1 =
      pageMeta.nextFreePage := by
  have readBack := pagemetaRead_pagemetaWrite size pageMeta
  have next := congrArg PageMetadata.nextFreePage readBack
  unfold pagemetaRead at next
  simp only at next
  rw [next, Nat.mod_eq_of_lt small]

theorem setInUse_nextFree {page : Page}
    (size : page.metaBytes.length = pagemetaSize) :
    u32At (setInUse page).metaBytes 1 = u32At page.metaBytes 1 :=
  setInUse_nextFreePage size

theorem pagerWritePage_existing {disk : Disk} {page : Page}
    (numbered : page.pageId ≠ 0) (small : page.pageId < pageIdLimit) :
    pagerWritePage page disk =
      some ((.ok, setInUse page),
        disk.store page.pageId (setInUse page).image) := by
  have old : ¬ page.pageId = pageCreateNewPage := numbered
  unfold pagerWritePage pagerPlacePage
  rw [if_neg old]
  rw [PagerM.bind_some (PagerM.pure_apply (PagerE.ok, page) disk)]
  simp only [if_true]
  rw [PagerM.bind_some
    (diskWrite_apply (by rw [setInUse_pageId]; exact small))]
  rfl

/-- Writing a page of the disk that is not free, page 1 with the metadata it
has on disk, keeps the allocator's invariant. -/
theorem Store.write {disk : Disk} {free : List Nat} {page : Page}
    (store : Store disk free) (numbered : page.pageId ≠ 0)
    (exists_ : page.pageId ≤ disk.maxPage) (used : page.pageId ∉ free)
    (metaSize : page.metaBytes.length = pagemetaSize)
    (bufferSize : page.pageBuffer.length = disk.pageSize)
    (current : page.pageId = 1 →
      u32At page.metaBytes 1 = disk.nextFree 1) :
    Store (disk.store page.pageId (setInUse page).image) free := by
  have place : page.pageId ≤ disk.maxPage + 1 := by omega
  have sameMax : (disk.store page.pageId (setInUse page).image).maxPage =
      disk.maxPage := by
    rw [store_maxPage place, if_neg (by omega)]
  have nextFirst : (disk.store page.pageId (setInUse page).image).nextFree 1 =
      disk.nextFree 1 := by
    rw [store_nextFree numbered place]
    split
    · rename_i isFirst
      rw [← current isFirst.symm]
      exact setInUse_nextFree metaSize
    · rfl
  refine ⟨?_, ?_, ?_, ?_, store.distinct, store.firstUsed⟩
  · intro pageId image present
    rw [store_page? numbered place] at present
    split at present
    · cases present
      exact ⟨setInUse_metaBytes_length metaSize, bufferSize⟩
    · exact store.sized pageId image present
  · rw [sameMax]
    exact store.few
  · rw [sameMax]
    exact store.first
  · rw [nextFirst]
    refine store.chain.congr ?_
    intro freePage member
    have different : freePage ≠ page.pageId := by
      intro same
      exact used (same ▸ member)
    rw [store_page? numbered place, store_nextFree numbered place,
      if_neg different, if_neg different]
    exact ⟨store.chain.present freePage member, rfl⟩

/-- Writing the first page with metadata that names another list of free
pages. -/
theorem Store.write_first {disk : Disk} {free others : List Nat} {page : Page}
    (store : Store disk free) (isFirst : page.pageId = 1)
    (metaSize : page.metaBytes.length = pagemetaSize)
    (bufferSize : page.pageBuffer.length = disk.pageSize)
    (chain : FreeChain disk (u32At page.metaBytes 1) others)
    (distinct : others.Nodup) (firstUsed : 1 ∉ others) :
    Store (disk.store page.pageId (setInUse page).image) others := by
  have numbered : page.pageId ≠ 0 := by omega
  have present : page.pageId ≤ disk.maxPage := by
    have first := store.first
    omega
  have place : page.pageId ≤ disk.maxPage + 1 := Nat.le_succ_of_le present
  have sameMax : (disk.store page.pageId (setInUse page).image).maxPage =
      disk.maxPage := by
    rw [store_maxPage place, if_neg (by omega)]
  refine ⟨?_, ?_, ?_, ?_, distinct, firstUsed⟩
  · intro pageId image here
    rw [store_page? numbered place] at here
    split at here
    · cases here
      exact ⟨setInUse_metaBytes_length metaSize, bufferSize⟩
    · exact store.sized pageId image here
  · rw [sameMax]
    exact store.few
  · rw [sameMax]
    exact store.first
  · rw [store_nextFree numbered place, if_pos isFirst.symm]
    change FreeChain _ (u32At (setInUse page).metaBytes 1) others
    rw [setInUse_nextFree metaSize]
    refine chain.congr ?_
    intro freePage member
    have different : freePage ≠ page.pageId := by
      rw [isFirst]
      exact fun same => firstUsed (same ▸ member)
    rw [store_page? numbered place, store_nextFree numbered place,
      if_neg different, if_neg different]
    exact ⟨chain.present freePage member, rfl⟩

/-! ## Taking a free page -/

theorem nextFree_lt (disk : Disk) (pageId : Nat) :
    disk.nextFree pageId < 2 ^ 32 := by
  unfold Disk.nextFree
  split
  · exact u32At_lt _ _
  · decide

/-- Page 1 with another first free page. -/
def Disk.setFirstFree (disk : Disk) (pageId : Nat) : Disk :=
  match disk.page? 1 with
  | some image =>
      disk.store 1
        (pagemetaWrite ⟨1, image.metaBytes, image.pageBuffer⟩
          { pagemetaRead ⟨1, image.metaBytes, image.pageBuffer⟩ with
            nextFreePage := pageId }).image
  | none => disk

section SetFirstFree

variable {disk : Disk} {free : List Nat} (store : Store disk free)

include store

theorem Store.page_one : ∃ image, disk.page? 1 = some image := by
  have first := store.first
  exact Option.isSome_iff_exists.mp
    (page?_isSome_iff.mpr ⟨Nat.one_ne_zero, by omega⟩)

omit store in
theorem setFirstFree_maxPage (pageId : Nat) :
    (disk.setFirstFree pageId).maxPage = disk.maxPage := by
  unfold Disk.setFirstFree
  split
  · rename_i image present
    have first := (page?_isSome_iff.mp (Option.isSome_of_eq_some present)).2
    rw [store_maxPage (by omega), if_neg (by omega)]
  · rfl

omit store in
theorem setFirstFree_pageSize (pageId : Nat) :
    (disk.setFirstFree pageId).pageSize = disk.pageSize := by
  unfold Disk.setFirstFree
  split <;> rfl

omit store in
theorem setFirstFree_page? (pageId : Nat) {other : Nat} (notFirst : other ≠ 1) :
    (disk.setFirstFree pageId).page? other = disk.page? other := by
  unfold Disk.setFirstFree
  split
  · rw [store_page? Nat.one_ne_zero (by omega), if_neg notFirst]
  · rfl

omit store in
theorem setFirstFree_buffer? (pageId other : Nat) :
    (disk.setFirstFree pageId).buffer? other = disk.buffer? other := by
  unfold Disk.setFirstFree
  split
  · rename_i image present
    rw [store_buffer? Nat.one_ne_zero (by omega)]
    split
    · rename_i isFirst
      rw [isFirst, Disk.buffer?, present]
      rfl
    · rfl
  · rfl

omit store in
theorem setFirstFree_nextFree_of {image : PageImage}
    (present : disk.page? 1 = some image)
    (size : image.metaBytes.length = pagemetaSize) {pageId : Nat}
    (small : pageId < 2 ^ 32) (other : Nat) :
    (disk.setFirstFree pageId).nextFree other =
      if other = 1 then pageId else disk.nextFree other := by
  unfold Disk.setFirstFree
  rw [present]
  simp only
  rw [store_nextFree Nat.one_ne_zero (by omega)]
  split
  · exact pagemetaWrite_nextFree size _ small
  · rfl

theorem setFirstFree_nextFree {pageId : Nat} (small : pageId < 2 ^ 32)
    (other : Nat) :
    (disk.setFirstFree pageId).nextFree other =
      if other = 1 then pageId else disk.nextFree other := by
  obtain ⟨image, present⟩ := store.page_one
  exact setFirstFree_nextFree_of present (store.sized 1 image present).1 small
    other

theorem setFirstFree_sized (pageId : Nat) :
    ∀ other image, (disk.setFirstFree pageId).page? other = some image →
      image.metaBytes.length = pagemetaSize ∧
        image.pageBuffer.length = disk.pageSize := by
  intro other image found
  by_cases isFirst : other = 1
  · subst isFirst
    obtain ⟨old, present⟩ := store.page_one
    have size := store.sized 1 old present
    unfold Disk.setFirstFree at found
    rw [present] at found
    simp only at found
    rw [store_page? Nat.one_ne_zero (by omega), if_pos rfl] at found
    cases found
    exact ⟨pagemetaWrite_metaBytes_length size.1 _, size.2⟩
  · rw [setFirstFree_page? pageId isFirst] at found
    exact store.sized other image found

omit store in
/-- Reading page 1, changing its first free page and writing it back. -/
theorem diskWrite_setFirstFree {image : PageImage}
    (present : disk.page? 1 = some image) (pageId : Nat) :
    PageIO.cachedWrite (pagemetaWrite ⟨1, image.metaBytes, image.pageBuffer⟩
        { pagemetaRead ⟨1, image.metaBytes, image.pageBuffer⟩ with
          nextFreePage := pageId }) disk =
      some (.ok, disk.setFirstFree pageId) := by
  rw [diskWrite_apply (by rw [pagemetaWrite_pageId]; exact Nat.one_lt_two_pow (by decide))]
  unfold Disk.setFirstFree
  rw [present]
  rfl

end SetFirstFree

theorem pagerFreelistPop_empty {disk : Disk} (store : Store disk []) :
    pagerFreelistPop disk = some ((.errNoFreePage, 0), disk) := by
  obtain ⟨image, present⟩ := store.page_one
  have none : disk.nextFree 1 = 0 := store.chain
  have noNext : (pagemetaRead
      ⟨1, image.metaBytes, image.pageBuffer⟩).nextFreePage = 0 := by
    unfold Disk.nextFree at none
    rw [present] at none
    exact none
  unfold pagerFreelistPop
  rw [PagerM.bind_some (PagerM.get_apply disk),
    PagerM.bind_some (diskRead_present present _)]
  simp only [if_true, noNext]
  rfl

theorem pagerFreelistPop_cons {disk : Disk} {first : Nat} {rest : List Nat}
    (store : Store disk (first :: rest)) :
    pagerFreelistPop disk =
      some ((.ok, first), disk.setFirstFree (rest.headD 0)) := by
  obtain ⟨image, present⟩ := store.page_one
  obtain ⟨start, firstPresent, chain⟩ := store.chain
  obtain ⟨firstImage, firstHere⟩ := Option.isSome_iff_exists.mp firstPresent
  have numbered := (page?_isSome_iff.mp firstPresent).1
  have next : (pagemetaRead
      ⟨1, image.metaBytes, image.pageBuffer⟩).nextFreePage = first := by
    unfold Disk.nextFree at start
    rw [present] at start
    exact start
  have afterNext : (pagemetaRead ⟨first, firstImage.metaBytes,
      firstImage.pageBuffer⟩).nextFreePage = rest.headD 0 := by
    have head := chain.head
    unfold Disk.nextFree at head
    rw [firstHere] at head
    exact head
  unfold pagerFreelistPop
  rw [PagerM.bind_some (PagerM.get_apply disk),
    PagerM.bind_some (diskRead_present present _)]
  simp only [if_true, next, if_neg numbered]
  rw [PagerM.bind_some (diskRead_present firstHere _)]
  simp only [if_true, afterNext]
  rw [PagerM.bind_some (diskWrite_setFirstFree present _)]
  rfl

/-- Taking the first free page keeps the allocator's invariant. -/
theorem Store.pop {disk : Disk} {head : Nat} {rest : List Nat}
    (store : Store disk (head :: rest)) :
    Store (disk.setFirstFree (rest.headD 0)) rest := by
  have sameMax := @setFirstFree_maxPage disk (rest.headD 0)
  obtain ⟨-, -, tailChain⟩ := store.chain
  have small : rest.headD 0 < 2 ^ 32 := by
    rw [← tailChain.head]
    exact nextFree_lt disk head
  refine ⟨?_, ?_, ?_, ?_, store.distinct.tail, ?_⟩
  · rw [setFirstFree_pageSize]
    exact setFirstFree_sized store _
  · rw [sameMax]
    exact store.few
  · rw [sameMax]
    exact store.first
  · rw [setFirstFree_nextFree store small, if_pos rfl, ← tailChain.head]
    refine tailChain.congr ?_
    intro later member
    have inside := store.free_le later (List.mem_cons_of_mem _ member)
    have notFirst : later ≠ 1 := by
      intro isFirst
      exact store.firstUsed (isFirst ▸ List.mem_cons_of_mem _ member)
    refine ⟨?_, ?_⟩
    · rw [setFirstFree_page? _ notFirst]
      exact page?_isSome_iff.mpr inside
    · rw [tailChain.head, setFirstFree_nextFree store small, if_neg notFirst]
  · intro member
    exact store.firstUsed (List.mem_cons_of_mem _ member)

/-! ## Allocating a page -/

/-- The page that the next new page gets. -/
def nextNewPage (disk : Disk) (free : List Nat) : Nat :=
  free.headD (disk.maxPage + 1)

/-- The disk after the choice of a new page. -/
def Disk.afterChoice (disk : Disk) (free : List Nat) : Disk :=
  match free with
  | [] => disk
  | _ :: rest => disk.setFirstFree (rest.headD 0)

theorem pagerDiskPage_apply {disk : Disk} {free : List Nat}
    (store : Store disk free) (page : Page) :
    pagerDiskPage page disk =
      some ((.ok, writeNewPageMeta
        { page with pageId := nextNewPage disk free }
        (nextNewPage disk free)), disk.afterChoice free) := by
  have first := store.first
  unfold pagerDiskPage
  rw [PagerM.bind_some (PagerM.get_apply disk)]
  simp only [ PageIO.maxPage, if_neg first]
  cases free with
  | nil =>
      rw [PagerM.bind_some (pagerFreelistPop_empty store)]
      simp only [reduceCtorEq, if_false, if_true]
      rfl
  | cons head rest =>
      rw [PagerM.bind_some (pagerFreelistPop_cons store)]
      rfl

/-- A page that has got an id. -/
def placedPage (page : Page) (pageId : Nat) : Page :=
  setInUse (writeNewPageMeta { page with pageId := pageId } pageId)

section AfterChoice

variable {disk : Disk} {free : List Nat} (store : Store disk free)

include store

theorem afterChoice_maxPage : (disk.afterChoice free).maxPage = disk.maxPage := by
  cases free with
  | nil => rfl
  | cons head rest => exact setFirstFree_maxPage _

theorem afterChoice_pageSize :
    (disk.afterChoice free).pageSize = disk.pageSize := by
  cases free with
  | nil => rfl
  | cons head rest => exact setFirstFree_pageSize _

theorem nextNewPage_bounds :
    nextNewPage disk free ≠ 0 ∧ nextNewPage disk free ≠ 1 ∧
      nextNewPage disk free ≤ disk.maxPage + 1 := by
  have first := store.first
  cases free with
  | nil =>
      unfold nextNewPage
      simp only [List.headD_nil]
      omega
  | cons head rest =>
      have inside := store.free_le head List.mem_cons_self
      refine ⟨inside.1, ?_, Nat.le_succ_of_le inside.2⟩
      intro isFirst
      exact store.firstUsed (isFirst ▸ List.mem_cons_self)

theorem nextNewPage_small (room : free = [] → disk.maxPage + 1 < pageIdLimit) :
    nextNewPage disk free < pageIdLimit := by
  cases free with
  | nil => exact room rfl
  | cons head rest =>
      exact Nat.lt_of_le_of_lt (store.free_le head List.mem_cons_self).2
        store.few

end AfterChoice

theorem pagerWritePage_new_apply {disk : Disk} {free : List Nat} {page : Page}
    (store : Store disk free) (isNew : page.pageId = 0)
    (room : free = [] → disk.maxPage + 1 < pageIdLimit) :
    pagerWritePage page disk =
      some ((.ok, placedPage page (nextNewPage disk free)),
        (disk.afterChoice free).store (nextNewPage disk free)
          (placedPage page (nextNewPage disk free)).image) := by
  have isNew' : page.pageId = pageCreateNewPage := isNew
  have writeEq : PageIO.cachedWrite (placedPage page (nextNewPage disk free))
      (disk.afterChoice free) = some (.ok, (disk.afterChoice free).store
        (nextNewPage disk free)
        (placedPage page (nextNewPage disk free)).image) :=
    diskWrite_apply (nextNewPage_small store room)
  unfold placedPage at writeEq ⊢
  unfold pagerWritePage pagerPlacePage
  rw [if_pos isNew', PagerM.bind_some (pagerDiskPage_apply store page)]
  simp only [if_true]
  rw [PagerM.bind_some writeEq]
  rfl

/-- Allocating a page for a buffer: what the next new page is, and that the
buffers of all other pages stay. -/
theorem pagerWritePage_new {disk : Disk} {free : List Nat} {page : Page}
    (store : Store disk free) (isNew : page.pageId = 0)
    (metaSize : page.metaBytes.length = pagemetaSize)
    (bufferSize : page.pageBuffer.length = disk.pageSize)
    (room : free = [] → disk.maxPage + 1 < pageIdLimit) :
    ∃ metaBytes after,
      pagerWritePage page disk =
        some ((.ok, ⟨nextNewPage disk free, metaBytes, page.pageBuffer⟩),
          after) ∧
      metaBytes.length = pagemetaSize ∧
      Store after free.tail ∧
      after.pageSize = disk.pageSize ∧
      (∀ other, after.buffer? other =
        if other = nextNewPage disk free then some page.pageBuffer
        else disk.buffer? other) ∧
      after.nextFree 1 = free.tail.headD 0 ∧
      after.maxPage = if free = [] then disk.maxPage + 1 else disk.maxPage := by
  let placed := writeNewPageMeta
    { page with pageId := nextNewPage disk free } (nextNewPage disk free)
  have placedSize : placed.metaBytes.length = pagemetaSize :=
    pagemetaWrite_metaBytes_length metaSize _
  have chosenMax := afterChoice_maxPage store
  have chosenSize := afterChoice_pageSize store
  obtain ⟨idNumbered, idNotFirst, idPlace⟩ := nextNewPage_bounds store
  rw [← chosenMax] at idPlace
  have idSmall := nextNewPage_small store room
  have idNotTail : nextNewPage disk free ∉ free.tail := by
    cases free with
    | nil => simp
    | cons head rest => exact (List.nodup_cons.mp store.distinct).1
  have chosenNext : ∀ other, (disk.afterChoice free).nextFree other =
      if other = 1 then free.tail.headD 0 else disk.nextFree other := by
    intro other
    cases free with
    | nil =>
        have none : disk.nextFree 1 = 0 := store.chain
        split
        · rename_i isFirst
          rw [isFirst]
          exact none
        · rfl
    | cons head rest =>
        refine setFirstFree_nextFree store ?_ other
        cases rest with
        | nil => decide
        | cons second rest =>
            have inside := (store.free_le second (by simp)).2
            have few := store.few
            unfold pageIdLimit at few
            simp only [List.headD_cons]
            omega
  have chosenBuffer : ∀ other, (disk.afterChoice free).buffer? other =
      disk.buffer? other := by
    intro other
    cases free with
    | nil => rfl
    | cons head rest => exact setFirstFree_buffer? _ other
  have writeEq := pagerWritePage_new_apply store isNew room
  refine ⟨(setInUse placed).metaBytes, _, writeEq,
    setInUse_metaBytes_length placedSize, ?_, chosenSize, ?_, ?_, ?_⟩
  · refine ⟨?_, ?_, ?_, ?_, store.distinct.tail, ?_⟩
    · intro other image found
      rw [store_page? idNumbered idPlace] at found
      rw [store_pageSize, chosenSize]
      split at found
      · cases found
        exact ⟨setInUse_metaBytes_length placedSize, bufferSize⟩
      · cases free with
        | nil => exact store.sized other image found
        | cons head rest => exact setFirstFree_sized store _ other image found
    · rw [store_maxPage idPlace, chosenMax]
      have few := store.few
      split
      · rename_i isLast
        omega
      · exact few
    · rw [store_maxPage idPlace, chosenMax]
      have first := store.first
      split <;> omega
    · rw [store_nextFree idNumbered idPlace, if_neg (Ne.symm idNotFirst),
        chosenNext, if_pos rfl]
      cases free with
      | nil => rfl
      | cons head rest =>
          have tailChain := store.chain.2.2
          have headEq := tailChain.head
          simp only [List.tail_cons]
          rw [← headEq]
          refine tailChain.congr ?_
          intro later member
          have laterNumbered := store.free_le later (List.mem_cons_of_mem _ member)
          have different : later ≠ nextNewPage disk (head :: rest) := by
            intro same
            exact idNotTail (same ▸ member)
          have notFirst : later ≠ 1 := by
            intro isFirst
            exact store.firstUsed (isFirst ▸ List.mem_cons_of_mem _ member)
          refine ⟨?_, ?_⟩
          · rw [store_page? idNumbered idPlace, if_neg different]
            exact page?_isSome_iff.mpr ⟨laterNumbered.1, by
              rw [chosenMax]; exact laterNumbered.2⟩
          · rw [store_nextFree idNumbered idPlace, if_neg different, chosenNext,
              if_neg notFirst]
    · intro member
      exact store.firstUsed (List.mem_of_mem_tail member)
  · intro other
    rw [store_buffer? idNumbered idPlace, chosenBuffer]
    rfl
  · rw [store_nextFree idNumbered idPlace, if_neg (Ne.symm idNotFirst),
      chosenNext, if_pos rfl]
  · rw [store_maxPage idPlace, chosenMax]
    cases free with
    | nil => simp [nextNewPage]
    | cons head rest =>
        have inside := (store.free_le head List.mem_cons_self).2
        have notLast : nextNewPage disk (head :: rest) ≠ disk.maxPage + 1 := by
          unfold nextNewPage
          simp only [List.headD_cons]
          omega
        rw [if_neg notLast]
        simp

/-! ## Freeing a page -/

/-- A page's metadata when it becomes the first free page. -/
def freedPage (page : Page) (oldFreeHead : Nat) : Page :=
  pagemetaWrite page
    { pagemetaRead page with isFree := true, nextFreePage := oldFreeHead }

/-- The disk with a page as the first free page. -/
def Disk.afterPush (disk : Disk) (page : Page) (oldFreeHead : Nat) : Disk :=
  (disk.setFirstFree page.pageId).store page.pageId
    (freedPage page oldFreeHead).image

theorem afterPush_maxPage {disk : Disk} {page : Page}
    (present : page.pageId ≤ disk.maxPage) (oldFreeHead : Nat) :
    (disk.afterPush page oldFreeHead).maxPage = disk.maxPage := by
  have sameMax := @setFirstFree_maxPage disk page.pageId
  unfold Disk.afterPush
  rw [store_maxPage (by omega), if_neg (by omega), sameMax]

theorem afterPush_buffer? {disk : Disk} {page : Page}
    (numbered : page.pageId ≠ 0) (present : page.pageId ≤ disk.maxPage)
    (oldFreeHead other : Nat) :
    (disk.afterPush page oldFreeHead).buffer? other =
      if other = page.pageId then some page.pageBuffer
      else disk.buffer? other := by
  have sameMax := @setFirstFree_maxPage disk page.pageId
  unfold Disk.afterPush
  rw [store_buffer? numbered (by omega), setFirstFree_buffer?]
  rfl

/-- The freed page is the first free one. -/
theorem afterPush_nextFree_first {disk : Disk} {page : Page}
    {image : PageImage} (here : disk.page? 1 = some image)
    (size : image.metaBytes.length = pagemetaSize)
    (numbered : page.pageId ≠ 0) (notFirst : page.pageId ≠ 1)
    (present : page.pageId ≤ disk.maxPage) (small : page.pageId < 2 ^ 32)
    (oldFreeHead : Nat) :
    (disk.afterPush page oldFreeHead).nextFree 1 = page.pageId := by
  have sameMax := @setFirstFree_maxPage disk page.pageId
  unfold Disk.afterPush
  rw [store_nextFree numbered (by omega), if_neg (Ne.symm notFirst),
    setFirstFree_nextFree_of here size small, if_pos rfl]

/-- Freeing a page reads page 1 and writes both. -/
theorem pagerFreelistPushPage_present {disk : Disk} {page : Page}
    {image : PageImage} (here : disk.page? 1 = some image)
    (numbered : page.pageId ≠ 0) (small : page.pageId < pageIdLimit) :
    pagerFreelistPushPage page disk =
      some ((.ok, freedPage page (disk.nextFree 1)),
        disk.afterPush page (disk.nextFree 1)) := by
  have isNumbered : (page.pageId != pageCreateNewPage) = true := by
    simpa [pageCreateNewPage] using numbered
  have head : (pagemetaRead ⟨1, image.metaBytes,
      image.pageBuffer⟩).nextFreePage = disk.nextFree 1 := by
    unfold Disk.nextFree
    rw [here]
    rfl
  unfold pagerFreelistPushPage
  rw [cAssert, isNumbered]
  simp only [if_true, pure_bind]
  rw [PagerM.bind_some (PagerM.get_apply disk),
    PagerM.bind_some (diskRead_present here _)]
  simp only [if_true, head]
  rw [PagerM.bind_some (diskWrite_setFirstFree here _)]
  simp only [if_true]
  rw [PagerM.bind_some (diskWrite_apply (by
    rw [pagemetaWrite_pageId]
    exact small))]
  rfl

section Push

variable {disk : Disk} {free : List Nat} {page : Page}
  (store : Store disk free) (numbered : page.pageId ≠ 0)
  (notFirst : page.pageId ≠ 1) (present : page.pageId ≤ disk.maxPage)

include store numbered present

theorem pagerFreelistPushPage_apply :
    pagerFreelistPushPage page disk =
      some ((.ok, freedPage page (free.headD 0)),
        disk.afterPush page (free.headD 0)) := by
  obtain ⟨image, here⟩ := store.page_one
  rw [← store.chain.head]
  exact pagerFreelistPushPage_present here numbered
    (Nat.lt_of_le_of_lt present store.few)

include notFirst

/-- Freeing a page that is in use keeps the allocator's invariant. -/
theorem Store.push (used : page.pageId ∉ free)
    (metaSize : page.metaBytes.length = pagemetaSize)
    (bufferSize : page.pageBuffer.length = disk.pageSize) :
    Store (disk.afterPush page (free.headD 0)) (page.pageId :: free) := by
  have sameMax := @setFirstFree_maxPage disk page.pageId
  have place : page.pageId ≤ (disk.setFirstFree page.pageId).maxPage + 1 := by
    omega
  have few := store.few
  unfold pageIdLimit at few
  have oldHead : free.headD 0 < 2 ^ 32 := by
    rw [← store.chain.head]
    exact nextFree_lt disk 1
  have next : ∀ other, (disk.afterPush page (free.headD 0)).nextFree other =
      if other = page.pageId then free.headD 0
      else if other = 1 then page.pageId else disk.nextFree other := by
    intro other
    unfold Disk.afterPush
    rw [store_nextFree numbered place,
      setFirstFree_nextFree store (by omega)]
    split
    · exact pagemetaWrite_nextFree metaSize _ oldHead
    · rfl
  have presentAfter : ∀ other, other ≠ 0 → other ≤ disk.maxPage →
      ((disk.afterPush page (free.headD 0)).page? other).isSome := by
    intro other otherNumbered inside
    refine page?_isSome_iff.mpr ⟨otherNumbered, ?_⟩
    rw [afterPush_maxPage present]
    exact inside
  refine ⟨?_, ?_, ?_, ?_, List.nodup_cons.mpr ⟨used, store.distinct⟩, ?_⟩
  · intro other image found
    unfold Disk.afterPush at found ⊢
    rw [store_page? numbered place] at found
    rw [store_pageSize, setFirstFree_pageSize]
    split at found
    · cases found
      exact ⟨pagemetaWrite_metaBytes_length metaSize _, bufferSize⟩
    · exact setFirstFree_sized store _ other image found
  · rw [afterPush_maxPage present]
    exact store.few
  · rw [afterPush_maxPage present]
    exact store.first
  · refine ⟨?_, presentAfter _ numbered present, ?_⟩
    · rw [next, if_neg (Ne.symm notFirst), if_pos rfl]
    · have oldChain := store.chain
      rw [oldChain.head] at oldChain
      rw [next, if_pos rfl]
      refine oldChain.congr ?_
      intro later member
      have inside := store.free_le later member
      refine ⟨presentAfter later inside.1 inside.2, ?_⟩
      have other : later ≠ page.pageId := fun same => used (same ▸ member)
      have notHead : later ≠ 1 := fun isFirst =>
        store.firstUsed (isFirst ▸ member)
      rw [next, if_neg other, if_neg notHead]
  · intro member
    rcases List.mem_cons.mp member with isFirst | old
    · exact notFirst isFirst.symm
    · exact store.firstUsed old

end Push

/-- Freeing a page by its id keeps its contents. -/
theorem pagerFreelistPush_apply {disk : Disk} {free : List Nat} {pageId : Nat}
    {image : PageImage} (store : Store disk free)
    (here : disk.page? pageId = some image) :
    pagerFreelistPush pageId disk =
      some (.ok, disk.afterPush ⟨pageId, image.metaBytes, image.pageBuffer⟩
        (free.headD 0)) := by
  obtain ⟨numbered, present⟩ := page?_isSome_iff.mp
    (Option.isSome_iff_exists.mpr ⟨image, here⟩)
  unfold pagerFreelistPush
  rw [PagerM.bind_some (PagerM.get_apply disk),
    PagerM.bind_some (diskRead_present here _)]
  simp only [if_true]
  rw [PagerM.bind_some
    (pagerFreelistPushPage_apply store numbered present)]
  rfl

end BtreeDb
