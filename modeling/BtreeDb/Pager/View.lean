import BtreeDb.Pager.FreeList
import BtreeDb.Pager.Refinement

/-!
# The pager of the source and the trees' disk

`diskOf` reads a pager as a `Disk`, and `Backed` says that a pager shows a given
disk.  The primitives and the calls built from them do on the pager what they
do on the disk, so what is proved about calls on a `Disk` holds of the cached
pager, as long as the pages start at offsets that an `int` holds.
-/

namespace BtreeDb

open Bytes

/-- The image of a page from its bytes in the file. -/
def imageOf (bytes : List UInt8) : PageImage where
  metaBytes := bytes.take pagemetaSize
  pageBuffer := bytes.drop pagemetaSize

/-- The pages of a file. -/
def diskOf (pager : FilePager) : Disk where
  pageSize := pager.diskPageSize - pagemetaSize
  pages := (List.range pager.maxPage).map fun index =>
    imageOf (slice pager.file (pager.diskPageSize * index)
      pager.diskPageSize)

theorem diskOf_maxPage (pager : FilePager) :
    (diskOf pager).maxPage = pager.maxPage := by
  unfold Disk.maxPage diskOf
  simp only [List.length_map, List.length_range]

/-- A page is on the disk when its place lies inside the file. -/
theorem diskOf_page? {pager : FilePager} (wellFormed : pager.WellFormed)
    {pageId : Nat} (notNew : pageId ≠ pageCreateNewPage) :
    (diskOf pager).page? pageId = (filePage pager pageId).map imageOf := by
  have positive : 0 < pager.diskPageSize :=
    Nat.lt_of_lt_of_le (by decide) wellFormed.metaFits
  have numbered : pageId ≠ 0 := notNew
  unfold Disk.page?
  rw [if_neg notNew]
  by_cases inside : pageId ≤ pager.maxPage
  · have fits : pager.diskPageSize * (pageId - 1) + pager.diskPageSize ≤
        pager.file.length := by
      rw [wellFormed.maxPage_eq] at inside
      have whole := Nat.mul_le_mul_left pager.diskPageSize inside
      have room := Nat.mul_div_le pager.file.length pager.diskPageSize
      rw [← Nat.mul_succ, show (pageId - 1).succ = pageId by omega]
      omega
    unfold filePage diskOf
    rw [if_pos fits]
    simp only [List.getElem?_map, Option.map_some]
    rw [List.getElem?_range (by omega)]
    rfl
  · have outside : ¬ pager.diskPageSize * (pageId - 1) + pager.diskPageSize ≤
        pager.file.length := by
      intro fits
      rw [← Nat.mul_succ, show (pageId - 1).succ = pageId by omega,
        Nat.mul_comm] at fits
      have bound := (Nat.le_div_iff_mul_le positive).mpr fits
      rw [← wellFormed.maxPage_eq] at bound
      exact inside bound
    unfold filePage diskOf
    rw [if_neg outside]
    simp only [List.getElem?_map]
    rw [List.getElem?_eq_none (by simp; omega)]
    rfl

/-! ## Writing -/

section Write

variable {pager : FilePager} {page : Page} (wellFormed : pager.WellFormed)
  (notNew : page.pageId ≠ pageCreateNewPage)
  (inRange : InRange pager.diskPageSize page.pageId)
  (sized : page.Sized pager.diskPageSize)
  (place : page.pageId ≤ pager.maxPage + 1)

include wellFormed notNew inRange sized place

/-- A write of a page of the disk, or of the page behind it, stores the page's
image. -/
theorem diskOf_write :
    diskOf (pagerInternalWrite pager page) =
      (diskOf pager).store page.pageId page.image := by
  have size := sized.diskBytes_length
  have numbered : page.pageId ≠ 0 := notNew
  have after := pagerInternalWrite_wellFormed notNew inRange size wellFormed
  have imageEq : imageOf page.diskBytes = page.image := by
    unfold imageOf Page.image Page.diskBytes
    rw [List.take_left' sized.metaBytes_length,
      List.drop_left' sized.metaBytes_length]
  have place' : page.pageId ≤ (diskOf pager).maxPage + 1 := by
    rw [diskOf_maxPage]
    exact place
  have sameLength : (diskOf (pagerInternalWrite pager page)).pages.length =
      ((diskOf pager).store page.pageId page.image).pages.length := by
    change (diskOf (pagerInternalWrite pager page)).maxPage =
      ((diskOf pager).store page.pageId page.image).maxPage
    rw [store_maxPage place', diskOf_maxPage, diskOf_maxPage]
    unfold pagerInternalWrite
    simp only
    split <;> split <;> omega
  have samePages : (diskOf (pagerInternalWrite pager page)).pages =
      ((diskOf pager).store page.pageId page.image).pages := by
    apply List.ext_getElem?
    intro index
    have isPage : index + 1 ≠ pageCreateNewPage := Nat.succ_ne_zero index
    have left : (diskOf (pagerInternalWrite pager page)).page? (index + 1) =
        (diskOf (pagerInternalWrite pager page)).pages[index]? := rfl
    have right : ((diskOf pager).store page.pageId page.image).page?
        (index + 1) =
        ((diskOf pager).store page.pageId page.image).pages[index]? := rfl
    rw [← left, ← right, store_page? numbered place',
      diskOf_page? after isPage]
    by_cases same : index + 1 = page.pageId
    · rw [if_pos same, same, filePage_write_same notNew inRange size,
        Option.map_some, imageEq]
    · rw [if_neg same, diskOf_page? wellFormed isPage]
      cases found : filePage pager (index + 1) with
      | some bytes =>
          rw [filePage_write_other notNew inRange size
            isPage same found]
      | none =>
          -- behind the end of the file before and, but for the new page, after
          have outside : (diskOf pager).page? (index + 1) = none := by
            rw [diskOf_page? wellFormed isPage, found]
            rfl
          have stored : ((diskOf pager).store page.pageId page.image).page?
              (index + 1) = none := by
            rw [store_page? numbered place', if_neg same]
            exact outside
          rw [right, List.getElem?_eq_none_iff, ← sameLength,
            ← List.getElem?_eq_none_iff, ← left,
            diskOf_page? after isPage] at stored
          rw [stored]
          rfl
  have sameSize : (diskOf (pagerInternalWrite pager page)).pageSize =
      ((diskOf pager).store page.pageId page.image).pageSize := rfl
  calc diskOf (pagerInternalWrite pager page)
      = ⟨(diskOf (pagerInternalWrite pager page)).pageSize,
          (diskOf (pagerInternalWrite pager page)).pages⟩ := rfl
    _ = (diskOf pager).store page.pageId page.image := by
        rw [sameSize, samePages]

end Write

/-! ## The primitives -/

variable {capacity : Nat}

section Coherent

variable {pager : Pager} (coherent : Coherent capacity pager)

include coherent

/-- A page inside the file is read. -/
theorem Coherent.cachedRead {pageId : Nat} {bytes : List UInt8}
    (notNew : pageId ≠ pageCreateNewPage)
    (inRange : InRange pager.diskPageSize pageId)
    (present : filePage pager.toFilePager pageId = some bytes) :
    ∃ after, pagerInternalCachedRead pageId
        (pageCreate pager.diskPageSize) pager =
        some ((.ok, ⟨pageId, bytes.take pagemetaSize,
          bytes.drop pagemetaSize⟩), after) ∧
      Coherent capacity after ∧ after.toFilePager = pager.toFilePager := by
  have agrees := agrees_cachedRead coherent inRange
    (pageCreate_sized coherent.wellFormed.metaFits)
  unfold Agrees at agrees
  simp only [ PageIO.cachedRead] at agrees
  rw [fileRead_eq notNew inRange, present] at agrees
  cases outcome : pagerInternalCachedRead pageId
      (pageCreate pager.diskPageSize) pager with
  | none =>
      rw [outcome] at agrees
      exact agrees.elim
  | some result =>
      obtain ⟨value, after⟩ := result
      rw [outcome] at agrees
      obtain ⟨rfl, sameFile, afterCoherent, _⟩ := agrees
      exact ⟨after, rfl, afterCoherent, sameFile⟩

/-- A page is written to the file. -/
theorem Coherent.cachedWrite {page : Page}
    (notNew : page.pageId ≠ pageCreateNewPage)
    (inRange : InRange pager.diskPageSize page.pageId)
    (sized : page.Sized pager.diskPageSize) :
    ∃ after, pagerInternalCachedWrite page pager = some (.ok, after) ∧
      Coherent capacity after ∧
      after.toFilePager = pagerInternalWrite pager.toFilePager page := by
  have agrees := agrees_cachedWrite coherent notNew inRange sized
  unfold Agrees at agrees
  simp only [ PageIO.cachedWrite] at agrees
  cases outcome : pagerInternalCachedWrite page pager with
  | none =>
      rw [outcome] at agrees
      exact agrees.elim
  | some result =>
      obtain ⟨value, after⟩ := result
      rw [outcome] at agrees
      obtain ⟨_, _, afterCoherent, rfl, fileEq⟩ := agrees
      exact ⟨after, rfl, afterCoherent, fileEq⟩

end Coherent

/-- The pager shows the disk. -/
structure Backed (capacity : Nat) (pager : Pager) (disk : Disk) : Prop where
  coherent : Coherent capacity pager
  view : diskOf pager.toFilePager = disk

/-- The free pages start at offsets that an `int` holds. -/
def FreeInRange (disk : Disk) (free : List Nat) : Prop :=
  ∀ pageId ∈ free, InRange (disk.pageSize + pagemetaSize) pageId

section Primitives

variable {pager : Pager} {disk : Disk} (backed : Backed capacity pager disk)

include backed

theorem Backed.diskPageSize_eq :
    pager.diskPageSize = disk.pageSize + pagemetaSize := by
  have metaFits := backed.coherent.wellFormed.metaFits
  rw [← backed.view]
  unfold diskOf
  simp only
  omega

theorem Backed.sameSize : PageIO.diskPageSize pager = PageIO.diskPageSize disk :=
  backed.diskPageSize_eq

theorem Backed.sameMax : PageIO.maxPage pager = disk.maxPage := by
  rw [← backed.view, diskOf_maxPage]
  rfl

theorem Backed.read {pageId : Nat} {image : PageImage}
    (reach : InRange (disk.pageSize + pagemetaSize) pageId)
    (present : disk.page? pageId = some image) :
    ∃ after, PageIO.cachedRead pageId (pageCreate ( PageIO.diskPageSize pager))
        pager =
        some ((.ok, ⟨pageId, image.metaBytes, image.pageBuffer⟩), after) ∧
      Backed capacity after disk := by
  have numbered := (page?_isSome_iff.mp
    (Option.isSome_iff_exists.mpr ⟨image, present⟩)).1
  have notNew : pageId ≠ pageCreateNewPage := numbered
  have wellFormed := backed.coherent.wellFormed
  have inRange : InRange pager.diskPageSize pageId := by
    rw [backed.diskPageSize_eq]
    exact reach
  rw [← backed.view, diskOf_page? wellFormed notNew] at present
  obtain ⟨bytes, found, rfl⟩ := Option.map_eq_some_iff.mp present
  obtain ⟨after, readEq, coherent, sameFile⟩ :=
    backed.coherent.cachedRead notNew inRange found
  refine ⟨after, readEq, coherent, ?_⟩
  rw [sameFile]
  exact backed.view

theorem Backed.write (page : Page)
    (reach : InRange (disk.pageSize + pagemetaSize) page.pageId)
    (numbered : page.pageId ≠ 0) (place : page.pageId ≤ disk.maxPage + 1)
    (metaSize : page.metaBytes.length = pagemetaSize)
    (bufferSize : page.pageBuffer.length = disk.pageSize) :
    ∃ after, PageIO.cachedWrite page pager = some (.ok, after) ∧
      Backed capacity after (disk.store page.pageId page.image) := by
  have notNew : page.pageId ≠ pageCreateNewPage := numbered
  have wellFormed := backed.coherent.wellFormed
  have inRange : InRange pager.diskPageSize page.pageId := by
    rw [backed.diskPageSize_eq]
    exact reach
  have sized : page.Sized pager.diskPageSize := by
    refine ⟨metaSize, ?_⟩
    rw [backed.diskPageSize_eq, Page.diskBytes, List.length_append, metaSize,
      bufferSize, Nat.add_comm]
  have placeFile : page.pageId ≤ pager.maxPage + 1 := by
    have sameMax := backed.sameMax
    simp only [ PageIO.maxPage] at sameMax
    omega
  obtain ⟨after, writeEq, coherent, fileEq⟩ :=
    backed.coherent.cachedWrite notNew inRange sized
  refine ⟨after, writeEq, coherent, ?_⟩
  rw [fileEq, diskOf_write wellFormed notNew inRange sized placeFile,
    backed.view]

end Primitives

/-! ## The calls -/

section Calls

variable {pager : Pager} {disk : Disk} {free : List Nat}
  (backed : Backed capacity pager disk) (store : Store disk free)

include backed store

theorem Backed.setFirstFree {image : PageImage} (pageId : Nat)
    (present : disk.page? 1 = some image) :
    ∃ after, PageIO.cachedWrite
        (pagemetaWrite ⟨1, image.metaBytes, image.pageBuffer⟩
          { pagemetaRead ⟨1, image.metaBytes, image.pageBuffer⟩ with
            nextFreePage := pageId }) pager = some (.ok, after) ∧
      Backed capacity after (disk.setFirstFree pageId) := by
  have sized := store.sized 1 image present
  obtain ⟨after, writeEq, afterBacked⟩ := backed.write
    (pagemetaWrite ⟨1, image.metaBytes, image.pageBuffer⟩
      { pagemetaRead ⟨1, image.metaBytes, image.pageBuffer⟩ with
        nextFreePage := pageId })
    (inRange_one _) Nat.one_ne_zero (by simp)
    (pagemetaWrite_metaBytes_length sized.1 _) sized.2
  refine ⟨after, writeEq, ?_⟩
  unfold Disk.setFirstFree
  rw [present]
  exact afterBacked

theorem Backed.freelistPop_empty (isEmpty : free = []) :
    ∃ after, pagerFreelistPop pager = some ((.errNoFreePage, 0), after) ∧
      Backed capacity after disk := by
  subst isEmpty
  obtain ⟨image, present⟩ := store.page_one
  have none : disk.nextFree 1 = 0 := store.chain
  have noNext : (pagemetaRead
      ⟨1, image.metaBytes, image.pageBuffer⟩).nextFreePage = 0 := by
    unfold Disk.nextFree at none
    rw [present] at none
    exact none
  obtain ⟨after, readEq, afterBacked⟩ := backed.read (inRange_one _) present
  refine ⟨after, ?_, afterBacked⟩
  unfold pagerFreelistPop
  rw [PagerM.bind_some (PagerM.get_apply pager), PagerM.bind_some readEq]
  simp only [if_true, noNext]
  rfl

/-- A page is freed as on the disk. -/
theorem Backed.freelistPushPage (page : Page) (numbered : page.pageId ≠ 0)
    (present : page.pageId ≤ disk.maxPage)
    (reach : InRange (disk.pageSize + pagemetaSize) page.pageId)
    (metaSize : page.metaBytes.length = pagemetaSize)
    (bufferSize : page.pageBuffer.length = disk.pageSize) :
    ∃ after, pagerFreelistPushPage page pager =
        some ((.ok, freedPage page (free.headD 0)), after) ∧
      Backed capacity after (disk.afterPush page (free.headD 0)) := by
  obtain ⟨image, here⟩ := store.page_one
  have isNumbered : (page.pageId != pageCreateNewPage) = true := by
    simpa [pageCreateNewPage] using numbered
  have head : (pagemetaRead ⟨1, image.metaBytes,
      image.pageBuffer⟩).nextFreePage = free.headD 0 := by
    have start := store.chain.head
    unfold Disk.nextFree at start
    rw [here] at start
    exact start
  have sameMax := @setFirstFree_maxPage disk page.pageId
  obtain ⟨middle, readEq, middleBacked⟩ := backed.read (inRange_one _) here
  obtain ⟨later, laterEq, laterBacked⟩ :=
    middleBacked.setFirstFree store page.pageId here
  obtain ⟨after, writeEq, afterBacked⟩ :=
    laterBacked.write (freedPage page (free.headD 0))
      (by rw [setFirstFree_pageSize]; exact reach) numbered
      (Nat.le_succ_of_le (by rw [sameMax]; exact present))
      (pagemetaWrite_metaBytes_length metaSize _)
      (by rw [setFirstFree_pageSize]; exact bufferSize)
  refine ⟨after, ?_, afterBacked⟩
  unfold freedPage at writeEq ⊢
  unfold pagerFreelistPushPage
  rw [cAssert, isNumbered]
  simp only [if_true, pure_bind]
  rw [PagerM.bind_some (PagerM.get_apply pager), PagerM.bind_some readEq]
  simp only [if_true, head]
  rw [PagerM.bind_some laterEq]
  simp only [if_true]
  rw [PagerM.bind_some writeEq]
  rfl

theorem Backed.freelistPush {pageId : Nat} {image : PageImage}
    (reach : InRange (disk.pageSize + pagemetaSize) pageId)
    (here : disk.page? pageId = some image) :
    ∃ after, pagerFreelistPush pageId pager = some (.ok, after) ∧
      Backed capacity after
        (disk.afterPush ⟨pageId, image.metaBytes, image.pageBuffer⟩
          (free.headD 0)) := by
  obtain ⟨numbered, present⟩ := page?_isSome_iff.mp
    (Option.isSome_iff_exists.mpr ⟨image, here⟩)
  have sized := store.sized pageId image here
  obtain ⟨middle, readEq, middleBacked⟩ := backed.read reach here
  obtain ⟨after, pushEq, afterBacked⟩ :=
    middleBacked.freelistPushPage store
      ⟨pageId, image.metaBytes, image.pageBuffer⟩ numbered present reach
      sized.1 sized.2
  refine ⟨after, ?_, afterBacked⟩
  unfold pagerFreelistPush
  rw [PagerM.bind_some (PagerM.get_apply pager), PagerM.bind_some readEq]
  simp only [if_true]
  rw [PagerM.bind_some pushEq]
  rfl

variable (freeInRange : FreeInRange disk free)

include freeInRange

theorem Backed.freelistPop_cons {first : Nat} {rest : List Nat}
    (isCons : free = first :: rest) :
    ∃ after, pagerFreelistPop pager = some ((.ok, first), after) ∧
      Backed capacity after (disk.setFirstFree (rest.headD 0)) := by
  subst isCons
  obtain ⟨image, present⟩ := store.page_one
  obtain ⟨start, firstPresent, chain⟩ := store.chain
  obtain ⟨firstImage, firstHere⟩ := Option.isSome_iff_exists.mp firstPresent
  have numbered := (page?_isSome_iff.mp firstPresent).1
  have next : (pagemetaRead
      ⟨1, image.metaBytes, image.pageBuffer⟩).nextFreePage = first := by
    unfold Disk.nextFree at start
    rw [present] at start
    exact start
  have afterNext : (pagemetaRead ⟨first, firstImage.metaBytes,
      firstImage.pageBuffer⟩).nextFreePage = rest.headD 0 := by
    have head := chain.head
    unfold Disk.nextFree at head
    rw [firstHere] at head
    exact head
  obtain ⟨middle, readEq, middleBacked⟩ := backed.read (inRange_one _) present
  obtain ⟨later, laterEq, laterBacked⟩ :=
    middleBacked.read (freeInRange first List.mem_cons_self) firstHere
  obtain ⟨after, writeEq, afterBacked⟩ :=
    laterBacked.setFirstFree store (rest.headD 0) present
  rw [middleBacked.sameSize, ← backed.sameSize] at laterEq
  refine ⟨after, ?_, afterBacked⟩
  unfold pagerFreelistPop
  rw [PagerM.bind_some (PagerM.get_apply pager), PagerM.bind_some readEq]
  simp only [if_true, next, if_neg numbered]
  rw [PagerM.bind_some laterEq]
  simp only [if_true, afterNext]
  rw [PagerM.bind_some writeEq]
  rfl

theorem Backed.diskPage (page : Page) :
    ∃ after, pagerDiskPage page pager =
        some ((.ok, writeNewPageMeta
          { page with pageId := nextNewPage disk free }
          (nextNewPage disk free)), after) ∧
      Backed capacity after (disk.afterChoice free) := by
  have first := store.first
  unfold pagerDiskPage
  rw [PagerM.bind_some (PagerM.get_apply pager), backed.sameMax]
  simp only [if_neg first]
  cases freeEq : free with
  | nil =>
      obtain ⟨after, popEq, afterBacked⟩ :=
        backed.freelistPop_empty store freeEq
      refine ⟨after, ?_, afterBacked⟩
      rw [PagerM.bind_some popEq]
      simp only [reduceCtorEq, if_false, if_true]
      rw [PagerM.bind_some (PagerM.get_apply after), afterBacked.sameMax]
      rfl
  | cons head rest =>
      obtain ⟨after, popEq, afterBacked⟩ :=
        backed.freelistPop_cons store freeInRange freeEq
      refine ⟨after, ?_, afterBacked⟩
      rw [PagerM.bind_some popEq]
      rfl

/-- A new page is written as on the disk. -/
theorem Backed.writePage_new {page : Page} (isNew : page.pageId = 0)
    (metaSize : page.metaBytes.length = pagemetaSize)
    (bufferSize : page.pageBuffer.length = disk.pageSize)
    (reach : InRange (disk.pageSize + pagemetaSize)
      (nextNewPage disk free)) :
    ∃ after, pagerWritePage page pager =
        some ((.ok, placedPage page (nextNewPage disk free)), after) ∧
      Backed capacity after
        ((disk.afterChoice free).store (nextNewPage disk free)
          (placedPage page (nextNewPage disk free)).image) := by
  have isNew' : page.pageId = pageCreateNewPage := isNew
  obtain ⟨numbered, _, place⟩ := nextNewPage_bounds store
  have sameMax := afterChoice_maxPage store
  have sameSize := afterChoice_pageSize store
  rw [← sameMax] at place
  obtain ⟨middle, placeEq, middleBacked⟩ :=
    backed.diskPage store freeInRange page
  have placedMeta : (placedPage page (nextNewPage disk free)).metaBytes.length =
      pagemetaSize :=
    setInUse_metaBytes_length (pagemetaWrite_metaBytes_length metaSize _)
  obtain ⟨after, writeEq, afterBacked⟩ :=
    middleBacked.write (placedPage page (nextNewPage disk free))
      (by rw [sameSize]; exact reach) numbered place placedMeta
      (by rw [sameSize]; exact bufferSize)
  refine ⟨after, ?_, afterBacked⟩
  unfold placedPage at writeEq ⊢
  unfold pagerWritePage pagerPlacePage
  rw [if_pos isNew', PagerM.bind_some placeEq]
  simp only [if_true]
  rw [PagerM.bind_some writeEq]
  rfl

end Calls

end BtreeDb
