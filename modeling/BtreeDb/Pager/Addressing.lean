import BtreeDb.Pager.View

/-!
# Page addresses under the C library's files

`CStdPager` is the pager over the operations of `pager_ops_cstd.c`, whose
write asserts that its offset is below `0x10000`.  New pages on an empty file
get the ids 1, 2, … and lie one behind the other, and the run ends in the
assertion exactly when the last of them starts at `0x10000` or behind.
-/

namespace BtreeDb

open Bytes

/-- The bound that `co_write` asserts for its offset. -/
def coWriteLimit : Int := 0x10000

/-- The pager over `CStdOps`. -/
def CStdPager : Type := Pager

/-- `pager_internal_cached_write` over `co_write`, whose assertion stands before
the write. -/
def cstdCachedWrite (page : Page) : PagerM CStdPager PagerE :=
  fun (pager : Pager) =>
    if pageOffset pager.diskPageSize page.pageId < coWriteLimit then
      pagerInternalCachedWrite page pager
    else
      none

instance : PageIO CStdPager where
  diskPageSize (pager : Pager) := pager.diskPageSize
  maxPage (pager : Pager) := pager.maxPage
  cachedRead := pagerInternalCachedRead
  cachedWrite := cstdCachedWrite

def cstdOpen (diskPageSize capacity : Nat) (file : List UInt8) : CStdPager :=
  pagerOpen diskPageSize capacity file

/-! ## Consecutive pages -/

/-- New pages as they are written. -/
def placedPages (pages : List Page) : List Page :=
  pages.mapIdx fun index page => placedPage page (index + 1)

theorem placedPages_append (pages : List Page) (page : Page) :
    placedPages (pages ++ [page]) =
      placedPages pages ++ [placedPage page (pages.length + 1)] := by
  unfold placedPages
  rw [List.mapIdx_concat]

theorem placedPages_getElem? (pages : List Page) (index : Nat) :
    (placedPages pages)[index]? =
      pages[index]?.map fun page => placedPage page (index + 1) := by
  unfold placedPages
  rw [List.getElem?_mapIdx]

theorem placedPage_sized {diskPageSize : Nat} {page : Page}
    (sized : page.Sized diskPageSize) (pageId : Nat) :
    (placedPage page pageId).Sized diskPageSize :=
  ((sized.renumber pageId).pagemetaWrite _).pagemetaWrite _

/-- A chunk of a list of chunks of one size. -/
theorem slice_flatMap {α : Type} {chunk : α → List UInt8} {size : Nat} :
    ∀ {items : List α} {index : Nat} {item : α},
      (∀ other ∈ items, (chunk other).length = size) →
      items[index]? = some item →
      slice (items.flatMap chunk) (size * index) size = chunk item
  | first :: rest, 0, item, sizes, here => by
      obtain rfl := Option.some.inj here
      have size := sizes first List.mem_cons_self
      rw [List.flatMap_cons, Nat.mul_zero, slice_append_left (by omega),
        slice_all (by omega)]
  | first :: rest, index + 1, item, sizes, here => by
      have firstSize := sizes first List.mem_cons_self
      rw [List.flatMap_cons, Nat.mul_succ, Nat.add_comm]
      have shifted := slice_append_drop (chunk first) (rest.flatMap chunk)
        (size * index) size
      rw [firstSize] at shifted
      rw [shifted]
      exact slice_flatMap
        (fun other member => sizes other (List.mem_cons_of_mem _ member)) here

theorem length_flatMap_of_size {α : Type} {chunk : α → List UInt8}
    {size : Nat} {items : List α}
    (sizes : ∀ item ∈ items, (chunk item).length = size) :
    (items.flatMap chunk).length = size * items.length := by
  induction items with
  | nil => rfl
  | cons first rest inductionHypothesis =>
      have firstSize := sizes first List.mem_cons_self
      have restSize := inductionHypothesis fun item member =>
        sizes item (List.mem_cons_of_mem _ member)
      rw [List.flatMap_cons, List.length_append, restSize, firstSize,
        List.length_cons, Nat.mul_succ, Nat.add_comm]

variable {diskPageSize capacity : Nat}

/-- A coherent pager whose file consists of the given pages. -/
structure Filled (diskPageSize capacity : Nat) (pages : List Page)
    (pager : Pager) : Prop where
  coherent : Coherent capacity pager
  sameSize : pager.diskPageSize = diskPageSize
  sized : ∀ page ∈ pages, page.Sized diskPageSize
  file_eq : pager.file = (placedPages pages).flatMap Page.diskBytes

section Filled

variable {pages : List Page} {pager : Pager}
  (filled : Filled diskPageSize capacity pages pager)

include filled

theorem Filled.placed_size :
    ∀ page ∈ placedPages pages, page.diskBytes.length = diskPageSize := by
  intro page member
  obtain ⟨index, here⟩ := List.mem_iff_getElem?.mp member
  rw [placedPages_getElem?] at here
  obtain ⟨old, oldHere, rfl⟩ := Option.map_eq_some_iff.mp here
  exact (placedPage_sized
    (filled.sized old (List.mem_of_getElem? oldHere)) _).diskBytes_length

theorem Filled.file_length :
    pager.file.length = diskPageSize * pages.length := by
  rw [filled.file_eq, length_flatMap_of_size filled.placed_size]
  unfold placedPages
  rw [List.length_mapIdx]

theorem Filled.positive : 0 < diskPageSize := by
  rw [← filled.sameSize]
  exact Nat.lt_of_lt_of_le (by decide) filled.coherent.wellFormed.metaFits

theorem Filled.maxPage_eq : pager.maxPage = pages.length := by
  rw [filled.coherent.wellFormed.maxPage_eq, filled.file_length,
    filled.sameSize, Nat.mul_div_cancel_left _ filled.positive]

theorem Filled.slice_eq {index : Nat} {page : Page}
    (here : pages[index]? = some page) :
    slice pager.file (diskPageSize * index) diskPageSize =
      (placedPage page (index + 1)).diskBytes := by
  rw [filled.file_eq]
  apply slice_flatMap filled.placed_size
  rw [placedPages_getElem?, here]
  rfl

theorem Filled.filePage_eq {index : Nat} {page : Page}
    (here : pages[index]? = some page) :
    filePage pager.toFilePager (index + 1) =
      some (placedPage page (index + 1)).diskBytes := by
  obtain ⟨bound, -⟩ := List.getElem?_eq_some_iff.mp here
  have inside : diskPageSize * index + diskPageSize ≤
      diskPageSize * pages.length := by
    rw [← Nat.mul_succ]
    exact Nat.mul_le_mul_left _ bound
  unfold filePage
  rw [Nat.add_sub_cancel, filled.sameSize, filled.file_length, if_pos inside,
    filled.slice_eq here]

/-- A page that was created is read back. -/
theorem Filled.readBack {index : Nat} {page : Page}
    (here : pages[index]? = some page)
    (inRange : InRange diskPageSize (index + 1)) :
    ∃ after, pagerInternalCachedRead (index + 1) (pageCreate diskPageSize)
        pager = some ((.ok, placedPage page (index + 1)), after) ∧
      Filled diskPageSize capacity pages after := by
  have size := filled.sameSize
  obtain ⟨after, readEq, coherent, sameFile⟩ :=
    filled.coherent.cachedRead (Nat.succ_ne_zero index)
      (by rw [size]; exact inRange) (filled.filePage_eq here)
  have metaSize := (placedPage_sized
    (filled.sized page (List.mem_of_getElem? here))
    (index + 1)).metaBytes_length
  refine ⟨after, ?_, coherent, ?_, filled.sized, ?_⟩
  · rw [size] at readEq
    rw [readEq, Page.diskBytes, List.take_left' metaSize,
      List.drop_left' metaSize]
    rfl
  · rw [← size]
    exact congrArg FilePager.diskPageSize sameFile
  · rw [← filled.file_eq]
    exact congrArg FilePager.file sameFile

/-- The first page names no free page. -/
theorem Filled.noFree {page : Page} (here : pages[0]? = some page) :
    (pagemetaRead (placedPage page 1)).nextFreePage = 0 := by
  have metaSize := (filled.sized page (List.mem_of_getElem? here)).metaBytes_length
  have renumbered : ({ page with pageId := 1 } : Page).metaBytes.length =
      pagemetaSize := metaSize
  unfold placedPage writeNewPageMeta
  rw [setInUse_nextFreePage (pagemetaWrite_metaBytes_length renumbered _),
    pagemetaRead_pagemetaWrite renumbered]
  rfl

end Filled

/-! ## One new page -/

section Step

variable {pages : List Page} {pager : CStdPager} {page : Page}
  (filled : Filled diskPageSize capacity pages pager)
  (isNew : page.pageId = pageCreateNewPage)

include filled isNew

theorem cstd_placePage :
    ∃ after : CStdPager, pagerPlacePage page pager =
        some ((.ok, writeNewPageMeta
          { page with pageId := pages.length + 1 } (pages.length + 1)),
          after) ∧
      Filled diskPageSize capacity pages after := by
  unfold pagerPlacePage pagerDiskPage
  have maxPageEq : PageIO.maxPage pager = pages.length := filled.maxPage_eq
  rw [if_pos isNew, PagerM.bind_some (PagerM.get_apply pager), maxPageEq]
  cases pages with
  | nil => exact ⟨pager, rfl, filled⟩
  | cons first rest =>
      have readBack : ∃ after : CStdPager,
          PageIO.cachedRead 1 (pageCreate diskPageSize) pager =
            some ((.ok, placedPage first 1), after) ∧
          Filled diskPageSize capacity (first :: rest) after :=
        filled.readBack rfl (inRange_one _)
      obtain ⟨after, readEq, afterFilled⟩ := readBack
      refine ⟨after, ?_, afterFilled⟩
      have popEq : pagerFreelistPop pager =
          some ((.errNoFreePage, 0), after) := by
        have sizeEq : PageIO.diskPageSize pager = diskPageSize :=
          filled.sameSize
        unfold pagerFreelistPop
        rw [PagerM.bind_some (PagerM.get_apply pager), sizeEq,
          PagerM.bind_some readEq]
        simp only [if_true, filled.noFree rfl]
        rfl
      have afterMax : PageIO.maxPage after = (first :: rest).length :=
        afterFilled.maxPage_eq
      rw [if_neg (by simp), PagerM.bind_some popEq]
      simp only [reduceCtorEq, if_false, if_true]
      rw [PagerM.bind_some (PagerM.get_apply after), afterMax]
      rfl

omit isNew in
/-- The file after the next page behind it. -/
theorem Filled.write {after : CStdPager} (sized : page.Sized diskPageSize)
    (reach : diskPageSize * pages.length < 2 ^ 31)
    (coherent : Coherent capacity after)
    (fileEq : after.toFilePager = pagerInternalWrite pager.toFilePager
      (placedPage page (pages.length + 1))) :
    Filled diskPageSize capacity (pages ++ [page]) after := by
  have length := filled.file_length
  have sameSize := filled.sameSize
  refine ⟨coherent, ?_, ?_, ?_⟩
  · exact (congrArg FilePager.diskPageSize fileEq).trans sameSize
  · intro other member
    rcases List.mem_append.mp member with old | new
    · exact filled.sized other old
    · rw [List.mem_singleton.mp new]
      exact sized
  · have written := congrArg FilePager.file fileEq
    rw [pagerInternalWrite_file (Nat.succ_ne_zero _)
      (by rw [sameSize]; exact reach)] at written
    have place : pager.diskPageSize *
        ((placedPage page (pages.length + 1)).pageId - 1) =
        pager.file.length := by
      rw [sameSize, length]
      rfl
    rw [place, Nat.sub_self, List.replicate_zero, List.append_nil] at written
    rw [written, placedPages_append, List.flatMap_append, ← filled.file_eq]
    unfold splice
    rw [List.take_length, List.drop_eq_nil_of_le (by omega), List.append_nil,
      List.flatMap_singleton]

omit isNew in
theorem cstd_pageOffset (reach : diskPageSize * pages.length < 2 ^ 31) :
    pageOffset pager.diskPageSize (pages.length + 1) =
      ((diskPageSize * pages.length : Nat) : Int) := by
  rw [filled.sameSize, pageOffset_of_inRange (Nat.succ_ne_zero _) reach]
  rfl

/-- A new page is written behind the others, unless it starts where `co_write`
takes no page. -/
theorem cstd_writePage (sized : page.Sized diskPageSize)
    (reach : diskPageSize * pages.length < 2 ^ 31)
    (below : diskPageSize * pages.length < 0x10000) :
    ∃ after : CStdPager, pagerWritePage page pager =
        some ((.ok, placedPage page (pages.length + 1)), after) ∧
      Filled diskPageSize capacity (pages ++ [page]) after := by
  obtain ⟨middle, placeEq, middleFilled⟩ := cstd_placePage filled isNew
  have offset := cstd_pageOffset middleFilled reach
  have placedSized := placedPage_sized sized (pages.length + 1)
  have write : ∃ after : CStdPager,
      pagerInternalCachedWrite (placedPage page (pages.length + 1)) middle =
        some (.ok, after) ∧ Coherent capacity after ∧
      after.toFilePager = pagerInternalWrite middle.toFilePager
        (placedPage page (pages.length + 1)) :=
    middleFilled.coherent.cachedWrite (Nat.succ_ne_zero _)
      (by rw [middleFilled.sameSize]; exact reach)
      (by rw [middleFilled.sameSize]; exact placedSized)
  obtain ⟨after, writeEq, coherent, fileEq⟩ := write
  refine ⟨after, ?_, middleFilled.write sized reach coherent fileEq⟩
  have cachedEq : PageIO.cachedWrite (placedPage page (pages.length + 1))
      middle = some (.ok, after) := by
    have small : pageOffset middle.diskPageSize (pages.length + 1) <
        coWriteLimit := by
      rw [offset]
      unfold coWriteLimit
      omega
    exact (if_pos small).trans writeEq
  unfold pagerWritePage
  rw [PagerM.bind_some placeEq]
  simp only [if_true]
  rw [← placedPage, PagerM.bind_some cachedEq]
  rfl

theorem cstd_writePage_aborts (reach : diskPageSize * pages.length < 2 ^ 31)
    (behind : 0x10000 ≤ diskPageSize * pages.length) :
    pagerWritePage page pager = none := by
  obtain ⟨middle, placeEq, middleFilled⟩ := cstd_placePage filled isNew
  have offset := cstd_pageOffset middleFilled reach
  have cachedEq : PageIO.cachedWrite (placedPage page (pages.length + 1))
      middle = none := by
    have large : ¬ pageOffset middle.diskPageSize (pages.length + 1) <
        coWriteLimit := by
      rw [offset]
      unfold coWriteLimit
      omega
    exact if_neg large
  unfold pagerWritePage
  rw [PagerM.bind_some placeEq]
  simp only [if_true]
  rw [← placedPage]
  simp only [Bind.bind, StateT.bind, cachedEq]
  rfl

end Step

/-! ## Runs of new pages -/

/-- A page that asks for an id. -/
def NewPage (diskPageSize : Nat) (page : Page) : Prop :=
  page.pageId = pageCreateNewPage ∧ page.Sized diskPageSize

/-- What a run of new pages gives back. -/
def newPageOuts (start : Nat) (pages : List Page) : List PagerOut :=
  pages.mapIdx fun index page =>
    ⟨.ok, some (placedPage page (start + index + 1)), none⟩

theorem newPageOuts_cons (start : Nat) (page : Page) (pages : List Page) :
    newPageOuts start (page :: pages) =
      ⟨.ok, some (placedPage page (start + 1)), none⟩ ::
        newPageOuts (start + 1) pages := by
  unfold newPageOuts
  rw [List.mapIdx_cons]
  refine congrArg (List.cons _) (List.ext_getElem? fun index => ?_)
  rw [List.getElem?_mapIdx, List.getElem?_mapIdx,
    show start + (index + 1) + 1 = start + 1 + index + 1 by omega]

theorem cstd_writePages {later : List Page} :
    ∀ {pages : List Page} {pager : CStdPager},
      Filled diskPageSize capacity pages pager →
      (∀ page ∈ later, NewPage diskPageSize page) →
      diskPageSize * (pages.length + later.length) < 2 ^ 31 →
      later = [] ∨
        diskPageSize * (pages.length + later.length - 1) < 0x10000 →
      ∃ after : CStdPager, runPagerOps (later.map PagerOp.write) pager =
          some (newPageOuts pages.length later, after) ∧
        Filled diskPageSize capacity (pages ++ later) after := by
  induction later with
  | nil =>
      intro pages pager filled _ _ _
      rw [List.append_nil]
      exact ⟨pager, rfl, filled⟩
  | cons page later inductionHypothesis =>
      intro pages pager filled new reach below
      have here := new page List.mem_cons_self
      have lengthEq : (pages ++ [page]).length + later.length =
          pages.length + (page :: later).length := by
        simp only [List.length_append, List.length_cons, List.length_nil]
        omega
      have first : diskPageSize * pages.length ≤
          diskPageSize * (pages.length + (page :: later).length - 1) :=
        Nat.mul_le_mul_left _ (by simp only [List.length_cons]; omega)
      have last : diskPageSize *
          (pages.length + (page :: later).length - 1) < 0x10000 := by
        rcases below with empty | last
        · cases empty
        · exact last
      obtain ⟨middle, writeEq, middleFilled⟩ := cstd_writePage filled here.1
        here.2 (by omega) (by omega)
      obtain ⟨after, runEq, afterFilled⟩ := inductionHypothesis middleFilled
        (fun other member => new other (List.mem_cons_of_mem _ member))
        (by rw [lengthEq]; exact reach) (Or.inr (by rw [lengthEq]; exact last))
      refine ⟨after, ?_, ?_⟩
      · have opEq : runPagerOp (.write page) pager =
            some (⟨.ok, some (placedPage page (pages.length + 1)), none⟩,
              middle) := by
          simp only [runPagerOp]
          rw [PagerM.bind_some writeEq]
          rfl
        rw [List.map_cons, runPagerOps, PagerM.bind_some opEq,
          PagerM.bind_some runEq, newPageOuts_cons, List.length_append]
        rfl
      · rw [List.append_assoc] at afterFilled
        exact afterFilled

theorem cstd_writePages_aborts {later : List Page} :
    ∀ {pages : List Page} {pager : CStdPager},
      Filled diskPageSize capacity pages pager →
      (∀ page ∈ later, NewPage diskPageSize page) →
      diskPageSize * (pages.length + later.length) < 2 ^ 31 →
      later ≠ [] →
      0x10000 ≤ diskPageSize * (pages.length + later.length - 1) →
      runPagerOps (later.map PagerOp.write) pager = none := by
  induction later with
  | nil =>
      intro pages pager _ _ _ notEmpty _
      exact absurd rfl notEmpty
  | cons page later inductionHypothesis =>
      intro pages pager filled new reach _ behind
      have here := new page List.mem_cons_self
      have lengthEq : (pages ++ [page]).length + later.length =
          pages.length + (page :: later).length := by
        simp only [List.length_append, List.length_cons, List.length_nil]
        omega
      have first : diskPageSize * pages.length ≤
          diskPageSize * (pages.length + (page :: later).length) :=
        Nat.mul_le_mul_left _ (by omega)
      rw [List.map_cons, runPagerOps]
      by_cases stops : 0x10000 ≤ diskPageSize * pages.length
      · have abortEq := cstd_writePage_aborts filled here.1 (by omega) stops
        have opEq : runPagerOp (.write page) pager = none := by
          simp only [runPagerOp, Bind.bind, StateT.bind, abortEq]
          rfl
        simp only [Bind.bind, StateT.bind, opEq]
        rfl
      · obtain ⟨middle, writeEq, middleFilled⟩ := cstd_writePage filled here.1
          here.2 (by omega) (by omega)
        have more : later ≠ [] := by
          rintro rfl
          exact stops behind
        have restEq := inductionHypothesis middleFilled
          (fun other member => new other (List.mem_cons_of_mem _ member))
          (by rw [lengthEq]; exact reach) more (by rw [lengthEq]; exact behind)
        have opEq : runPagerOp (.write page) pager =
            some (⟨.ok, some (placedPage page (pages.length + 1)), none⟩,
              middle) := by
          simp only [runPagerOp]
          rw [PagerM.bind_some writeEq]
          rfl
        rw [PagerM.bind_some opEq]
        simp only [Bind.bind, StateT.bind, restEq]
        rfl

/-- What creating new pages on an empty file has to give: the ids 1, 2, …, a
place of its own for each page, at an offset computed without overflow, with
the page's bytes in it, and the page back when it is read. -/
structure Addressed (diskPageSize : Nat) (pages : List Page)
    (outs : List PagerOut) (after : CStdPager) : Prop where
  ids : outs.map (fun out => (out.result, out.page.map Page.pageId)) =
    (List.range pages.length).map fun index => (.ok, some (index + 1))
  offsets : ∀ pageId, pageId ≠ 0 → pageId ≤ pages.length →
    pageOffset diskPageSize pageId =
      ((diskPageSize * (pageId - 1) : Nat) : Int)
  apart : ∀ left right, left ≠ 0 → left ≤ pages.length → right ≠ 0 →
    right ≤ pages.length → left ≠ right →
    pageOffset diskPageSize left + diskPageSize ≤
        pageOffset diskPageSize right ∨
      pageOffset diskPageSize right + diskPageSize ≤
        pageOffset diskPageSize left
  written : ∀ index page, pages[index]? = some page →
    slice after.file (diskPageSize * index) diskPageSize =
      (placedPage page (index + 1)).diskBytes
  readBack : ∀ index page, pages[index]? = some page →
    ∃ out last, runPagerOp (.read (index + 1)) after = some (out, last) ∧
      out.result = .ok ∧ out.page.map Page.pageBuffer = some page.pageBuffer

/-- A run that creates the given pages on an empty file succeeds and addresses
them. -/
def PagesAddressed (diskPageSize capacity : Nat) (pages : List Page) : Prop :=
  ∃ outs after, runPagerOps (pages.map PagerOp.write)
      (cstdOpen diskPageSize capacity []) = some (outs, after) ∧
    Addressed diskPageSize pages outs after

theorem cstdOpen_filled (capacity_pos : 0 < capacity)
    (metaFits : pagemetaSize ≤ diskPageSize)
    (sizeFits : diskPageSize < 2 ^ 31) :
    Filled diskPageSize capacity [] (cstdOpen diskPageSize capacity []) :=
  ⟨pagerOpen_coherent capacity_pos metaFits sizeFits (by decide), rfl,
    fun page member => absurd member List.not_mem_nil, rfl⟩

theorem Filled.addressed {pages : List Page} {after : CStdPager}
    (filled : Filled diskPageSize capacity pages after)
    (reach : diskPageSize * pages.length < 2 ^ 31) :
    Addressed diskPageSize pages (newPageOuts 0 pages) after := by
  have inRange : ∀ pageId, pageId ≤ pages.length →
      InRange diskPageSize pageId := by
    intro pageId inside
    exact Nat.lt_of_le_of_lt (Nat.mul_le_mul_left _ (by omega)) reach
  have offsets : ∀ pageId, pageId ≠ 0 → pageId ≤ pages.length →
      pageOffset diskPageSize pageId =
        ((diskPageSize * (pageId - 1) : Nat) : Int) :=
    fun pageId numbered inside =>
      pageOffset_of_inRange numbered (inRange pageId inside)
  refine ⟨?_, offsets, ?_, fun index page here => filled.slice_eq here, ?_⟩
  · unfold newPageOuts
    apply List.ext_getElem?
    intro index
    rw [List.getElem?_map, List.getElem?_mapIdx, List.getElem?_map]
    by_cases bound : index < pages.length
    · rw [List.getElem?_eq_getElem bound, List.getElem?_range bound]
      simp [placedPage, writeNewPageMeta]
    · rw [List.getElem?_eq_none (by omega),
        List.getElem?_eq_none (by rw [List.length_range]; omega)]
      rfl
  · intro left right leftPage leftInside rightPage rightInside different
    rw [offsets left leftPage leftInside, offsets right rightPage rightInside]
    have places := pagePlaces_disjoint diskPageSize leftPage rightPage different
    omega
  · intro index page here
    obtain ⟨bound, -⟩ := List.getElem?_eq_some_iff.mp here
    have readBack : ∃ last : CStdPager,
        PageIO.cachedRead (index + 1) (pageCreate diskPageSize) after =
          some ((.ok, placedPage page (index + 1)), last) ∧
        Filled diskPageSize capacity pages last :=
      filled.readBack here (inRange _ bound)
    obtain ⟨last, readEq, -⟩ := readBack
    refine ⟨⟨.ok, some (placedPage page (index + 1)), none⟩, last, ?_, rfl, rfl⟩
    have sizeEq : PageIO.diskPageSize after = diskPageSize := filled.sameSize
    simp only [runPagerOp, pagerReadPage]
    rw [PagerM.bind_some (PagerM.get_apply after), sizeEq,
      PagerM.bind_some readEq]
    rfl

theorem pagesAddressed_nil : PagesAddressed diskPageSize capacity [] := by
  refine ⟨[], cstdOpen diskPageSize capacity [], rfl, rfl, ?_, ?_, ?_, ?_⟩
  · intro pageId numbered inside
    exact absurd (Nat.le_zero.mp inside) numbered
  · intro left right leftPage leftInside
    exact absurd (Nat.le_zero.mp leftInside) leftPage
  · intro index page here
    cases here
  · intro index page here
    cases here

/-- New pages are addressed exactly as long as the last one starts below
`0x10000`. -/
theorem pagesAddressed_iff {pages : List Page} (capacity_pos : 0 < capacity)
    (metaFits : pagemetaSize ≤ diskPageSize)
    (new : ∀ page ∈ pages, NewPage diskPageSize page)
    (reach : diskPageSize * pages.length < 2 ^ 31) :
    PagesAddressed diskPageSize capacity pages ↔
      pages = [] ∨ diskPageSize * (pages.length - 1) < 0x10000 := by
  by_cases empty : pages = []
  · subst empty
    exact ⟨fun _ => Or.inl rfl, fun _ => pagesAddressed_nil⟩
  have some_ : 0 < pages.length := List.length_pos_iff.mpr empty
  have sizeFits : diskPageSize < 2 ^ 31 :=
    Nat.lt_of_le_of_lt (Nat.le_mul_of_pos_right _ some_) reach
  have opened := cstdOpen_filled capacity_pos metaFits sizeFits
  have lengthEq : ([] : List Page).length + pages.length = pages.length :=
    Nat.zero_add _
  constructor
  · rintro ⟨outs, after, runEq, -⟩
    by_contra stops
    obtain ⟨notEmpty, behind⟩ := not_or.mp stops
    have abortEq := cstd_writePages_aborts opened new
      (by rw [lengthEq]; exact reach) notEmpty (by rw [lengthEq]; omega)
    rw [abortEq] at runEq
    cases runEq
  · intro below
    obtain ⟨after, runEq, filled⟩ := cstd_writePages opened new
      (by rw [lengthEq]; exact reach) (by rw [lengthEq]; exact below)
    exact ⟨_, after, runEq, filled.addressed reach⟩

theorem sixteen_pages_addressed :
    PagesAddressed 0x1000 5 (List.replicate 16 (pageCreate 0x1000)) :=
  (pagesAddressed_iff (by decide) (by decide)
    (by
      intro page member
      obtain ⟨-, rfl⟩ := List.mem_replicate.mp member
      exact ⟨rfl, pageCreate_sized (by decide)⟩)
    (by rw [List.length_replicate]; decide)).mpr
    (Or.inr (by rw [List.length_replicate]; decide))

/-- The seventeenth page of the database's page size starts at `0x10000`. -/
theorem seventeenth_page_aborts :
    ¬ PagesAddressed 0x1000 5 (List.replicate 17 (pageCreate 0x1000)) := by
  rintro ⟨outs, after, runEq, -⟩
  have opened := cstdOpen_filled (by decide : 0 < 5)
    (by decide : pagemetaSize ≤ 0x1000) (by decide)
  have new : ∀ page ∈ List.replicate 17 (pageCreate 0x1000),
      NewPage 0x1000 page := by
    intro page member
    obtain ⟨-, rfl⟩ := List.mem_replicate.mp member
    exact ⟨rfl, pageCreate_sized (by decide)⟩
  have abortEq := cstd_writePages_aborts opened new
    (by rw [List.length_replicate]; decide) (by simp)
    (by rw [List.length_replicate]; decide)
  rw [abortEq] at runEq
  cases runEq

end BtreeDb
