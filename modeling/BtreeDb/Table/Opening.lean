import BtreeDb.Pager.View
import BtreeDb.Node.Check
import BtreeDb.Node.Loaded
import BtreeDb.Table.Insert

/-!
# Opening a tree

`btree_init` on a pager of any kind.  A root that cannot be read is written as
a new page, and the pager chooses where it goes: at the first free page, or
behind the last page of the file.
-/

namespace BtreeDb

open Bytes

section Init

variable {σ : Type} [ PageIO σ]

/-- `btree_init_root_page`. -/
def initRootPageOn (pageId : Nat) : PagerM σ (Except Stop Unit) := do
  let blank := pageCreate ( PageIO.diskPageSize (← get))
  let (result, page) ← pagerReadPage pageId blank
  if result = .errNif then
    -- `init_new_root_page`
    let node := nodeIsLeafSet
      (nodeInitFromPage { page with pageId := pageId }) true
    let (result, _) ← pagerWritePage
      { node.page with pageId := pageCreateNewPage }
    pure (btpageErr result)
  else if result = .ok then
    pure (.ok ())
  else
    pure (.error (.err .errPaging))

/-- `btree_init`. -/
def btreeInitOn (rootPageId : Nat) : PagerM σ (Except Stop Unit) := do
  if PageIO.diskPageSize (← get) - pagemetaSize < btreeMinPageSize then
    pure (.error (.err .errInvalidPageSizeTooSmall))
  else
    initRootPageOn rootPageId

end Init

/-- A pager call that reports an error code, as a call of the trees. -/
def ofPagerResult (call : PagerM Disk (Except Stop Unit)) : BtM Unit :=
  fun disk =>
    match call disk with
    | some (result, after) => (result, after)
    | none => (.error .assertFailed, disk)

theorem PagerM.bind_none {σ α β : Type} {call : PagerM σ α}
    {next : α → PagerM σ β} {pager : σ} (first : call pager = none) :
    (call >>= next) pager = none := by
  simp only [Bind.bind, StateT.bind, first, Option.bind_none]

/-- What a value of a sequence comes from. -/
theorem PagerM.bind_eq_some {σ α β : Type} {call : PagerM σ α}
    {next : α → PagerM σ β} {pager last : σ} {result : β}
    (whole : (call >>= next) pager = some (result, last)) :
    ∃ value after, call pager = some (value, after) ∧
      next value after = some (result, last) := by
  cases callEq : call pager with
  | none =>
      rw [PagerM.bind_none callEq] at whole
      cases whole
  | some outcome =>
      obtain ⟨value, after⟩ := outcome
      rw [PagerM.bind_some callEq] at whole
      exact ⟨value, after, rfl, whole⟩

theorem ofPager_none {α : Type} {call : PagerM Disk α} {disk : Disk}
    (first : call disk = none) :
    BtM.ofPager call disk = (.error .assertFailed, disk) := by
  unfold BtM.ofPager
  rw [first]

theorem writePage_unit (page : Page) :
    (do let _ ← writePage page; pure () : BtM Unit) = ofPagerResult (do
      let (result, _) ← pagerWritePage page
      pure (btpageErr result)) := by
  funext disk
  unfold ofPagerResult writePage
  cases writeEq : pagerWritePage page disk with
  | none =>
      rw [PagerM.bind_none writeEq,
        BtM.bind_error (BtM.bind_error (ofPager_none writeEq))]
  | some written =>
      obtain ⟨⟨result, written⟩, after⟩ := written
      rw [PagerM.bind_some writeEq]
      simp only
      have first := BtM.ofPager_some writeEq
      cases codeEq : btpageErr result with
      | error stop =>
          refine BtM.bind_error ?_
          rw [BtM.bind_ok first]
          simp only [codeEq]
          rfl
      | ok _ =>
          refine (@BtM.bind_ok _ _ _ _ disk after written ?_).trans rfl
          rw [BtM.bind_ok first]
          simp only [codeEq]
          rfl

theorem diskRead_disk {disk after : Disk} {pageId : Nat} {page : Page}
    {value : PagerE × Page}
    (readEq : pagerReadPage pageId page disk = some (value, after)) :
    after = disk := by
  change diskRead pageId page disk = some (value, after) at readEq
  unfold diskRead at readEq
  by_cases isNew : (pageId != pageCreateNewPage) = true
  · rw [isNew] at readEq
    simp only [cAssert, if_true, pure_bind] at readEq
    rw [PagerM.bind_some (PagerM.get_apply disk)] at readEq
    cases found : disk.page? pageId with
    | none =>
        rw [found] at readEq
        exact (Prod.mk.inj (Option.some.inj readEq)).2.symm
    | some image =>
        rw [found] at readEq
        exact (Prod.mk.inj (Option.some.inj readEq)).2.symm
  · simp only [cAssert, isNew] at readEq
    cases readEq

/-- `btreeInit` is `btree_init` on the trees' disk. -/
theorem btreeInit_eq (rootPageId : Nat) :
    btreeInit rootPageId = ofPagerResult (btreeInitOn rootPageId) := by
  funext disk
  have size : PageIO.diskPageSize disk - pagemetaSize = disk.pageSize :=
    Nat.add_sub_cancel _ _
  have blank : blankPage disk pageCreateNewPage =
      pageCreate ( PageIO.diskPageSize disk) := rfl
  unfold btreeInit ofPagerResult btreeInitOn
  rw [BtM.bind_ok (BtM.getDisk_apply disk),
    PagerM.bind_some (PagerM.get_apply disk), size]
  by_cases small : disk.pageSize < btreeMinPageSize
  · rw [if_pos small, if_pos small]
    rfl
  · rw [if_neg small, if_neg small]
    unfold btreeInitRootPage initRootPageOn
    rw [BtM.bind_ok (BtM.getDisk_apply disk),
      PagerM.bind_some (PagerM.get_apply disk), blank]
    cases readEq : pagerReadPage rootPageId
        (pageCreate ( PageIO.diskPageSize disk)) disk with
    | none =>
        rw [BtM.bind_error (ofPager_none readEq), PagerM.bind_none readEq]
    | some outcome =>
        obtain ⟨⟨result, page⟩, middle⟩ := outcome
        have sameDisk := diskRead_disk readEq
        subst sameDisk
        rw [BtM.bind_ok (BtM.ofPager_some readEq), PagerM.bind_some readEq]
        simp only
        by_cases missing : result = .errNif
        · rw [if_pos missing, if_pos missing]
          exact congrFun (writePage_unit _) middle
        · rw [if_neg missing, if_neg missing]
          by_cases found : result = .ok
          · rw [if_pos found, if_pos found]
            rfl
          · rw [if_neg found, if_neg found]
            rfl

/-! ## Reading on the cached pager -/

section Reading

variable {pager middle : Pager} {pageId : Nat} {page read : Page}
  {result : PagerE}

/-- A read leaves the file alone; it fails only on a page of which the file
does not have all bytes. -/
theorem cachedRead_outcome
    (readEq : pagerReadPage pageId page pager = some ((result, read), middle)) :
    pageId ≠ 0 ∧ middle.toFilePager = pager.toFilePager ∧
      (result = .ok ∨
        result = .errNif ∧ middle = pager ∧
          read = { page with pageId := pageId } ∧
          (pagerInternalRead pager.toFilePager pageId
            (pageCreate pager.diskPageSize)).1 = .readErr) := by
  change pagerInternalCachedRead pageId page pager = _ at readEq
  unfold pagerInternalCachedRead at readEq
  by_cases isNew : pageId = 0
  · rw [isNew] at readEq
    cases readEq
  · have numbered : (pageId != pageCreateNewPage) = true := by
      simpa [pageCreateNewPage] using isNew
    simp only [cAssert, numbered, if_true, pure_bind] at readEq
    rw [PagerM.bind_some (PagerM.get_apply pager)] at readEq
    refine ⟨isNew, ?_⟩
    cases acquired : pageCacheAcquire pager.cache pageId with
    | some slot =>
        rw [acquired] at readEq
        obtain ⟨sameOut, sameMiddle⟩ := Prod.mk.inj (Option.some.inj readEq)
        rw [← sameMiddle]
        exact ⟨rfl, Or.inl (Prod.mk.inj sameOut).1.symm⟩
    | none =>
        rw [acquired] at readEq
        simp only at readEq
        by_cases failed : (pagerInternalRead pager.toFilePager pageId
            (pageCreate pager.diskPageSize)).1 = .readErr
        · rw [if_pos failed] at readEq
          obtain ⟨sameOut, sameMiddle⟩ := Prod.mk.inj (Option.some.inj readEq)
          obtain ⟨sameResult, sameRead⟩ := Prod.mk.inj sameOut
          rw [← sameMiddle]
          exact ⟨rfl, Or.inr ⟨sameResult.symm, rfl, sameRead.symm, failed⟩⟩
        · rw [if_neg failed] at readEq
          cases inserted : pageCacheInsert pager.cache
              (pagerInternalRead pager.toFilePager pageId
                (pageCreate pager.diskPageSize)).2 with
          | none =>
              rw [inserted] at readEq
              cases readEq
          | some cache =>
              rw [inserted] at readEq
              obtain ⟨sameOut, sameMiddle⟩ :=
                Prod.mk.inj (Option.some.inj readEq)
              rw [← sameMiddle]
              exact ⟨rfl, Or.inl (Prod.mk.inj sameOut).1.symm⟩

/-- A read fails in front of the end of the file, or at a place that an `int`
holds behind it. -/
theorem inRange_of_readErr {pager : FilePager} (wellFormed : pager.WellFormed)
    (numbered : pageId ≠ 0) (place : pageId ≤ pager.maxPage + 1)
    (failed : (pagerInternalRead pager pageId page).1 = .readErr) :
    InRange pager.diskPageSize pageId ∧ pageId = pager.maxPage + 1 := by
  have positive : 0 < pager.diskPageSize :=
    Nat.lt_of_lt_of_le (by decide) wellFormed.metaFits
  have fileFits := wellFormed.fileFits
  have inside : pager.diskPageSize * (pageId - 1) ≤ pager.file.length := by
    have scaled := Nat.mul_le_mul_left pager.diskPageSize
      (show pageId - 1 ≤ pager.maxPage by omega)
    rw [wellFormed.maxPage_eq] at scaled
    exact Nat.le_trans scaled (Nat.mul_div_le _ _)
  have inRange : InRange pager.diskPageSize pageId := by
    by_cases inRange : InRange pager.diskPageSize pageId
    · exact inRange
    · have negative : pageOffset pager.diskPageSize pageId < 0 := by
        unfold InRange at inRange
        unfold pageOffset asInt u32Pred
        rw [if_neg numbered, Nat.mod_eq_of_lt (by omega), if_neg (by omega)]
        omega
      unfold pagerInternalRead opsRead at failed
      rw [if_pos negative] at failed
      cases failed
  refine ⟨inRange, ?_⟩
  by_cases present : pageId ≤ pager.maxPage
  · have fits : pager.diskPageSize * (pageId - 1) + pager.diskPageSize ≤
        pager.file.length := by
      rw [wellFormed.maxPage_eq] at present
      have whole := Nat.mul_le_mul_left pager.diskPageSize present
      have room := Nat.mul_div_le pager.file.length pager.diskPageSize
      rw [← Nat.mul_succ, show (pageId - 1).succ = pageId by omega]
      omega
    unfold pagerInternalRead at failed
    rw [pageOffset_of_inRange numbered inRange, opsRead_place,
      if_pos fits] at failed
    cases failed
  · omega

end Reading

/-! ## Writing a new page -/

section Writing

variable {capacity : Nat} {pager middle after : Pager} {disk : Disk}
variable {free : List Nat} {page : Page}

theorem cachedWrite_maxPage {code : PagerE}
    (writeEq : PageIO.cachedWrite page pager = some (code, after)) :
    after.maxPage =
      if page.pageId > pager.maxPage then page.pageId else pager.maxPage := by
  change pagerInternalCachedWrite page pager = _ at writeEq
  unfold pagerInternalCachedWrite at writeEq
  rw [PagerM.bind_some (PagerM.get_apply pager)] at writeEq
  rw [← (Prod.mk.inj (Option.some.inj writeEq)).2]
  rfl

section Backed

variable (backed : Backed capacity pager disk) (store : Store disk free)

include backed store

/-- Taking a free page does not make the file longer. -/
theorem freelistPop_maxPage {first : Nat} {rest : List Nat} {code : PagerE}
    {pageId : Nat} (isCons : free = first :: rest)
    (popEq : pagerFreelistPop pager = some ((code, pageId), middle)) :
    middle.maxPage = pager.maxPage ∧ (code = .ok → pageId = first) ∧
      code ≠ .errNoFreePage := by
  subst isCons
  obtain ⟨image, present⟩ := store.page_one
  obtain ⟨start, firstPresent, -⟩ := store.chain
  have numbered := (page?_isSome_iff.mp firstPresent).1
  have next : (pagemetaRead
      ⟨1, image.metaBytes, image.pageBuffer⟩).nextFreePage = first := by
    unfold Disk.nextFree at start
    rw [present] at start
    exact start
  obtain ⟨loaded, readEq, loadedBacked⟩ :=
    backed.read (inRange_one _) present
  have sameMax := loadedBacked.sameMax.trans backed.sameMax.symm
  unfold pagerFreelistPop at popEq
  rw [PagerM.bind_some (PagerM.get_apply pager), PagerM.bind_some readEq]
    at popEq
  simp only [if_true, next, if_neg numbered] at popEq
  obtain ⟨⟨result, free⟩, later, laterEq, popEq⟩ := PagerM.bind_eq_some popEq
  obtain ⟨-, sameFile, resultCases⟩ := cachedRead_outcome laterEq
  have laterMax : later.maxPage = loaded.maxPage :=
    congrArg FilePager.maxPage sameFile
  have positive := store.first
  have pagerMax := backed.sameMax
  simp only [ PageIO.maxPage] at sameMax pagerMax
  by_cases found : result = .ok
  · rw [if_pos found] at popEq
    obtain ⟨written, last, writeEq, popEq⟩ := PagerM.bind_eq_some popEq
    obtain ⟨sameOut, sameLast⟩ := Prod.mk.inj (Option.some.inj popEq)
    obtain ⟨codeEq, idEq⟩ := Prod.mk.inj sameOut
    have lastMax := cachedWrite_maxPage writeEq
    rw [pagemetaWrite_pageId] at lastMax
    simp only at lastMax
    have writtenOk : written = .ok := by
      change pagerInternalCachedWrite _ later = _ at writeEq
      unfold pagerInternalCachedWrite at writeEq
      rw [PagerM.bind_some (PagerM.get_apply later)] at writeEq
      exact (Prod.mk.inj (Option.some.inj writeEq)).1.symm
    refine ⟨?_, fun _ => idEq.symm, ?_⟩
    · rw [← sameLast, lastMax, if_neg (by omega)]
      omega
    · rw [← codeEq, writtenOk]
      intro same
      cases same
  · rw [if_neg found] at popEq
    obtain ⟨sameOut, sameLast⟩ := Prod.mk.inj (Option.some.inj popEq)
    have codeEq := (Prod.mk.inj sameOut).1
    have missing : result = .errNif := by
      rcases resultCases with isOk | isNif
      · exact absurd isOk found
      · exact isNif.1
    refine ⟨?_, ?_, ?_⟩
    · rw [← sameLast]
      omega
    · intro isOk
      rw [← codeEq, missing] at isOk
      cases isOk
    · rw [← codeEq, missing]
      intro same
      cases same

/-- A new page lies behind the last page only if no page is free. -/
theorem writePage_new_maxPage {written : Page} (isNew : page.pageId = 0)
    (writeEq : pagerWritePage page pager = some ((.ok, written), after)) :
    after.maxPage =
      if free = [] then pager.maxPage + 1 else pager.maxPage := by
  have isNew' : page.pageId = pageCreateNewPage := isNew
  have first := store.first
  unfold pagerWritePage pagerPlacePage at writeEq
  rw [if_pos isNew'] at writeEq
  obtain ⟨⟨code, placed⟩, middle, placeEq, writeEq⟩ :=
    PagerM.bind_eq_some writeEq
  have codeOk : code = .ok := by
    by_cases isOk : code = .ok
    · exact isOk
    · simp only [isOk, if_false] at writeEq
      exact (Prod.mk.inj (Prod.mk.inj (Option.some.inj writeEq)).1).1
  simp only [codeOk, if_true] at writeEq
  obtain ⟨stored, last, storeEq, writeEq⟩ := PagerM.bind_eq_some writeEq
  have lastMax := cachedWrite_maxPage storeEq
  rw [setInUse_pageId] at lastMax
  rw [← (Prod.mk.inj (Option.some.inj writeEq)).2, lastMax]
  cases freeEq : free with
  | nil =>
      have noneInRange : FreeInRange disk free := by
        rw [freeEq]
        intro pageId member
        cases member
      obtain ⟨chosen, chooseEq, chosenBacked⟩ :=
        backed.diskPage store noneInRange page
      rw [chooseEq] at placeEq
      obtain ⟨sameOut, sameMiddle⟩ := Prod.mk.inj (Option.some.inj placeEq)
      have placedEq := (Prod.mk.inj sameOut).2
      have middleMax := chosenBacked.sameMax
      have pagerMax := backed.sameMax
      rw [afterChoice_maxPage store] at middleMax
      simp only [ PageIO.maxPage] at middleMax pagerMax
      have placedId : placed.pageId = disk.maxPage + 1 := by
        rw [← placedEq]
        unfold writeNewPageMeta nextNewPage
        rw [freeEq]
        rfl
      rw [if_pos rfl, placedId, ← sameMiddle, if_pos (by omega)]
      omega
  | cons head rest =>
      unfold pagerDiskPage at placeEq
      rw [PagerM.bind_some (PagerM.get_apply pager), backed.sameMax,
        if_neg first] at placeEq
      obtain ⟨⟨popCode, popId⟩, popped, popEq, placeEq⟩ :=
        PagerM.bind_eq_some placeEq
      obtain ⟨poppedMax, popOk, notEmpty⟩ :=
        freelistPop_maxPage backed store freeEq popEq
      have popIsOk : popCode = .ok := by
        by_cases isOk : popCode = .ok
        · exact isOk
        · simp only [isOk, notEmpty, if_false] at placeEq
          have sameCode := (Prod.mk.inj
            (Prod.mk.inj (Option.some.inj placeEq)).1).1
          rw [sameCode]
          exact codeOk
      simp only [popIsOk, if_true] at placeEq
      obtain ⟨sameOut, sameMiddle⟩ := Prod.mk.inj (Option.some.inj placeEq)
      have placedId : placed.pageId = head := by
        rw [← (Prod.mk.inj sameOut).2, ← popOk popIsOk]
        rfl
      have inside := (store.free_le head (by rw [freeEq]; simp)).2
      have pagerMax := backed.sameMax
      simp only [ PageIO.maxPage] at pagerMax
      rw [if_neg (List.cons_ne_nil head rest), placedId, ← sameMiddle,
        if_neg (by omega), poppedMax]

end Backed

end Writing

/-! ## The root -/

/-- The node that `init_new_root_page` makes. -/
def newRoot (disk : Disk) (rootPageId : Nat) : BTreeNode :=
  nodeIsLeafSet (nodeInitFromPage (blankPage disk rootPageId)) true

/-- An empty leaf node. -/
structure EmptyLeaf (node : BTreeNode) : Prop where
  ok : NodeOk node
  isLeaf : node.isLeaf = true
  noKeys : node.keys = []

section Root

variable {capacity : Nat} {pager after : Pager} {disk : Disk}
variable {free : List Nat} {rootPageId : Nat} {result : Except Stop Unit}

theorem newRoot_spec (wide : btreeHeaderSize + pageHeaderSize ≤ disk.pageSize)
    (fits : disk.pageSize < 2 ^ 32) (rootPageId : Nat) :
    EmptyLeaf (newRoot disk rootPageId) ∧
      Encodable (newRoot disk rootPageId) ∧
      (newRoot disk rootPageId).pageNumber = rootPageId ∧
      (newRoot disk rootPageId).metaBytes.length = pagemetaSize ∧
      (newRoot disk rootPageId).pageSize = disk.pageSize := by
  have fresh := blank_fresh rootPageId wide
  have noKeys : (newRoot disk rootPageId).keys = [] := by
    have empty := congrArg List.length fresh.empty
    rw [entries_length] at empty
    exact List.length_eq_zero_iff.mp empty
  have ok : NodeOk (newRoot disk rootPageId) :=
    ⟨fresh.ok.lead, fresh.ok.free, fresh.ok.used, fresh.ok.placed,
      fresh.ok.apart⟩
  refine ⟨⟨ok, rfl, noKeys⟩, ⟨?_, ?_, ?_, ?_⟩, fresh.pageNumber_eq,
    fresh.metaBytes_length, fresh.pageSize_eq⟩
  · exact Nat.lt_of_le_of_lt (Nat.le_of_eq fresh.noRightChild) (by decide)
  · rw [noKeys]
    intro key member
    cases member
  · rw [noKeys]
    intro key member
    cases member
  · exact Nat.lt_of_le_of_lt (Nat.le_of_eq fresh.pageSize_eq) fits

/-- The ways through `btree_init`: the pages are too small, the root page is
read, or it is not in the file and a new page is written. -/
theorem btreeInitOn_cases
    (size : pager.diskPageSize = disk.pageSize + pagemetaSize)
    (opened : btreeInitOn rootPageId pager = some (result, after)) :
    disk.pageSize < btreeMinPageSize ∧
        result = .error (.err .errInvalidPageSizeTooSmall) ∨
      btreeMinPageSize ≤ disk.pageSize ∧ rootPageId ≠ 0 ∧
        ((∃ read, pagerReadPage rootPageId (pageCreate pager.diskPageSize)
            pager = some ((.ok, read), after)) ∧ result = .ok () ∨
          (pagerInternalRead pager.toFilePager rootPageId
            (pageCreate pager.diskPageSize)).1 = .readErr ∧
          ∃ code written,
            pagerWritePage { (newRoot disk rootPageId).page with
                pageId := pageCreateNewPage } pager =
              some ((code, written), after) ∧
            result = btpageErr code) := by
  have pagerSize : PageIO.diskPageSize pager = pager.diskPageSize := rfl
  have diskSize : PageIO.diskPageSize disk = pager.diskPageSize := size.symm
  have pageSize : pager.diskPageSize - pagemetaSize = disk.pageSize := by
    omega
  unfold btreeInitOn at opened
  rw [PagerM.bind_some (PagerM.get_apply pager), pagerSize, pageSize] at opened
  by_cases small : disk.pageSize < btreeMinPageSize
  · rw [if_pos small] at opened
    exact Or.inl ⟨small, (Prod.mk.inj (Option.some.inj opened)).1.symm⟩
  · rw [if_neg small] at opened
    refine Or.inr ⟨Nat.le_of_not_lt small, ?_⟩
    unfold initRootPageOn at opened
    rw [PagerM.bind_some (PagerM.get_apply pager)] at opened
    obtain ⟨⟨code, read⟩, middle, readEq, opened⟩ :=
      PagerM.bind_eq_some opened
    obtain ⟨numbered, sameFile, outcome⟩ := cachedRead_outcome readEq
    refine ⟨numbered, ?_⟩
    rcases outcome with isOk | ⟨isNif, sameMiddle, readIs, failed⟩
    · simp only [isOk, reduceCtorEq, if_false, if_true] at opened
      obtain ⟨sameResult, sameAfter⟩ := Prod.mk.inj (Option.some.inj opened)
      refine Or.inl ⟨⟨read, ?_⟩, sameResult.symm⟩
      rw [← sameAfter, ← isOk]
      exact readEq
    · simp only [isNif, if_true] at opened
      obtain ⟨⟨written, page⟩, last, writeEq, opened⟩ :=
        PagerM.bind_eq_some opened
      obtain ⟨sameResult, sameAfter⟩ := Prod.mk.inj (Option.some.inj opened)
      refine Or.inr ⟨failed, written, page, ?_, sameResult.symm⟩
      rw [sameMiddle, readIs] at writeEq
      unfold newRoot blankPage
      rw [← sameAfter, diskSize]
      exact writeEq

/-- A root that the file has is only read. -/
theorem btreeInitOn_present
    (size : pager.diskPageSize = disk.pageSize + pagemetaSize)
    (wellFormed : pager.toFilePager.WellFormed)
    (least : btreeMinPageSize ≤ disk.pageSize)
    (present : rootPageId ≤ pager.maxPage)
    (opened : btreeInitOn rootPageId pager = some (result, after)) :
    result = .ok () ∧ after.toFilePager = pager.toFilePager := by
  rcases btreeInitOn_cases size opened with
    ⟨small, -⟩ | ⟨-, numbered, ⟨⟨read, readEq⟩, isOk⟩ | ⟨failed, -⟩⟩
  · omega
  · exact ⟨isOk, (cachedRead_outcome readEq).2.1⟩
  · have atEnd := (inRange_of_readErr wellFormed numbered (by omega) failed).2
    omega

/-- A root behind the last page is created there if no page is free. -/
theorem btreeInitOn_created (backed : Backed capacity pager disk)
    (store : Store disk []) (inRange : InRange pager.diskPageSize rootPageId)
    (atEnd : rootPageId = pager.maxPage + 1)
    (opened : btreeInitOn rootPageId pager = some (.ok (), after)) :
    ∃ metaBytes, Backed capacity after (disk.store rootPageId
      ⟨metaBytes, (newRoot disk rootPageId).page.pageBuffer⟩) := by
  have size := backed.diskPageSize_eq
  have pagerMax := backed.sameMax
  simp only [ PageIO.maxPage] at pagerMax
  rcases btreeInitOn_cases size opened with
    ⟨-, isError⟩ |
      ⟨least, numbered, ⟨⟨read, readEq⟩, -⟩ |
        ⟨-, code, written, writeEq, -⟩⟩
  · cases isError
  · -- the page would have to be in the file
    have agrees := agrees_cachedRead backed.coherent inRange
      (pageCreate_sized backed.coherent.wellFormed.metaFits)
    obtain ⟨-, -, notNew, -, -, outcome⟩ := agrees.after_coherent readEq
    rcases outcome with ⟨-, inFile⟩ | missing
    · have onDisk := diskOf_page? backed.coherent.wellFormed notNew
      rw [inFile, backed.view] at onDisk
      have present := (page?_isSome_iff.mp
        (Option.isSome_of_eq_some onDisk)).2
      omega
    · cases missing
  · have wide : btreeHeaderSize + pageHeaderSize ≤ disk.pageSize :=
      Nat.le_trans (by decide) least
    have sizeFits := backed.coherent.wellFormed.sizeFits
    obtain ⟨-, -, -, metaSize, pageSize⟩ :=
      newRoot_spec wide (by omega) rootPageId
    have newId : nextNewPage disk [] = rootPageId := by
      unfold nextNewPage
      rw [List.headD_nil]
      omega
    have reach : InRange (disk.pageSize + pagemetaSize)
        (nextNewPage disk []) := by
      rw [newId, ← size]
      exact inRange
    have noneFree : FreeInRange disk [] := by
      intro pageId member
      cases member
    have isNew : ({ (newRoot disk rootPageId).page with
        pageId := pageCreateNewPage } : Page).pageId = 0 := rfl
    obtain ⟨last, lastEq, lastBacked⟩ := backed.writePage_new store noneFree
      isNew metaSize ((page_pageBuffer_length _).trans pageSize) reach
    have sameWrite := writeEq.symm.trans lastEq
    rw [(Prod.mk.inj (Option.some.inj sameWrite)).2]
    rw [newId] at lastBacked
    exact ⟨_, lastBacked⟩

/-- What opening a tree has to do: the root page is in the file, a root that
was not there is an empty leaf, and opening the tree once more changes
nothing. -/
structure RootOpened (pager : Pager) (rootPageId : Nat) (after : Pager) :
    Prop where
  present : rootPageId ≤ after.maxPage
  created : pager.maxPage < rootPageId →
    ∃ image, (diskOf after.toFilePager).page? rootPageId = some image ∧
      EmptyLeaf (nodeInitFromPage
        ⟨rootPageId, image.metaBytes, image.pageBuffer⟩)
  again : ∀ result last, btreeInitOn rootPageId after = some (result, last) →
    result = .ok () ∧ last.toFilePager = after.toFilePager

/-- `btree_init` opens the root if and only if the file has it, or it is the
page behind the last one and no page is free. -/
theorem rootOpened_iff (backed : Backed capacity pager disk)
    (store : Store disk free)
    (opened : btreeInitOn rootPageId pager = some (.ok (), after)) :
    RootOpened pager rootPageId after ↔
      rootPageId ≤ pager.maxPage ∨
        free = [] ∧ rootPageId = pager.maxPage + 1 ∧
          InRange pager.diskPageSize rootPageId := by
  have size := backed.diskPageSize_eq
  have wellFormed := backed.coherent.wellFormed
  have pagerMax := backed.sameMax
  simp only [ PageIO.maxPage] at pagerMax
  have least : btreeMinPageSize ≤ disk.pageSize := by
    rcases btreeInitOn_cases size opened with ⟨-, isError⟩ | ⟨least, -⟩
    · cases isError
    · exact least
  constructor
  · intro root
    have present := root.present
    rcases btreeInitOn_cases size opened with
      ⟨-, isError⟩ |
        ⟨-, numbered, ⟨⟨read, readEq⟩, -⟩ |
          ⟨failed, code, written, writeEq, isOk⟩⟩
    · cases isError
    · have sameMax := congrArg FilePager.maxPage (cachedRead_outcome readEq).2.1
      exact Or.inl (by omega)
    · have codeOk : code = .ok := by
        cases code <;> first | rfl | cases isOk
      rw [codeOk] at writeEq
      have afterMax := writePage_new_maxPage backed store rfl writeEq
      by_cases none : free = []
      · rw [if_pos none] at afterMax
        by_cases inside : rootPageId ≤ pager.maxPage
        · exact Or.inl inside
        · have reached := inRange_of_readErr wellFormed numbered (by omega)
            failed
          exact Or.inr ⟨none, reached.2, reached.1⟩
      · rw [if_neg none] at afterMax
        exact Or.inl (by omega)
  · rintro (inside | ⟨none, atEnd, inRange⟩)
    · obtain ⟨-, sameFile⟩ :=
        btreeInitOn_present size wellFormed least inside opened
      have sameMax : after.maxPage = pager.maxPage :=
        congrArg FilePager.maxPage sameFile
      have sameSize : after.diskPageSize = pager.diskPageSize :=
        congrArg FilePager.diskPageSize sameFile
      refine ⟨by omega, fun beyond => by omega, ?_⟩
      intro result last again
      refine btreeInitOn_present (sameSize.trans size) ?_ least (by omega)
        again
      rw [sameFile]
      exact wellFormed
    · subst none
      obtain ⟨metaBytes, afterBacked⟩ :=
        btreeInitOn_created backed store inRange atEnd opened
      have numbered : rootPageId ≠ 0 := by omega
      have place : rootPageId ≤ disk.maxPage + 1 := by omega
      have afterMax := afterBacked.sameMax
      rw [store_maxPage place, if_pos (by omega)] at afterMax
      simp only [ PageIO.maxPage] at afterMax
      have wide : btreeHeaderSize + pageHeaderSize ≤ disk.pageSize :=
        Nat.le_trans (by decide) least
      have sizeFits := wellFormed.sizeFits
      obtain ⟨empty, encodable, numberEq, -, -⟩ :=
        newRoot_spec wide (by omega) rootPageId
      refine ⟨by omega, fun _ => ?_, ?_⟩
      · refine ⟨⟨metaBytes, (newRoot disk rootPageId).page.pageBuffer⟩, ?_, ?_⟩
        · rw [afterBacked.view, store_page? numbered place, if_pos rfl]
        · have readBack := nodeInitFromPage_page (empty.ok.withMeta metaBytes)
            (encodable.withMeta metaBytes)
          have samePage : ({ newRoot disk rootPageId with
              metaBytes := metaBytes } : BTreeNode).page =
              ⟨rootPageId, metaBytes,
                (newRoot disk rootPageId).page.pageBuffer⟩ := by
            rw [← numberEq]
            rfl
          rw [← samePage, readBack]
          exact ⟨empty.ok.withMeta metaBytes, empty.isLeaf, empty.noKeys⟩
      · intro result last again
        refine btreeInitOn_present afterBacked.diskPageSize_eq
          afterBacked.coherent.wellFormed ?_ (by omega) again
        rw [store_pageSize]
        exact least

end Root

/-- A file of one page, and no page is free. -/
def onePagePager : Pager := pagerOpen 228 1 (List.replicate 228 0)

theorem onePagePager_checked :
    CheckedStore (diskOf onePagePager.toFilePager) [] ∧
      (btreeInitOn 3 onePagePager).map (fun out => (out.1, out.2.maxPage)) =
        some (.ok (), 2) ∧
      (btreeInitOn 2 onePagePager).map (fun out => (out.1, out.2.maxPage)) =
        some (.ok (), 2) := by
  decide +kernel

theorem onePagePager_backed :
    Backed 1 onePagePager (diskOf onePagePager.toFilePager) where
  coherent := by
    refine pagerOpen_coherent (by decide) (by decide) (by decide) ?_
    exact Nat.lt_of_le_of_lt (Nat.le_of_eq List.length_replicate) (by decide)
  view := rfl

/-- Page 2 is written where page 3 was asked for. -/
theorem root_created_elsewhere :
    Backed 1 onePagePager (diskOf onePagePager.toFilePager) ∧
      Store (diskOf onePagePager.toFilePager) [] ∧
      ∃ after, btreeInitOn 3 onePagePager = some (.ok (), after) ∧
        ¬ RootOpened onePagePager 3 after := by
  refine ⟨onePagePager_backed, onePagePager_checked.1.store, ?_⟩
  obtain ⟨⟨result, after⟩, ran, shown⟩ :=
    Option.map_eq_some_iff.mp onePagePager_checked.2.1
  obtain ⟨isOk, lastPage⟩ := Prod.mk.inj shown
  simp only at isOk lastPage
  subst isOk
  refine ⟨after, ran, fun root => ?_⟩
  have present := root.present
  omega

/-- Page 2 is opened, as the page behind the last one. -/
theorem root_created_behind :
    ∃ after, btreeInitOn 2 onePagePager = some (.ok (), after) ∧
      RootOpened onePagePager 2 after := by
  obtain ⟨⟨result, after⟩, ran, shown⟩ :=
    Option.map_eq_some_iff.mp onePagePager_checked.2.2
  obtain ⟨isOk, -⟩ := Prod.mk.inj shown
  simp only at isOk
  subst isOk
  exact ⟨after, ran,
    (rootOpened_iff onePagePager_backed onePagePager_checked.1.store ran).mpr
      (Or.inr ⟨rfl, by decide +kernel, by decide⟩)⟩

end BtreeDb
