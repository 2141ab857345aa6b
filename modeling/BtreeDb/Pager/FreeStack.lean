import BtreeDb.Pager.View

/-!
# The free list is a stack

`PageStack` says what the free list is for: a stack of page ids beside the
payloads of the pages.  A run of pushes, pops and new pages on the pager gives
the answers of the stack, and the chain in the file is the stack after every
step, as long as the pages that the run touches start below offset `2 ^ 31`.
Behind that a new page is lost, and with it the chain that goes through it.
-/

namespace BtreeDb

open Bytes

/-! ## The stack -/

structure PageStack where
  stack : List Nat
  maxPage : Nat
  payload : Nat → Option (List UInt8)

namespace PageStack

/-- The page that a new page gets: the top of the stack, or the page behind
the last one. -/
def newPage (state : PageStack) : Nat :=
  state.stack.headD (state.maxPage + 1)

/-- A page from 2 on that is not free. -/
def InUse (state : PageStack) (pageId : Nat) : Prop :=
  2 ≤ pageId ∧ pageId ≤ state.maxPage ∧ pageId ∉ state.stack

/-- Pages in use are freed, pages that exist are read, and only new pages are
written. -/
def Permits (diskPageSize : Nat) (state : PageStack) : PagerOp → Prop
  | .read pageId => pageId ≠ pageCreateNewPage ∧ pageId ≤ state.maxPage
  | .write page =>
      page.pageId = pageCreateNewPage ∧ page.Sized diskPageSize
  | .freelistPush pageId => state.InUse pageId
  | .freelistPushPage page =>
      state.InUse page.pageId ∧ page.Sized diskPageSize
  | .freelistPop => True

def step (state : PageStack) : PagerOp → PageStack
  | .read _ => state
  | .write page =>
      { stack := state.stack.tail
        maxPage := max state.maxPage state.newPage
        payload := fun other =>
          if other = state.newPage then some page.pageBuffer
          else state.payload other }
  | .freelistPush pageId => { state with stack := pageId :: state.stack }
  | .freelistPushPage page =>
      { state with
        stack := page.pageId :: state.stack
        payload := fun other =>
          if other = page.pageId then some page.pageBuffer
          else state.payload other }
  | .freelistPop => { state with stack := state.stack.tail }

/-- What a call on the stack has to give back. -/
def Answers (state : PageStack) : PagerOp → PagerOut → Prop
  | .read pageId, out =>
      out.result = .ok ∧
        out.page.map Page.pageBuffer = state.payload pageId
  | .write page, out =>
      out.result = .ok ∧
        out.page.map (fun written => (written.pageId, written.pageBuffer)) =
          some (state.newPage, page.pageBuffer)
  | .freelistPush _, out => out.result = .ok
  | .freelistPushPage _, out => out.result = .ok
  | .freelistPop, out =>
      match state.stack with
      | [] => out.result = .errNoFreePage
      | top :: _ => out.result = .ok ∧ out.pageId = some top

/-- The page that the call touches beside page 1 and the top of the stack
starts at an offset that an `int` holds. -/
def Reaches (diskPageSize : Nat) (state : PageStack) : PagerOp → Prop
  | .read pageId => InRange diskPageSize pageId
  | .write _ => InRange diskPageSize state.newPage
  | .freelistPush pageId => InRange diskPageSize pageId
  | .freelistPushPage page => InRange diskPageSize page.pageId
  | .freelistPop => True

/-! ## Runs of the stack -/

def run (state : PageStack) : List PagerOp → PageStack
  | [] => state
  | op :: ops => (state.step op).run ops

def PermitsRun (diskPageSize : Nat) (state : PageStack) :
    List PagerOp → Prop
  | [] => True
  | op :: ops =>
      state.Permits diskPageSize op ∧
        (state.step op).PermitsRun diskPageSize ops

def AnswersRun (state : PageStack) : List PagerOp → List PagerOut → Prop
  | [], [] => True
  | op :: ops, out :: outs =>
      state.Answers op out ∧ (state.step op).AnswersRun ops outs
  | _, _ => False

def ReachesRun (diskPageSize : Nat) (state : PageStack) :
    List PagerOp → Prop
  | [] => True
  | op :: ops =>
      state.Reaches diskPageSize op ∧
        (state.step op).ReachesRun diskPageSize ops

end PageStack

/-! ## The stack in the file -/

/-- The chain from page 1 is the stack, and the pages have the payloads. -/
structure ShowsStack (pager : FilePager) (state : PageStack) : Prop where
  store : Store (diskOf pager) state.stack
  maxPage_eq : pager.maxPage = state.maxPage
  payload_eq : ∀ pageId,
    (diskOf pager).buffer? pageId = state.payload pageId

/-- A run of calls answers as the stack does and leaves the stack in the file.
-/
def FreeListIsStack (capacity : Nat) (pager : Pager) (state : PageStack)
    (ops : List PagerOp) : Prop :=
  ∃ outs after, runPagerOps ops pager = some (outs, after) ∧
    state.AnswersRun ops outs ∧ Coherent capacity after ∧
    ShowsStack after.toFilePager (state.run ops)

variable {capacity : Nat}

/-- What one call preserves. -/
structure StackStep (capacity : Nat) (pager : Pager) (state : PageStack)
    (op : PagerOp) (out : PagerOut) (after : Pager) : Prop where
  runs : runPagerOp op pager = some (out, after)
  answers : state.Answers op out
  coherent : Coherent capacity after
  shows_ : ShowsStack after.toFilePager (state.step op)
  sameSize : after.diskPageSize = pager.diskPageSize

/-- A pager that shows a disk shows the stack that the disk shows. -/
theorem Backed.shows_ {after : Pager} {disk : Disk} {later : PageStack}
    (backed : Backed capacity after disk) (store : Store disk later.stack)
    (maxPage_eq : disk.maxPage = later.maxPage)
    (payload_eq : ∀ pageId, disk.buffer? pageId = later.payload pageId) :
    ShowsStack after.toFilePager later := by
  obtain ⟨_, view⟩ := backed
  refine ⟨view.symm ▸ store, ?_, fun pageId => view.symm ▸ payload_eq pageId⟩
  rw [← maxPage_eq, ← view, diskOf_maxPage]

section Step

variable {pager : Pager} {state : PageStack}
  (coherent : Coherent capacity pager)
  (shown : ShowsStack pager.toFilePager state)

include coherent

theorem Coherent.backed : Backed capacity pager (diskOf pager.toFilePager) :=
  ⟨coherent, rfl⟩

/-- There are far fewer pages than page ids. -/
theorem Coherent.room : pager.maxPage + 1 < pageIdLimit := by
  have wellFormed := coherent.wellFormed
  have metaFits := wellFormed.metaFits
  have fileFits := wellFormed.fileFits
  have enough : pager.file.length / pager.diskPageSize ≤
      pager.file.length / pagemetaSize :=
    Nat.div_le_div_left metaFits (by decide)
  rw [wellFormed.maxPage_eq]
  unfold pagemetaSize at enough
  unfold pageIdLimit
  omega

theorem Coherent.sized_iff (page : Page) :
    page.Sized pager.diskPageSize ↔
      page.metaBytes.length = pagemetaSize ∧
        page.pageBuffer.length = (diskOf pager.toFilePager).pageSize := by
  have sameSize := coherent.backed.diskPageSize_eq
  constructor
  · intro sized
    have metaSize := sized.metaBytes_length
    have whole := sized.diskBytes_length
    unfold Page.diskBytes at whole
    rw [List.length_append, metaSize] at whole
    exact ⟨metaSize, by omega⟩
  · rintro ⟨metaSize, bufferSize⟩
    refine ⟨metaSize, ?_⟩
    unfold Page.diskBytes
    rw [List.length_append]
    omega

include shown

theorem stackStep_read {pageId : Nat}
    (permitted : state.Permits pager.diskPageSize (.read pageId))
    (reach : state.Reaches pager.diskPageSize (.read pageId)) :
    ∃ out after, StackStep capacity pager state (.read pageId) out after := by
  have backed := coherent.backed
  have sameSize := backed.diskPageSize_eq
  have here : ((diskOf pager.toFilePager).page? pageId).isSome := by
    rw [page?_isSome_iff, diskOf_maxPage, shown.maxPage_eq]
    exact permitted
  obtain ⟨image, imageEq⟩ := Option.isSome_iff_exists.mp here
  have inRange : InRange ((diskOf pager.toFilePager).pageSize + pagemetaSize)
      pageId := by
    rw [← sameSize]
    exact reach
  obtain ⟨after, readEq, afterBacked⟩ := backed.read inRange imageEq
  have payload := shown.payload_eq pageId
  unfold Disk.buffer? at payload
  rw [imageEq] at payload
  refine ⟨⟨.ok, some ⟨pageId, image.metaBytes, image.pageBuffer⟩, none⟩, after,
    ⟨?_, ⟨rfl, payload⟩, afterBacked.coherent, ?_, ?_⟩⟩
  · simp only [runPagerOp, pagerReadPage]
    rw [PagerM.bind_some (PagerM.get_apply pager), PagerM.bind_some readEq]
    rfl
  · exact afterBacked.shows_ shown.store
      ((diskOf_maxPage _).trans shown.maxPage_eq) shown.payload_eq
  · rw [afterBacked.diskPageSize_eq, sameSize]

theorem stackStep_write {page : Page}
    (freeInRange : FreeInRange (diskOf pager.toFilePager) state.stack)
    (permitted : state.Permits pager.diskPageSize (.write page))
    (reach : state.Reaches pager.diskPageSize (.write page)) :
    ∃ out after, StackStep capacity pager state (.write page) out after := by
  obtain ⟨isNew, sized⟩ := permitted
  have backed := coherent.backed
  have sameSize := backed.diskPageSize_eq
  have sameMax : (diskOf pager.toFilePager).maxPage = state.maxPage :=
    (diskOf_maxPage _).trans shown.maxPage_eq
  have newEq : nextNewPage (diskOf pager.toFilePager) state.stack =
      state.newPage := by
    unfold nextNewPage PageStack.newPage
    rw [sameMax]
  obtain ⟨metaSize, bufferSize⟩ := (coherent.sized_iff page).mp sized
  have room : (diskOf pager.toFilePager).maxPage + 1 < pageIdLimit := by
    rw [diskOf_maxPage]
    exact coherent.room
  obtain ⟨after, writeEq, afterBacked⟩ := backed.writePage_new shown.store
    freeInRange isNew metaSize bufferSize
    (by rw [← sameSize, newEq]; exact reach)
  obtain ⟨metaBytes, disk, diskEq, -, store, diskSize, buffers, -, maxEq⟩ :=
    pagerWritePage_new shown.store isNew metaSize bufferSize fun _ => room
  rw [pagerWritePage_new_apply shown.store isNew fun _ => room] at diskEq
  obtain ⟨placedEq, rfl⟩ := Prod.mk.inj (Option.some.inj diskEq)
  refine ⟨⟨.ok, some (placedPage page state.newPage), none⟩, after,
    ⟨?_, ⟨rfl, rfl⟩, afterBacked.coherent, ?_, ?_⟩⟩
  · simp only [runPagerOp]
    rw [PagerM.bind_some writeEq, newEq]
    rfl
  · refine afterBacked.shows_ store ?_ ?_
    · rw [maxEq, sameMax]
      have inside := shown.store.free_le
      unfold PageStack.step PageStack.newPage
      cases stackEq : state.stack with
      | nil => simp
      | cons top rest =>
          rw [stackEq] at inside
          have topInside := (inside top List.mem_cons_self).2
          simp only [reduceCtorEq, if_false, List.headD_cons]
          omega
    · intro pageId
      rw [buffers, newEq, shown.payload_eq]
      rfl
  · rw [afterBacked.diskPageSize_eq, diskSize, sameSize]

theorem stackStep_freelistPop
    (freeInRange : FreeInRange (diskOf pager.toFilePager) state.stack) :
    ∃ out after, StackStep capacity pager state .freelistPop out after := by
  have backed := coherent.backed
  have sameSize := backed.diskPageSize_eq
  have sameMax : (diskOf pager.toFilePager).maxPage = state.maxPage :=
    (diskOf_maxPage _).trans shown.maxPage_eq
  cases stackEq : state.stack with
  | nil =>
      obtain ⟨after, popEq, afterBacked⟩ :=
        backed.freelistPop_empty shown.store stackEq
      refine ⟨⟨.errNoFreePage, none, some 0⟩, after,
        ⟨?_, ?_, afterBacked.coherent, ?_, ?_⟩⟩
      · simp only [runPagerOp]
        rw [PagerM.bind_some popEq]
        rfl
      · simp only [PageStack.Answers, stackEq]
      · refine afterBacked.shows_ ?_ sameMax shown.payload_eq
        have store := shown.store
        simp only [PageStack.step]
        rw [stackEq] at store ⊢
        exact store
      · rw [afterBacked.diskPageSize_eq, sameSize]
  | cons top rest =>
      obtain ⟨after, popEq, afterBacked⟩ :=
        backed.freelistPop_cons shown.store freeInRange stackEq
      refine ⟨⟨.ok, none, some top⟩, after,
        ⟨?_, ?_, afterBacked.coherent, ?_, ?_⟩⟩
      · simp only [runPagerOp]
        rw [PagerM.bind_some popEq]
        rfl
      · simp only [PageStack.Answers, stackEq, and_self]
      · refine afterBacked.shows_ ?_ ?_ ?_
        · have store := shown.store
          simp only [PageStack.step]
          rw [stackEq] at store ⊢
          exact store.pop
        · rw [setFirstFree_maxPage]
          exact sameMax
        · intro pageId
          rw [setFirstFree_buffer?]
          exact shown.payload_eq pageId
      · rw [afterBacked.diskPageSize_eq, setFirstFree_pageSize, sameSize]

/-- Freeing a page whose bytes are given. -/
theorem stackStep_push (page : Page) (inUse : state.InUse page.pageId)
    (metaSize : page.metaBytes.length = pagemetaSize)
    (bufferSize :
      page.pageBuffer.length = (diskOf pager.toFilePager).pageSize)
    {after : Pager} (afterBacked : Backed capacity after
      ((diskOf pager.toFilePager).afterPush page (state.stack.headD 0))) :
    Coherent capacity after ∧
      ShowsStack after.toFilePager (state.step (.freelistPushPage page)) ∧
      after.diskPageSize = pager.diskPageSize := by
  obtain ⟨second, inside, used⟩ := inUse
  have sameSize := coherent.backed.diskPageSize_eq
  have sameMax : (diskOf pager.toFilePager).maxPage = state.maxPage :=
    (diskOf_maxPage _).trans shown.maxPage_eq
  have numbered : page.pageId ≠ 0 := by omega
  have notFirst : page.pageId ≠ 1 := by omega
  have present : page.pageId ≤ (diskOf pager.toFilePager).maxPage := by omega
  refine ⟨afterBacked.coherent, afterBacked.shows_ ?_ ?_ ?_, ?_⟩
  · exact shown.store.push numbered notFirst present used metaSize bufferSize
  · rw [afterPush_maxPage present]
    exact sameMax
  · intro other
    rw [afterPush_buffer? numbered present, shown.payload_eq]
    rfl
  · rw [afterBacked.diskPageSize_eq, sameSize]
    unfold Disk.afterPush
    rw [store_pageSize, setFirstFree_pageSize]

theorem stackStep_freelistPushPage {page : Page}
    (permitted : state.Permits pager.diskPageSize (.freelistPushPage page))
    (reach : state.Reaches pager.diskPageSize (.freelistPushPage page)) :
    ∃ out after,
      StackStep capacity pager state (.freelistPushPage page) out after := by
  obtain ⟨inUse, sized⟩ := permitted
  have backed := coherent.backed
  have sameMax : (diskOf pager.toFilePager).maxPage = state.maxPage :=
    (diskOf_maxPage _).trans shown.maxPage_eq
  have second := inUse.1
  have inside := inUse.2.1
  obtain ⟨metaSize, bufferSize⟩ := (coherent.sized_iff page).mp sized
  obtain ⟨after, pushEq, afterBacked⟩ := backed.freelistPushPage shown.store
    page (by omega) (by omega)
    (by rw [← backed.diskPageSize_eq]; exact reach) metaSize bufferSize
  obtain ⟨afterCoherent, afterShows, sameSize⟩ :=
    stackStep_push coherent shown page inUse metaSize bufferSize afterBacked
  refine ⟨⟨.ok, some (freedPage page (state.stack.headD 0)), none⟩, after,
    ⟨?_, rfl, afterCoherent, afterShows, sameSize⟩⟩
  simp only [runPagerOp]
  rw [PagerM.bind_some pushEq]
  rfl

theorem stackStep_freelistPush {pageId : Nat}
    (inUse : state.InUse pageId)
    (reach : state.Reaches pager.diskPageSize (.freelistPush pageId)) :
    ∃ out after,
      StackStep capacity pager state (.freelistPush pageId) out after := by
  have backed := coherent.backed
  have sameMax : (diskOf pager.toFilePager).maxPage = state.maxPage :=
    (diskOf_maxPage _).trans shown.maxPage_eq
  have second := inUse.1
  have inside := inUse.2.1
  have here : ((diskOf pager.toFilePager).page? pageId).isSome := by
    rw [page?_isSome_iff]
    omega
  obtain ⟨image, imageEq⟩ := Option.isSome_iff_exists.mp here
  have sized := shown.store.sized pageId image imageEq
  have payload := shown.payload_eq pageId
  unfold Disk.buffer? at payload
  rw [imageEq] at payload
  obtain ⟨after, pushEq, afterBacked⟩ := backed.freelistPush shown.store
    (by rw [← backed.diskPageSize_eq]; exact reach) imageEq
  obtain ⟨afterCoherent, afterShows, sameSize⟩ :=
    stackStep_push coherent shown
      ⟨pageId, image.metaBytes, image.pageBuffer⟩ inUse sized.1 sized.2
      afterBacked
  refine ⟨⟨.ok, none, none⟩, after,
    ⟨?_, rfl, afterCoherent, ?_, sameSize⟩⟩
  · simp only [runPagerOp]
    rw [PagerM.bind_some pushEq]
    rfl
  · -- the page is written back with the payload that it has
    refine ⟨afterShows.store, afterShows.maxPage_eq, ?_⟩
    intro other
    rw [afterShows.payload_eq]
    simp only [PageStack.step]
    split
    · rename_i same
      rw [same]
      exact payload
    · rfl

theorem stackStep {op : PagerOp}
    (freeInRange : FreeInRange (diskOf pager.toFilePager) state.stack)
    (permitted : state.Permits pager.diskPageSize op)
    (reach : state.Reaches pager.diskPageSize op) :
    ∃ out after, StackStep capacity pager state op out after := by
  cases op with
  | read pageId => exact stackStep_read coherent shown permitted reach
  | write page =>
      exact stackStep_write coherent shown freeInRange permitted reach
  | freelistPush pageId =>
      exact stackStep_freelistPush coherent shown permitted reach
  | freelistPushPage page =>
      exact stackStep_freelistPushPage coherent shown permitted reach
  | freelistPop => exact stackStep_freelistPop coherent shown freeInRange

end Step

/-- Pages that are in range stay in range on the stack. -/
theorem stackInRange_step {diskPageSize : Nat} {state : PageStack}
    {op : PagerOp}
    (inRange : ∀ pageId ∈ state.stack, InRange diskPageSize pageId)
    (reach : state.Reaches diskPageSize op) :
    ∀ pageId ∈ (state.step op).stack, InRange diskPageSize pageId := by
  intro pageId member
  cases op with
  | read other => exact inRange pageId member
  | write page => exact inRange pageId (List.mem_of_mem_tail member)
  | freelistPush freed =>
      rcases List.mem_cons.mp member with rfl | old
      · exact reach
      · exact inRange pageId old
  | freelistPushPage page =>
      rcases List.mem_cons.mp member with rfl | old
      · exact reach
      · exact inRange pageId old
  | freelistPop => exact inRange pageId (List.mem_of_mem_tail member)

/-- Every run whose pages start below offset `2 ^ 31` is a run of the stack.
-/
theorem freeListIsStack_of_reachesRun {ops : List PagerOp} :
    ∀ {pager : Pager} {state : PageStack}, Coherent capacity pager →
      ShowsStack pager.toFilePager state →
      (∀ pageId ∈ state.stack, InRange pager.diskPageSize pageId) →
      state.PermitsRun pager.diskPageSize ops →
      state.ReachesRun pager.diskPageSize ops →
      FreeListIsStack capacity pager state ops := by
  induction ops with
  | nil =>
      intro pager state coherent shown _ _ _
      exact ⟨[], pager, rfl, trivial, coherent, shown⟩
  | cons op ops inductionHypothesis =>
      intro pager state coherent shown inRange permitted reach
      have freeInRange :
          FreeInRange (diskOf pager.toFilePager) state.stack := by
        unfold FreeInRange
        rw [← coherent.backed.diskPageSize_eq]
        exact inRange
      obtain ⟨out, middle, step⟩ :=
        stackStep coherent shown freeInRange permitted.1 reach.1
      have sameSize := step.sameSize
      obtain ⟨outs, after, runEq, answers, afterCoherent, afterShows⟩ :=
        inductionHypothesis step.coherent step.shows_
          (by rw [sameSize]; exact stackInRange_step inRange reach.1)
          (by rw [sameSize]; exact permitted.2)
          (by rw [sameSize]; exact reach.2)
      refine ⟨out :: outs, after, ?_, ⟨step.answers, answers⟩, afterCoherent,
        afterShows⟩
      unfold runPagerOps
      rw [PagerM.bind_some step.runs, PagerM.bind_some runEq]
      rfl

/-- What a pager shows whose first page names no free page. -/
def openedStack (pager : FilePager) : PageStack where
  stack := []
  maxPage := pager.maxPage
  payload := (diskOf pager).buffer?

theorem openedStack_shows {pager : Pager}
    (coherent : Coherent capacity pager) (first : pager.maxPage ≠ 0)
    (noFree : (diskOf pager.toFilePager).nextFree 1 = 0) :
    ShowsStack pager.toFilePager (openedStack pager.toFilePager) := by
  refine ⟨⟨?_, ?_, ?_, noFree, List.nodup_nil, List.not_mem_nil⟩, rfl,
    fun _ => rfl⟩
  · intro pageId image found
    have numbered := (page?_isSome_iff.mp
      (Option.isSome_iff_exists.mpr ⟨image, found⟩)).1
    rw [diskOf_page? coherent.wellFormed numbered] at found
    obtain ⟨bytes, bytesEq, rfl⟩ := Option.map_eq_some_iff.mp found
    have size := filePage_length bytesEq
    have metaFits := coherent.wellFormed.metaFits
    unfold imageOf diskOf
    simp only [List.length_take, List.length_drop]
    omega
  · have room := coherent.room
    rw [diskOf_maxPage]
    omega
  · rw [diskOf_maxPage]
    exact first

/-- Two pages, one freed and taken again by a new page, under a cache of one
page. -/
def retakenRun : List PagerOp :=
  [.freelistPush 2, .write (pageCreate 64), .write (pageCreate 64), .read 3,
    .freelistPushPage { pageCreate 64 with pageId := 3 }, .freelistPop,
    .freelistPop]

def twoPages : Pager := pagerOpen 64 1 (List.replicate 128 0)

theorem retaken_pages_stack :
    FreeListIsStack 1 twoPages (openedStack twoPages.toFilePager)
      retakenRun := by
  have coherent : Coherent 1 twoPages :=
    pagerOpen_coherent (by decide) (by decide) (by decide) (by decide +kernel)
  have blankSized : (pageCreate 64).Sized 64 := pageCreate_sized (by decide)
  have maxPageEq : twoPages.maxPage = 2 := by decide +kernel
  refine freeListIsStack_of_reachesRun coherent
    (openedStack_shows coherent (by decide +kernel) (by decide +kernel))
    (by intro pageId member; cases member) ?_ ?_
  · refine ⟨⟨by decide, by decide +kernel, List.not_mem_nil⟩, ⟨rfl, blankSized⟩,
      ⟨rfl, blankSized⟩, ⟨by decide, ?_⟩,
      ⟨⟨by decide, ?_, ?_⟩, blankSized.renumber 3⟩, trivial, trivial, trivial⟩
    all_goals
      simp [PageStack.step, PageStack.newPage, openedStack, maxPageEq]
  · have newPages : ∀ pageId, pageId ≤ 3 → InRange 64 pageId := by
      intro pageId small
      unfold InRange
      omega
    refine ⟨newPages 2 (by decide), newPages _ ?_, newPages _ ?_,
      newPages 3 (by decide), newPages 3 (by decide), trivial, trivial,
      trivial⟩
    all_goals
      simp [PageStack.step, PageStack.newPage, openedStack, maxPageEq]

end BtreeDb
