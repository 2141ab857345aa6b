import BtreeDb.Pager.CacheOrder

/-!
# The page cache refines direct file access

`Coherent` is the invariant of the cached pager: the cache is ordered, within
its capacity, unreferenced between calls, and every cached page holds the
bytes of its place in the file.  `Agrees` says that a pager call on the cached
pager gives the result of the same call on the file and keeps the invariant;
it is proved for the two primitives and carried through the calls built from
them.
-/

namespace BtreeDb

open Bytes

variable {capacity : Nat}

/-- The page starts at an offset that an `int` holds. -/
def InRange (diskPageSize pageId : Nat) : Prop :=
  diskPageSize * (pageId - 1) < 2 ^ 31

instance (diskPageSize pageId : Nat) :
    Decidable (InRange diskPageSize pageId) :=
  inferInstanceAs (Decidable (_ < _))

/-- The bytes of a page in the file, if the file reaches that far. -/
def filePage (pager : FilePager) (pageId : Nat) : Option (List UInt8) :=
  if pager.diskPageSize * (pageId - 1) + pager.diskPageSize ≤
      pager.file.length then
    some (slice pager.file (pager.diskPageSize * (pageId - 1))
      pager.diskPageSize)
  else
    none

/-- What the file pager itself maintains. -/
structure FilePager.WellFormed (pager : FilePager) : Prop where
  metaFits : pagemetaSize ≤ pager.diskPageSize
  sizeFits : pager.diskPageSize < 2 ^ 31
  fileFits : pager.file.length < 2 ^ 32
  maxPage_eq : pager.maxPage = pager.file.length / pager.diskPageSize

/-- The invariant of the cached pager between calls. -/
structure Coherent (capacity : Nat) (pager : Pager) : Prop where
  wellFormed : pager.toFilePager.WellFormed
  capacity_eq : pager.cache.capacity = capacity
  ordered : pager.cache.Ordered
  unused : ∀ key ∈ pager.cache.pages, key.ref = 0
  numbered : ∀ key ∈ pager.cache.pages, key.pageId ≠ pageCreateNewPage
  inRange : ∀ key ∈ pager.cache.pages,
    InRange pager.diskPageSize key.pageId
  fresh : ∀ key ∈ pager.cache.pages,
    key.page.pageId = key.pageId ∧
      filePage pager.toFilePager key.pageId = some key.page.diskBytes

/-! ## Places in the file -/

theorem pageOffset_of_inRange {diskPageSize pageId : Nat}
    (notNew : pageId ≠ pageCreateNewPage)
    (inRange : InRange diskPageSize pageId) :
    pageOffset diskPageSize pageId =
      ((diskPageSize * (pageId - 1) : Nat) : Int) := by
  have notZero : pageId ≠ 0 := notNew
  unfold InRange at inRange
  unfold pageOffset asInt u32Pred
  rw [if_neg notZero, Nat.mod_eq_of_lt (by omega), if_pos inRange]

theorem inRange_one (diskPageSize : Nat) : InRange diskPageSize 1 := by
  simp [InRange]

/-- Ids in range stay below `2 ^ 31`, where `int` and `u32` agree. -/
theorem InRange.lt {diskPageSize pageId : Nat}
    (large : pagemetaSize ≤ diskPageSize)
    (inRange : InRange diskPageSize pageId) : pageId < 2 ^ 31 := by
  have scaled : pagemetaSize * (pageId - 1) ≤ diskPageSize * (pageId - 1) :=
    Nat.mul_le_mul_right _ large
  unfold InRange at inRange
  simp only [pagemetaSize] at scaled
  omega

/-- Different places do not overlap. -/
theorem pagePlaces_disjoint (diskPageSize : Nat) {left right : Nat}
    (leftPage : left ≠ 0) (rightPage : right ≠ 0) (different : left ≠ right) :
    diskPageSize * (left - 1) + diskPageSize ≤ diskPageSize * (right - 1) ∨
      diskPageSize * (right - 1) + diskPageSize ≤
        diskPageSize * (left - 1) := by
  rcases Nat.lt_or_gt_of_ne different with less | greater
  · left
    rw [← Nat.mul_succ]
    exact Nat.mul_le_mul_left _ (by omega)
  · right
    rw [← Nat.mul_succ]
    exact Nat.mul_le_mul_left _ (by omega)

@[simp]
theorem withDiskBytes_diskBytes (page : Page) (bytes : List UInt8) :
    (page.withDiskBytes bytes).diskBytes = bytes :=
  List.take_append_drop _ _

@[simp]
theorem withDiskBytes_pageId (page : Page) (bytes : List UInt8) :
    (page.withDiskBytes bytes).pageId = page.pageId := rfl

theorem Page.diskBytes_renumber (page : Page) (pageId : Nat) :
    ({ page with pageId := pageId } : Page).diskBytes = page.diskBytes := rfl

/-! ## The file after a read or a write -/

theorem opsRead_place (file : List UInt8) (place readSize : Nat) :
    opsRead file (place : Int) readSize =
      if place + readSize ≤ file.length then
        (.ok, slice file place readSize)
      else (.readErr, []) := by
  unfold opsRead
  rw [if_neg (Int.not_lt.mpr (Int.natCast_nonneg _)), Int.toNat_natCast]

theorem opsWrite_place (file data : List UInt8) (place : Nat) :
    opsWrite file (place : Int) data =
      splice (file ++ List.replicate (place - file.length) 0) place data := by
  unfold opsWrite
  rw [if_neg (Int.not_lt.mpr (Int.natCast_nonneg _)), Int.toNat_natCast]

theorem pagerInternalRead_present {pager : FilePager} {pageId : Nat}
    {bytes : List UInt8} (notNew : pageId ≠ pageCreateNewPage)
    (inRange : InRange pager.diskPageSize pageId)
    (present : filePage pager pageId = some bytes) (page : Page) :
    pagerInternalRead pager pageId page =
      (.ok, { page.withDiskBytes bytes with pageId := pageId }) := by
  unfold filePage at present
  split at present
  · rename_i inside
    unfold pagerInternalRead
    rw [pageOffset_of_inRange notNew inRange, opsRead_place, if_pos inside,
      Option.some.inj present]
  · cases present

theorem pagerInternalRead_absent {pager : FilePager} {pageId : Nat}
    (notNew : pageId ≠ pageCreateNewPage)
    (inRange : InRange pager.diskPageSize pageId)
    (absent : filePage pager pageId = none) (page : Page) :
    pagerInternalRead pager pageId page =
      (.readErr, { page with pageId := pageId }) := by
  unfold filePage at absent
  split at absent
  · cases absent
  · rename_i outside
    unfold pagerInternalRead
    rw [pageOffset_of_inRange notNew inRange, opsRead_place, if_neg outside]

section Write

variable {pager : FilePager} {page : Page}
  (notNew : page.pageId ≠ pageCreateNewPage)
  (inRange : InRange pager.diskPageSize page.pageId)
  (size : page.diskBytes.length = pager.diskPageSize)

include notNew inRange

/-- The page's bytes at the page's place, zeros in a hole before it. -/
theorem pagerInternalWrite_file :
    (pagerInternalWrite pager page).file =
      splice
        (pager.file ++ List.replicate
          (pager.diskPageSize * (page.pageId - 1) - pager.file.length) 0)
        (pager.diskPageSize * (page.pageId - 1)) page.diskBytes := by
  simp only [pagerInternalWrite]
  rw [pageOffset_of_inRange notNew inRange, opsWrite_place]

include size

theorem pagerInternalWrite_file_length :
    (pagerInternalWrite pager page).file.length =
      max pager.file.length
        (pager.diskPageSize * (page.pageId - 1) + pager.diskPageSize) := by
  rw [pagerInternalWrite_file notNew inRange]
  simp only [splice, List.length_append, List.length_take, List.length_drop,
    List.length_replicate, size]
  omega

theorem filePage_write_same :
    filePage (pagerInternalWrite pager page) page.pageId =
      some page.diskBytes := by
  have newLength := pagerInternalWrite_file_length notNew inRange size
  have sameSize : (pagerInternalWrite pager page).diskPageSize =
    pager.diskPageSize := rfl
  unfold filePage
  rw [sameSize, if_pos (by omega), pagerInternalWrite_file notNew inRange]
  generalize pager.diskPageSize * (page.pageId - 1) = place
  rw [← size]
  congr 1
  unfold slice splice
  rw [List.append_assoc, List.drop_append_of_le_length (by simp; omega),
    List.drop_eq_nil_of_le (by simp), List.nil_append, List.take_left]

theorem filePage_write_other {pageId : Nat} {bytes : List UInt8}
    (otherNumbered : pageId ≠ pageCreateNewPage)
    (different : pageId ≠ page.pageId)
    (present : filePage pager pageId = some bytes) :
    filePage (pagerInternalWrite pager page) pageId = some bytes := by
  have newLength := pagerInternalWrite_file_length notNew inRange size
  have sameSize : (pagerInternalWrite pager page).diskPageSize =
    pager.diskPageSize := rfl
  have apart := pagePlaces_disjoint pager.diskPageSize otherNumbered notNew
    different
  unfold filePage at present ⊢
  split at present
  · rename_i inside
    rw [sameSize, if_pos (by omega), pagerInternalWrite_file notNew inRange,
      ← present]
    congr 1
    generalize pager.diskPageSize * (page.pageId - 1) = place at apart ⊢
    generalize pager.diskPageSize * (pageId - 1) = otherPlace at apart inside ⊢
    apply List.ext_getElem?
    intro index
    rw [slice_getElem?, slice_getElem?]
    by_cases inPage : index < pager.diskPageSize
    · rw [if_pos inPage, if_pos inPage]
      unfold splice
      rcases apart with before | after
      · rw [List.append_assoc, List.getElem?_append_left (by simp; omega),
          List.getElem?_take_of_lt (by omega),
          List.getElem?_append_left (by omega)]
      · have noHole : place - pager.file.length = 0 := by omega
        rw [noHole, List.replicate_zero, List.append_nil,
          List.getElem?_append_right (by simp; omega), List.getElem?_drop]
        congr 1
        simp
        omega
    · rw [if_neg inPage, if_neg inPage]
  · cases present

theorem pagerInternalWrite_wellFormed (wellFormed : pager.WellFormed) :
    (pagerInternalWrite pager page).WellFormed := by
  have newLength := pagerInternalWrite_file_length notNew inRange size
  have metaFits := wellFormed.metaFits
  have sizeFits := wellFormed.sizeFits
  have fileFits := wellFormed.fileFits
  have maxPage_eq := wellFormed.maxPage_eq
  have notZero : page.pageId ≠ 0 := notNew
  unfold InRange at inRange
  have positive : 0 < pager.diskPageSize := by
    simp only [pagemetaSize] at metaFits
    omega
  have placeEnd : pager.diskPageSize * (page.pageId - 1) +
      pager.diskPageSize = pager.diskPageSize * page.pageId := by
    rw [← Nat.mul_succ]
    congr 1
    omega
  refine ⟨metaFits, sizeFits, ?_, ?_⟩
  · rw [newLength]
    omega
  · have maxEq : (pagerInternalWrite pager page).maxPage =
      if page.pageId > pager.maxPage then page.pageId else pager.maxPage := rfl
    have sameSize : (pagerInternalWrite pager page).diskPageSize =
      pager.diskPageSize := rfl
    rw [maxEq, newLength, placeEnd, sameSize, maxPage_eq]
    by_cases grows : page.pageId > pager.file.length / pager.diskPageSize
    · have longer : pager.file.length < pager.diskPageSize * page.pageId := by
        rw [Nat.mul_comm]
        exact (Nat.div_lt_iff_lt_mul positive).mp grows
      rw [if_pos grows, Nat.max_eq_right (Nat.le_of_lt longer),
        Nat.mul_div_cancel_left _ positive]
    · have inside : pager.diskPageSize * page.pageId ≤ pager.file.length := by
        rw [Nat.mul_comm]
        exact (Nat.le_div_iff_mul_le positive).mp (by omega)
      rw [if_neg grows, Nat.max_eq_left inside]

end Write

/-! ## Agreement of the two pagers -/

/-- The call on the cached pager and the call on the file fail together, or
give one result and end on one file, with the cache coherent and `post`
true of the result and the pager after the call. -/
def Agrees {α : Type} (capacity : Nat) (pager : Pager) (cached : PagerM Pager α)
    (direct : PagerM FilePager α) (post : α → Pager → Prop) : Prop :=
  match cached pager, direct pager.toFilePager with
  | some (result, after), some (expected, file) =>
      result = expected ∧ after.toFilePager = file ∧ Coherent capacity after ∧
        post result after
  | none, none => True
  | _, _ => False

theorem Agrees.pure {α : Type} {pager : Pager} {result : α}
    {post : α → Pager → Prop} (coherent : Coherent capacity pager)
    (holds : post result pager) :
    Agrees capacity pager (pure result) (pure result) post :=
  ⟨rfl, rfl, coherent, holds⟩

theorem Agrees.bind {α β : Type} {pager : Pager} {cached : PagerM Pager α}
    {direct : PagerM FilePager α} {cachedNext : α → PagerM Pager β}
    {directNext : α → PagerM FilePager β} {mid : α → Pager → Prop}
    {post : β → Pager → Prop} (first : Agrees capacity pager cached direct mid)
    (next : ∀ result after, Coherent capacity after → mid result after →
      Agrees capacity after (cachedNext result) (directNext result) post) :
    Agrees capacity pager (cached >>= cachedNext) (direct >>= directNext) post := by
  unfold Agrees at first ⊢
  simp only [Bind.bind, StateT.bind]
  cases cachedEq : cached pager with
  | none =>
      cases directEq : direct pager.toFilePager with
      | none => trivial
      | some expected =>
          rw [cachedEq, directEq] at first
          exact first.elim
  | some outcome =>
      cases directEq : direct pager.toFilePager with
      | none =>
          rw [cachedEq, directEq] at first
          exact first.elim
      | some expected =>
          rw [cachedEq, directEq] at first
          obtain ⟨result, after⟩ := outcome
          obtain ⟨expectedResult, file⟩ := expected
          obtain ⟨rfl, rfl, coherent, holds⟩ := first
          exact next result after coherent holds

/-- The result and the file are those of the call on the file. -/
theorem Agrees.map_eq {α : Type} {pager : Pager} {cached : PagerM Pager α}
    {direct : PagerM FilePager α} {post : α → Pager → Prop}
    (agrees : Agrees capacity pager cached direct post) :
    (cached pager).map (fun run => (run.1, run.2.toFilePager)) =
      direct pager.toFilePager := by
  unfold Agrees at agrees
  cases cachedEq : cached pager with
  | none =>
      cases directEq : direct pager.toFilePager with
      | none => rfl
      | some expected =>
          rw [cachedEq, directEq] at agrees
          exact agrees.elim
  | some outcome =>
      cases directEq : direct pager.toFilePager with
      | none =>
          rw [cachedEq, directEq] at agrees
          exact agrees.elim
      | some expected =>
          rw [cachedEq, directEq] at agrees
          obtain ⟨result, after⟩ := outcome
          obtain ⟨expectedResult, file⟩ := expected
          obtain ⟨rfl, rfl, _⟩ := agrees
          rfl

theorem Agrees.after_coherent {α : Type} {pager after : Pager} {result : α}
    {cached : PagerM Pager α} {direct : PagerM FilePager α}
    {post : α → Pager → Prop}
    (agrees : Agrees capacity pager cached direct post)
    (cachedEq : cached pager = some (result, after)) :
    Coherent capacity after ∧ post result after := by
  have directEq := agrees.map_eq
  rw [cachedEq] at directEq
  unfold Agrees at agrees
  rw [cachedEq, ← directEq] at agrees
  exact agrees.2.2

theorem Agrees.result_eq {α : Type} {pager : Pager} {cached : PagerM Pager α}
    {direct : PagerM FilePager α} {post : α → Pager → Prop}
    (agrees : Agrees capacity pager cached direct post) :
    Agrees capacity pager cached direct fun result after =>
      direct pager.toFilePager = some (result, after.toFilePager) ∧
        post result after := by
  have sameResult := agrees.map_eq
  unfold Agrees
  cases cachedEq : cached pager with
  | none =>
      rw [cachedEq] at sameResult
      rw [← sameResult]
      trivial
  | some outcome =>
      have after := agrees.after_coherent cachedEq
      rw [cachedEq] at sameResult
      rw [← sameResult]
      exact ⟨rfl, rfl, after.1, rfl, after.2⟩

/-- A call may depend on what both pagers see of their own state. -/
theorem Agrees.get {α : Type} {pager : Pager} {cached : Pager → PagerM Pager α}
    {direct : FilePager → PagerM FilePager α} {post : α → Pager → Prop}
    (next : Agrees capacity pager (cached pager) (direct pager.toFilePager) post) :
    Agrees capacity pager (MonadState.get >>= cached) (MonadState.get >>= direct)
      post :=
  next

theorem Agrees.assert {α : Type} {pager : Pager} {condition : Bool}
    {cached : PagerM Pager α} {direct : PagerM FilePager α}
    {post : α → Pager → Prop}
    (next : condition = true → Agrees capacity pager cached direct post) :
    Agrees capacity pager (cAssert condition >>= fun _ => cached)
      (cAssert condition >>= fun _ => direct) post := by
  cases condition with
  | true => exact next rfl
  | false => trivial

/-! ## Page sizes -/

/-- A page of the pager's disk page size, as `page_create` makes it. -/
structure Page.Sized (diskPageSize : Nat) (page : Page) : Prop where
  metaBytes_length : page.metaBytes.length = pagemetaSize
  diskBytes_length : page.diskBytes.length = diskPageSize

theorem pageCreate_sized {diskPageSize : Nat}
    (metaFits : pagemetaSize ≤ diskPageSize) :
    (pageCreate diskPageSize).Sized diskPageSize := by
  refine ⟨by simp [pageCreate], ?_⟩
  simp only [Page.diskBytes, pageCreate, List.length_append,
    List.length_replicate]
  omega

theorem Page.Sized.pagemetaWrite {diskPageSize : Nat} {page : Page}
    (sized : page.Sized diskPageSize) (pageMeta : PageMetadata) :
    (pagemetaWrite page pageMeta).Sized diskPageSize := by
  have metaLength := pagemetaWrite_metaBytes_length sized.metaBytes_length
    pageMeta
  refine ⟨metaLength, ?_⟩
  have whole := sized.diskBytes_length
  have oldLength := sized.metaBytes_length
  simp only [Page.diskBytes, List.length_append, pagemetaWrite_pageBuffer]
    at whole ⊢
  omega

theorem Page.Sized.renumber {diskPageSize : Nat} {page : Page}
    (sized : page.Sized diskPageSize) (pageId : Nat) :
    ({ page with pageId := pageId } : Page).Sized diskPageSize :=
  ⟨sized.metaBytes_length, sized.diskBytes_length⟩

theorem withDiskBytes_sized {diskPageSize : Nat} (page : Page)
    {bytes : List UInt8} (metaFits : pagemetaSize ≤ diskPageSize)
    (length : bytes.length = diskPageSize) :
    (page.withDiskBytes bytes).Sized diskPageSize := by
  refine ⟨?_, by rw [withDiskBytes_diskBytes, length]⟩
  simp only [Page.withDiskBytes, List.length_take]
  omega

theorem filePage_length {pager : FilePager} {pageId : Nat}
    {bytes : List UInt8} (present : filePage pager pageId = some bytes) :
    bytes.length = pager.diskPageSize := by
  unfold filePage at present
  split at present
  · rename_i inside
    rw [← Option.some.inj present, slice_length inside]
  · cases present

/-! ## The primitives -/

theorem fileRead_eq {pager : FilePager} {pageId : Nat}
    (notNew : pageId ≠ pageCreateNewPage)
    (inRange : InRange pager.diskPageSize pageId) (page : Page) :
    fileRead pageId page pager =
      some (match filePage pager pageId with
        | some bytes =>
            (.ok, { page.withDiskBytes bytes with pageId := pageId })
        | none => (.errNif, { page with pageId := pageId }), pager) := by
  have numbered : (pageId != pageCreateNewPage) = true := by
    simpa using notNew
  unfold fileRead
  simp only [cAssert, numbered, if_true, pure_bind]
  cases present : filePage pager pageId with
  | some bytes =>
      have readEq := pagerInternalRead_present notNew inRange present
        (pageCreate pager.diskPageSize)
      simp only [Bind.bind, StateT.bind, get, getThe, MonadStateOf.get,
        StateT.get, pure, PagerM.pure_state, Option.bind_some, readEq,
        reduceCtorEq, if_false]
      rw [Page.diskBytes_renumber, withDiskBytes_diskBytes]
  | none =>
      have readEq := pagerInternalRead_absent notNew inRange present
        (pageCreate pager.diskPageSize)
      simp only [Bind.bind, StateT.bind, get, getThe, MonadStateOf.get,
        StateT.get, pure, PagerM.pure_state, Option.bind_some, readEq, if_true]

section Primitives

variable {pager : Pager} (coherent : Coherent capacity pager)

include coherent

theorem cachedRead_hit {key : PageCacheKey} (member : key ∈ pager.cache.pages)
    (page : Page) :
    pagerInternalCachedRead key.pageId page pager =
      some ((.ok, { page.withDiskBytes key.page.diskBytes with
        pageId := key.pageId }), pager) := by
  obtain ⟨index, found, here⟩ := findInCache_member coherent.ordered member
  obtain ⟨acquired, acquireEq, releaseEq⟩ :=
    pageCacheRelease_acquire found here (coherent.unused key member)
  have numbered : (key.pageId != pageCreateNewPage) = true := by
    simpa using coherent.numbered key member
  have sameId := (coherent.fresh key member).1
  unfold pagerInternalCachedRead
  simp only [cAssert, numbered, if_true, pure_bind]
  simp only [Bind.bind, StateT.bind, get, getThe, MonadStateOf.get, StateT.get,
    pure, PagerM.pure_state, Option.bind_some, acquireEq, sameId, releaseEq, set,
    PagerM.set_state]

section Miss

variable {pageId : Nat}
  (absent : ∀ key ∈ pager.cache.pages, key.pageId ≠ pageId)
  (notNew : pageId ≠ pageCreateNewPage)
  (inRange : InRange pager.diskPageSize pageId)

include absent notNew inRange

theorem cachedRead_miss_absent (page : Page)
    (notInFile : filePage pager.toFilePager pageId = none) :
    pagerInternalCachedRead pageId page pager =
      some ((.errNif, { page with pageId := pageId }), pager) := by
  obtain ⟨index, _, notFound, _, _⟩ :=
    findInCache_absent coherent.ordered absent
  have numbered : (pageId != pageCreateNewPage) = true := by
    simpa using notNew
  have readEq := pagerInternalRead_absent notNew inRange notInFile
    (pageCreate pager.diskPageSize)
  unfold pagerInternalCachedRead
  simp only [cAssert, numbered, if_true, pure_bind]
  simp only [Bind.bind, StateT.bind, get, getThe, MonadStateOf.get, StateT.get,
    pure, PagerM.pure_state, Option.bind_some, pageCacheAcquire_absent notFound,
    readEq, if_true]

theorem cachedRead_miss_present (page : Page) {bytes : List UInt8}
    (inFile : filePage pager.toFilePager pageId = some bytes) :
    ∃ cache, pagerInternalCachedRead pageId page pager =
        some ((.ok, { page.withDiskBytes bytes with pageId := pageId }),
          { pager with cache := cache }) ∧
      Coherent capacity { pager with cache := cache } := by
  obtain ⟨index, _, notFound, _, _⟩ :=
    findInCache_absent coherent.ordered absent
  have numbered : (pageId != pageCreateNewPage) = true := by
    simpa using notNew
  have readEq := pagerInternalRead_present notNew inRange inFile
    (pageCreate pager.diskPageSize)
  have metaFits := coherent.wellFormed.metaFits
  obtain ⟨inserted, after, insertEq, releaseEq, ordered, sameCapacity, members⟩ :=
    pageCacheInsert_release
      { (pageCreate pager.diskPageSize).withDiskBytes bytes with
        pageId := pageId }
      coherent.ordered coherent.unused
      (fun key member => (coherent.inRange key member).lt metaFits)
      absent notNew (inRange.lt metaFits)
  refine ⟨after, ?_, ?_⟩
  · unfold pagerInternalCachedRead
    simp only [cAssert, numbered, if_true, pure_bind]
    simp only [Bind.bind, StateT.bind, get, getThe, MonadStateOf.get,
      StateT.get, pure, PagerM.pure_state, Option.bind_some,
      pageCacheAcquire_absent notFound, readEq, reduceCtorEq, if_false,
      insertEq, StateT.lift, set, PagerM.set_state,
      releaseEq]
    rw [Page.diskBytes_renumber, withDiskBytes_diskBytes]
  · refine ⟨coherent.wellFormed, sameCapacity.trans coherent.capacity_eq,
      ordered, ?_, ?_, ?_, ?_⟩
    · intro key member
      rcases members key member with old | rfl
      · exact coherent.unused key old
      · rfl
    · intro key member
      rcases members key member with old | rfl
      · exact coherent.numbered key old
      · exact notNew
    · intro key member
      rcases members key member with old | rfl
      · exact coherent.inRange key old
      · exact inRange
    · intro key member
      rcases members key member with old | rfl
      · exact coherent.fresh key old
      · exact ⟨rfl, by
          rw [Page.diskBytes_renumber, withDiskBytes_diskBytes]
          exact inFile⟩

end Miss

/-- Reading leaves the file alone and gives a page of the same size, on
success with the bytes of the page's place. -/
theorem agrees_cachedRead {pageId : Nat} {page : Page}
    (inRange : InRange pager.diskPageSize pageId)
    (sized : page.Sized pager.diskPageSize) :
    Agrees capacity pager ( PageIO.cachedRead pageId page)
      ( PageIO.cachedRead pageId page) fun outcome after =>
        after.toFilePager = pager.toFilePager ∧
          pageId ≠ pageCreateNewPage ∧ outcome.2.pageId = pageId ∧
          outcome.2.Sized pager.diskPageSize ∧
          (outcome.1 = .ok ∧ filePage pager.toFilePager pageId =
              some outcome.2.diskBytes ∨
            outcome.1 = .errNif) := by
  by_cases notNew : pageId = pageCreateNewPage
  · subst notNew
    trivial
  have metaFits := coherent.wellFormed.metaFits
  unfold Agrees
  simp only [ PageIO.cachedRead]
  rw [fileRead_eq notNew inRange]
  by_cases cached : ∃ key ∈ pager.cache.pages, key.pageId = pageId
  · obtain ⟨key, member, rfl⟩ := cached
    have fresh := (coherent.fresh key member).2
    rw [cachedRead_hit coherent member, fresh]
    exact ⟨rfl, rfl, coherent, rfl, notNew, rfl,
      (withDiskBytes_sized page metaFits (filePage_length fresh)).renumber _,
      Or.inl ⟨rfl, congrArg some (withDiskBytes_diskBytes page _).symm⟩⟩
  · have absent : ∀ key ∈ pager.cache.pages, key.pageId ≠ pageId :=
      fun key member same => cached ⟨key, member, same⟩
    cases inFile : filePage pager.toFilePager pageId with
    | none =>
        rw [cachedRead_miss_absent coherent absent notNew inRange page inFile]
        exact ⟨rfl, rfl, coherent, rfl, notNew, rfl, sized.renumber _,
          Or.inr rfl⟩
    | some bytes =>
        obtain ⟨cache, readEq, after⟩ := cachedRead_miss_present coherent
          absent notNew inRange page inFile
        rw [readEq]
        exact ⟨rfl, rfl, after, rfl, notNew, rfl,
          (withDiskBytes_sized page metaFits
            (filePage_length inFile)).renumber _,
          Or.inl ⟨rfl, congrArg some (withDiskBytes_diskBytes page _).symm⟩⟩

/-- A write reaches the file and the cached copy, if there is one. -/
theorem agrees_cachedWrite {page : Page}
    (notNew : page.pageId ≠ pageCreateNewPage)
    (inRange : InRange pager.diskPageSize page.pageId)
    (sized : page.Sized pager.diskPageSize) :
    Agrees capacity pager ( PageIO.cachedWrite page) ( PageIO.cachedWrite page)
      fun result after => result = .ok ∧
        after.toFilePager = pagerInternalWrite pager.toFilePager page := by
  have size := sized.diskBytes_length
  have wellFormed := pagerInternalWrite_wellFormed notNew inRange size
    coherent.wellFormed
  by_cases cached : ∃ key ∈ pager.cache.pages, key.pageId = page.pageId
  · obtain ⟨key, member, sameId⟩ := cached
    obtain ⟨index, found, here⟩ := findInCache_member coherent.ordered member
    rw [sameId] at found
    obtain ⟨acquired, acquireEq, releaseEq⟩ := pageCacheRelease_store found here
      (coherent.unused key member) page.diskBytes
    have keyPageId := (coherent.fresh key member).1
    have writeEq : pagerInternalCachedWrite page pager =
        some (.ok, { pagerInternalWrite pager.toFilePager page with
          cache := { pager.cache with
            pages := pager.cache.pages.set index
              { key with page := key.page.withDiskBytes page.diskBytes } } }) := by
      simp only [pagerInternalCachedWrite, Bind.bind, StateT.bind, get, getThe,
        MonadStateOf.get, StateT.get, pure, PagerM.pure_state, Option.bind_some,
        acquireEq, keyPageId, sameId, releaseEq, set, PagerM.set_state]
    unfold Agrees
    simp only [ PageIO.cachedWrite]
    rw [writeEq]
    refine ⟨rfl, rfl, ?_, rfl, rfl⟩
    -- the slot at `index` holds the new bytes, the others other pages
    have slots : ∀ slot ∈ pager.cache.pages.set index
        { key with page := key.page.withDiskBytes page.diskBytes },
        slot = { key with page := key.page.withDiskBytes page.diskBytes } ∨
          slot ∈ pager.cache.pages ∧ slot.pageId ≠ key.pageId :=
      mem_set_slot coherent.ordered.sorted here
    refine ⟨wellFormed, coherent.capacity_eq,
      ⟨coherent.ordered.capacity_pos, ?_, ?_⟩, ?_, ?_, ?_, ?_⟩
    · have sorted := coherent.ordered.sorted
      rw [← List.pairwise_map] at sorted ⊢
      rwa [pageIds_set here]
      rfl
    · simpa using coherent.ordered.room
    · intro slot slotMember
      rcases slots slot slotMember with rfl | ⟨old, _⟩
      · exact coherent.unused key member
      · exact coherent.unused slot old
    · intro slot slotMember
      rcases slots slot slotMember with rfl | ⟨old, _⟩
      · exact coherent.numbered key member
      · exact coherent.numbered slot old
    · intro slot slotMember
      rcases slots slot slotMember with rfl | ⟨old, _⟩
      · exact coherent.inRange key member
      · exact coherent.inRange slot old
    · intro slot slotMember
      rcases slots slot slotMember with rfl | ⟨old, different⟩
      · refine ⟨keyPageId, ?_⟩
        rw [withDiskBytes_diskBytes, ← filePage_write_same notNew inRange size]
        simp only [sameId]
      · refine ⟨(coherent.fresh slot old).1, ?_⟩
        rw [sameId] at different
        exact filePage_write_other notNew inRange size
          (coherent.numbered slot old) different (coherent.fresh slot old).2
  · have absent : ∀ key ∈ pager.cache.pages, key.pageId ≠ page.pageId :=
      fun key member same => cached ⟨key, member, same⟩
    obtain ⟨index, _, notFound, _, _⟩ :=
      findInCache_absent coherent.ordered absent
    have writeEq : pagerInternalCachedWrite page pager =
        some (.ok, { pagerInternalWrite pager.toFilePager page with
          cache := pager.cache }) := by
      simp only [pagerInternalCachedWrite, Bind.bind, StateT.bind, get, getThe,
        MonadStateOf.get, StateT.get, pure, PagerM.pure_state, Option.bind_some,
        pageCacheAcquire_absent notFound, set, PagerM.set_state]
    unfold Agrees
    simp only [ PageIO.cachedWrite]
    rw [writeEq]
    refine ⟨rfl, rfl, ⟨wellFormed, coherent.capacity_eq, coherent.ordered,
      coherent.unused, coherent.numbered, coherent.inRange, ?_⟩, rfl, rfl⟩
    intro key member
    refine ⟨(coherent.fresh key member).1, ?_⟩
    exact filePage_write_other notNew inRange size
      (coherent.numbered key member) (absent key member)
      (coherent.fresh key member).2

end Primitives

/-! ## The calls -/

/-- The first page of the free list, `0` when there is none. -/
def freelistHead (pager : FilePager) : Nat :=
  match filePage pager 1 with
  | some bytes =>
      (pagemetaRead
        ((pageCreate pager.diskPageSize).withDiskBytes bytes)).nextFreePage
  | none => 0

theorem freelistHead_eq {pager : FilePager} {page : Page}
    (sized : page.Sized pager.diskPageSize)
    (present : filePage pager 1 = some page.diskBytes) :
    freelistHead pager = (pagemetaRead page).nextFreePage := by
  unfold freelistHead
  rw [present]
  have metaBytes : page.diskBytes.take pagemetaSize = page.metaBytes := by
    rw [Page.diskBytes, List.take_left' sized.metaBytes_length]
  simp only [pagemetaRead, Page.withDiskBytes, metaBytes]

/-- The page a write goes to: its own, or the one it is going to get. -/
def writePlace (pager : FilePager) (page : Page) : Nat :=
  if page.pageId = pageCreateNewPage then
    if pager.maxPage = 0 then 1
    else if freelistHead pager = 0 then pager.maxPage + 1
    else freelistHead pager
  else
    page.pageId

section Calls

variable {pager : Pager} (coherent : Coherent capacity pager)

include coherent

theorem agrees_freelistPop
    (inRange : InRange pager.diskPageSize (freelistHead pager.toFilePager)) :
    Agrees capacity pager pagerFreelistPop pagerFreelistPop fun outcome after =>
      after.diskPageSize = pager.diskPageSize ∧
        (outcome.1 = .ok → outcome.2 ≠ pageCreateNewPage ∧
          outcome.2 = freelistHead pager.toFilePager) ∧
        (outcome.1 = .errNoFreePage →
          after.toFilePager = pager.toFilePager ∧
            freelistHead pager.toFilePager = 0) := by
  have blankSized := pageCreate_sized coherent.wellFormed.metaFits
  unfold pagerFreelistPop
  apply Agrees.get
  apply Agrees.bind (agrees_cachedRead coherent (inRange_one _) blankSized)
  rintro ⟨result, rootPage⟩ after afterCoherent
    ⟨sameFile, _, rootId, rootSized, readCases⟩
  simp only at rootId rootSized readCases ⊢
  have sameSize : after.diskPageSize = pager.diskPageSize :=
    congrArg FilePager.diskPageSize sameFile
  rcases readCases with ⟨rfl, rootBytes⟩ | rfl
  · have headEq := freelistHead_eq rootSized rootBytes
    rw [headEq, ← sameSize] at inRange
    simp only [if_true]
    by_cases empty : (pagemetaRead rootPage).nextFreePage = 0
    · simp only [if_pos empty]
      refine Agrees.pure afterCoherent ⟨sameSize, ?_, ?_⟩
      · intro ok
        cases ok
      · intro _
        exact ⟨sameFile, headEq.trans empty⟩
    · simp only [if_neg empty]
      apply Agrees.bind (agrees_cachedRead afterCoherent inRange
        (by rw [sameSize]; exact blankSized))
      rintro ⟨headResult, headPage⟩ later laterCoherent
        ⟨laterFile, _, _, _, headCases⟩
      simp only at headCases ⊢
      have laterSize : later.diskPageSize = pager.diskPageSize :=
        (congrArg FilePager.diskPageSize laterFile).trans sameSize
      rcases headCases with ⟨rfl, _⟩ | rfl
      · simp only [if_true]
        apply Agrees.bind (agrees_cachedWrite laterCoherent
          (by rw [pagemetaWrite_pageId, rootId]; decide)
          (by rw [pagemetaWrite_pageId, rootId]; exact inRange_one _)
          (by rw [laterSize]; exact rootSized.pagemetaWrite _))
        rintro _ last lastCoherent ⟨rfl, lastFile⟩
        refine Agrees.pure lastCoherent ⟨?_, ?_, ?_⟩
        · exact (congrArg FilePager.diskPageSize lastFile).trans laterSize
        · intro _
          exact ⟨empty, headEq.symm⟩
        · intro none
          cases none
      · simp only [reduceCtorEq, if_false]
        refine Agrees.pure laterCoherent ⟨laterSize, ?_, ?_⟩
        · intro ok
          cases ok
        · intro none
          cases none
  · simp only [reduceCtorEq, if_false]
    refine Agrees.pure afterCoherent ⟨sameSize, ?_, ?_⟩
    · intro ok
      cases ok
    · intro none
      cases none

theorem agrees_freelistPushPage {page : Page}
    (inRange : InRange pager.diskPageSize page.pageId)
    (sized : page.Sized pager.diskPageSize) :
    Agrees capacity pager (pagerFreelistPushPage page) (pagerFreelistPushPage page)
      fun _ after => after.diskPageSize = pager.diskPageSize := by
  have blankSized := pageCreate_sized coherent.wellFormed.metaFits
  unfold pagerFreelistPushPage
  apply Agrees.assert
  intro numbered
  have notNew : page.pageId ≠ pageCreateNewPage := by simpa using numbered
  apply Agrees.get
  apply Agrees.bind (agrees_cachedRead coherent (inRange_one _) blankSized)
  rintro ⟨result, rootPage⟩ after afterCoherent
    ⟨sameFile, _, rootId, rootSized, readCases⟩
  simp only at rootId rootSized readCases ⊢
  have sameSize : after.diskPageSize = pager.diskPageSize :=
    congrArg FilePager.diskPageSize sameFile
  rcases readCases with ⟨rfl, _⟩ | rfl
  · simp only [if_true]
    apply Agrees.bind (agrees_cachedWrite afterCoherent
      (by rw [pagemetaWrite_pageId, rootId]; decide)
      (by rw [pagemetaWrite_pageId, rootId]; exact inRange_one _)
      (by rw [sameSize]; exact rootSized.pagemetaWrite _))
    rintro _ later laterCoherent ⟨rfl, laterFile⟩
    have laterSize : later.diskPageSize = pager.diskPageSize :=
      (congrArg FilePager.diskPageSize laterFile).trans sameSize
    simp only [if_true]
    apply Agrees.bind (agrees_cachedWrite laterCoherent
      (by rw [pagemetaWrite_pageId]; exact notNew)
      (by rw [pagemetaWrite_pageId, laterSize]; exact inRange)
      (by rw [laterSize]; exact sized.pagemetaWrite _))
    rintro _ last lastCoherent ⟨rfl, lastFile⟩
    exact Agrees.pure lastCoherent
      ((congrArg FilePager.diskPageSize lastFile).trans laterSize)
  · simp only [reduceCtorEq, if_false]
    exact Agrees.pure afterCoherent sameSize

theorem agrees_freelistPush {pageId : Nat}
    (inRange : InRange pager.diskPageSize pageId) :
    Agrees capacity pager (pagerFreelistPush pageId) (pagerFreelistPush pageId)
      fun _ after => after.diskPageSize = pager.diskPageSize := by
  have blankSized := pageCreate_sized coherent.wellFormed.metaFits
  unfold pagerFreelistPush
  apply Agrees.get
  apply Agrees.bind (agrees_cachedRead coherent inRange blankSized)
  rintro ⟨result, page⟩ after afterCoherent ⟨sameFile, _, sameId, sized, _⟩
  simp only at sameId sized ⊢
  have sameSize : after.diskPageSize = pager.diskPageSize :=
    congrArg FilePager.diskPageSize sameFile
  by_cases ok : result = .ok
  · simp only [if_pos ok]
    apply Agrees.bind (agrees_freelistPushPage afterCoherent
      (by rw [sameSize, sameId]; exact inRange) (by rw [sameSize]; exact sized))
    rintro ⟨pushResult, _⟩ last lastCoherent lastSize
    exact Agrees.pure lastCoherent (lastSize.trans sameSize)
  · simp only [if_neg ok]
    exact Agrees.pure afterCoherent sameSize

/-- A new page gets the id that `writePlace` tells. -/
theorem agrees_diskPage {page : Page} (isNew : page.pageId = pageCreateNewPage)
    (inRange : InRange pager.diskPageSize (writePlace pager.toFilePager page))
    (sized : page.Sized pager.diskPageSize) :
    Agrees capacity pager (pagerDiskPage page) (pagerDiskPage page)
      fun outcome after => after.diskPageSize = pager.diskPageSize ∧
        (outcome.1 = .ok → outcome.2.pageId ≠ pageCreateNewPage ∧
          outcome.2.pageId = writePlace pager.toFilePager page ∧
          outcome.2.Sized pager.diskPageSize) := by
  unfold writePlace at inRange ⊢
  simp only [if_pos isNew] at inRange ⊢
  unfold pagerDiskPage
  apply Agrees.get
  have sameMax : PageIO.maxPage pager = pager.maxPage := rfl
  have sameFileMax : PageIO.maxPage pager.toFilePager = pager.maxPage := rfl
  rw [sameMax, sameFileMax]
  by_cases first : pager.maxPage = 0
  · simp only [if_pos first] at inRange ⊢
    refine Agrees.pure coherent ⟨rfl, fun _ => ⟨?_, rfl, ?_⟩⟩
    · exact Nat.one_ne_zero
    · exact (sized.renumber 1).pagemetaWrite _
  · simp only [if_neg first] at inRange ⊢
    have headInRange :
        InRange pager.diskPageSize (freelistHead pager.toFilePager) := by
      by_cases empty : freelistHead pager.toFilePager = 0
      · rw [empty]
        simp [InRange]
      · rwa [if_neg empty] at inRange
    apply Agrees.bind (agrees_freelistPop coherent headInRange)
    rintro ⟨result, nextPageId⟩ after afterCoherent ⟨sameSize, popped, none⟩
    simp only at popped none ⊢
    by_cases ok : result = .ok
    · simp only [if_pos ok]
      obtain ⟨notNew, isHead⟩ := popped ok
      have notEmpty : freelistHead pager.toFilePager ≠ 0 := by
        rw [← isHead]
        exact notNew
      refine Agrees.pure afterCoherent ⟨sameSize, fun _ => ⟨notNew, ?_, ?_⟩⟩
      · rw [if_neg notEmpty]
        exact isHead
      · exact (sized.renumber nextPageId).pagemetaWrite _
    · simp only [if_neg ok]
      by_cases noFree : result = .errNoFreePage
      · simp only [if_pos noFree]
        obtain ⟨sameFile, empty⟩ := none noFree
        have afterMax : after.maxPage = pager.maxPage :=
          congrArg FilePager.maxPage sameFile
        apply Agrees.get
        have freshEq : PageIO.maxPage after = pager.maxPage := afterMax
        have freshFileEq : PageIO.maxPage after.toFilePager = pager.maxPage :=
          afterMax
        rw [freshEq, freshFileEq]
        refine Agrees.pure afterCoherent ⟨sameSize, fun _ => ⟨?_, ?_, ?_⟩⟩
        · exact Nat.succ_ne_zero _
        · rw [if_pos empty]
          rfl
        · exact (sized.renumber _).pagemetaWrite _
      · simp only [if_neg noFree]
        exact Agrees.pure afterCoherent ⟨sameSize, fun isOk => absurd isOk ok⟩

theorem agrees_placePage {page : Page}
    (inRange : InRange pager.diskPageSize (writePlace pager.toFilePager page))
    (sized : page.Sized pager.diskPageSize) :
    Agrees capacity pager (pagerPlacePage page) (pagerPlacePage page)
      fun outcome after => after.diskPageSize = pager.diskPageSize ∧
        (outcome.1 = .ok → outcome.2.pageId ≠ pageCreateNewPage ∧
          outcome.2.pageId = writePlace pager.toFilePager page ∧
          outcome.2.Sized pager.diskPageSize) := by
  unfold pagerPlacePage
  by_cases isNew : page.pageId = pageCreateNewPage
  · simp only [if_pos isNew]
    exact agrees_diskPage coherent isNew inRange sized
  · simp only [if_neg isNew]
    refine Agrees.pure coherent ⟨rfl, fun _ => ⟨isNew, ?_, sized⟩⟩
    simp only [writePlace, if_neg isNew]

theorem agrees_writePage {page : Page}
    (inRange : InRange pager.diskPageSize (writePlace pager.toFilePager page))
    (sized : page.Sized pager.diskPageSize) :
    Agrees capacity pager (pagerWritePage page) (pagerWritePage page)
      fun _ after => after.diskPageSize = pager.diskPageSize := by
  unfold pagerWritePage
  apply Agrees.bind (agrees_placePage coherent inRange sized)
  rintro ⟨result, placedPage⟩ after afterCoherent ⟨sameSize, outcome⟩
  simp only at outcome ⊢
  by_cases ok : result = .ok
  · simp only [if_pos ok]
    obtain ⟨notNew, place, placedSized⟩ := outcome ok
    apply Agrees.bind (agrees_cachedWrite afterCoherent
      (by rw [setInUse_pageId]; exact notNew)
      (by rw [setInUse_pageId, place, sameSize]; exact inRange)
      (by rw [sameSize]; exact placedSized.pagemetaWrite _))
    rintro _ last lastCoherent ⟨rfl, lastFile⟩
    exact Agrees.pure lastCoherent
      ((congrArg FilePager.diskPageSize lastFile).trans sameSize)
  · simp only [if_neg ok]
    exact Agrees.pure afterCoherent sameSize

end Calls

/-! ## Runs -/

/-- Every page the call reads or writes starts at an offset that an `int`
holds, and a page passed in has the pager's page size. -/
def OffsetsFit (pager : FilePager) : PagerOp → Prop
  | .read pageId => InRange pager.diskPageSize pageId
  | .write page =>
      InRange pager.diskPageSize (writePlace pager page) ∧
        page.Sized pager.diskPageSize
  | .freelistPush pageId => InRange pager.diskPageSize pageId
  | .freelistPushPage page =>
      InRange pager.diskPageSize page.pageId ∧ page.Sized pager.diskPageSize
  | .freelistPop => InRange pager.diskPageSize (freelistHead pager)

theorem agrees_runPagerOp {pager : Pager} (coherent : Coherent capacity pager)
    {op : PagerOp} (fit : OffsetsFit pager.toFilePager op) :
    Agrees capacity pager (runPagerOp op) (runPagerOp op)
      fun _ after => after.diskPageSize = pager.diskPageSize := by
  have blankSized := pageCreate_sized coherent.wellFormed.metaFits
  cases op with
  | read pageId =>
      unfold runPagerOp
      apply Agrees.get
      apply Agrees.bind (agrees_cachedRead coherent fit blankSized)
      rintro ⟨result, page⟩ after afterCoherent ⟨sameFile, _⟩
      exact Agrees.pure afterCoherent
        (congrArg FilePager.diskPageSize sameFile)
  | write page =>
      unfold runPagerOp
      apply Agrees.bind (agrees_writePage coherent fit.1 fit.2)
      rintro ⟨result, page⟩ after afterCoherent sameSize
      exact Agrees.pure afterCoherent sameSize
  | freelistPush pageId =>
      unfold runPagerOp
      apply Agrees.bind (agrees_freelistPush coherent fit)
      rintro result after afterCoherent sameSize
      exact Agrees.pure afterCoherent sameSize
  | freelistPushPage page =>
      unfold runPagerOp
      apply Agrees.bind (agrees_freelistPushPage coherent fit.1 fit.2)
      rintro ⟨result, page⟩ after afterCoherent sameSize
      exact Agrees.pure afterCoherent sameSize
  | freelistPop =>
      unfold runPagerOp
      apply Agrees.bind (agrees_freelistPop coherent fit)
      rintro ⟨result, pageId⟩ after afterCoherent ⟨sameSize, _⟩
      exact Agrees.pure afterCoherent sameSize

instance (diskPageSize : Nat) (page : Page) :
    Decidable (page.Sized diskPageSize) :=
  decidable_of_iff
    (page.metaBytes.length = pagemetaSize ∧
      page.diskBytes.length = diskPageSize)
    ⟨fun lengths => ⟨lengths.1, lengths.2⟩,
      fun sized => ⟨sized.metaBytes_length, sized.diskBytes_length⟩⟩

instance (pager : FilePager) : (op : PagerOp) → Decidable (OffsetsFit pager op)
  | .read _ => inferInstanceAs (Decidable (InRange _ _))
  | .write _ => inferInstanceAs (Decidable (_ ∧ _))
  | .freelistPush _ => inferInstanceAs (Decidable (InRange _ _))
  | .freelistPushPage _ => inferInstanceAs (Decidable (_ ∧ _))
  | .freelistPop => inferInstanceAs (Decidable (InRange _ _))

/-- Every call of the run, from the file that the calls before it leave, fits
in the sense of `OffsetsFit`. -/
def RunFits : FilePager → List PagerOp → Prop
  | _, [] => True
  | pager, op :: ops =>
      OffsetsFit pager op ∧
        match runPagerOp op pager with
        | some (_, after) => RunFits after ops
        | none => True

instance decidableRunFits :
    (pager : FilePager) → (ops : List PagerOp) → Decidable (RunFits pager ops)
  | _, [] => inferInstanceAs (Decidable True)
  | pager, op :: ops =>
      match outcome : runPagerOp op pager with
      | some (_, after) =>
          have := decidableRunFits after ops
          decidable_of_iff (OffsetsFit pager op ∧ RunFits after ops)
            (by rw [RunFits, outcome])
      | none =>
          decidable_of_iff (OffsetsFit pager op)
            (by rw [RunFits, outcome, and_true])

theorem agrees_runPagerOps : ∀ {ops : List PagerOp} {pager : Pager},
    Coherent capacity pager → RunFits pager.toFilePager ops →
      Agrees capacity pager (runPagerOps ops) (runPagerOps ops)
        fun _ after => after.diskPageSize = pager.diskPageSize
  | [], _, coherent, _ => Agrees.pure coherent rfl
  | op :: ops, pager, coherent, fits => by
      rw [RunFits] at fits
      unfold runPagerOps
      apply Agrees.bind (agrees_runPagerOp coherent fits.1).result_eq
      rintro out after afterCoherent ⟨directEq, sameSize⟩
      have laterFits := fits.2
      rw [directEq] at laterFits
      apply Agrees.bind (agrees_runPagerOps afterCoherent laterFits)
      intro outs last lastCoherent lastSize
      exact Agrees.pure lastCoherent (lastSize.trans sameSize)

theorem pagerOpen_coherent {diskPageSize capacity : Nat} {file : List UInt8}
    (capacity_pos : 0 < capacity) (metaFits : pagemetaSize ≤ diskPageSize)
    (sizeFits : diskPageSize < 2 ^ 31) (fileFits : file.length < 2 ^ 32) :
    Coherent capacity (pagerOpen diskPageSize capacity file) where
  wellFormed :=
    { metaFits := metaFits
      sizeFits := sizeFits
      fileFits := fileFits
      maxPage_eq := by
        simp only [pagerOpen, Nat.mod_eq_of_lt fileFits] }
  capacity_eq := rfl
  ordered :=
    { capacity_pos := capacity_pos
      sorted := List.Pairwise.nil
      room := Nat.zero_le _ }
  unused := by simp [pagerOpen, pageCacheCreate]
  numbered := by simp [pagerOpen, pageCacheCreate]
  inRange := by simp [pagerOpen, pageCacheCreate]
  fresh := by simp [pagerOpen, pageCacheCreate]

end BtreeDb
