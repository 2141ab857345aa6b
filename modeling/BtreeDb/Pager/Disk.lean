import BtreeDb.Pager.Defs

/-!
# The trees' view of the pager

The trees use the pager only through page reads and writes.  `Disk` is the
pager as they see it: the images of the pages `1 .. max_page`.  Page ids are
`int`s, so a page whose id does not fit one cannot be written.  `BtM` is a
call on such a disk: it changes the disk, and it ends with a value, with an
error code, or in a failed assertion.
-/

namespace BtreeDb

inductive BTreeE where
  | errInvalidPageSizeTooSmall
  | errNodeNotEnoughSpace
  | errKeyNotFound
  | errCursorNoParent
  | errCursorNoSibling
  | errCursorDepthExceeded
  | errCorruptCell
  | errCannotMerge
  | errParentDeficient
  | errUnderflow
  | errPaging
  | errBufferTooSmall
  | errNoMem
  | errIterDone
  | errUnk
  deriving DecidableEq, Repr

/-- Why a call ends without a value: an error code other than `BTREE_OK`, a
failed assertion, or a loop that does not end. -/
inductive Stop where
  | err (code : BTreeE)
  | assertFailed
  | diverges
  deriving DecidableEq, Repr

structure PageImage where
  metaBytes : List UInt8
  pageBuffer : List UInt8
  deriving DecidableEq, Repr

structure Disk where
  /-- `page_size`, the size of `page_buffer`. -/
  pageSize : Nat
  pages : List PageImage
  deriving DecidableEq, Repr

namespace Disk

def maxPage (disk : Disk) : Nat := disk.pages.length

/-- The image of a page on disk. -/
def page? (disk : Disk) (pageId : Nat) : Option PageImage :=
  if pageId = pageCreateNewPage then none else disk.pages[pageId - 1]?

def blankImage (pageSize : Nat) : PageImage where
  metaBytes := List.replicate pagemetaSize 0
  pageBuffer := List.replicate pageSize 0

/-- Put an image at a place; the places before it that do not exist yet read
as zeros. -/
def store (disk : Disk) (pageId : Nat) (image : PageImage) : Disk :=
  let padded := disk.pages ++
    List.replicate (pageId - disk.pages.length) (blankImage disk.pageSize)
  { disk with pages := padded.set (pageId - 1) image }

end Disk

def Page.image (page : Page) : PageImage where
  metaBytes := page.metaBytes
  pageBuffer := page.pageBuffer

/-- One past the largest page id. -/
def pageIdLimit : Nat := 2 ^ 31

def diskRead (pageId : Nat) (page : Page) : PagerM Disk (PagerE × Page) := do
  cAssert (pageId != pageCreateNewPage)
  match (← get).page? pageId with
  | some image =>
      pure (.ok,
        { pageId := pageId
          metaBytes := image.metaBytes
          pageBuffer := image.pageBuffer })
  | none => pure (.errNif, { page with pageId := pageId })

def diskWrite (page : Page) : PagerM Disk PagerE := do
  if page.pageId < pageIdLimit then
    set ((← get).store page.pageId page.image)
    pure .ok
  else
    pure .writeErr

instance : PageIO Disk where
  diskPageSize disk := disk.pageSize + pagemetaSize
  maxPage := Disk.maxPage
  cachedRead := diskRead
  cachedWrite := diskWrite

/-! ## Calls of the trees -/

/-- A call of a tree function. -/
abbrev BtM (α : Type) : Type := Disk → Except Stop α × Disk

namespace BtM

variable {α β : Type}

instance : Monad BtM where
  pure value disk := (.ok value, disk)
  bind call next disk :=
    match call disk with
    | (.ok value, after) => next value after
    | (.error stop, after) => (.error stop, after)

def stop (reason : Stop) : BtM α := fun disk => (.error reason, disk)

def fail (code : BTreeE) : BtM α := stop (.err code)

/-- `assert(condition)`. -/
def assert (condition : Bool) : BtM Unit :=
  if condition then pure () else stop .assertFailed

def getDisk : BtM Disk := fun disk => (.ok disk, disk)

/-- Run a call and hand its outcome to the caller, who may look at the error
code; a failed assertion and an endless loop are not outcomes. -/
def attempt (call : BtM α) : BtM (Except BTreeE α) := fun disk =>
  match call disk with
  | (.ok value, after) => (.ok (.ok value), after)
  | (.error (.err code), after) => (.ok (.error code), after)
  | (.error reason, after) => (.error reason, after)

/-- A computation that does not touch the disk. -/
def ofExcept : Except Stop α → BtM α
  | .ok value => pure value
  | .error reason => stop reason

/-- A pager call. -/
def ofPager (call : PagerM Disk α) : BtM α := fun disk =>
  match call disk with
  | some (value, after) => (.ok value, after)
  | none => (.error .assertFailed, disk)

@[simp]
theorem pure_apply (value : α) (disk : Disk) :
    (pure value : BtM α) disk = (.ok value, disk) := rfl

theorem bind_apply (call : BtM α) (next : α → BtM β) (disk : Disk) :
    (call >>= next) disk =
      match call disk with
      | (.ok value, after) => next value after
      | (.error reason, after) => (.error reason, after) := rfl

/-- Running past a call that gives a value. -/
theorem bind_ok {call : BtM α} {next : α → BtM β} {disk after : Disk}
    {value : α} (first : call disk = (.ok value, after)) :
    (call >>= next) disk = next value after := by
  rw [bind_apply, first]

theorem bind_error {call : BtM α} {next : α → BtM β} {disk after : Disk}
    {reason : Stop} (first : call disk = (.error reason, after)) :
    (call >>= next) disk = (.error reason, after) := by
  rw [bind_apply, first]

/-- A sequence that ends in a fixed value ends as its call does. -/
theorem bind_pure_ok_iff {call : BtM α} {value : β} {disk : Disk} :
    (∃ result last,
      (call >>= fun _ => pure value) disk = (.ok result, last)) ↔
      ∃ first after, call disk = (.ok first, after) := by
  constructor
  · rintro ⟨result, last, whole⟩
    rw [bind_apply] at whole
    cases callEq : call disk with
    | mk outcome after =>
        cases outcome with
        | ok first => exact ⟨first, after, rfl⟩
        | error reason =>
            rw [callEq] at whole
            cases (Prod.mk.inj whole).1
  · rintro ⟨first, after, callEq⟩
    exact ⟨value, after, bind_ok callEq⟩

/-- What a value of a sequence comes from. -/
theorem bind_eq_ok {call : BtM α} {next : α → BtM β} {disk last : Disk}
    {result : β} (whole : (call >>= next) disk = (.ok result, last)) :
    ∃ value after, call disk = (.ok value, after) ∧
      next value after = (.ok result, last) := by
  rw [bind_apply] at whole
  cases callEq : call disk with
  | mk outcome after =>
      rw [callEq] at whole
      cases outcome with
      | ok value => exact ⟨value, after, rfl, whole⟩
      | error reason => cases whole

@[simp]
theorem stop_apply (reason : Stop) (disk : Disk) :
    (stop reason : BtM α) disk = (.error reason, disk) := rfl

@[simp]
theorem fail_apply (code : BTreeE) (disk : Disk) :
    (fail code : BtM α) disk = (.error (.err code), disk) := rfl

theorem getDisk_apply (disk : Disk) : getDisk disk = (.ok disk, disk) := rfl

theorem assert_true_apply (disk : Disk) :
    assert true disk = (.ok (), disk) := rfl

theorem assert_of {condition : Bool} (holds : condition = true)
    (disk : Disk) : assert condition disk = (.ok (), disk) := by
  rw [holds]
  rfl

@[simp]
theorem ofExcept_ok (value : α) (disk : Disk) :
    ofExcept (.ok value) disk = (.ok value, disk) := rfl

@[simp]
theorem ofExcept_error (reason : Stop) (disk : Disk) :
    ofExcept (.error reason : Except Stop α) disk =
      (.error reason, disk) := rfl

theorem attempt_ok {call : BtM α} {disk after : Disk} {value : α}
    (first : call disk = (.ok value, after)) :
    attempt call disk = (.ok (.ok value), after) := by
  rw [attempt, first]

theorem attempt_error {call : BtM α} {disk after : Disk} {code : BTreeE}
    (first : call disk = (.error (.err code), after)) :
    attempt call disk = (.ok (.error code), after) := by
  rw [attempt, first]

theorem ofPager_some {call : PagerM Disk α} {disk after : Disk} {value : α}
    (first : call disk = some (value, after)) :
    ofPager call disk = (.ok value, after) := by
  rw [ofPager, first]

end BtM

/-- `btpage_err`. -/
def btpageErr : PagerE → Except Stop Unit
  | .ok => .ok ()
  | .errNoMem => .error (.err .errNoMem)
  | _ => .error (.err .errPaging)

end BtreeDb
