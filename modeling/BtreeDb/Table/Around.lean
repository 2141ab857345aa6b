import BtreeDb.Lib.Owners
import BtreeDb.Table.Entering

/-!
# Around a tree

A call on a tree writes to the pages that the tree has, and takes others only
from the free list and from behind the last page.  What else is on the disk
stays as it was, so that another table there is still the same.
-/

namespace BtreeDb

open PagedTree

/-- What a call on a tree leaves of the disk around it: `own` and `later` are
the pages of the tree before and after. -/
structure Within (disk : Disk) (free own : List Nat) (after : Disk)
    (left later : List Nat) : Prop where
  pageSize : after.pageSize = disk.pageSize
  grows : disk.maxPage ≤ after.maxPage
  kept : ∀ page, page ∉ own → page ∉ free → page ≤ disk.maxPage →
    after.buffer? page = disk.buffer? page
  source : ∀ page ∈ later ++ left,
    page ∈ own ∨ page ∈ free ∨ disk.maxPage < page

section Within

variable {disk middle after : Disk}
variable {free between left own mid later touched new : List Nat}

theorem Within.refl (disk : Disk) (free own : List Nat) :
    Within disk free own disk free own where
  pageSize := rfl
  grows := Nat.le_refl _
  kept := fun _ _ _ _ => rfl
  source := fun _ member => (List.mem_append.mp member).imp_right Or.inl

theorem Within.trans (first : Within disk free own middle between mid)
    (second : Within middle between mid after left later) :
    Within disk free own after left later where
  pageSize := second.pageSize.trans first.pageSize
  grows := Nat.le_trans first.grows second.grows
  kept := by
    intro page notOwn notFree present
    have outside : page ∉ mid ++ between := by
      intro member
      rcases first.source page member with inOwn | inFree | beyond
      · exact notOwn inOwn
      · exact notFree inFree
      · exact Nat.not_lt.mpr present beyond
    rw [List.mem_append, not_or] at outside
    rw [second.kept page outside.1 outside.2
      (Nat.le_trans present first.grows)]
    exact first.kept page notOwn notFree present
  source := by
    intro page member
    rcases second.source page member with inMid | inBetween | beyond
    · exact first.source page (List.mem_append_left _ inMid)
    · exact first.source page (List.mem_append_right _ inBetween)
    · exact Or.inr (Or.inr (Nat.lt_of_le_of_lt first.grows beyond))

/-- A call that writes to pages of its own and to new ones. -/
theorem Updates.within (updates : Updates disk free after left touched new)
    (touchedOwn : ∀ page ∈ touched, page ∈ own)
    (laterFrom : ∀ page ∈ later, page ∈ own ∨ page ∈ new) :
    Within disk free own after left later where
  pageSize := updates.pageSize
  grows := updates.grows
  kept := fun page notOwn notFree present =>
    updates.kept_used (fun inTouched => notOwn (touchedOwn page inTouched))
      notFree present
  source := by
    intro page member
    rcases List.mem_append.mp member with inLater | inLeft
    · exact (laterFrom page inLater).imp_right (updates.fresh page)
    · exact Or.inr (Or.inl (updates.shrinks page inLeft))

end Within

section Beside

variable {disk after : Disk} {free left own later pages chains : List Nat}
variable {root height : Nat} {flat : List Mark} {records : List TableRecord}

/-- Another table stays the same table. -/
theorem TableStore.beside
    (table : TableStore disk free root height pages flat chains records)
    (within : Within disk free own after left later) (store : Store after left)
    (others : ∀ page ∈ pages ++ chains, page ∉ own) :
    TableStore after left root height pages flat chains records := by
  have present := table.present
  have valid := table.valid
  have usedApart : ((pages ++ chains) ++ free).Nodup := by
    rw [List.append_assoc]
    exact table.apart
  obtain ⟨used, _, differ⟩ := List.nodup_append.mp usedApart
  have kept : ∀ page ∈ pages ++ chains,
      after.buffer? page = disk.buffer? page := fun page member =>
    within.kept page (others page member)
      (fun isFree => differ page member page isFree rfl) (present page member)
  have apart : ((pages ++ chains) ++ left).Nodup := by
    refine List.nodup_append.mpr ⟨used, store.distinct, ?_⟩
    rintro page member _ inLeft rfl
    rcases within.source page (List.mem_append_right _ inLeft) with
      inOwn | isFree | beyond
    · exact others page member inOwn
    · exact differ page member page isFree rfl
    · exact Nat.not_lt.mpr (present page member) beyond
  rw [List.append_assoc] at apart
  refine ⟨⟨valid.roomy.congr within.pageSize, store, ?_, valid.ordered, ?_,
    valid.rooted⟩, ?_, apart, table.notFirst⟩
  · exact valid.tree.mono fun page member _ holds =>
      holds.congr (kept page (List.mem_append_left _ member))
  · exact apart.sublist ((List.sublist_append_right _ _).append_left pages)
  · exact table.holds.congr within.pageSize fun page member =>
      kept page (List.mem_append_right _ member)

end Beside

end BtreeDb
