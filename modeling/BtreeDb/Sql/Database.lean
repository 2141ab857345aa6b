import BtreeDb.Sql.Catalogue

/-!
# A database in a file

The catalogue, the pages of the sequences and the trees of the tables share the
file, and none has a page of another one.  A new table has no page yet: its root
is the page behind the last one, until a statement opens the table.
-/

namespace BtreeDb

open Bytes ByteStream Disk Owners PagedTree Sweep

/-! ## The tables of a file -/

/-- A table with its rows on a disk, and the pages that it has. -/
inductive HoldsRows (disk : Disk) (free : List Nat) :
    SqlRows → List Nat → Prop
  | opened {table : SqlTable} {rows : List SqlRow} {records : List TableRecord}
      {flat : List Mark} {chains : List Nat}
      (store : TableStore disk free table.root 0 [table.root] flat chains
        records)
      (stored : List.Forall₂ (StoresRow table) records rows) :
      HoldsRows disk free ⟨table, rows⟩ ([table.root] ++ chains)
  | unopened {table : SqlTable} (beyond : table.root = disk.maxPage + 1) :
      HoldsRows disk free ⟨table, []⟩ []

/-- What a file holds: `others` are the pages of the sequences, `catalog` those
of the catalogue, and `owned` those of the tables. -/
structure DatabaseAt (db : SqlDb) (others : List Nat) (disk : Disk)
    (tables : List SqlRows) (free catalog : List Nat)
    (owned : List (List Nat)) : Prop where
  catalogue : TableIn disk free (db.tbTables, catalogRecords tables) catalog
  sound : ∀ stored ∈ tables, stored.table.Sound
  held : List.Forall₂ (HoldsRows disk free) tables owned
  separate : Separate (others :: catalog :: owned) free
  reserved : ∀ page ∈ others, page ≠ 1 ∧ page ≤ disk.maxPage

def Database (db : SqlDb) (others : List Nat) (disk : Disk)
    (tables : List SqlRows) : Prop :=
  ∃ free catalog owned, DatabaseAt db others disk tables free catalog owned

/-- Every table but one is open. -/
def OthersOpened (disk : Disk) (tables : List SqlRows) (table : SqlTable) :
    Prop :=
  ∀ other ∈ tables, other.table.root ≤ disk.maxPage ∨ other.table = table

instance (disk : Disk) (tables : List SqlRows) (table : SqlTable) :
    Decidable (OthersOpened disk tables table) :=
  inferInstanceAs (Decidable (∀ other ∈ _, _ ∨ _))

def AllOpened (disk : Disk) (tables : List SqlRows) : Prop :=
  ∀ stored ∈ tables, stored.table.root ≤ disk.maxPage

instance (disk : Disk) (tables : List SqlRows) :
    Decidable (AllOpened disk tables) :=
  inferInstanceAs (Decidable (∀ stored ∈ _, _))

section Database

variable {db : SqlDb} {others free left catalog own mine later : List Nat}
variable {disk after : Disk} {tables : List SqlRows} {stored : SqlRows}
variable {owned : List (List Nat)} {index : Nat}

theorem HoldsRows.present (held : HoldsRows disk free stored own) :
    ∀ page ∈ own, page ≤ disk.maxPage := by
  cases held with
  | opened store _ => exact store.present
  | unopened _ => exact fun page member => absurd member List.not_mem_nil

/-- A table stays as it is when another one changes. -/
theorem HoldsRows.beside (held : HoldsRows disk free stored own)
    (within : Within disk free mine after left later) (store : Store after left)
    (apart : ∀ page ∈ own, page ∉ mine)
    (opened : stored.table.root ≤ disk.maxPage ∨
      after.maxPage = disk.maxPage) : HoldsRows after left stored own := by
  cases held with
  | opened table rows => exact .opened (table.beside within store apart) rows
  | unopened beyond =>
      refine .unopened ?_
      rcases opened with isOpen | same
      · rw [beyond] at isOpen
        exact absurd isOpen (Nat.not_succ_le_self _)
      · rw [same]
        exact beyond

theorem HoldsRows.opened_of (held : HoldsRows disk free stored own)
    (isOpen : stored.table.root ≤ disk.maxPage) :
    ∃ flat chains records, own = [stored.table.root] ++ chains ∧
      TableStore disk free stored.table.root 0 [stored.table.root] flat chains
        records ∧
      List.Forall₂ (StoresRow stored.table) records stored.rows := by
  cases held with
  | opened store rows => exact ⟨_, _, _, rfl, store, rows⟩
  | unopened beyond =>
      rw [beyond] at isOpen
      exact absurd isOpen (Nat.not_succ_le_self _)

theorem TableIn.disk_facts {tree : BTree} {records : List TableRecord}
    (held : TableIn disk free (tree, records) own) :
    Store disk free ∧ Roomy disk := by
  obtain ⟨_, _, _, _, _, _, _, store⟩ := held
  exact ⟨store.valid.store, store.valid.roomy⟩

theorem DatabaseAt.pages_present
    (database : DatabaseAt db others disk tables free catalog owned) :
    ∀ page ∈ (others :: catalog :: owned).flatten, ¬ disk.maxPage < page := by
  intro page member
  refine Nat.not_lt.mpr ?_
  simp only [List.flatten_cons, List.mem_append] at member
  rcases member with inOthers | inCatalog | inOwned
  · exact (database.reserved page inOthers).2
  · exact database.catalogue.present page inCatalog
  · obtain ⟨own, ownMember, inOwn⟩ := List.mem_flatten.mp inOwned
    obtain ⟨lengths, each⟩ := List.forall₂_iff_get.mp database.held
    obtain ⟨place, inside, rfl⟩ := List.getElem_of_mem ownMember
    exact (each place (lengths ▸ inside) inside).present page inOwn

/-- No two tables have the same id, and so they differ. -/
theorem DatabaseAt.tables_differ
    (database : DatabaseAt db others disk tables free catalog owned)
    {place : Nat} {other : SqlRows} (here : tables[index]? = some stored)
    (there : tables[place]? = some other) (differs : place ≠ index) :
    other.table ≠ stored.table := by
  obtain ⟨_, _, _, _, _, _, _, store⟩ := database.catalogue
  have increase : ((catalogRecords tables).map TableRecord.key).Nodup :=
    (List.pairwise_map.mpr store.increase).imp Nat.ne_of_lt
  intro same
  have first : ((catalogRecords tables).map TableRecord.key)[index]? =
      some stored.table.catalogRecord.key := by
    unfold catalogRecords
    rw [List.getElem?_map, List.getElem?_map, here]
    rfl
  have second : ((catalogRecords tables).map TableRecord.key)[place]? =
      some stored.table.catalogRecord.key := by
    unfold catalogRecords
    rw [List.getElem?_map, List.getElem?_map, there, ← same]
    rfl
  obtain ⟨inside, _⟩ := List.getElem?_eq_some_iff.mp first
  exact differs ((List.getElem?_inj inside increase).mp
    (first.trans second.symm)).symm

/-- A call of the sequences leaves everything else as it is. -/
theorem DatabaseAt.elsewhere
    (database : DatabaseAt db others disk tables free catalog owned)
    (writes : OnlyWrites others disk after) :
    DatabaseAt db others after tables free catalog owned := by
  obtain ⟨storeBefore, _⟩ := database.catalogue.disk_facts
  have separate := database.separate
  have apart : ∀ page ∈ others, page ∉ free := by
    intro page inOthers inFree
    obtain ⟨_, _, differ⟩ := List.nodup_append.mp separate
    exact differ page (List.mem_flatten.mpr
      ⟨others, List.mem_cons_self, inOthers⟩) page inFree rfl
  have store := writes.store storeBefore
    (fun member => (database.reserved 1 member).1 rfl) apart
  have within := writes.within free
  refine ⟨?_, database.sound, ?_, separate, ?_⟩
  · exact database.catalogue.beside within store
      (@Separate.others _ _ _ _ 0 1 _ separate rfl rfl (by decide))
  · obtain ⟨lengths, each⟩ := List.forall₂_iff_get.mp database.held
    refine List.forall₂_iff_get.mpr ⟨lengths, fun place first second => ?_⟩
    refine (each place first second).beside within store ?_ (Or.inr writes.2.1)
    exact @Separate.others _ _ _ _ 0 (place + 2) _ separate rfl
      (by
        rw [List.getElem?_cons_succ, List.getElem?_cons_succ]
        exact List.getElem?_eq_getElem second) (by omega)
  · intro page member
    rw [writes.2.1]
    exact database.reserved page member

/-- A call on one table leaves everything else as it is. -/
theorem DatabaseAt.change
    (database : DatabaseAt db others disk tables free catalog owned)
    {changed : SqlRows} (here : tables[index]? = some stored)
    (ownHere : owned[index]? = some own) (same : changed.table = stored.table)
    (opened : OthersOpened disk tables stored.table)
    (within : Within disk free own after left later) (store : Store after left)
    (now : HoldsRows after left changed later)
    (distinct : (later ++ left).Nodup) :
    DatabaseAt db others after (tables.set index changed) left catalog
      (owned.set index later) := by
  have separate := database.separate
  have ownThere : (others :: catalog :: owned)[index + 2]? = some own := by
    rw [List.getElem?_cons_succ, List.getElem?_cons_succ]
    exact ownHere
  have records : catalogRecords (tables.set index changed) =
      catalogRecords tables := by
    unfold catalogRecords
    obtain ⟨inside, storedEq⟩ := List.getElem?_eq_some_iff.mp here
    rw [List.map_set, same, ← storedEq]
    have whole := @List.set_getElem_self _
      (tables.map fun stored => stored.table.catalogRecord) index (by
        rw [List.length_map]
        exact inside)
    rw [List.getElem_map] at whole
    exact whole
  refine ⟨?_, ?_, ?_, ?_, ?_⟩
  · rw [records]
    exact database.catalogue.beside within store
      (@Separate.others _ _ _ _ (index + 2) 1 _ separate ownThere rfl
        (by omega))
  · intro other member
    rcases List.mem_or_eq_of_mem_set member with old | rfl
    · exact database.sound other old
    · rw [same]
      exact database.sound stored (List.mem_of_getElem? here)
  · refine owns_set database.held now ?_
    intro place other theirs otherHere theirsHere differs otherHeld
    refine otherHeld.beside within store ?_ (Or.inl ?_)
    · exact @Separate.others _ _ _ _ (index + 2) (place + 2) _ separate ownThere
        (by
          rw [List.getElem?_cons_succ, List.getElem?_cons_succ]
          exact theirsHere) (by omega)
    · exact (opened other (List.mem_of_getElem? otherHere)).resolve_right
        (database.tables_differ here otherHere differs)
  · exact separate.exchange ownThere distinct within.source
      database.pages_present
  · intro page member
    obtain ⟨notFirst, present⟩ := database.reserved page member
    exact ⟨notFirst, Nat.le_trans present within.grows⟩

end Database

/-! ## Opening a table -/

/-- A table is open, or its root is the next page that the pager gives. -/
def OpensNow (disk : Disk) (table : SqlTable) : Prop :=
  table.root ≤ disk.maxPage ∨
    disk.nextFree 1 = 0 ∧ disk.maxPage + 1 < pageIdLimit

instance (disk : Disk) (table : SqlTable) : Decidable (OpensNow disk table) :=
  inferInstanceAs (Decidable (_ ∨ _ ∧ _))

section Open

variable {db : SqlDb} {others : List Nat} {disk after : Disk}
variable {tables : List SqlRows} {stored : SqlRows} {index : Nat}

/-- The tree of a table whose root can be read or written. -/
theorem sqldbTableBtreeAcquire_of {table : SqlTable} (rooted : table.root ≠ 0)
    (initEq : btreeInit table.root disk = (.ok (), after)) :
    sqldbTableBtreeAcquire table disk = (.ok (.ok table.tree), after) := by
  have notZero : table.tableMeta.rootPage ≠ 0 := by
    intro isZero
    refine rooted ?_
    unfold SqlTable.root
    rw [isZero]
    rfl
  unfold sqldbTableBtreeAcquire
  rw [if_neg notZero]
  exact SqlBt.bind_ok (SqlBt.ofBtM_ok (BtM.attempt_ok initEq))

/-- Opening a table whose root is on the disk changes nothing; a new table gets
its root. -/
theorem Database.opens (database : Database db others disk tables)
    (here : tables[index]? = some stored)
    (opened : OthersOpened disk tables stored.table)
    (opensNow : OpensNow disk stored.table) :
    ∃ after, sqldbTableBtreeAcquire stored.table disk =
        (.ok (.ok stored.table.tree), after) ∧
      Database db others after tables ∧ AllOpened after tables ∧
      after.maxPage ≤ disk.maxPage + 1 ∧
      (stored.table.root ≤ disk.maxPage → after = disk) := by
  obtain ⟨free, catalog, owned, database⟩ := database
  obtain ⟨store, roomy⟩ := database.catalogue.disk_facts
  obtain ⟨own, ownHere, held⟩ := owns_getElem database.held here
  by_cases isOpen : stored.table.root ≤ disk.maxPage
  · obtain ⟨flat, chains, records, _, table, _⟩ := held.opened_of isOpen
    have present : OnDisk disk stored.table.root :=
      treeAt_present table.valid.tree _ (List.mem_singleton_self _)
    refine ⟨disk, sqldbTableBtreeAcquire_of present.1
      (btreeInit_present roomy present), ⟨free, catalog, owned, database⟩, ?_,
      Nat.le_succ _, fun _ => rfl⟩
    intro other member
    rcases opened other member with otherOpen | same
    · exact otherOpen
    · rw [same]
      exact isOpen
  · obtain ⟨noneFree, room⟩ := opensNow.resolve_left isOpen
    have isNil : free = [] := by
      have none : ListsNoFree disk 1 := fun _ => noneFree
      exact none.free_nil store rfl
    subst isNil
    cases held with
    | opened table _ =>
        exact absurd (treeAt_present table.valid.tree _
          (List.mem_singleton_self _)).2 isOpen
    | @unopened table beyond =>
        obtain ⟨after, initEq, empty, within, size⟩ :=
          btreeInit_new roomy store room
        rw [← beyond] at initEq empty within
        have now : HoldsRows after [] ⟨table, []⟩ ([table.root] ++ []) :=
          .opened empty .nil
        have changed := database.change here ownHere
          (show (⟨table, []⟩ : SqlRows).table = table from rfl) opened within
          empty.valid.store now (by simp)
        have same : tables.set index ⟨table, []⟩ = tables := by
          obtain ⟨inside, storedEq⟩ := List.getElem?_eq_some_iff.mp here
          rw [← storedEq, List.set_getElem_self]
        rw [same] at changed
        refine ⟨after, sqldbTableBtreeAcquire_of ?_ initEq,
          ⟨[], catalog, _, changed⟩, ?_, Nat.le_of_eq size,
          fun absurdity => absurd absurdity isOpen⟩
        · change table.root ≠ 0
          rw [beyond]
          exact Nat.succ_ne_zero _
        · intro other member
          rcases opened other member with otherOpen | sameTable
          · exact Nat.le_trans otherOpen within.grows
          · rw [sameTable, size]
            exact Nat.le_of_eq beyond

end Open

end BtreeDb
