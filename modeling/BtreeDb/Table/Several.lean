import BtreeDb.Table.Commands
import BtreeDb.Table.Opening

/-!
# Several tables in one file

Commands on different tables in any order, and new tables on the page that
`pager_next_unused` names.  No command on a table changes what another one
holds: each table is the map that its own commands describe.
-/

namespace BtreeDb

open Owners PagedTree Runs

/-! ## A new table -/

/-- `pager_next_unused` and `btree_init`. -/
def btreeCreate : BtM Nat := do
  let rootPageId := pagerNextUnused (← BtM.getDisk)
  btreeInit rootPageId
  pure rootPageId

section Create

variable {disk : Disk}

theorem pagerReadPage_missing {pageId : Nat} {page : Page}
    (numbered : pageId ≠ 0) (missing : disk.page? pageId = none) :
    pagerReadPage pageId page disk =
      some ((.errNif, { page with pageId := pageId }), disk) := by
  have isNumbered : (pageId != pageCreateNewPage) = true := by
    simpa [pageCreateNewPage] using numbered
  change diskRead pageId _ disk = _
  unfold diskRead
  simp only [cAssert, isNumbered, if_true, pure_bind]
  simp only [Bind.bind, StateT.bind, get, getThe, MonadStateOf.get,
    StateT.get, pure, Option.bind_some, missing, PagerM.pure_state]

/-- The page behind the last one becomes an empty leaf. -/
theorem btreeInit_new (roomy : Roomy disk) (store : Store disk [])
    (room : disk.maxPage + 1 < pageIdLimit) :
    ∃ after, btreeInit (disk.maxPage + 1) disk = (.ok (), after) ∧
      TableStore after [] (disk.maxPage + 1) 0 [disk.maxPage + 1] [] [] [] ∧
      Within disk [] [] after [] [disk.maxPage + 1] ∧
      after.maxPage = disk.maxPage + 1 := by
  have first := store.first
  obtain ⟨empty, encodable, number, metaSize, pageSize⟩ :=
    newRoot_spec roomy.wide roomy.fits (disk.maxPage + 1)
  have missing : disk.page? (disk.maxPage + 1) = none := by
    rw [← Option.not_isSome_iff_eq_none, page?_isSome_iff]
    omega
  obtain ⟨pageId, metaBytes, after, writeEq, _, numbered, notFirst, _, found,
    updates⟩ := writePage_new store (show ({ (newRoot disk
        (disk.maxPage + 1)).page with pageId := pageCreateNewPage } :
          Page).pageId = 0 from rfl) metaSize
      ((page_pageBuffer_length _).trans pageSize) room
  have beyond := updates.fresh pageId (List.mem_singleton_self _)
  have present := updates.present pageId (List.mem_singleton_self _)
  have bounded := updates.bounded
  rw [List.length_singleton] at bounded
  have behind : pageId = disk.maxPage + 1 := by
    rcases beyond with isFree | beyond
    · cases isFree
    · omega
  subst behind
  have entries : (newRoot disk (disk.maxPage + 1)).entries = [] :=
    List.length_eq_zero_iff.mp (by
      rw [entries_length, empty.noKeys]
      rfl)
  have holds : Holds after (newRoot disk (disk.maxPage + 1)) := by
    refine ⟨?_, empty.ok, encodable⟩
    rw [number]
    exact found
  have leaf := TableHolds.leaf holds number empty.isLeaf (by
    rw [entries]
    exact fun _ absurdity => absurd absurdity List.not_mem_nil)
  rw [entries] at leaf
  have apart : ([disk.maxPage + 1] ++ ([] : List Nat)).Nodup := by simp
  refine ⟨after, ?_, ⟨⟨roomy.congr updates.pageSize, updates.store, ⟨leaf, rfl⟩,
    List.Pairwise.nil, apart, ?_⟩, .nil, apart, List.not_mem_nil⟩, ?_,
    Nat.le_antisymm bounded present⟩
  · have read := @pagerReadPage_missing disk _
      (blankPage disk pageCreateNewPage) numbered missing
    have large : ¬ disk.pageSize < btreeMinPageSize :=
      Nat.not_lt.mpr roomy.least
    unfold btreeInit
    rw [BtM.bind_ok (show BtM.getDisk disk = (.ok disk, disk) from rfl),
      if_neg large]
    unfold btreeInitRootPage
    rw [BtM.bind_ok (show BtM.getDisk disk = (.ok disk, disk) from rfl),
      BtM.bind_ok (BtM.ofPager_some read)]
    simp only [if_true]
    exact BtM.bind_ok writeEq
  · intro isRoot
    exact absurd (List.mem_singleton.mp isRoot) (Ne.symm notFirst)
  · exact updates.within (fun _ absurdity => absurd absurdity List.not_mem_nil)
      fun _ member => Or.inr member

theorem btreeCreate_run (roomy : Roomy disk) (store : Store disk [])
    (room : disk.maxPage + 1 < pageIdLimit) :
    ∃ after, btreeCreate disk = (.ok (disk.maxPage + 1), after) ∧
      TableStore after [] (disk.maxPage + 1) 0 [disk.maxPage + 1] [] [] [] ∧
      Within disk [] [] after [] [disk.maxPage + 1] := by
  obtain ⟨after, initEq, table, within, _⟩ := btreeInit_new roomy store room
  refine ⟨after, ?_, table, within⟩
  unfold btreeCreate
  rw [BtM.bind_ok (show BtM.getDisk disk = (.ok disk, disk) from rfl)]
  exact BtM.bind_ok initEq

end Create

/-! ## The tables of a file -/

structure TablesState where
  disk : Disk
  tables : List (BTree × List TableRecord)

inductive TablesCommand where
  | create
  | on (table : Nat) (command : TableCommand)

def TablesState.step (state : TablesState) : TablesCommand → TablesState
  | .create =>
      { disk := (btreeCreate state.disk).2
        tables := state.tables ++
          [(⟨pagerNextUnused state.disk, .table, 0⟩, [])] }
  | .on index command =>
      match state.tables[index]? with
      | none => state
      | some (tree, records) =>
          { disk := (command.run tree state.disk).2
            tables := state.tables.set index
              (tree, command.records records) }

theorem TablesState.step_on {state : TablesState} {index : Nat}
    {tree : BTree} {records : List TableRecord} {command : TableCommand}
    (here : state.tables[index]? = some (tree, records)) :
    state.step (.on index command) =
      ⟨(command.run tree state.disk).2,
        state.tables.set index (tree, command.records records)⟩ := by
  simp only [TablesState.step, here]

/-- A table is created where no page is free, and commands fit their tables. -/
def TablesFit (state : TablesState) : TablesCommand → Prop
  | .create => state.disk.nextFree 1 = 0 ∧ state.disk.maxPage + 1 < pageIdLimit
  | .on index command => ∃ table ∈ state.tables[index]?,
      CommandFits table.1 ⟨state.disk, table.2⟩ command

instance (state : TablesState) : ∀ command, Decidable (TablesFit state command)
  | .create => inferInstanceAs (Decidable (_ ∧ _))
  | .on _ _ => inferInstanceAs (Decidable (∃ table ∈ _, _))

/-- A table in a file: the pages that it has, with those of its records. -/
def TableIn (disk : Disk) (free : List Nat)
    (table : BTree × List TableRecord) (own : List Nat) : Prop :=
  table.1.type = .table ∧ ∃ height pages flat chains,
    own = pages ++ chains ∧ height ≤ 2 ∧
      TableStore disk free table.1.rootPageId height pages flat chains table.2

/-- The tables of a file, none of which has a page of another one. -/
def SharedTables (disk : Disk) (tables : List (BTree × List TableRecord)) :
    Prop :=
  ∃ free owned, Roomy disk ∧ Store disk free ∧ Separate owned free ∧
    List.Forall₂ (TableIn disk free) tables owned

def TablesCommand.onTable (index : Nat) : TablesCommand → Option TableCommand
  | .create => none
  | .on place command => if place = index then some command else none

/-- The commands on one table. -/
def commandsOn (index : Nat) (commands : List TablesCommand) :
    List TableCommand :=
  commands.filterMap (TablesCommand.onTable index)

theorem commandsOn_append (index : Nat) (first second : List TablesCommand) :
    commandsOn index (first ++ second) =
      commandsOn index first ++ commandsOn index second :=
  List.filterMap_append

theorem commandsOn_own (index : Nat) (command : TableCommand) :
    commandsOn index [.on index command] = [command] := by
  simp [commandsOn, TablesCommand.onTable]

theorem commandsOn_other {index place : Nat} (command : TableCommand)
    (differs : index ≠ place) : commandsOn index [.on place command] = [] := by
  simp [commandsOn, TablesCommand.onTable, Ne.symm differs]

section Shared

variable {disk after : Disk} {free left own mine later : List Nat}
variable {owned : List (List Nat)} {tables : List (BTree × List TableRecord)}
variable {table : BTree × List TableRecord} {tree : BTree} {index : Nat}
variable {records : List TableRecord}

theorem TableIn.present (held : TableIn disk free table own) :
    ∀ page ∈ own, page ≤ disk.maxPage := by
  obtain ⟨_, height, pages, flat, chains, rfl, _, store⟩ := held
  exact store.present

theorem TableIn.beside (held : TableIn disk free table own)
    (within : Within disk free mine after left later) (store : Store after left)
    (others : ∀ page ∈ own, page ∉ mine) : TableIn after left table own := by
  obtain ⟨isTable, height, pages, flat, chains, rfl, bound, stored⟩ := held
  exact ⟨isTable, height, pages, flat, chains, rfl, bound,
    stored.beside within store others⟩

theorem owned_present (held : List.Forall₂ (TableIn disk free) tables owned) :
    ∀ page ∈ owned.flatten, ¬ disk.maxPage < page := by
  intro page member
  obtain ⟨own, inOwned, inOwn⟩ := List.mem_flatten.mp member
  obtain ⟨lengths, each⟩ := List.forall₂_iff_get.mp held
  obtain ⟨index, inside, rfl⟩ := List.getElem_of_mem inOwned
  exact Nat.not_lt.mpr
    ((each index (lengths ▸ inside) inside).present page inOwn)

theorem SharedTables.lowTable (shared : SharedTables disk tables)
    (here : tables[index]? = some (tree, records)) :
    tree.type = .table ∧ LowTable tree disk records := by
  obtain ⟨free, owned, _, _, _, held⟩ := shared
  obtain ⟨own, _, isTable, height, pages, flat, chains, _, bound, table⟩ :=
    owns_getElem held here
  exact ⟨isTable, free, height, pages, flat, chains, table, bound⟩

/-- A command on one table keeps the others as they are. -/
theorem SharedTables.run {command : TableCommand}
    (shared : SharedTables disk tables)
    (here : tables[index]? = some (tree, records))
    (fits : CommandFits tree ⟨disk, records⟩ command) :
    SharedTables (command.run tree disk).2
      (tables.set index (tree, command.records records)) := by
  obtain ⟨free, owned, roomy, store, separate, held⟩ := shared
  obtain ⟨own, ownHere, isTable, height, pages, flat, chains, rfl, bound,
    table⟩ := owns_getElem held here
  obtain ⟨after, left, high, grown, marks, more, runEq, kept, lower, within⟩ :=
    @TableCommand.run_within tree ⟨disk, records⟩ command free pages chains
      height flat isTable table bound fits
  have runEq : command.run tree disk = (.ok (), after) := runEq
  rw [runEq]
  have distinct : ((grown ++ more) ++ left).Nodup := by
    rw [List.append_assoc]
    exact kept.apart
  refine ⟨left, owned.set index (grown ++ more), kept.valid.roomy,
    kept.valid.store, separate.exchange ownHere distinct within.source
      (owned_present held), ?_⟩
  refine owns_set held ⟨isTable, high, grown, marks, more, rfl, lower, kept⟩ ?_
  intro place other theirs _ theirsHere differs otherHeld
  exact otherHeld.beside within kept.valid.store
    (separate.others ownHere theirsHere differs)

/-- A new table. -/
theorem SharedTables.create (shared : SharedTables disk tables)
    (noneFree : disk.nextFree 1 = 0) (room : disk.maxPage + 1 < pageIdLimit) :
    SharedTables (btreeCreate disk).2
      (tables ++ [(⟨pagerNextUnused disk, .table, 0⟩, [])]) := by
  obtain ⟨free, owned, roomy, store, separate, held⟩ := shared
  have isNil : free = [] := by
    have none : ListsNoFree disk 1 := fun _ => noneFree
    exact none.free_nil store rfl
  subst isNil
  obtain ⟨after, createEq, table, within⟩ := btreeCreate_run roomy store room
  rw [createEq]
  have others : List.Forall₂ (TableIn after []) tables owned :=
    held.imp fun _ _ theirs => theirs.beside within table.valid.store
      fun _ _ => List.not_mem_nil
  refine ⟨[], owned ++ [[disk.maxPage + 1]], table.valid.roomy,
    table.valid.store, separate.join (by simp) ?_ (owned_present held),
    List.rel_append others (.cons ?_ .nil)⟩
  · intro page member
    exact (within.source page member).resolve_left List.not_mem_nil
  · exact ⟨rfl, 0, [disk.maxPage + 1], [], [], rfl, Nat.zero_le 2, table⟩

end Shared

/-! ## Runs -/

section Run

variable {start state : TablesState} {commands : List TablesCommand}

theorem SharedTables.step {command : TablesCommand}
    (shared : SharedTables state.disk state.tables)
    (fits : TablesFit state command) :
    SharedTables (state.step command).disk (state.step command).tables := by
  cases command with
  | create => exact shared.create fits.1 fits.2
  | on index command =>
      obtain ⟨⟨tree, records⟩, here, fits⟩ := fits
      have here : state.tables[index]? = some (tree, records) := here
      rw [TablesState.step_on here]
      exact shared.run here fits

/-- What the tables of a run are, after the start and the commands. -/
structure Traced (start : TablesState) (commands : List TablesCommand)
    (state : TablesState) : Prop where
  shared : SharedTables state.disk state.tables
  trees : start.tables.map Prod.fst <+: state.tables.map Prod.fst
  later : ∀ index, state.tables.length ≤ index → commandsOn index commands = []
  contents : ∀ index tree records, state.tables[index]? = some (tree, records) →
    contents records = (commandsOn index commands).foldl
      (fun map command => command.apply map)
      (contents ((start.tables[index]?.map Prod.snd).getD []))

theorem traced_start (shared : SharedTables start.disk start.tables) :
    Traced start [] start where
  shared := shared
  trees := List.prefix_rfl
  later := fun _ _ => rfl
  contents := by
    intro index tree records here
    rw [here]
    rfl

theorem Traced.step {command : TablesCommand} (traced : Traced start commands state)
    (fits : TablesFit state command) :
    Traced start (commands ++ [command]) (state.step command) := by
  have shared := traced.shared.step fits
  cases command with
  | create =>
      have same : ∀ index, commandsOn index (commands ++ [.create]) =
          commandsOn index commands := by
        intro index
        rw [commandsOn_append]
        exact List.append_nil _
      refine ⟨shared, ?_, ?_, ?_⟩
      · unfold TablesState.step
        rw [List.map_append]
        exact traced.trees.trans (List.prefix_append _ _)
      · intro index beyond
        rw [same]
        refine traced.later index (Nat.le_trans ?_ beyond)
        unfold TablesState.step
        rw [List.length_append]
        exact Nat.le_add_right _ _
      · intro index tree records here
        rw [same]
        unfold TablesState.step at here
        by_cases inside : index < state.tables.length
        · rw [List.getElem?_append_left inside] at here
          exact traced.contents index tree records here
        · rw [List.getElem?_append_right (Nat.not_lt.mp inside)] at here
          have fewer := traced.trees.length_le
          rw [List.length_map, List.length_map] at fewer
          rw [traced.later index (Nat.not_lt.mp inside),
            List.getElem?_eq_none (by omega)]
          obtain ⟨_, isNew⟩ := List.getElem?_eq_some_iff.mp here
          rw [List.getElem_singleton] at isNew
          rw [← (Prod.mk.inj isNew).2]
          rfl
  | on place command =>
      obtain ⟨⟨tree, records⟩, here, commandFits⟩ := fits
      have here : state.tables[place]? = some (tree, records) := here
      obtain ⟨inside, tableEq⟩ := List.getElem?_eq_some_iff.mp here
      have stepped : (state.step (.on place command)).tables =
          state.tables.set place (tree, command.records records) := by
        rw [TablesState.step_on here]
      have own : ∀ index, index ≠ place →
          commandsOn index (commands ++ [.on place command]) =
            commandsOn index commands := by
        intro index differs
        rw [commandsOn_append, commandsOn_other command differs,
          List.append_nil]
      refine ⟨shared, ?_, ?_, ?_⟩
      · have sameTrees : (state.tables.set place
            (tree, command.records records)).map Prod.fst =
              state.tables.map Prod.fst := by
          have insideTrees : place < (state.tables.map Prod.fst).length := by
            rw [List.length_map]
            exact inside
          have ownTree : (state.tables.map Prod.fst)[place] = tree := by
            rw [List.getElem_map, tableEq]
          rw [List.map_set, ← ownTree, List.set_getElem_self]
        rw [stepped, sameTrees]
        exact traced.trees
      · intro index beyond
        rw [stepped, List.length_set] at beyond
        rw [own index (by omega)]
        exact traced.later index beyond
      · intro index other othersRecords otherHere
        rw [stepped, List.getElem?_set] at otherHere
        by_cases same : place = index
        · subst same
          rw [if_pos rfl, if_pos inside] at otherHere
          obtain ⟨rfl, rfl⟩ := Prod.mk.inj (Option.some.inj otherHere)
          have lowBefore := (traced.shared.lowTable here).2
          have lowAfter := (shared.lowTable (by
            rw [stepped, List.getElem?_set, if_pos rfl, if_pos inside])).2
          rw [commandsOn_append, commandsOn_own, List.foldl_append,
            List.foldl_cons, List.foldl_nil,
            ← traced.contents place tree records here]
          exact TableCommand.contents_records lowBefore.distinct
            lowAfter.distinct
        · rw [if_neg same] at otherHere
          rw [own index (Ne.symm same)]
          exact traced.contents index other othersRecords otherHere

end Run

/-! ## Two tables -/

def sharedStart : TablesState :=
  ⟨filledDisk, [(scannedTree, [1, 2, 3, 4, 5].map scannedRecord)]⟩

def sharedCommands : List TablesCommand :=
  [.on 0 (.delete 3), .create, .on 1 (.insert (scannedRecord 7)),
    .on 0 (.insert (scannedRecord 6)), .on 1 (.insert (scannedRecord 5)),
    .on 0 (.sweep (fun payload => [1, 5].contains (payload.headD 0)) 10),
    .on 1 (.delete 7)]

theorem sharedCommands_fit :
    AllMeet TablesState.step TablesFit sharedStart sharedCommands := by
  decide +kernel

end BtreeDb
