import MileExplorer.FaultyRuns
import MileExplorer.Lookups
import MileExplorer.Recovery

/-!
# What is indexed stays

Every query that writes to the tables of the blocks and of the transactions is
an insert, and an insert leaves a row with a taken key.  So rows stay there as
they are: through any interleaving of the threads, through failing queries and
through restarts.  What a method has once shown of these tables it shows for
ever.
-/

namespace MileExplorer

/-- The tables from which nothing is removed and in which nothing is changed. -/
def permanent : List TableName := [.blocks, .transactions]

def Retains (before after : Process) : Prop :=
  ∀ table ∈ permanent, ∀ row ∈ (before.store table).rows, row ∈ (after.store table).rows

namespace Retains

theorem of_store_eq {before after : Process} (same : after.store = before.store) :
    Retains before after := by
  intro table _ row member
  rw [same]
  exact member

theorem trans {first second third : Process} (earlier : Retains first second)
    (later : Retains second third) : Retains first third :=
  fun table member row old => later table member row (earlier table member row old)

theorem of_writes {tables : List TableName} {before after : Process}
    (apart : ∀ table ∈ permanent, table ∉ tables) (writes : Writes tables before after) :
    Retains before after := by
  intro table member row old
  rw [writes table (apart table member)]
  exact old

theorem of_writesOnly {tables : List TableName} {before after : Process}
    (apart : ∀ table ∈ permanent, table ∉ tables) (writes : WritesOnly tables before after) :
    Retains before after :=
  of_writes apart writes.1

end Retains

/-! ## The queries -/

namespace Db

theorem mem_of_insertEffect {table : TableName} {data : Json} {store result : Store}
    (done : insertEffect table data store = .ok result) {another : TableName} {row : Json}
    (member : row ∈ (store another).rows) : row ∈ (result another).rows := by
  by_cases same : another = table
  · subst same
    cases data <;> simp only [insertEffect, Except.ok.injEq, reduceCtorEq] at done
    · subst done
      simpa using KeyedTable.mem_insertMany_of_mem member
    · subst done
      simpa using KeyedTable.mem_insert.mpr (.inl member)
  · rw [insertEffect_confined store result done another same]
    exact member

theorem insert_retains (site : Site) (table : TableName) (data : Json) :
    (insert site table data).Steps Process.exec Retains := by
  refine ⟨fun process another _ row member => ?_, fun _ => trivial⟩
  cases done : insertEffect table data process.store with
  | error error => simpa [Process.exec, Process.execFaulty, done] using member
  | ok result =>
      simpa [Process.exec, Process.execFaulty, done] using mem_of_insertEffect done member

theorem retains_of_writesOnly {Result : Type} (tables : List TableName) {program : Prog Result}
    (apart : ∀ table ∈ permanent, table ∉ tables)
    (steps : program.Steps Process.exec (WritesOnly tables)) :
    program.Steps Process.exec Retains :=
  steps.mono fun _ _ => .of_writesOnly apart

theorem getData_retains (site : Site) (cursor : Cursor) :
    (getData site cursor).Steps Process.exec Retains :=
  retains_of_writesOnly [] (by simp) (getData_steps site cursor)

theorem getNumber_retains (site : Site) (cursor : Cursor) :
    (getNumber site cursor).Steps Process.exec Retains :=
  retains_of_writesOnly [] (by simp) (getNumber_steps site cursor)

theorem processBlock_retains (item : Json) (bid : Nat) :
    (processBlock item bid).Steps Process.exec Retains := by
  refine (getNumber_retains _ _).bind fun prevBid => ?_
  split_ifs
  · trivial
  · refine (getData_retains _ _).bind fun row => ?_
    split
    · trivial
    · refine Program.Steps.bind ?_ fun _ => Program.Steps.bind ?_ fun _ => trivial
      · exact (addTransactions_steps _ _ _
          (List.mem_singleton_self TableName.transactionsProcessing)).mono fun _ _ =>
            Retains.of_writes (by decide)
      · unfold storeBlock
        have removes (id : String) : (remove (.remove .blocksProcessing id) .blocksProcessing
            id).Steps Process.exec Retains :=
          retains_of_writesOnly [.blocksProcessing] (by decide)
            (remove_steps _ _ (by decide))
        split_ifs
        · exact removes _
        · exact (insert_retains _ _ _).bind fun _ => removes _

theorem processBlocks_retains (items : List Json) :
    (processBlocks items).Steps Process.exec Retains := by
  induction items with
  | nil => trivial
  | cons item rest ih =>
      unfold processBlocks
      split
      · trivial
      · refine (processBlock_retains _ _).bind fun goesOn => ?_
        split_ifs
        · exact ih
        · trivial

theorem processTransactions_retains (prevBid lastCount : Nat) (items : List Json) :
    (processTransactions prevBid lastCount items).Steps Process.exec Retains := by
  have beside {Result : Type} {program : Prog Result}
      (steps : program.Steps Process.exec
        (WritesOnly [.transactionsState, .transactionsProcessing])) :
      program.Steps Process.exec Retains :=
    retains_of_writesOnly _ (by decide) steps
  induction items generalizing prevBid lastCount with
  | nil => trivial
  | cons item rest ih =>
      unfold processTransactions
      split
      · trivial
      · split
        · exact (beside (remove_steps _ _ (by decide))).bind fun _ => ih _ _
        · trivial
        · refine (getData_retains _ _).bind fun row => ?_
          split_ifs
          · exact (beside (remove_steps _ _ (by decide))).bind fun _ => ih _ _
          · exact (insert_retains _ _ _).bind fun _ =>
              (beside (updateState_steps _ _ _ (by decide))).bind fun _ =>
                (beside (remove_steps _ _ (by decide))).bind fun _ => ih _ _

end Db

/-! ## Runs -/

variable {platform : Platform} {around : Surroundings} {chain : Chain}

theorem Indexer.startable_retains :
    Indexer.Startable platform fun thread => thread.program.Steps Process.exec Retains where
  blocks := ((Db.getData_retains _ _).bind fun _ => Db.processBlocks_retains _).bind
    fun _ => trivial
  transactions prevBid := by
    refine Program.Steps.bind ((Db.getData_retains _ _).bind fun _ => ?_) fun _ => trivial
    refine Program.Steps.bind ?_ fun _ => Db.processTransactions_retains _ _ _
    exact Db.retains_of_writesOnly [.transactionsState] (by decide)
      (Db.readLastCount_steps (by decide))
  starter := Indexer.starterThread_regular.steps.mono fun _ _ => .of_writes (by decide)
  continues _ _ _ answer steps := steps.2 answer
  migrating start := (Indexer.migratingThread_regular start).steps.mono fun _ _ =>
    .of_writesOnly (by decide)
  worker job := (Indexer.workerThread_regular platform job).steps.mono fun _ _ =>
    .of_writes (by decide)
  delivery block number now :=
    (Indexer.deliveryThread_regular platform block number now).steps.mono fun _ _ =>
      .of_writes (by decide)

/-- Whatever happens after some point of a run, the blocks and transactions
stored at that point stay. -/
theorem Faulty.retains_of_reaches {start : Start} {store : Store} {world later : World}
    (reached : Faulty.Reaches platform around chain (Indexer.boot start store) world)
    (goesOn : Faulty.Reaches platform around chain world later) :
    Retains world.shared later.shared := by
  let steady (world : World) : Prop :=
    ∀ thread ∈ world.threads, thread.program.Steps Process.exec Retains
  have keeps (current next : World) (move : Faulty.Move) (before : steady current)
      (moved : Faulty.step platform around chain current move = some next) : steady next :=
    Faulty.threads_of_step Indexer.startable_retains
      (fun task => Db.retains_of_writesOnly task.tables
        (by cases task <;> simp [permanent, SideTask.tables]) (task.thread_writesOnly around))
      before moved
  have initially : steady (Indexer.boot start store) := by
    intro thread member
    rw [List.mem_singleton.mp member]
    exact (@Indexer.startable_retains platform).migrating start
  have midway : steady world :=
    reached.invariant steady initially fun _ _ _ before _ moved => keeps _ _ _ before moved
  have both := goesOn.invariant (fun current => steady current ∧
    Retains world.shared current.shared) ⟨midway, .of_store_eq rfl⟩
    fun current next move before _ moved => ⟨keeps _ _ _ before.1 moved,
      before.2.trans (Faulty.related_of_step (fun _ _ => Retains.of_store_eq) before.1 moved)⟩
  exact both.2

/-- What a request for blocks or transactions was once answered with, the same
request is answered with at any later time, whatever queries fail and however
often the process is restarted in between. -/
theorem indexed_rows_are_permanent (api : NodeApi) (registered : List Method) {start : Start}
    {store : Store} {world later : World}
    (reached : Faulty.Reaches platform around chain (Indexer.boot start store) world)
    (goesOn : Faulty.Reaches platform around chain world later) (params : Json)
    {method : Method} {table : TableName} (shown : method.shows = some table) {result : Json}
    (answered : method.call api registered params world.shared.store = .ok (.answers result)) :
    ∃ answer, method.call api registered params later.shared.store = .ok (.answers answer) ∧
      ∀ row ∈ shownRows result, row ∈ shownRows answer := by
  have kept := Faulty.retains_of_reaches reached goesOn
  refine (Method.consults api registered params shown).grows (fun row member => ?_) answered
  refine kept table ?_ row member
  cases method <;> simp only [Method.shows, Option.some.injEq, reduceCtorEq] at shown
  all_goals
    subst shown
    decide

/-- Block 0 is shown, then the process works on with a failing query and is
restarted. -/
theorem indexed_rows_are_permanent_once :
    ∃ world later result answer,
      Faulty.Reaches samplePlatform sampleSurroundings sampleChain (Indexer.firstBoot ⟨0, 0⟩)
        world ∧
      Faulty.Reaches samplePlatform sampleSurroundings sampleChain world later ∧
      Api.getBlock sampleApi (.ofMembers [("id", .num 0)]) world.shared.store =
        .ok (.answers result) ∧ shownRows result ≠ [] ∧
      Api.getBlock sampleApi (.ofMembers [("id", .num 0)]) later.shared.store =
        .ok (.answers answer) ∧ ∀ row ∈ shownRows result, row ∈ shownRows answer := by
  let step := Faulty.step samplePlatform sampleSurroundings sampleChain
  let before : List Faulty.Move := ((catchUp 0 1).take 29).map .indexer
  let after : List Faulty.Move :=
    [.fail 0 true, .indexer (.advance 1), .start (.turnover24 100000), .fail 2 false,
      .indexer (.restart ⟨0, 0⟩), .indexer (.advance 0), .fail 0 true]
  obtain ⟨world, reached, shown, further⟩ := Reaches.exists_of_runMoves step (fun _ _ => True)
    (Indexer.firstBoot ⟨0, 0⟩) before
    (fun world => shownRows (getDataOf (Db.blockById 0 world.shared.store)) ≠ [] ∧
      (runMoves step (fun _ _ => True) world after).isSome = true) (by decide +kernel)
  obtain ⟨later, finished⟩ := Option.isSome_iff_exists.mp further
  have goesOn := Reaches.of_runMoves finished
  have answered : Method.getBlock.call sampleApi [] (.ofMembers [("id", .num 0)])
      world.shared.store = .ok (.answers (getDataOf (Db.blockById 0 world.shared.store))) := rfl
  obtain ⟨answer, answeredLater, kept⟩ :=
    indexed_rows_are_permanent sampleApi [] reached goesOn _ rfl answered
  exact ⟨world, later, _, answer, reached, goesOn, answered, shown, answeredLater, kept⟩

end MileExplorer
