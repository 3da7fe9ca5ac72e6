import MileExplorer.FetchStates
import MileExplorer.Genesis
import MileExplorer.IndexerRoles
import MileExplorer.SharedInvariant
import MileExplorer.Statistics
import MileExplorer.WalletsTop
import MileExplorer.WalletStates

/-!
# The whole process on a database that fails

Beside the threads that index blocks, workers of other queues store the states
of the network and of wallets, the genesis and the statistics.  Any of their
queries may fail before or after it was done, and the process may be restarted
at any time.  A run is any sequence of such moves.
-/

namespace MileExplorer

/-- What the process takes from outside of this repository beside `Platform`:
the node's API, the conversion of amounts, and the order of amounts in the
database. -/
structure Surroundings where
  api : NodeApi
  stold : String → Except Exn Rat
  amounts : AmountOrder

def sampleSurroundings : Surroundings := ⟨sampleApi, Statistics.sampleStold, WalletsTop.sampleAmounts⟩

/-- What a worker of another queue does: an iteration of `fetch_states`, the
loading of the genesis, the write of a wallet's state, or a statistic. -/
inductive SideTask where
  | states (loop : StatesLoop) (answer : NodeAnswer)
  | genesis (elements : List Genesis.Element)
  | walletState (publicKey : String) (time : Int) (state : Document)
  | transactionTurnover (last : Int)
  | turnover24 (last : Int)
  | walletsTop

namespace SideTask

def program (around : Surroundings) : SideTask → Prog Unit
  | .states loop answer => do
      let _ ← loop.iteration answer
      return ()
  | .genesis elements => do
      let _ ← Db.updateGenesis elements
      return ()
  | .walletState publicKey time state => do
      let _ ← Db.update publicKey .walletsState (Db.walletState publicKey time state)
      return ()
  | .transactionTurnover last => do
      let _ ← Statistics.transactionTurnover around.api around.stold last
      return ()
  | .turnover24 last => do
      let _ ← Statistics.turnover24 around.api around.stold last
      return ()
  | .walletsTop => WalletsTop.method around.api around.amounts

def thread (around : Surroundings) (task : SideTask) : IndexerThread where
  role := .worker
  program := do
    task.program around
    return .ended

end SideTask

/-! ## What the other workers write -/

section Footprints

variable {tables : List TableName}

theorem Db.addNodeWallets_writesOnly (id : String) (now : Int) (nodes : List Json)
    (member : .nodeWallets ∈ tables) :
    (Db.addNodeWallets id now nodes).Steps Process.exec (WritesOnly tables) := by
  induction nodes with
  | nil => trivial
  | cons item rest ih =>
      unfold Db.addNodeWallets
      split
      · exact (Db.update_steps _ _ member).bind fun _ => ih
      · trivial
      · trivial
      · trivial

theorem StatesLoop.iteration_writesOnly (loop : StatesLoop) (answer : NodeAnswer)
    (info : .blockchainInfo ∈ tables) (states : .nodeStates ∈ tables)
    (wallets : .nodeWallets ∈ tables) :
    (loop.iteration answer).Steps Process.exec (WritesOnly tables) := by
  unfold StatesLoop.iteration
  split
  · refine Program.Steps.bind ?_ fun got => ?_
    · unfold StatesLoop.updateInfo
      split
      · trivial
      · split
        · trivial
        · refine Program.Steps.bind ?_ fun stored => ?_
          · unfold Db.updateInfo
            split
            · trivial
            · exact Db.update_steps _ _ info
          · split <;> trivial
    · split
      · trivial
      · unfold StatesLoop.addStates
        split
        · split_ifs
          · trivial
          · trivial
          · exact Program.Steps.bind ((Db.insert_steps _ _ states).bind fun _ =>
              Db.addNodeWallets_writesOnly _ _ _ wallets) fun _ => trivial
        · trivial
  · trivial

theorem Db.updateGenesis_writesOnly (elements : List Genesis.Element)
    (wallets : .wallets ∈ tables) (genesis : .genesisTransactions ∈ tables) :
    (Db.updateGenesis elements).Steps Process.exec (WritesOnly tables) := by
  have loads (serial : Nat) :
      (Db.addGenesisTransactions serial elements).Steps Process.exec (WritesOnly tables) := by
    induction elements generalizing serial with
    | nil => trivial
    | cons element rest ih =>
        refine Program.Steps.bind (Program.Steps.bind ?_ fun added => ?_) fun stored => ?_
        · unfold Db.addWalletTransaction
          split
          · exact (Db.addWalletEntries_steps _ _ _ _).mono fun _ _ =>
              WritesOnly.mono (by simpa using wallets)
          · trivial
          · trivial
        · split
          · trivial
          · split
            · trivial
            · unfold Db.updateGenesisRow
              split
              · exact (Db.updateFields_steps _ _ _ genesis).bind fun _ => trivial
              · refine ⟨Db.read_writesOnly _ _, fun status => ?_⟩
                dsimp only
                split <;> trivial
        · split
          · trivial
          · exact ih _
  have queues (items : List Json) :
      (Db.updateWalletsStateFor items).Steps Process.exec (WritesOnly tables) := by
    induction items with
    | nil => trivial
    | cons item rest ih =>
        unfold Db.updateWalletsStateFor
        split
        · trivial
        · exact ⟨fun _ => ⟨fun _ _ => rfl, rfl, rfl, rfl⟩, fun _ => ih⟩
  refine (loads 0).bind fun result => ?_
  split
  · trivial
  · exact (Db.getData_steps _ _).bind fun items => queues _

theorem Db.insertWithReplace_writesOnly (site : Site) {table : TableName} (data : Json)
    (member : table ∈ tables) :
    (Db.insertWithReplace site table data).Steps Process.exec (WritesOnly tables) := by
  refine ⟨Db.write_writesOnly member fun store result done another other => ?_, fun _ => trivial⟩
  cases data <;> simp only [Db.replaceEffect, Except.ok.injEq, reduceCtorEq] at done
  all_goals
    subst done
    simp [other]

theorem Statistics.storeRow_writesOnly {table : TableName} (id : String) (row : Json)
    (member : table ∈ tables) :
    (Statistics.storeRow table id row).Steps Process.exec (WritesOnly tables) := by
  refine (Db.update_steps _ _ member).bind fun result => ?_
  split <;> trivial

end Footprints

def SideTask.tables : SideTask → List TableName
  | .states _ _ => [.nodeStates, .nodeWallets, .blockchainInfo]
  | .genesis _ => [.wallets, .genesisTransactions]
  | .walletState _ _ _ => [.walletsState]
  | .transactionTurnover _ => [.transactionTurnover]
  | .turnover24 _ => [.turnovers]
  | .walletsTop => [.walletsTop]

/-- The genesis that the task loads, if it loads one, has only transactions of
which the condition holds. -/
def SideTask.LoadsFrom (genesis : Json → Prop) : SideTask → Prop
  | .genesis elements => ∀ element ∈ elements, genesis element.value
  | _ => True

theorem SideTask.thread_writesOnly (around : Surroundings) (task : SideTask) :
    (task.thread around).program.Steps Process.exec (WritesOnly task.tables) := by
  refine Program.Steps.bind ?_ fun _ => trivial
  cases task with
  | states loop answer =>
      exact (loop.iteration_writesOnly answer (by simp [tables]) (by simp [tables])
        (by simp [tables])).bind fun _ => trivial
  | genesis elements =>
      exact (Db.updateGenesis_writesOnly elements (by simp [tables]) (by simp [tables])).bind
        fun _ => trivial
  | walletState publicKey time state =>
      exact (Db.update_steps _ _ (by simp [tables])).bind fun _ => trivial
  | transactionTurnover last =>
      refine Program.Steps.bind ((Db.getData_steps _ _).bind fun items => ?_) fun _ => trivial
      split
      · trivial
      · exact Statistics.storeRow_writesOnly _ _ (by simp [tables])
  | turnover24 last =>
      refine Program.Steps.bind ((Db.getData_steps _ _).bind fun items => ?_) fun _ => trivial
      split
      · trivial
      · exact Statistics.storeRow_writesOnly _ _ (by simp [tables])
  | walletsTop =>
      exact (Db.getData_steps _ _).bind fun items =>
        Db.insertWithReplace_writesOnly _ _ (by simp [tables])

/-! ## Runs -/

def Query.asksDatabase : Query → Bool
  | .read _ _ => true
  | .write _ _ => true
  | _ => false

def connectionLost : Except DbError Json := .error ⟨"connection lost"⟩

section Rules

variable {invariant : Process → Prop}

theorem Db.getData_keeps {site : Site} {cursor : Cursor} {post : Json → Prop}
    (failed : post (.arr []))
    (answered : ∀ process, invariant process → post (getDataOf (cursor process.store))) :
    (Db.getData site cursor).Keeps Process.exec connectionLost invariant post :=
  .request failed fun process holds => ⟨holds, answered process holds⟩

theorem Db.getData_keeps_any {site : Site} {cursor : Cursor} :
    (Db.getData site cursor).Keeps Process.exec connectionLost invariant fun _ => True :=
  Db.getData_keeps trivial fun _ _ => trivial

theorem Db.getNumber_keeps {site : Site} {cursor : Cursor} :
    (Db.getNumber site cursor).Keeps Process.exec connectionLost invariant fun _ => True :=
  .request trivial fun _ holds => ⟨holds, trivial⟩

theorem Db.write_keeps {Result : Type} {site : Site} {effect : Store → Except DbError Store}
    {read : Except DbError Json → Result}
    (kept : ∀ process store, invariant process → effect process.store = .ok store →
      invariant { process with store := store }) :
    (Program.request (.write site effect) read).Keeps Process.exec connectionLost invariant
      fun _ => True := by
  refine .request trivial fun process holds => ⟨?_, trivial⟩
  cases done : effect process.store with
  | error error => simpa [Process.exec, Process.execFaulty, done] using holds
  | ok store => simpa [Process.exec, Process.execFaulty, done] using kept process store holds done

/-- A query of `Table::update(id, data)` keeps the invariant, if the inserted
row and each field does. -/
theorem Db.updateFields_keeps {row id : String} {table : TableName} {data : List (String × Json)}
    (inserted : ∀ process store, invariant process →
      Db.insertEffect table (Db.fieldRow id data) process.store = .ok store →
        invariant { process with store := store })
    (added : ∀ entry ∈ data, ∀ process store, invariant process →
      Db.unionEffect table id entry.1 entry.2 process.store = .ok store →
        invariant { process with store := store }) :
    (Db.updateFields row table id data).Keeps Process.exec connectionLost invariant
      fun _ => True := by
  have unions : (Db.unionFields row table id data).Keeps Process.exec connectionLost invariant
      fun _ => True := by
    clear inserted
    induction data with
    | nil => trivial
    | cons entry rest ih =>
        obtain ⟨field, value⟩ := entry
        have first : (Program.request (.write (.update table row)
            (Db.unionEffect table id field value)) fun answer => answer).Keeps Process.exec
              connectionLost invariant fun _ => True :=
          Db.write_keeps (added (field, value) (by simp))
        have later := ih fun other member => added other (by simp [member])
        unfold Db.unionFields
        exact ⟨trivial, fun process holds => ⟨(first.2 process holds).1, by
          dsimp only
          split
          · exact later
          · trivial⟩⟩
  have inserts : (Db.insert (.update table row) table (Db.fieldRow id data)).Keeps Process.exec
      connectionLost invariant fun _ => True := Db.write_keeps inserted
  refine ⟨trivial, fun process holds => ⟨holds, ?_⟩⟩
  dsimp only
  split
  · exact inserts
  · exact unions
  · trivial

end Rules

namespace Faulty

inductive Move where
  | indexer (move : Indexer.Move)
  /-- A worker of another queue takes up a task. -/
  | start (task : SideTask)
  /-- The next query of a thread fails, done or not. -/
  | fail (position : Nat) (written : Bool)

variable (platform : Platform) (around : Surroundings) (chain : Chain)

def step (world : World) : Move → Option World
  | .indexer move => Indexer.step platform chain world move
  | .start task => some { world with threads := world.threads ++ [task.thread around] }
  | .fail position written =>
      world.failAt Process.exec connectionLost Query.asksDatabase position written

abbrev Reaches (start : World) : World → Prop :=
  MileExplorer.Reaches (step platform around chain) (fun _ _ => True) start

variable {platform around chain} {world next : World}

/-- A property of all threads that the process can start, which a thread does
not lose from one query to the next. -/
theorem threads_of_step {property : IndexerThread → Prop}
    (startable : Indexer.Startable platform property)
    (tasks : ∀ task : SideTask, property (task.thread around)) {move : Move}
    (all : ∀ thread ∈ world.threads, property thread)
    (moved : step platform around chain world move = some next) :
    ∀ thread ∈ next.threads, property thread := by
  cases move with
  | indexer move => exact startable.step all moved
  | start task =>
      obtain rfl := Option.some.inj moved
      intro thread member
      rcases List.mem_append.mp member with old | new
      · exact all thread old
      · rw [List.mem_singleton.mp new]
        exact tasks task
  | fail position written =>
      obtain ⟨role, query, following, found, -, threadsEq⟩ := Pool.failAt_cases moved
      intro thread member
      rcases threadsEq thread member with old | rfl
      · exact all thread old
      · exact startable.continues _ _ _ _ (all _ found)

/-- If every query of every thread stays within a relation, so does every
move. -/
theorem related_of_step {relation : Process → Process → Prop}
    (unchanged : ∀ before after : Process, after.store = before.store → relation before after)
    (all : ∀ thread ∈ world.threads, thread.program.Steps Process.exec relation) {move : Move}
    (moved : step platform around chain world move = some next) :
    relation world.shared next.shared := by
  cases move with
  | indexer move =>
      obtain ⟨_, _, -, -, rfl⟩ | ⟨_, -, rfl⟩ | ⟨_, _, -, rfl⟩ | ⟨_, _, -, rfl⟩ |
        ⟨position, -, advanced⟩ | ⟨start, -, rfl⟩ := Indexer.step_cases moved
      · exact unchanged _ _ rfl
      · exact unchanged _ _ rfl
      · exact unchanged _ _ rfl
      · exact unchanged _ _ rfl
      · obtain ⟨⟨role, program⟩, before, after, threadsEq, -, sharedEq, -⟩ :=
          Pool.advance_cases advanced
        rw [sharedEq]
        cases program with
        | done exit => exact unchanged _ _ rfl
        | ask query following =>
            have steps := all ⟨role, .ask query following⟩ (by simp [threadsEq])
            exact steps.1 world.shared
      · exact unchanged _ _ rfl
  | start task =>
      obtain rfl := Option.some.inj moved
      exact unchanged _ _ rfl
  | fail position written =>
      obtain ⟨role, query, following, found, sharedEq, -⟩ := Pool.failAt_cases moved
      rw [sharedEq]
      cases written with
      | false => exact unchanged _ _ rfl
      | true => exact (all _ found).1 world.shared

/-- The states that are reached with such a genesis. -/
abbrev ReachesFrom (platform : Platform) (around : Surroundings) (chain : Chain)
    (genesis : Json → Prop) (start : World) : World → Prop :=
  MileExplorer.Reaches (step platform around chain)
    (fun _ move => ∀ task, move = .start task → task.LoadsFrom genesis) start

/-- Any genesis will do. -/
theorem reachesFrom_of_reaches {start : World}
    (reached : Faulty.Reaches platform around chain start world) :
    ReachesFrom platform around chain (fun _ => True) start world := by
  refine reached.mono fun _ _ _ task _ => ?_
  cases task with
  | genesis elements => exact fun _ _ => trivial
  | _ => trivial

/-- Every thread keeps the invariant when it is started, and what happens
beside the threads keeps it too. -/
structure Keeping (platform : Platform) (around : Surroundings) (chain : Chain)
    (genesis : Json → Prop) (invariant : Process → Prop) : Prop where
  migrating : ∀ start, (Indexer.migratingThread start).program.Keeps Process.exec connectionLost
    invariant fun _ => True
  blocks : Indexer.blocksThread.program.Keeps Process.exec connectionLost invariant fun _ => True
  transactions : ∀ prevBid, (Indexer.transactionsThread prevBid).program.Keeps Process.exec
    connectionLost invariant fun _ => True
  starter : Indexer.starterThread.program.Keeps Process.exec connectionLost invariant
    fun _ => True
  worker : ∀ process job, invariant process → job ∈ process.waiting →
    (Indexer.workerThread platform job).program.Keeps Process.exec connectionLost invariant
      fun _ => True
  delivery : ∀ number now,
    (Indexer.deliveryThread platform (chain number).json number now).program.Keeps Process.exec
      connectionLost invariant fun _ => True
  tasks : ∀ task : SideTask, task.LoadsFrom genesis →
    (task.thread around).program.Keeps Process.exec connectionLost invariant fun _ => True
  fetcher : ∀ process fetcher, invariant process → invariant { process with fetcher := fetcher }
  take : ∀ process position job, process.waiting[position]? = some job → invariant process →
    invariant (Indexer.take position job process)
  restart : ∀ process, invariant process → invariant (Process.idle process.store)

namespace Keeping

variable {genesis : Json → Prop} {invariant : Process → Prop}

theorem resumes (keeping : Keeping platform around chain genesis invariant) (exit : Exit) :
    ∀ thread ∈ Indexer.resume exit,
      thread.program.Keeps Process.exec connectionLost invariant fun _ => True := by
  intro thread member
  cases exit with
  | ended => simp [Indexer.resume] at member
  | initialized =>
      simp only [Indexer.resume, List.mem_cons, List.not_mem_nil, or_false] at member
      rcases member with rfl | rfl | rfl
      · exact keeping.blocks
      · exact keeping.transactions 0
      · exact keeping.starter
  | blocks =>
      obtain rfl : thread = Indexer.blocksThread := by simpa [Indexer.resume] using member
      exact keeping.blocks
  | transactions prevBid =>
      obtain rfl : thread = Indexer.transactionsThread prevBid := by
        simpa [Indexer.resume] using member
      exact keeping.transactions prevBid

theorem boot (keeping : Keeping platform around chain genesis invariant) (start : Start) {store : Store}
    (holds : invariant (Process.idle store)) :
    (Indexer.boot start store).Keeps Process.exec connectionLost invariant := by
  refine ⟨holds, fun thread member => ?_⟩
  rw [List.mem_singleton.mp member]
  exact keeping.migrating start

theorem step (keeping : Keeping platform around chain genesis invariant)
    (keeps : world.Keeps Process.exec connectionLost invariant) {move : Move}
    (loads : ∀ task, move = .start task → task.LoadsFrom genesis)
    (moved : Faulty.step platform around chain world move = some next) :
    next.Keeps Process.exec connectionLost invariant := by
  cases move with
  | indexer move =>
      obtain ⟨first, last, -, -, rfl⟩ | ⟨number, -, rfl⟩ | ⟨number, now, -, rfl⟩ |
        ⟨position, job, found, rfl⟩ | ⟨position, -, advanced⟩ | ⟨start, -, rfl⟩ :=
          Indexer.step_cases moved
      · exact keeps.event (keeping.fetcher _ _ keeps.holds)
      · exact keeps.event (keeping.fetcher _ _ keeps.holds)
      · exact (keeps.event (keeping.fetcher _ _ keeps.holds)).spawn (keeping.delivery number now)
      · exact (keeps.event (keeping.take _ position job found keeps.holds)).spawn
          (keeping.worker _ job keeps.holds (List.mem_of_getElem? found))
      · exact keeps.advance keeping.resumes advanced
      · exact keeping.boot start (keeping.restart _ keeps.holds)
  | start task =>
      obtain rfl := Option.some.inj moved
      exact keeps.spawn (keeping.tasks task (loads task rfl))
  | fail position written => exact keeps.failAt moved

/-- What the threads keep and the tables of the start satisfy holds in every
state of every run. -/
theorem holds_of_reaches (keeping : Keeping platform around chain genesis invariant)
    {start : Start} {store : Store} (initially : invariant (Process.idle store))
    (reached : ReachesFrom platform around chain genesis (Indexer.boot start store) world) :
    invariant world.shared := by
  have keeps := reached.invariant (Pool.Keeps Process.exec connectionLost invariant)
    (keeping.boot start initially) fun _ _ _ before loads moved => keeping.step before loads moved
  exact keeps.holds

end Keeping

end Faulty

end MileExplorer
