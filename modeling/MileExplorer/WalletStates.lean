import MileExplorer.StoreRules
import MileExplorer.TransitionSystem

/-!
# Stored wallet states

Any number of tasks of `update_wallet_state` run at once.  A task asks a node
for the state of its wallet until it gets an answer, stamps the answer with the
time and writes it with `Table::update`.  Nothing compares the stamp with the
stored one, so a task that is slow to write goes back in time.
-/

namespace MileExplorer

structure Document where
  members : List (String × Json)
  ordered : Json.Ordered members

def Db.walletState (publicKey : String) (time : Int) (state : Document) : Json :=
  (((Json.obj state.members).set "timestamp" (.num time)).erase "preferred-transaction-id").set
    "id" (.str publicKey)

theorem walletState_members (publicKey : String) (time : Int) (state : Document) :
    ∃ members, Db.walletState publicKey time state = .obj members ∧ Json.Ordered members ∧
      (Json.obj members).find? "id" = some (.str publicKey) ∧
      (Json.obj members).find? "timestamp" = some (.num time) := by
  have timed := state.ordered.setMember "timestamp" (.num time)
  have erased := List.Pairwise.sublist ((List.filter_sublist
    (p := fun entry => decide (entry.1 ≠ "preferred-transaction-id"))).map Prod.fst) timed
  refine ⟨_, rfl, Json.Ordered.setMember erased "id" (.str publicKey), ?_, ?_⟩
  · exact (Json.member?_setMember _ _ _ _).trans (if_pos rfl)
  · simp only [Json.find?, Json.member?_setMember, Json.member?_filter_ne]
    rfl

/-! ## A task under way -/

/-- The `turn`-th answer of all, with the time it was stamped with. -/
structure StampedState where
  turn : Nat
  time : Int
  state : Document

/-- How far a task is: `fetching` covers every attempt that yields no object,
and `writing` remembers what the emptiness check found. -/
inductive StatePhase where
  | fetching
  | fetched (turn : Nat) (state : Document)
  | checking (stamped : StampedState)
  | writing (absent : Bool) (stamped : StampedState)

structure StateTask where
  publicKey : String
  phase : StatePhase

namespace StatePhase

def turn? : StatePhase → Option Nat
  | fetching => none
  | fetched turn _ => some turn
  | checking stamped => some stamped.turn
  | writing _ stamped => some stamped.turn

def time? : StatePhase → Option Int
  | fetching => none
  | fetched _ _ => none
  | checking stamped => some stamped.time
  | writing _ stamped => some stamped.time

/-- The task may still write over a row: an insert is refused if there is one. -/
def Overwrites : StatePhase → Prop
  | writing absent _ => absent = false
  | _ => True

instance (phase : StatePhase) : Decidable phase.Overwrites :=
  match phase with
  | fetching => isTrue trivial
  | fetched _ _ => isTrue trivial
  | checking _ => isTrue trivial
  | writing absent _ => inferInstanceAs (Decidable (absent = false))

end StatePhase

/-! ## The queries of `Table::update` -/

namespace Db

def stateCheck (publicKey : String) : Query :=
  .read (.check .walletsState publicKey) (isEmpty .walletsState publicKey)

def stateWrite (publicKey : String) (absent : Bool) (stamped : StampedState) : Query :=
  let data := walletState publicKey stamped.time stamped.state
  .write (.update .walletsState publicKey)
    (if absent then insertEffect .walletsState data
      else updateEffect .walletsState publicKey (data.erase publicKey))

/-- The phase after the check, if the task goes on. -/
def checked (stamped : StampedState) (answer : Except DbError Json) : Option StatePhase :=
  match answer with
  | .ok (.bool true) => some (.writing true stamped)
  | .ok _ => some (.writing false stamped)
  | .error _ => none

theorem checked_bool (stamped : StampedState) (absent : Bool) :
    checked stamped (.ok (.bool absent)) = some (.writing absent stamped) := by
  cases absent <;> rfl

/-- What is left of `Table::update` after the check. -/
def written (publicKey : String) : Option StatePhase → Prog (Except Exn Unit)
  | some (.writing absent stamped) =>
      .ask (stateWrite publicKey absent stamped) fun _ => .done (.ok ())
  | _ => .done (.ok ())

/-- The phases are the steps of `Table::update`. -/
theorem update_walletState (publicKey : String) (stamped : StampedState) :
    update publicKey .walletsState (walletState publicKey stamped.time stamped.state) =
      .ask (stateCheck publicKey) fun answer => written publicKey (checked stamped answer) := by
  obtain ⟨members, dataEq, -, idEq, -⟩ :=
    walletState_members publicKey stamped.time stamped.state
  have head : (walletState publicKey stamped.time stamped.state).indexConst "id" >>=
      Json.getString = .ok publicKey := by
    rw [dataEq, Json.indexConst_of_find? idEq]
    rfl
  rw [update, head]
  apply congrArg (Program.ask _)
  funext answer
  cases answer with
  | error error => rfl
  | ok value =>
      cases value with
      | bool found => cases found <;> rfl
      | _ => rfl

end Db

/-! ## What a write does to the table -/

def stampOf (row : Json) : Option Int :=
  match row.find? "timestamp" with
  | some (.num time) => some time
  | _ => none

def stampIn (table : Table) (id : String) : Option Int := (table.get? (.str id)).bind stampOf

/-- The write takes effect: an insert is refused if the row is there, an update
finds nothing if it is not. -/
def Lands (table : Table) (publicKey : String) (absent : Bool) : Prop :=
  absent = true ↔ ¬ table.Has (.str publicKey)

instance (table : Table) (publicKey : String) (absent : Bool) :
    Decidable (Lands table publicKey absent) :=
  inferInstanceAs (Decidable (_ ↔ _))

def stateTable (table : Table) (publicKey : String) (absent : Bool) (stamped : StampedState) :
    Table :=
  Db.upsert absent publicKey (Db.walletState publicKey stamped.time stamped.state) table

theorem exec_stateWrite (process : Process) (publicKey : String) (absent : Bool)
    (stamped : StampedState) :
    Process.exec (Db.stateWrite publicKey absent stamped) process =
      (.ok .null, process.withTable .walletsState
        (stateTable (process.store .walletsState) publicKey absent stamped)) := by
  obtain ⟨members, dataEq, -, idEq, -⟩ :=
    walletState_members publicKey stamped.time stamped.state
  have isObj : (Db.walletState publicKey stamped.time stamped.state).isObject = true := by
    rw [dataEq]
    rfl
  cases absent with
  | true => exact Process.exec_write_of_ok (Db.insertEffect_of_isObject isObj)
  | false => exact Process.exec_write_of_ok rfl

section Write

variable {table : Table} {publicKey : String} {absent : Bool} (stamped : StampedState)

theorem docId_walletState (publicKey : String) :
    docId (Db.walletState publicKey stamped.time stamped.state) = .str publicKey := by
  obtain ⟨members, dataEq, -, idEq, -⟩ :=
    walletState_members publicKey stamped.time stamped.state
  rw [dataEq]
  exact docId_of_find? idEq

theorem stateTable_of_not_lands (refused : ¬ Lands table publicKey absent) :
    stateTable table publicKey absent stamped = table := by
  cases absent with
  | true =>
      have taken : table.Has (.str publicKey) := by simpa [Lands] using refused
      apply KeyedTable.insert_of_has
      rw [docId_walletState]
      exact taken
  | false =>
      have missing : ¬ table.Has (.str publicKey) := by simpa [Lands] using refused
      apply KeyedTable.modify_eq_self
      intro row found
      exact absurd (KeyedTable.has_iff_get?.mpr ⟨row, found⟩) missing

theorem has_stateTable (lands : Lands table publicKey absent) {key : Json} :
    (stateTable table publicKey absent stamped).Has key ↔
      table.Has key ∨ key = .str publicKey := by
  cases absent with
  | true =>
      refine KeyedTable.has_insert.trans (or_congr_right ?_)
      rw [docId_walletState]
      exact eq_comm
  | false =>
      have present : table.Has (.str publicKey) := by simpa [Lands] using lands
      refine KeyedTable.has_modify.trans ⟨.inl, ?_⟩
      rintro (has | rfl)
      · exact has
      · exact present

theorem stampIn_of_ne {id : String} (differ : id ≠ publicKey) :
    stampIn (stateTable table publicKey absent stamped) id = stampIn table id := by
  have keys : Json.str id ≠ .str publicKey := fun same => differ (Json.str.inj same)
  cases absent with
  | true =>
      have other : docId (Db.walletState publicKey stamped.time stamped.state) ≠ .str id := by
        rw [docId_walletState]
        exact keys.symm
      exact congrArg (fun row : Option Json => row.bind stampOf)
        (KeyedTable.get?_insert_of_ne other)
  | false =>
      exact congrArg (fun row : Option Json => row.bind stampOf)
        (KeyedTable.get?_modify_of_ne keys)

/-- An update writes the stamp, except that `erase(id)` takes it out of the data
of a wallet called `timestamp`. -/
theorem merge_walletState (members : List (String × Json)) (publicKey : String)
    (key : docId (.obj members) = .str publicKey) :
    let data := Db.walletState publicKey stamped.time stamped.state
    let row := (Json.obj members).merge (data.erase publicKey)
    docId row = .str publicKey ∧
      (stampOf row = some stamped.time ∨ stampOf row = stampOf (.obj members)) := by
  obtain ⟨new, dataEq, ordered, idEq, timeEq⟩ :=
    walletState_members publicKey stamped.time stamped.state
  have merged := Json.find?_merge_erase_of_ordered ordered members publicKey
  intro data row
  have rowEq : row = (Json.obj members).merge ((Json.obj new).erase publicKey) := by
    rw [← dataEq]
  constructor
  · rw [rowEq, docId, merged, idEq]
    by_cases named : publicKey = "id"
    · rw [if_pos named]
      exact key
    · rw [if_neg named]
      cases Json.member? "id" members <;> simp
  · by_cases named : publicKey = "timestamp"
    · right
      rw [rowEq, stampOf, merged, if_pos named]
      rfl
    · left
      rw [rowEq, stampOf, merged, if_neg named, timeEq]
      cases Json.member? "timestamp" members <;> simp

theorem stampIn_stateTable (lands : Lands table publicKey absent) :
    stampIn (stateTable table publicKey absent stamped) publicKey = some stamped.time ∨
      absent = false ∧
        stampIn (stateTable table publicKey absent stamped) publicKey =
          stampIn table publicKey := by
  cases absent with
  | true =>
      have missing : ¬ table.Has (.str publicKey) := by simpa [Lands] using lands
      have key := docId_walletState stamped publicKey
      have found : (stateTable table publicKey true stamped).get? (.str publicKey) =
          some (Db.walletState publicKey stamped.time stamped.state) := by
        rw [← key] at missing ⊢
        exact KeyedTable.get?_insert_self missing
      obtain ⟨members, dataEq, -, -, timeEq⟩ :=
        walletState_members publicKey stamped.time stamped.state
      left
      rw [stampIn, found, Option.bind_some, stampOf, dataEq, timeEq]
  | false =>
      have present : table.Has (.str publicKey) := by simpa [Lands] using lands
      obtain ⟨row, found⟩ := KeyedTable.has_iff_get?.mp present
      have key := (KeyedTable.get?_eq_some.mp found).2
      obtain ⟨members, rfl⟩ := exists_members_of_docId (by simp [key] : docId row ≠ .null)
      obtain ⟨rowKey, stamp⟩ := merge_walletState stamped members publicKey key
      have merged : (stateTable table publicKey false stamped).get? (.str publicKey) =
          some _ := KeyedTable.get?_modify_self found rowKey
      rw [stampIn, merged, Option.bind_some, stampIn, found, Option.bind_some]
      exact stamp.imp_right fun same => ⟨rfl, same⟩

end Write

/-! ## Runs of interleaved tasks -/

/-- The tasks under way on the shared tables.  `fetches` counts the answers of
nodes, and `written` keeps the wallet and the turn of every state that was
written. -/
structure StateRun where
  process : Process
  clock : Int
  fetches : Nat
  tasks : List StateTask
  written : List (String × Nat)

abbrev StateRun.table (run : StateRun) : Table := run.process.store .walletsState

/-- Begin a task, let time pass, or let a task take its next step.  An attempt
to fetch may yield nothing, and a query may fail. -/
inductive StateMove where
  | start (publicKey : String)
  | tick (seconds : Nat)
  | fetch (position : Nat) (answer : Option Document)
  | stamp (position : Nat)
  | check (position : Nat) (fails : Bool)
  | write (position : Nat) (fails : Bool)

namespace StateRun

variable (run : StateRun)

/-- The task at a position goes on, or is done. -/
def goOn (position : Nat) (publicKey : String) : Option StatePhase → List StateTask
  | some phase => run.tasks.set position ⟨publicKey, phase⟩
  | none => run.tasks.eraseIdx position

def fetched (position : Nat) (publicKey : String) (state : Document) : StateRun :=
  { run with
    fetches := run.fetches + 1
    tasks := run.goOn position publicKey (some (.fetched run.fetches state)) }

def stamped (position : Nat) (publicKey : String) (turn : Nat) (state : Document) : StateRun :=
  { run with
    tasks := run.goOn position publicKey (some (.checking ⟨turn, run.clock, state⟩)) }

def checked (position : Nat) (publicKey : String) (stamped : StampedState) (fails : Bool) :
    StateRun :=
  let answered := Process.execFaulty (fun _ => fails) (Db.stateCheck publicKey) run.process
  { run with
    process := answered.2
    tasks := run.goOn position publicKey (Db.checked stamped answered.1) }

def wrote (position : Nat) (publicKey : String) (absent : Bool) (stamped : StampedState)
    (fails : Bool) : StateRun :=
  let answered :=
    Process.execFaulty (fun _ => fails) (Db.stateWrite publicKey absent stamped) run.process
  { run with
    process := answered.2
    tasks := run.goOn position publicKey none
    written :=
      if fails = false ∧ Lands run.table publicKey absent then
        run.written ++ [(publicKey, stamped.turn)]
      else run.written }

end StateRun

def stateStep (run : StateRun) : StateMove → Option StateRun
  | .start publicKey => some { run with tasks := run.tasks ++ [⟨publicKey, .fetching⟩] }
  | .tick seconds => some { run with clock := run.clock + seconds }
  | .fetch position answer =>
      match run.tasks[position]?, answer with
      | some ⟨publicKey, .fetching⟩, some state => some (run.fetched position publicKey state)
      | some ⟨_, .fetching⟩, none => some run
      | _, _ => none
  | .stamp position =>
      match run.tasks[position]? with
      | some ⟨publicKey, .fetched turn state⟩ => some (run.stamped position publicKey turn state)
      | _ => none
  | .check position fails =>
      match run.tasks[position]? with
      | some ⟨publicKey, .checking stamped⟩ =>
          some (run.checked position publicKey stamped fails)
      | _ => none
  | .write position fails =>
      match run.tasks[position]? with
      | some ⟨publicKey, .writing absent stamped⟩ =>
          some (run.wrote position publicKey absent stamped fails)
      | _ => none

/-- No task that may still write over the row of the wallet has obtained its
state earlier or has stamped it with an earlier time. -/
def NoneBehind (tasks : List StateTask) (publicKey : String) (stamped : StampedState) : Prop :=
  ∀ task ∈ tasks, task.publicKey = publicKey → task.phase.Overwrites →
    (∀ turn ∈ task.phase.turn?, stamped.turn ≤ turn) ∧
      ∀ time ∈ task.phase.time?, stamped.time ≤ time

instance (tasks : List StateTask) (publicKey : String) (stamped : StampedState) :
    Decidable (NoneBehind tasks publicKey stamped) :=
  inferInstanceAs (Decidable (∀ task ∈ tasks, _ → _ → _))

/-- If the write of the task takes effect, no other task is behind. -/
def WritesInTurn (run : StateRun) (task : StateTask) : Prop :=
  match task.phase with
  | .writing absent stamped =>
      Lands run.table task.publicKey absent → NoneBehind run.tasks task.publicKey stamped
  | _ => True

instance (run : StateRun) (task : StateTask) : Decidable (WritesInTurn run task) :=
  match task with
  | ⟨_, .writing _ _⟩ => inferInstanceAs (Decidable (_ → _))
  | ⟨_, .fetching⟩ => isTrue trivial
  | ⟨_, .fetched _ _⟩ => isTrue trivial
  | ⟨_, .checking _⟩ => isTrue trivial

def InTurn (run : StateRun) : StateMove → Prop
  | .write position fails => fails = false → ∀ task ∈ run.tasks[position]?, WritesInTurn run task
  | _ => True

instance (run : StateRun) (move : StateMove) : Decidable (InTurn run move) :=
  match move with
  | .write position fails =>
      inferInstanceAs (Decidable (fails = false → ∀ task ∈ run.tasks[position]?, _))
  | .start _ => isTrue trivial
  | .tick _ => isTrue trivial
  | .fetch _ _ => isTrue trivial
  | .stamp _ => isTrue trivial
  | .check _ _ => isTrue trivial

def StateRun.landed (run : StateRun) (position : Nat) (publicKey : String) (absent : Bool)
    (stamped : StampedState) : StateRun :=
  { run with
    process := run.process.withTable .walletsState
      (stateTable run.table publicKey absent stamped)
    tasks := run.tasks.eraseIdx position
    written := run.written ++ [(publicKey, stamped.turn)] }

theorem StateRun.table_landed (run : StateRun) (position : Nat) (publicKey : String)
    (absent : Bool) (stamped : StampedState) :
    (run.landed position publicKey absent stamped).table =
      stateTable run.table publicKey absent stamped := by
  rw [StateRun.table, landed, Process.store_withTable, Function.update_self]

/-- What a move in turn does. -/
inductive StateChange (run : StateRun) : StateRun → Prop where
  | start (publicKey : String) :
      StateChange run { run with tasks := run.tasks ++ [⟨publicKey, .fetching⟩] }
  | tick (seconds : Nat) : StateChange run { run with clock := run.clock + seconds }
  | retry : StateChange run run
  | fetch (position : Nat) (publicKey : String) (state : Document) :
      StateChange run (run.fetched position publicKey state)
  | stamp {position : Nat} {publicKey : String} {turn : Nat} {state : Document}
      (found : run.tasks[position]? = some ⟨publicKey, .fetched turn state⟩) :
      StateChange run (run.stamped position publicKey turn state)
  | check {position : Nat} {publicKey : String} {stamped : StampedState} (absent : Bool)
      (found : run.tasks[position]? = some ⟨publicKey, .checking stamped⟩) :
      StateChange run
        { run with tasks := run.goOn position publicKey (some (.writing absent stamped)) }
  | idle (position : Nat) : StateChange run { run with tasks := run.tasks.eraseIdx position }
  | write {position : Nat} {publicKey : String} {absent : Bool} {stamped : StampedState}
      (found : run.tasks[position]? = some ⟨publicKey, .writing absent stamped⟩)
      (lands : Lands run.table publicKey absent)
      (inTurn : NoneBehind run.tasks publicKey stamped) :
      StateChange run (run.landed position publicKey absent stamped)

theorem withTable_self (process : Process) (table : TableName) :
    process.withTable table (process.store table) = process := by
  rw [Process.withTable, Function.update_eq_self]

theorem StateRun.checked_change {run : StateRun} {position : Nat} {publicKey : String}
    {stamped : StampedState}
    (found : run.tasks[position]? = some ⟨publicKey, .checking stamped⟩) (fails : Bool) :
    StateChange run (run.checked position publicKey stamped fails) := by
  cases fails with
  | true => exact .idle position
  | false =>
      let absent := Db.absentIn run.process .walletsState publicKey
      have same : run.checked position publicKey stamped false =
          { run with tasks := run.goOn position publicKey (some (.writing absent stamped)) } := by
        rw [← Db.checked_bool]
        rfl
      rw [same]
      exact .check _ found

theorem StateRun.wrote_change {run : StateRun} {position : Nat} {publicKey : String}
    {absent : Bool} {stamped : StampedState}
    (found : run.tasks[position]? = some ⟨publicKey, .writing absent stamped⟩) {fails : Bool}
    (inTurn : fails = false → Lands run.table publicKey absent →
      NoneBehind run.tasks publicKey stamped) :
    StateChange run (run.wrote position publicKey absent stamped fails) := by
  cases fails with
  | true => exact .idle position
  | false =>
      have answered : Process.execFaulty (fun _ => false)
          (Db.stateWrite publicKey absent stamped) run.process = _ :=
        exec_stateWrite run.process publicKey absent stamped
      by_cases lands : Lands run.table publicKey absent
      · rw [wrote, answered, if_pos ⟨rfl, lands⟩]
        exact .write found lands (inTurn rfl lands)
      · rw [wrote, answered, if_neg fun landed => lands landed.2,
          stateTable_of_not_lands stamped lands, withTable_self]
        exact .idle position

/-- A fetch finds its task fetching, and yields a state or nothing. -/
theorem fetch_change {run next : StateRun} {position : Nat} {answer : Option Document}
    (moved : stateStep run (.fetch position answer) = some next) : StateChange run next := by
  simp only [stateStep] at moved
  split at moved
  · obtain rfl := Option.some.inj moved
    exact .fetch _ _ _
  · obtain rfl := Option.some.inj moved
    exact .retry
  · cases moved

theorem stateStep_change {run next : StateRun} {move : StateMove} (inTurn : InTurn run move)
    (moved : stateStep run move = some next) : StateChange run next := by
  cases move with
  | start publicKey =>
      obtain rfl := Option.some.inj moved
      exact .start publicKey
  | tick seconds =>
      obtain rfl := Option.some.inj moved
      exact .tick seconds
  | fetch position answer => exact fetch_change moved
  | stamp position =>
      simp only [stateStep] at moved
      split at moved
      · obtain rfl := Option.some.inj moved
        exact .stamp ‹_›
      · cases moved
  | check position fails =>
      simp only [stateStep] at moved
      split at moved
      · obtain rfl := Option.some.inj moved
        exact StateRun.checked_change ‹_› fails
      · cases moved
  | write position fails =>
      simp only [stateStep] at moved
      split at moved
      · rename_i found
        obtain rfl := Option.some.inj moved
        exact StateRun.wrote_change found fun answered => inTurn answered _ found
      · cases moved

/-! ## States are written in the order they were obtained -/

/-- A task has obtained its state after every state written for its wallet, and
has stamped it with no earlier time than the stored one. -/
structure TaskInTurn (run : StateRun) (task : StateTask) : Prop where
  turn : ∀ turn ∈ task.phase.turn?, turn < run.fetches
  time : ∀ time ∈ task.phase.time?, time ≤ run.clock
  after : task.phase.Overwrites → ∀ turn ∈ task.phase.turn?, ∀ entry ∈ run.written,
    entry.1 = task.publicKey → entry.2 ≤ turn
  later : task.phase.Overwrites → ∀ time ∈ task.phase.time?,
    ∀ stored ∈ stampIn run.table task.publicKey, stored ≤ time

structure StatesInTurn (run : StateRun) : Prop where
  stored : ∀ id, ∀ stored ∈ stampIn run.table id, stored ≤ run.clock
  turns : ∀ entry ∈ run.written, entry.2 < run.fetches
  rows : ∀ entry ∈ run.written, run.table.Has (.str entry.1)
  ordered : run.written.Pairwise fun first second => first.1 = second.1 → first.2 ≤ second.2
  tasks : ∀ task ∈ run.tasks, TaskInTurn run task

def StampsGrow (before after : Table) : Prop :=
  ∀ id, ∀ stored ∈ stampIn before id, ∃ new ∈ stampIn after id, stored ≤ new

theorem StampsGrow.refl (table : Table) : StampsGrow table table :=
  fun _ stored found => ⟨stored, found, le_rfl⟩

theorem StampsGrow.trans {first second third : Table} (earlier : StampsGrow first second)
    (later : StampsGrow second third) : StampsGrow first third := by
  intro id stored found
  obtain ⟨middle, middleFound, grown⟩ := earlier id stored found
  obtain ⟨new, newFound, grownAgain⟩ := later id middle middleFound
  exact ⟨new, newFound, grown.trans grownAgain⟩

section Turns

variable {run next : StateRun} {task : StateTask} {position : Nat} {publicKey : String}

theorem mem_goOn {phase : Option StatePhase} (member : task ∈ run.goOn position publicKey phase) :
    task ∈ run.tasks ∨ phase = some task.phase ∧ task.publicKey = publicKey := by
  cases phase with
  | none => exact .inl (List.mem_of_mem_eraseIdx member)
  | some phase =>
      rcases List.mem_or_eq_of_mem_set member with old | rfl
      · exact .inl old
      · exact .inr ⟨rfl, rfl⟩

/-- Nothing is written, and time and the number of answers may have grown. -/
theorem TaskInTurn.mono (inTurn : TaskInTurn run task) (fetches : run.fetches ≤ next.fetches)
    (clock : run.clock ≤ next.clock) (written : next.written = run.written)
    (table : next.table = run.table) : TaskInTurn next task where
  turn turn found := (inTurn.turn turn found).trans_le fetches
  time time found := (inTurn.time time found).trans clock
  after overwrites turn found := by
    rw [written]
    exact inTurn.after overwrites turn found
  later overwrites time found := by
    rw [table]
    exact inTurn.later overwrites time found

theorem taskInTurn_fetching (run : StateRun) (publicKey : String) :
    TaskInTurn run ⟨publicKey, .fetching⟩ where
  turn _ found := by cases found
  time _ found := by cases found
  after _ _ found := by cases found
  later _ _ found := by cases found

/-- A move that writes nothing keeps the order if it keeps it for each task. -/
theorem StatesInTurn.mono (inTurn : StatesInTurn run) (fetches : run.fetches ≤ next.fetches)
    (clock : run.clock ≤ next.clock) (written : next.written = run.written)
    (table : next.table = run.table)
    (tasks : ∀ task ∈ next.tasks, task ∈ run.tasks ∨ TaskInTurn next task) :
    StatesInTurn next where
  stored id stored found := by
    rw [table] at found
    exact (inTurn.stored id stored found).trans clock
  turns entry member := by
    rw [written] at member
    exact (inTurn.turns entry member).trans_le fetches
  rows entry member := by
    rw [written] at member
    rw [table]
    exact inTurn.rows entry member
  ordered := by
    rw [written]
    exact inTurn.ordered
  tasks task member := by
    rcases tasks task member with old | new
    · exact (inTurn.tasks task old).mono fetches clock written table
    · exact new

theorem StatesInTurn.goOn (inTurn : StatesInTurn run) (fetches : run.fetches ≤ next.fetches)
    (clock : run.clock ≤ next.clock) (written : next.written = run.written)
    (table : next.table = run.table) {phase : StatePhase}
    (tasks : next.tasks = run.goOn position publicKey (some phase))
    (new : TaskInTurn next ⟨publicKey, phase⟩) : StatesInTurn next := by
  refine inTurn.mono fetches clock written table ?_
  intro task member
  rw [tasks] at member
  refine (mem_goOn member).imp_right ?_
  obtain ⟨taskKey, taskPhase⟩ := task
  rintro ⟨same, rfl⟩
  obtain rfl := Option.some.inj same
  exact new

theorem StatesInTurn.fetch (inTurn : StatesInTurn run) (state : Document) :
    StatesInTurn (run.fetched position publicKey state) := by
  refine inTurn.goOn (Nat.le_succ _) le_rfl rfl rfl rfl ⟨?_, ?_, ?_, ?_⟩
  · intro turn found
    obtain rfl := Option.some.inj found
    exact Nat.lt_succ_self _
  · intro time impossible
    cases impossible
  · intro _ turn found entry written _
    obtain rfl := Option.some.inj found
    exact (inTurn.turns entry written).le
  · intro _ time impossible
    cases impossible

theorem StatesInTurn.stamp {turn : Nat} {state : Document} (inTurn : StatesInTurn run)
    (found : run.tasks[position]? = some ⟨publicKey, .fetched turn state⟩) :
    StatesInTurn (run.stamped position publicKey turn state) := by
  have own := inTurn.tasks _ (List.mem_of_getElem? found)
  refine inTurn.goOn le_rfl le_rfl rfl rfl rfl ⟨own.turn, ?_, own.after, ?_⟩
  · intro time timeEq
    obtain rfl := Option.some.inj timeEq
    exact le_rfl
  · intro _ time timeEq stored storedEq
    obtain rfl := Option.some.inj timeEq
    exact inTurn.stored _ stored storedEq

theorem StatesInTurn.check {stamped : StampedState} (inTurn : StatesInTurn run)
    (found : run.tasks[position]? = some ⟨publicKey, .checking stamped⟩) (absent : Bool) :
    StatesInTurn
      { run with tasks := run.goOn position publicKey (some (.writing absent stamped)) } := by
  have own := inTurn.tasks _ (List.mem_of_getElem? found)
  exact inTurn.goOn le_rfl le_rfl rfl rfl rfl
    ⟨own.turn, own.time, fun _ => own.after trivial, fun _ => own.later trivial⟩

/-- A task whose write takes effect writes a state obtained after all those
written before, and a time no earlier than the stored one. -/
theorem StatesInTurn.due {absent : Bool} {stamped : StampedState} (inTurn : StatesInTurn run)
    (found : run.tasks[position]? = some ⟨publicKey, .writing absent stamped⟩)
    (lands : Lands run.table publicKey absent) :
    (∀ entry ∈ run.written, entry.1 = publicKey → entry.2 ≤ stamped.turn) ∧
      ∀ stored ∈ stampIn run.table publicKey, stored ≤ stamped.time := by
  have own := inTurn.tasks _ (List.mem_of_getElem? found)
  cases absent with
  | false => exact ⟨own.after rfl _ rfl, own.later rfl _ rfl⟩
  | true =>
      -- an insert that is not refused is the first write for the wallet
      have missing : ¬ run.table.Has (.str publicKey) := lands.mp rfl
      constructor
      · rintro entry member rfl
        exact absurd (inTurn.rows entry member) missing
      · intro stored storedEq
        rw [stampIn, KeyedTable.get?_eq_none.mpr missing] at storedEq
        cases storedEq

theorem stampsGrow_write {absent : Bool} {stamped : StampedState} {table : Table}
    (lands : Lands table publicKey absent)
    (due : ∀ stored ∈ stampIn table publicKey, stored ≤ stamped.time) :
    StampsGrow table (stateTable table publicKey absent stamped) := by
  intro id stored storedEq
  by_cases own : id = publicKey
  · subst own
    rcases stampIn_stateTable stamped lands with new | ⟨-, same⟩
    · exact ⟨stamped.time, new, due stored storedEq⟩
    · exact ⟨stored, same.trans storedEq, le_rfl⟩
  · exact ⟨stored, (stampIn_of_ne stamped own).trans storedEq, le_rfl⟩

theorem stampIn_after_write {absent : Bool} {stamped : StampedState} {table : Table}
    (lands : Lands table publicKey absent) {id : String} {stored : Int}
    (storedEq : stored ∈ stampIn (stateTable table publicKey absent stamped) id) :
    id = publicKey ∧ stored = stamped.time ∨ stored ∈ stampIn table id := by
  by_cases own : id = publicKey
  · subst own
    rcases stampIn_stateTable stamped lands with new | ⟨-, same⟩
    · exact .inl ⟨rfl, (Option.some.inj (new.symm.trans storedEq)).symm⟩
    · exact .inr (same.symm.trans storedEq)
  · exact .inr ((stampIn_of_ne stamped own).symm.trans storedEq)

theorem StatesInTurn.write {absent : Bool} {stamped : StampedState} (inTurn : StatesInTurn run)
    (found : run.tasks[position]? = some ⟨publicKey, .writing absent stamped⟩)
    (lands : Lands run.table publicKey absent)
    (noneBehind : NoneBehind run.tasks publicKey stamped) :
    StatesInTurn (run.landed position publicKey absent stamped) := by
  have own := inTurn.tasks _ (List.mem_of_getElem? found)
  obtain ⟨after, -⟩ := inTurn.due found lands
  have entries {entry : String × Nat}
      (member : entry ∈ run.written ++ [(publicKey, stamped.turn)]) :
      entry ∈ run.written ∨ entry = (publicKey, stamped.turn) := by
    simpa using member
  refine ⟨?_, ?_, ?_, ?_, ?_⟩
  · intro id stored storedEq
    rw [StateRun.table_landed] at storedEq
    rcases stampIn_after_write lands storedEq with ⟨rfl, rfl⟩ | old
    · exact own.time _ rfl
    · exact inTurn.stored id stored old
  · intro entry member
    rcases entries member with old | rfl
    · exact inTurn.turns entry old
    · exact own.turn _ rfl
  · intro entry member
    rw [StateRun.table_landed, has_stateTable stamped lands]
    rcases entries member with old | rfl
    · exact .inl (inTurn.rows entry old)
    · exact .inr rfl
  · refine List.pairwise_append.mpr ⟨inTurn.ordered, List.pairwise_singleton _ _, ?_⟩
    intro first firstMem second secondMem same
    obtain rfl := List.mem_singleton.mp secondMem
    exact after first firstMem same
  · intro task member
    have old := List.mem_of_mem_eraseIdx member
    have taskInTurn := inTurn.tasks task old
    refine ⟨taskInTurn.turn, taskInTurn.time, ?_, ?_⟩
    · intro overwrites turn turnEq entry entryMem same
      rcases entries entryMem with before | rfl
      · exact taskInTurn.after overwrites turn turnEq entry before same
      · exact (noneBehind task old same.symm overwrites).1 turn turnEq
    · intro overwrites time timeEq stored storedEq
      rw [StateRun.table_landed] at storedEq
      rcases stampIn_after_write lands storedEq with ⟨same, rfl⟩ | before
      · exact (noneBehind task old same overwrites).2 time timeEq
      · exact taskInTurn.later overwrites time timeEq stored before

theorem StatesInTurn.change (inTurn : StatesInTurn run) (change : StateChange run next) :
    StatesInTurn next ∧ StampsGrow run.table next.table := by
  cases change with
  | start key =>
      refine ⟨inTurn.mono le_rfl le_rfl rfl rfl ?_, .refl _⟩
      intro task member
      refine (List.mem_append.mp member).imp_right ?_
      intro new
      rw [List.mem_singleton.mp new]
      exact taskInTurn_fetching _ key
  | tick seconds =>
      have clock : run.clock ≤ run.clock + seconds := by omega
      exact ⟨inTurn.mono le_rfl clock rfl rfl fun _ => .inl, .refl _⟩
  | retry => exact ⟨inTurn, .refl _⟩
  | fetch position key state => exact ⟨inTurn.fetch state, .refl _⟩
  | stamp found => exact ⟨inTurn.stamp found, .refl _⟩
  | check absent found => exact ⟨inTurn.check found absent, .refl _⟩
  | idle position =>
      refine ⟨inTurn.mono le_rfl le_rfl rfl rfl ?_, .refl _⟩
      exact fun task member => .inl (List.mem_of_mem_eraseIdx member)
  | write found lands noneBehind =>
      refine ⟨inTurn.write found lands noneBehind, ?_⟩
      rw [StateRun.table_landed]
      exact stampsGrow_write lands (inTurn.due found lands).2

theorem Reaches.statesInTurn {first last : StateRun}
    (reached : Reaches stateStep InTurn first last) (inTurn : StatesInTurn first) :
    StatesInTurn last ∧ StampsGrow first.table last.table := by
  refine reached.invariant
    (fun run => StatesInTurn run ∧ StampsGrow first.table run.table) ⟨inTurn, .refl _⟩ ?_
  rintro current move next ⟨holds, grown⟩ permitted moved
  obtain ⟨kept, grows⟩ := holds.change (stateStep_change permitted moved)
  exact ⟨kept, grown.trans grows⟩

end Turns

/-- Any number of tasks are begun and their steps interleave in any order, and
no write takes effect while another task for the wallet is behind.  The stored
time of a wallet never decreases, and the states are written in the order in
which they were obtained. -/
theorem wallet_states_in_turn {start middle final : StateRun} (idle : start.tasks = [])
    (unwritten : start.written = [])
    (clocked : ∀ id, ∀ stored ∈ stampIn start.table id, stored ≤ start.clock)
    (earlier : Reaches stateStep InTurn start middle)
    (later : Reaches stateStep InTurn middle final) :
    (∀ id, ∀ stored ∈ stampIn middle.table id, ∃ new ∈ stampIn final.table id, stored ≤ new) ∧
      final.written.Pairwise fun first second => first.1 = second.1 → first.2 ≤ second.2 := by
  have initial : StatesInTurn start := by
    refine ⟨clocked, ?_, ?_, ?_, ?_⟩
    · simp [unwritten]
    · simp [unwritten]
    · simp [unwritten]
    · simp [idle]
  have middleInTurn := (earlier.statesInTurn initial).1
  obtain ⟨finalInTurn, grows⟩ := later.statesInTurn middleInTurn
  exact ⟨grows, finalInTurn.ordered⟩

/-- The tables are empty, and the clock shows ten seconds. -/
def quietStates : StateRun := ⟨.idle .empty, 10, 0, [], []⟩

def nodeState (amount : String) : Document :=
  ⟨[("balance", .arr [.ofMembers [("amount", .str amount), ("code", .num 0)]]),
    ("preferred-transaction-id", .num 1)],
    List.pairwise_pair.mpr (by dsimp only; decide)⟩

/-- The first task creates the row, the second has obtained a newer state when
the third begins. -/
def overlappingMoves : List StateMove :=
  [.start "alice", .fetch 0 (some (nodeState "1")), .stamp 0, .check 0 false, .write 0 false,
    .start "alice", .start "alice", .fetch 0 (some (nodeState "2")), .stamp 0, .tick 1,
    .fetch 1 none, .fetch 1 (some (nodeState "3")), .stamp 1]

theorem wallet_states_in_turn_overlapping :
    ∃ middle final : StateRun, Reaches stateStep InTurn middle final ∧
      stampIn middle.table "alice" = some 10 ∧ stampIn final.table "alice" = some 11 ∧
      final.written = [("alice", 0), ("alice", 1), ("alice", 2)] ∧
      ∀ id, ∀ stored ∈ stampIn middle.table id,
        ∃ new ∈ stampIn final.table id, stored ≤ new := by
  let moves : List StateMove := [.check 1 false, .check 0 false, .write 0 false, .write 0 false]
  obtain ⟨middle, earlier, first, found⟩ := Reaches.exists_of_runMoves stateStep InTurn quietStates
    overlappingMoves
    (fun run => stampIn run.table "alice" = some 10 ∧
      (runMoves stateStep InTurn run moves).any (fun last =>
        decide (stampIn last.table "alice" = some 11 ∧
          last.written = [("alice", 0), ("alice", 1), ("alice", 2)])) = true)
    (by decide +kernel)
  obtain ⟨final, later, last, order⟩ :=
    Reaches.exists_of_runMoves stateStep InTurn middle moves _ found
  have clocked : ∀ id, ∀ stored ∈ stampIn quietStates.table id, stored ≤ quietStates.clock := by
    intro id stored impossible
    cases impossible
  exact ⟨middle, final, later, first, last, order,
    (wallet_states_in_turn rfl rfl clocked earlier later).1⟩

/-- The task that has stamped its state at 11 writes before the one that has
stamped at 10: the stored time goes from 11 back to 10. -/
theorem wallet_state_goes_back :
    ¬ ∀ middle final, Reaches stateStep (fun _ _ => True) quietStates middle →
      Reaches stateStep (fun _ _ => True) middle final →
      ∀ id, ∀ stored ∈ stampIn middle.table id,
        ∃ new ∈ stampIn final.table id, stored ≤ new := by
  intro always
  let moves : List StateMove := [.check 0 false, .write 0 false]
  obtain ⟨middle, earlier, first, found⟩ := Reaches.exists_of_runMoves stateStep
    (fun _ _ => True) quietStates (overlappingMoves ++ [.check 1 false, .write 1 false])
    (fun run => stampIn run.table "alice" = some 11 ∧
      (runMoves stateStep (fun _ _ => True) run moves).any (fun last =>
        decide (stampIn last.table "alice" = some 10)) = true)
    (by decide +kernel)
  obtain ⟨final, later, last⟩ :=
    Reaches.exists_of_runMoves stateStep (fun _ _ => True) middle moves _ found
  obtain ⟨new, newEq, grown⟩ := always middle final earlier later "alice" 11 first
  obtain rfl := Option.some.inj (newEq.symm.trans last)
  exact absurd grown (by decide)

end MileExplorer
