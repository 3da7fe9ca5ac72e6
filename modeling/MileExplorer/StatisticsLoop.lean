import MileExplorer.Getters

/-!
# The loop of the statistics

`Db::init` queues a function that runs all registered statistics again and
again.  Each method is called in a `try` block of its own, and whatever it
throws ends up in the log.  The time that the methods are given is read before
these blocks from the newest block: if it cannot be read, the function ends
with an exception before any method is called.
-/

namespace MileExplorer

namespace Statistics

/-! ## The registry -/

inductive Thrown where
  | database (error : DbError)
  | exception (exception : Exn)
  | unknown
  deriving DecidableEq

/-- `statistic_method`, with the database as the queries it makes. -/
abbrev Method := Int → Prog (Except Thrown Unit)

/-- `statistic::registry`, the methods under their names. -/
abbrev Registry := KeyedTable fun entry : String × Method => entry.1

namespace Registry

/-- `add`: `emplace` keeps the method that is there. -/
def add (registry : Registry) (name : String) (method : Method) : Registry :=
  registry.insert (name, method)

/-- `get_statistics`, a map, which is gone through in the order of the names. -/
def getStatistics (registry : Registry) : List (String × Method) :=
  registry.rows.insertionSort fun first second => first.1 ≤ second.1

end Registry

/-! ## One iteration -/

/-- A method is called, or a line is written to the log. -/
inductive Event where
  | called (name : String)
  | logged (line : String)
  deriving DecidableEq

/-- The line of the `catch` block that takes what a method threw. -/
def caughtLine (name : String) : Thrown → String
  | .database error => "Statistic: " ++ name ++ " processing error " ++ error.message
  | .exception (.parseError what) => "Statistic: " ++ name ++ " parse json error " ++ what
  | .exception (.invalidIterator what) =>
      "Statistic: " ++ name ++ " invalid iterator error " ++ what
  | .exception (.typeError what) => "Statistic: " ++ name ++ " type error " ++ what
  | .exception (.outOfRange what) => "Statistic: " ++ name ++ " out of range error " ++ what
  | .exception (.otherError what) => "Statistic: " ++ name ++ " other error " ++ what
  | .exception (.standard _) => "Statistic: " ++ name ++ " turnovers processing unknown error ... "
  | .unknown => "Statistic: " ++ name ++ " turnovers processing unknown error ... "

def callMethod (last : Int) (entry : String × Method) : Prog (List Event) := do
  match ← entry.2 last with
  | .ok _ => return [.called entry.1, .logged ("Statistic: " ++ entry.1 ++ " processing done")]
  | .error thrown => return [.called entry.1, .logged (caughtLine entry.1 thrown)]

def callMethods (last : Int) : List (String × Method) → Prog (List Event)
  | [] => return []
  | entry :: rest => do
      let first ← callMethod last entry
      let later ← callMethods last rest
      return first ++ later

def stateSite : Site := .lookup .blocks "statistics"

def lastTime (state : Json) : Except Exn Int := state.index "timestamp" >>= Json.getTime

/-- One iteration of the queued function: what happens in it, and the exception
that leaves it. -/
def iteration (registry : Registry) : Prog (List Event × Except Exn Unit) := do
  let state ← Db.getData stateSite Db.blockHistoryState
  match lastTime state with
  | .error exception => return ([], .error exception)
  | .ok last => do
      let events ← callMethods last registry.getStatistics
      return (events, .ok ())

/-- Every method is called once and no exception leaves the function. -/
structure Isolated (registry : Registry) (outcome : List Event × Except Exn Unit) : Prop where
  calledOnce : ∀ name, registry.Has name → outcome.1.count (.called name) = 1
  noneEscapes : outcome.2 = .ok ()

/-- The newest block can be read and has a number for its time. -/
def HasLastTime (faults : Site → Bool) (store : Store) : Prop :=
  faults stateSite = false ∧
    ∃ block, (Cursor.ordered "block-id" (store .blocks).rows).getLast? = some block ∧
      ∃ time, block.find? "timestamp" = some time ∧ time.isNumber = true

section Iteration

variable {exec : Query → Process → Except DbError Json × Process} {process : Process}
  {registry : Registry}

theorem count_callMethod (last : Int) (entry : String × Method) (name : String) :
    ((callMethod last entry).run exec process).1.count (.called name) =
      [entry.1].count name := by
  rw [callMethod, Program.run_bind]
  cases ((entry.2 last).run exec process).1 <;> by_cases same : entry.1 = name <;> simp [same]

theorem count_callMethods (last : Int) (entries : List (String × Method)) (name : String) :
    ((callMethods last entries).run exec process).1.count (.called name) =
      (entries.map Prod.fst).count name := by
  induction entries generalizing process with
  | nil => rfl
  | cons entry rest ih =>
      have first := @count_callMethod exec process last entry name
      rw [callMethods, Program.run_bind, Program.run_bind]
      simp only [Program.pure_eq_done, Program.run_done, List.count_append, first, ih,
        List.map_cons]
      rw [← List.count_append, List.singleton_append]

theorem Registry.count_getStatistics {name : String} (registered : registry.Has name) :
    (registry.getStatistics.map Prod.fst).count name = 1 := by
  have same : registry.getStatistics.Perm registry.rows := List.perm_insertionSort _ _
  rw [(same.map Prod.fst).count_eq]
  apply List.count_eq_one_of_mem registry.keysNodup
  obtain ⟨entry, member, rfl⟩ := registered
  exact List.mem_map_of_mem member

/-- In an iteration that no exception leaves, every method is called once. -/
theorem count_iteration {name : String} (registered : registry.Has name)
    (ends : ((iteration registry).run exec process).1.2 = .ok ()) :
    ((iteration registry).run exec process).1.1.count (.called name) = 1 := by
  rw [iteration, Program.run_bind] at ends ⊢
  cases time : lastTime ((Db.getData stateSite Db.blockHistoryState).run exec process).1 with
  | error exception =>
      rw [time] at ends
      cases ends
  | ok last =>
      dsimp only
      rw [Program.run_bind, ← registry.count_getStatistics registered]
      exact count_callMethods last _ name

theorem getTime_isOk (value : Json) : value.getTime.isOk = value.isNumber := by
  cases value <;> rfl

theorem lastTime_isOk_of_block {block id : Json} (indexed : block.find? "block-id" = some id) :
    (lastTime (getDataOf (.ok block))).isOk = true ↔
      ∃ time, block.find? "timestamp" = some time ∧ time.isNumber = true := by
  cases block with
  | obj members =>
      change (((Json.member? "timestamp" members).getD .null).getTime).isOk = true ↔ _
      rw [getTime_isOk]
      cases found : Json.member? "timestamp" members with
      | none => simp [Json.find?, found, Json.isNumber]
      | some time => simp [Json.find?, found]
  | _ => simp [Json.find?] at indexed

theorem lastTime_isOk_iff (faults : Site → Bool) (process : Process) :
    (lastTime ((Db.getData stateSite Db.blockHistoryState).run (Process.execFaulty faults)
      process).1).isOk = true ↔ HasLastTime faults process.store := by
  by_cases fails : faults stateSite = true
  · have read : ((Db.getData stateSite Db.blockHistoryState).run (Process.execFaulty faults)
        process).1 = .arr [] := by
      simp [Db.getData, Program.request, Process.execFaulty, fails, getDataOf]
    rw [read, HasLastTime, fails]
    simp [lastTime, Json.index, bind, Except.bind, Except.isOk, Except.toBool]
  · have answers : faults stateSite = false := by simpa using fails
    have read : ((Db.getData stateSite Db.blockHistoryState).run (Process.execFaulty faults)
        process).1 = getDataOf (Db.blockHistoryState process.store) := by
      simp [Db.getData, Program.request, Process.execFaulty, answers]
    rw [read, Db.blockHistoryState, Cursor.max_eq, HasLastTime, answers]
    cases newest : (Cursor.ordered "block-id" (process.store .blocks).rows).getLast? with
    | none =>
        simp [getDataOf, lastTime, Json.index, bind, Except.bind, Except.isOk, Except.toBool]
    | some block =>
        have listed := (Cursor.mem_ordered.mp (List.mem_of_getLast? newest)).2
        obtain ⟨id, indexed⟩ := Option.isSome_iff_exists.mp listed
        rw [lastTime_isOk_of_block indexed]
        simp

/-- An iteration is isolated exactly if it can read its time. -/
theorem isolated_iff (faults : Site → Bool) (registry : Registry) (process : Process) :
    Isolated registry ((iteration registry).run (Process.execFaulty faults) process).1 ↔
      HasLastTime faults process.store := by
  rw [← lastTime_isOk_iff]
  have ended : ((iteration registry).run (Process.execFaulty faults) process).1.2 = .ok () ↔
      (lastTime ((Db.getData stateSite Db.blockHistoryState).run (Process.execFaulty faults)
        process).1).isOk = true := by
    rw [iteration, Program.run_bind]
    cases lastTime ((Db.getData stateSite Db.blockHistoryState).run (Process.execFaulty faults)
        process).1 with
    | error exception => exact iff_of_false (fun ends => by cases ends) (fun isOk => by cases isOk)
    | ok last =>
        dsimp only
        rw [Program.run_bind]
        exact iff_of_true rfl rfl
  constructor
  · exact fun isolated => ended.mp isolated.noneEscapes
  · intro readable
    exact ⟨fun name registered => count_iteration registered (ended.mpr readable),
      ended.mpr readable⟩

end Iteration

def sampleRegistry : Registry :=
  Registry.add KeyedTable.empty "turnover24" fun _ => .done (.ok ())

/-- The first iteration on an empty database ends with an exception. -/
theorem no_block_not_isolated :
    ¬ Isolated sampleRegistry
      ((iteration sampleRegistry).run Process.exec (Process.idle Store.empty)).1 := by
  intro isolated
  have escapes : ((iteration sampleRegistry).run Process.exec (Process.idle Store.empty)).1 =
      ([], .error (.typeError "cannot use operator[] with array")) := by
    decide
  rw [escapes] at isolated
  cases isolated.noneEscapes

end Statistics

end MileExplorer
