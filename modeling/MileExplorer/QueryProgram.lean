import Mathlib.Logic.Basic

/-!
# Programs that talk to a shared store by atomic queries

A program either has a result or asks one query and continues with the answer.
Between two queries anything may happen: another thread may run, a query may
be answered with an error, or the process may stop.  The same program can
therefore be run alone, against a faulty store, or interleaved with others,
and the source text is translated only once.
-/

namespace MileExplorer

inductive Program (Query Answer Result : Type) where
  | done (result : Result)
  | ask (query : Query) (next : Answer → Program Query Answer Result)

namespace Program

variable {Query Answer State Result Other : Type}

def bind : Program Query Answer Result → (Result → Program Query Answer Other) →
    Program Query Answer Other
  | .done result, rest => rest result
  | .ask query next, rest => .ask query fun answer => (next answer).bind rest

instance : Monad (Program Query Answer) where
  pure := .done
  bind := .bind

@[simp]
theorem pure_eq_done (result : Result) :
    (pure result : Program Query Answer Result) = .done result := rfl

@[simp]
theorem done_bind (result : Result) (rest : Result → Program Query Answer Other) :
    (Program.done result >>= rest) = rest result := rfl

@[simp]
theorem ask_bind (query : Query) (next : Answer → Program Query Answer Result)
    (rest : Result → Program Query Answer Other) :
    (Program.ask query next >>= rest) = .ask query fun answer => next answer >>= rest := rfl

theorem bind_assoc {Last : Type} (program : Program Query Answer Result)
    (rest : Result → Program Query Answer Other) (last : Other → Program Query Answer Last) :
    (program >>= rest) >>= last = program >>= fun result => rest result >>= last := by
  induction program with
  | done result => rfl
  | ask query next ih => exact congrArg (Program.ask query) (funext ih)

/-- A program of a single query, which returns what `read` makes of the
answer. -/
def request (query : Query) (read : Answer → Result) : Program Query Answer Result :=
  .ask query fun answer => .done (read answer)

@[simp]
theorem request_bind (query : Query) (read : Answer → Result)
    (rest : Result → Program Query Answer Other) :
    (request query read >>= rest) = .ask query fun answer => rest (read answer) := rfl

def isDone : Program Query Answer Result → Bool
  | .done _ => true
  | .ask _ _ => false

theorem isDone_iff {program : Program Query Answer Result} :
    program.isDone = true ↔ ∃ result, program = .done result := by
  cases program <;> simp [isDone]

/-- Every result the program can end with satisfies `post`. -/
def Ends (post : Result → Prop) : Program Query Answer Result → Prop
  | .done result => post result
  | .ask _ next => ∀ answer, Ends post (next answer)

theorem Ends.bind {post : Result → Prop} {final : Other → Prop}
    {program : Program Query Answer Result} {rest : Result → Program Query Answer Other}
    (first : program.Ends post) (continues : ∀ result, post result → (rest result).Ends final) :
    (program >>= rest).Ends final := by
  induction program with
  | done result => exact continues result first
  | ask query next ih => exact fun answer => ih answer (first answer)

theorem Ends.of_bind {post : Other → Prop} (program : Program Query Answer Result)
    {rest : Result → Program Query Answer Other} (ends : ∀ result, (rest result).Ends post) :
    (program >>= rest).Ends post := by
  induction program with
  | done result => exact ends result
  | ask query next ih => exact fun answer => ih answer

def run (exec : Query → State → Answer × State) :
    Program Query Answer Result → State → Result × State
  | .done result, state => (result, state)
  | .ask query next, state => (next (exec query state).1).run exec (exec query state).2

variable (exec : Query → State → Answer × State)

@[simp]
theorem run_done (result : Result) (state : State) :
    (Program.done result : Program Query Answer Result).run exec state = (result, state) := rfl

@[simp]
theorem run_ask (query : Query) (next : Answer → Program Query Answer Result)
    (state : State) :
    (Program.ask query next).run exec state =
      (next (exec query state).1).run exec (exec query state).2 := rfl

theorem run_bind (program : Program Query Answer Result)
    (rest : Result → Program Query Answer Other) (state : State) :
    (program >>= rest).run exec state =
      (rest (program.run exec state).1).run exec (program.run exec state).2 := by
  induction program generalizing state with
  | done result => rfl
  | ask query next ih => exact ih _ _

/-- Every query that a program run alone makes changes the state within the
relation. -/
def Along (relation : State → State → Prop) : Program Query Answer Result → State → Prop
  | .done _, _ => True
  | .ask query next, state =>
      relation state (exec query state).2 ∧
        Along relation (next (exec query state).1) (exec query state).2

variable {exec} {relation : State → State → Prop}

@[simp]
theorem along_done (result : Result) (state : State) :
    (Program.done result : Program Query Answer Result).Along exec relation state := trivial

@[simp]
theorem along_ask (query : Query) (next : Answer → Program Query Answer Result) (state : State) :
    (Program.ask query next).Along exec relation state ↔
      relation state (exec query state).2 ∧
        (next (exec query state).1).Along exec relation (exec query state).2 := Iff.rfl

theorem along_bind (program : Program Query Answer Result)
    (rest : Result → Program Query Answer Other) (state : State) :
    (program >>= rest).Along exec relation state ↔
      program.Along exec relation state ∧
        (rest (program.run exec state).1).Along exec relation (program.run exec state).2 := by
  induction program generalizing state with
  | done result => exact (iff_of_eq (true_and _)).symm
  | ask query next ih =>
      rw [ask_bind, along_ask, along_ask, ih, and_assoc]
      rfl

end Program

end MileExplorer
