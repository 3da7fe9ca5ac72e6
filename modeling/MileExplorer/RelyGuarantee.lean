import MileExplorer.QueryProgram
import MileExplorer.TransitionSystem

/-!
# Rely-guarantee reasoning for query programs

A contract fixes what every state satisfies, what the other threads may do
between two queries of a program, what each query of the program may do to
them, and what the runs considered promise about the states in which a query
is made.  `Holds` says that a program keeps its part of the contract from a
given state on and ends in a given postcondition.  The rules below compose
such facts; the second half derives what a loop keeps over whole runs, also
when the process is stopped and restarted.
-/

namespace MileExplorer

structure Contract (Query State : Type) where
  /-- Holds in every state. -/
  valid : State → Prop
  /-- What the environment may do between two queries. -/
  rely : State → State → Prop
  /-- What a query of the thread may do. -/
  guarantee : State → State → Prop
  /-- Holds in every state in which the query is made. -/
  admits : Query → State → Prop
  relyRefl : ∀ state, rely state state
  relyTrans : ∀ first second third, rely first second → rely second third →
    rely first third
  guaranteeRefl : ∀ state, guarantee state state

namespace Program

variable {Query Answer State Result Other : Type}
  (exec : Query → State → Answer × State) (contract : Contract Query State)

/-- From the given state on, under any interference the contract allows, every
query of the program keeps the contract and the program ends in `post`. -/
def Holds (post : Result → State → Prop) : Program Query Answer Result → State → Prop
  | .done result, state => post result state
  | .ask query next, state =>
      ∀ current, contract.rely state current → contract.valid current →
        contract.admits query current →
        contract.valid (exec query current).2 ∧
        contract.guarantee current (exec query current).2 ∧
        Holds post (next (exec query current).1) (exec query current).2

variable {exec contract}

theorem Holds.stable {post : Result → State → Prop}
    {program : Program Query Answer Result} {state current : State}
    (postStable : ∀ result before after, contract.rely before after → post result before →
      post result after)
    (holds : program.Holds exec contract post state)
    (interference : contract.rely state current) :
    program.Holds exec contract post current := by
  cases program with
  | done result => exact postStable result state current interference holds
  | ask query next =>
      intro later moved valid admitted
      exact holds later (contract.relyTrans _ _ _ interference moved) valid admitted

theorem Holds.mono {post weaker : Result → State → Prop}
    {program : Program Query Answer Result} {state : State}
    (weaken : ∀ result final, post result final → weaker result final)
    (holds : program.Holds exec contract post state) :
    program.Holds exec contract weaker state := by
  induction program generalizing state with
  | done result => exact weaken _ _ holds
  | ask query next ih =>
      intro current moved valid admitted
      obtain ⟨kept, allowed, rest⟩ := holds current moved valid admitted
      exact ⟨kept, allowed, ih _ rest⟩

theorem Holds.bind {post : Result → State → Prop} {final : Other → State → Prop}
    {program : Program Query Answer Result} {rest : Result → Program Query Answer Other}
    {state : State} (first : program.Holds exec contract post state)
    (continues : ∀ result middle, post result middle →
      (rest result).Holds exec contract final middle) :
    (program >>= rest).Holds exec contract final state := by
  induction program generalizing state with
  | done result => exact continues _ _ first
  | ask query next ih =>
      intro current moved valid admitted
      obtain ⟨kept, allowed, later⟩ := first current moved valid admitted
      exact ⟨kept, allowed, ih _ later⟩

/-- One query of a program that keeps its contract. -/
theorem Holds.advance {post : Result → State → Prop} {query : Query}
    {next : Answer → Program Query Answer Result} {state : State}
    (holds : (Program.ask query next).Holds exec contract post state)
    (valid : contract.valid state) (admitted : contract.admits query state) :
    contract.valid (exec query state).2 ∧
      contract.guarantee state (exec query state).2 ∧
      (next (exec query state).1).Holds exec contract post (exec query state).2 :=
  holds state (contract.relyRefl state) valid admitted

/-- Run alone, a program that keeps its contract ends in its postcondition. -/
theorem Holds.run {post : Result → State → Prop} {program : Program Query Answer Result}
    {state : State} (holds : program.Holds exec contract post state)
    (valid : contract.valid state) (admitted : ∀ query current, contract.admits query current) :
    contract.valid (program.run exec state).2 ∧
      post (program.run exec state).1 (program.run exec state).2 := by
  induction program generalizing state with
  | done result => exact ⟨valid, holds⟩
  | ask query next ih =>
      obtain ⟨kept, _, rest⟩ := holds.advance valid (admitted query state)
      exact ih _ rest kept

variable (exec) in
/-- Every query of the program, whatever it is answered, changes the state
within the relation. -/
def Steps (relation : State → State → Prop) : Program Query Answer Result → Prop
  | .done _ => True
  | .ask query next =>
      (∀ state, relation state (exec query state).2) ∧ ∀ answer, Steps relation (next answer)

theorem Steps.bind {relation : State → State → Prop}
    {program : Program Query Answer Result} {rest : Result → Program Query Answer Other}
    (first : program.Steps exec relation)
    (continues : ∀ result, (rest result).Steps exec relation) :
    (program >>= rest).Steps exec relation := by
  induction program with
  | done result => exact continues result
  | ask query next ih => exact ⟨first.1, fun answer => ih answer (first.2 answer)⟩

/-- What the first program can end with may be used for the second. -/
theorem Steps.bind_ends {relation : State → State → Prop} {post : Result → Prop}
    {program : Program Query Answer Result} {rest : Result → Program Query Answer Other}
    (first : program.Steps exec relation) (ends : program.Ends post)
    (continues : ∀ result, post result → (rest result).Steps exec relation) :
    (program >>= rest).Steps exec relation := by
  induction program with
  | done result => exact continues result ends
  | ask query next ih => exact ⟨first.1, fun answer => ih answer (first.2 answer) (ends answer)⟩

theorem Steps.mono {relation weaker : State → State → Prop}
    {program : Program Query Answer Result} (steps : program.Steps exec relation)
    (weaken : ∀ before after, relation before after → weaker before after) :
    program.Steps exec weaker := by
  induction program with
  | done result => trivial
  | ask query next ih =>
      exact ⟨fun state => weaken _ _ (steps.1 state), fun answer => ih answer (steps.2 answer)⟩

theorem Steps.along {relation : State → State → Prop} {program : Program Query Answer Result}
    (steps : program.Steps exec relation) (state : State) :
    program.Along exec relation state := by
  induction program generalizing state with
  | done result => trivial
  | ask query next ih => exact ⟨steps.1 state, ih _ (steps.2 _) _⟩

/-- Run alone, a program stays within a relation that composes. -/
theorem Steps.run {relation : State → State → Prop} {program : Program Query Answer Result}
    (reflexive : ∀ state, relation state state)
    (composes : ∀ first second third, relation first second → relation second third →
      relation first third)
    (steps : program.Steps exec relation) (state : State) :
    relation state (program.run exec state).2 := by
  induction program generalizing state with
  | done result => exact reflexive state
  | ask query next ih => exact composes _ _ _ (steps.1 state) (ih _ (steps.2 _) _)

/-- A program whose queries all stay within a relation that the contract
allows keeps what survives the relation and the environment. -/
theorem Steps.holds {relation : State → State → Prop} {program : Program Query Answer Result}
    {kept : State → Prop} {state : State} (steps : program.Steps exec relation)
    (allowed : ∀ before after, relation before after → contract.valid before →
      contract.valid after ∧ contract.guarantee before after)
    (stable : ∀ before after, contract.rely before after → kept before → kept after)
    (survives : ∀ before after, relation before after → kept before → kept after)
    (initially : kept state) :
    program.Holds exec contract (fun _ => kept) state := by
  induction program generalizing state with
  | done result => exact initially
  | ask query next ih =>
      intro current moved valid _
      obtain ⟨stillValid, guaranteed⟩ := allowed _ _ (steps.1 current) valid
      refine ⟨stillValid, guaranteed, ih _ (steps.2 _) ?_⟩
      exact survives _ _ (steps.1 current) (stable _ _ moved initially)

end Program

/-! ## A loop in an environment -/

/-- A thread that runs one pass after the other beside an environment, and
runs `boot` when the process is started again.  The result of a pass is what
the thread remembers for the next one. -/
structure Loop (Query Answer State Memory Event Start : Type) where
  exec : Query → State → Answer × State
  pass : Memory → Program Query Answer Memory
  boot : Start → Program Query Answer Memory
  occur : Event → State → State

/-- The shared state and the rest of the pass under way; a thread that is
`done` is asleep between two passes. -/
structure LoopConfig (Query Answer State Memory : Type) where
  shared : State
  thread : Program Query Answer Memory

/-- What can happen next: something outside the loop, the next query or the
begin of the next pass, or a restart of the process. -/
inductive LoopMove (Event Start : Type) where
  | event (what : Event)
  | advance
  | restart (start : Start)

namespace Loop

variable {Query Answer State Memory Event Start : Type}
  (loop : Loop Query Answer State Memory Event Start)

def step (config : LoopConfig Query Answer State Memory) :
    LoopMove Event Start → Option (LoopConfig Query Answer State Memory)
  | .event what => some { config with shared := loop.occur what config.shared }
  | .advance =>
      match config.thread with
      | .done memory => some { config with thread := loop.pass memory }
      | .ask query next =>
          some ⟨(loop.exec query config.shared).2, next (loop.exec query config.shared).1⟩
  | .restart start => some { config with thread := loop.boot start }

/-- The loop asleep with nothing remembered from an earlier pass. -/
def asleep (state : State) (memory : Memory) : LoopConfig Query Answer State Memory :=
  ⟨state, .done memory⟩

variable {loop}

/-- What a loop keeps: if every pass and every boot keep the contract and end
in `between`, and `between` survives the environment, then in every state
reached the contract's invariant holds and the rest of the pass under way
keeps the contract. -/
theorem reaches_holds (contract : Contract Query State) {between : State → Prop}
    {allowed : LoopConfig Query Answer State Memory → LoopMove Event Start → Prop}
    {state : State} {memory : Memory} {config : LoopConfig Query Answer State Memory}
    (valid : contract.valid state) (initially : between state)
    (betweenStable : ∀ before after, contract.rely before after → between before →
      between after)
    (admitted : ∀ current query next, allowed current .advance →
      current.thread = .ask query next → contract.admits query current.shared)
    (occurs : ∀ current what, allowed current (.event what) →
      contract.valid current.shared →
        contract.rely current.shared (loop.occur what current.shared) ∧
        contract.valid (loop.occur what current.shared))
    (passes : ∀ remembered current, contract.valid current → between current →
      (loop.pass remembered).Holds loop.exec contract (fun _ => between) current)
    (boots : ∀ current start, allowed current (.restart start) →
      contract.valid current.shared →
        (loop.boot start).Holds loop.exec contract (fun _ => between) current.shared)
    (reached : Reaches loop.step allowed (asleep state memory) config) :
    contract.valid config.shared ∧
      config.thread.Holds loop.exec contract (fun _ => between) config.shared := by
  refine Reaches.invariant (fun config => contract.valid config.shared ∧
    config.thread.Holds loop.exec contract (fun _ => between) config.shared)
    ⟨valid, initially⟩ ?_ reached
  rintro ⟨current, thread⟩ move next ⟨currentValid, holds⟩ permitted moved
  cases move with
  | event what =>
      obtain rfl := Option.some.inj moved
      obtain ⟨interference, kept⟩ := occurs _ what permitted currentValid
      exact ⟨kept, holds.stable (fun _ => betweenStable) interference⟩
  | advance =>
      cases thread with
      | done remembered =>
          obtain rfl := Option.some.inj moved
          exact ⟨currentValid, passes _ _ currentValid holds⟩
      | ask query following =>
          obtain rfl := Option.some.inj moved
          obtain ⟨kept, _, rest⟩ := holds.advance currentValid (admitted _ _ _ permitted rfl)
          exact ⟨kept, rest⟩
  | restart start =>
      obtain rfl := Option.some.inj moved
      exact ⟨currentValid, boots ⟨current, thread⟩ start permitted currentValid⟩

/-- Every single move either changes nothing, is an event of the environment,
or is a query that the guarantee covers. -/
theorem step_related {contract : Contract Query State} {between : State → Prop}
    (relation : State → State → Prop)
    (reflexive : ∀ current, relation current current)
    (fromRely : ∀ before after, contract.rely before after → relation before after)
    (fromGuarantee : ∀ before after, contract.guarantee before after →
      relation before after)
    {config next : LoopConfig Query Answer State Memory} {move : LoopMove Event Start}
    (valid : contract.valid config.shared)
    (holds : config.thread.Holds loop.exec contract (fun _ => between) config.shared)
    (admitted : ∀ query next, move = .advance → config.thread = .ask query next →
      contract.admits query config.shared)
    (occurs : ∀ what, move = .event what →
      contract.rely config.shared (loop.occur what config.shared))
    (moved : loop.step config move = some next) :
    relation config.shared next.shared := by
  obtain ⟨current, thread⟩ := config
  cases move with
  | event what =>
      obtain rfl := Option.some.inj moved
      exact fromRely _ _ (occurs what rfl)
  | advance =>
      cases thread with
      | done remembered =>
          obtain rfl := Option.some.inj moved
          exact reflexive _
      | ask query following =>
          obtain rfl := Option.some.inj moved
          exact fromGuarantee _ _ (holds.advance valid (admitted _ _ rfl rfl)).2.1
  | restart start =>
      obtain rfl := Option.some.inj moved
      exact reflexive _

end Loop

end MileExplorer
