import MileExplorer.ThreadPool

/-!
# Invariants of threads whose queries may fail

Any number of threads share a state, and any query of theirs may fail.  A
failed query has been done or not; the thread cannot tell.  A program keeps an
invariant if every query it can make keeps it, whichever state with the
invariant the query finds.  Since nothing else is assumed about that state,
programs that keep an invariant alone keep it beside each other.
-/

namespace MileExplorer

namespace Program

variable {Query Answer State Result Other : Type}
  (exec : Query → State → Answer × State) (failure : Answer) (invariant : State → Prop)

/-- Every query of the program keeps the invariant, also where an earlier one
has failed, and every result satisfies `post`. -/
def Keeps (post : Result → Prop) : Program Query Answer Result → Prop
  | .done result => post result
  | .ask query next =>
      Keeps post (next failure) ∧
        ∀ state, invariant state →
          invariant (exec query state).2 ∧ Keeps post (next (exec query state).1)

variable {exec failure invariant}

theorem Keeps.mono {post weaker : Result → Prop} {program : Program Query Answer Result}
    (weaken : ∀ result, post result → weaker result)
    (keeps : program.Keeps exec failure invariant post) :
    program.Keeps exec failure invariant weaker := by
  induction program with
  | done result => exact weaken result keeps
  | ask query next ih =>
      refine ⟨ih _ keeps.1, fun state holds => ?_⟩
      obtain ⟨kept, rest⟩ := keeps.2 state holds
      exact ⟨kept, ih _ rest⟩

theorem Keeps.bind {post : Result → Prop} {final : Other → Prop}
    {program : Program Query Answer Result} {rest : Result → Program Query Answer Other}
    (first : program.Keeps exec failure invariant post)
    (continues : ∀ result, post result → (rest result).Keeps exec failure invariant final) :
    (program >>= rest).Keeps exec failure invariant final := by
  induction program with
  | done result => exact continues result first
  | ask query next ih =>
      refine ⟨ih _ first.1, fun state holds => ?_⟩
      obtain ⟨kept, later⟩ := first.2 state holds
      exact ⟨kept, ih _ later⟩

/-- A program of a single query. -/
theorem Keeps.request {post : Result → Prop} {query : Query} {read : Answer → Result}
    (failed : post (read failure))
    (answered : ∀ state, invariant state →
      invariant (exec query state).2 ∧ post (read (exec query state).1)) :
    (Program.request query read).Keeps exec failure invariant post :=
  ⟨failed, answered⟩

/-- A program whose queries all stay within a relation keeps what survives the
relation. -/
theorem Steps.keeps {relation : State → State → Prop} {program : Program Query Answer Result}
    (steps : program.Steps exec relation)
    (survives : ∀ before after, relation before after → invariant before → invariant after) :
    program.Keeps exec failure invariant fun _ => True := by
  induction program with
  | done result => trivial
  | ask query next ih =>
      exact ⟨ih _ (steps.2 _), fun state holds =>
        ⟨survives _ _ (steps.1 state) holds, ih _ (steps.2 _)⟩⟩

end Program

namespace Pool

variable {Role Query Answer State Exit : Type}
  (exec : Query → State → Answer × State) (failure : Answer) (mayFail : Query → Bool)

/-- The next query of the thread at a position fails.  `written` says whether
it was done before. -/
def failAt (pool : Pool Role Query Answer State Exit) (position : Nat) (written : Bool) :
    Option (Pool Role Query Answer State Exit) :=
  match pool.threads[position]? with
  | some ⟨role, .ask query next⟩ =>
      if mayFail query then
        some ⟨if written then (exec query pool.shared).2 else pool.shared,
          pool.threads.set position ⟨role, next failure⟩⟩
      else none
  | _ => none

variable {exec failure mayFail} in
/-- What the failure of a query does. -/
theorem failAt_cases {pool next : Pool Role Query Answer State Exit} {position : Nat}
    {written : Bool} (moved : pool.failAt exec failure mayFail position written = some next) :
    ∃ role query following, ⟨role, .ask query following⟩ ∈ pool.threads ∧
      next.shared = (if written then (exec query pool.shared).2 else pool.shared) ∧
      ∀ thread ∈ next.threads, thread ∈ pool.threads ∨ thread = ⟨role, following failure⟩ := by
  unfold failAt at moved
  split at moved
  · rename_i role query following found
    split at moved
    · obtain rfl := Option.some.inj moved
      exact ⟨role, query, following, List.mem_of_getElem? found, rfl,
        fun thread => List.mem_or_eq_of_mem_set⟩
    · cases moved
  · cases moved

structure Keeps (invariant : State → Prop) (pool : Pool Role Query Answer State Exit) :
    Prop where
  holds : invariant pool.shared
  threads : ∀ thread ∈ pool.threads,
    thread.program.Keeps exec failure invariant fun _ => True

variable {exec failure mayFail} {invariant : State → Prop}
  {pool next : Pool Role Query Answer State Exit}

/-- The shared state is changed from outside. -/
theorem Keeps.event (keeps : pool.Keeps exec failure invariant) {shared : State}
    (holds : invariant shared) :
    Keeps exec failure invariant { pool with shared := shared } :=
  ⟨holds, keeps.threads⟩

theorem Keeps.spawn (keeps : pool.Keeps exec failure invariant)
    {thread : Thread Role Query Answer Exit}
    (started : thread.program.Keeps exec failure invariant fun _ => True) :
    Keeps exec failure invariant { pool with threads := pool.threads ++ [thread] } := by
  refine ⟨keeps.holds, fun other member => ?_⟩
  rcases List.mem_append.mp member with old | new
  · exact keeps.threads other old
  · rw [List.mem_singleton.mp new]
    exact started

/-- A thread makes its next query. -/
theorem Keeps.advance {resume : Exit → List (Thread Role Query Answer Exit)}
    (keeps : pool.Keeps exec failure invariant)
    (resumes : ∀ exit, ∀ thread ∈ resume exit,
      thread.program.Keeps exec failure invariant fun _ => True)
    {position : Nat} (moved : pool.advance exec resume position = some next) :
    next.Keeps exec failure invariant := by
  obtain ⟨⟨role, program⟩, before, after, threadsEq, -, sharedEq, nextEq⟩ := advance_cases moved
  have actor := keeps.threads ⟨role, program⟩ (by simp [threadsEq])
  have beside (thread : Thread Role Query Answer Exit) (member : thread ∈ before ++ after) :
      thread.program.Keeps exec failure invariant fun _ => True := by
    refine keeps.threads thread ?_
    rw [threadsEq]
    rcases List.mem_append.mp member with left | right
    · simp [left]
    · simp [right]
  cases program with
  | done exit =>
      simp only [stepThread] at sharedEq nextEq
      refine ⟨sharedEq ▸ keeps.holds, fun thread member => ?_⟩
      rw [nextEq, List.mem_append, List.mem_append] at member
      rcases member with (left | resumed) | right
      · exact beside thread (by simp [left])
      · exact resumes exit thread resumed
      · exact beside thread (by simp [right])
  | ask query following =>
      obtain ⟨kept, rest⟩ := actor.2 pool.shared keeps.holds
      simp only [stepThread] at sharedEq nextEq
      refine ⟨sharedEq ▸ kept, fun thread member => ?_⟩
      rw [nextEq, List.mem_append, List.mem_append, List.mem_singleton] at member
      rcases member with (left | rfl) | right
      · exact beside thread (by simp [left])
      · exact rest
      · exact beside thread (by simp [right])

theorem Keeps.failAt (keeps : pool.Keeps exec failure invariant) {position : Nat} {written : Bool}
    (moved : pool.failAt exec failure mayFail position written = some next) :
    next.Keeps exec failure invariant := by
  obtain ⟨role, query, following, member, sharedEq, threadsEq⟩ := failAt_cases moved
  have actor := keeps.threads _ member
  refine ⟨?_, fun thread threadMem => ?_⟩
  · rw [sharedEq]
    cases written with
    | false => exact keeps.holds
    | true => exact (actor.2 pool.shared keeps.holds).1
  · rcases threadsEq thread threadMem with old | rfl
    · exact keeps.threads thread old
    · exact actor.1

end Pool

/-! ## Failures laid down in advance -/

/-- What becomes of a query: it is answered, it is not done, or it is done and
the answer lost. -/
inductive Fault where
  | none
  | lost
  | unacknowledged
  deriving DecidableEq, Repr

namespace Program

variable {Query Answer State Result : Type}
  (exec : Query → State → Answer × State) (failure : Answer)

/-- The program with a fault for each of its queries; the queries after the last
fault of the list are answered. -/
def withFaults : List Fault → Program Query Answer Result →
    Program (Fault × Query) Answer Result
  | _, .done result => .done result
  | faults, .ask query next =>
      .ask (faults.headD .none, query) fun answer => withFaults faults.tail (next answer)

def execFault : Fault × Query → State → Answer × State
  | (.none, query), state => exec query state
  | (.lost, _), state => (failure, state)
  | (.unacknowledged, query), state => (failure, (exec query state).2)

variable {exec failure}

theorem Steps.withFaults {relation : State → State → Prop} {program : Program Query Answer Result}
    (reflexive : ∀ state, relation state state) (steps : program.Steps exec relation)
    (faults : List Fault) : (program.withFaults faults).Steps (execFault exec failure) relation := by
  induction program generalizing faults with
  | done result => trivial
  | ask query next ih =>
      refine ⟨fun state => ?_, fun answer => ih answer (steps.2 answer) faults.tail⟩
      cases faults.headD .none with
      | none => exact steps.1 state
      | lost => exact reflexive state
      | unacknowledged => exact steps.1 state

def faultContract (contract : Contract Query State) : Contract (Fault × Query) State where
  valid := contract.valid
  rely := contract.rely
  guarantee := contract.guarantee
  admits query := contract.admits query.2
  relyRefl := contract.relyRefl
  relyTrans := contract.relyTrans
  guaranteeRefl := contract.guaranteeRefl

/-- A program whose queries are all answered keeps its contract. -/
theorem Holds.withFaults {contract : Contract Query State} {post : Result → State → Prop}
    {program : Program Query Answer Result} {state : State}
    (holds : program.Holds exec contract post state) {faults : List Fault}
    (clean : ∀ fault ∈ faults, fault = .none) :
    (program.withFaults faults).Holds (execFault exec failure) (faultContract contract) post
      state := by
  induction program generalizing state faults with
  | done result => exact holds
  | ask query next ih =>
      intro current moved valid admitted
      have answered : faults.headD .none = .none := by
        cases faults with
        | nil => rfl
        | cons fault faults => exact clean fault List.mem_cons_self
      obtain ⟨kept, allowed, rest⟩ := holds current moved valid admitted
      rw [answered]
      exact ⟨kept, allowed, ih _ rest fun fault member => clean fault (List.mem_of_mem_tail member)⟩

end Program

end MileExplorer
