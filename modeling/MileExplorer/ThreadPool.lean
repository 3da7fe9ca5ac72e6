import MileExplorer.RelyGuarantee

/-!
# Pools of threads

Any number of query programs over one shared state, advanced one query at a
time in any order.  Each thread has a role, and a discipline gives every role
its own contract over a common invariant.  If what each role may do is among
what the roles beside it rely on, every interleaving keeps all contracts.
-/

namespace MileExplorer

structure Thread (Role Query Answer Exit : Type) where
  role : Role
  program : Program Query Answer Exit

structure Pool (Role Query Answer State Exit : Type) where
  shared : State
  threads : List (Thread Role Query Answer Exit)

structure Discipline (Role Query State : Type) where
  valid : State → Prop
  rely : Role → State → State → Prop
  guarantee : Role → State → State → Prop
  admits : Query → State → Prop
  relyRefl : ∀ role state, rely role state state
  relyTrans : ∀ role first second third, rely role first second → rely role second third →
    rely role first third
  guaranteeRefl : ∀ role state, guarantee role state state

namespace Discipline

variable {Role Query State : Type} (discipline : Discipline Role Query State)

def contract (role : Role) : Contract Query State where
  valid := discipline.valid
  rely := discipline.rely role
  guarantee := discipline.guarantee role
  admits := discipline.admits
  relyRefl := discipline.relyRefl role
  relyTrans := discipline.relyTrans role
  guaranteeRefl := discipline.guaranteeRefl role

/-- Threads of the two roles may run side by side. -/
def Compatible (first second : Role) : Prop :=
  ∀ before after, discipline.valid before → discipline.valid after →
    (discipline.guarantee first before after → discipline.rely second before after) ∧
    (discipline.guarantee second before after → discipline.rely first before after)

end Discipline

namespace Pool

variable {Role Query Answer State Exit : Type}
  (exec : Query → State → Answer × State)
  (resume : Exit → List (Thread Role Query Answer Exit))

/-- What one step of a thread leaves: the state and the threads in its place.
A thread that has ended is replaced by those that `resume` names. -/
def stepThread (thread : Thread Role Query Answer Exit) (shared : State) :
    State × List (Thread Role Query Answer Exit) :=
  match thread.program with
  | .done exit => (shared, resume exit)
  | .ask query next => ((exec query shared).2, [⟨thread.role, next (exec query shared).1⟩])

def advance (pool : Pool Role Query Answer State Exit) (position : Nat) :
    Option (Pool Role Query Answer State Exit) :=
  pool.threads[position]?.map fun thread =>
    ⟨(stepThread exec resume thread pool.shared).1,
      pool.threads.take position ++ (stepThread exec resume thread pool.shared).2 ++
        pool.threads.drop (position + 1)⟩

variable {exec resume}

/-- A step of a pool is a step of one of its threads. -/
theorem advance_cases {pool next : Pool Role Query Answer State Exit} {position : Nat}
    (moved : pool.advance exec resume position = some next) :
    ∃ thread before after, pool.threads = before ++ thread :: after ∧
      pool.threads[position]? = some thread ∧
      next.shared = (stepThread exec resume thread pool.shared).1 ∧
      next.threads = before ++ (stepThread exec resume thread pool.shared).2 ++ after := by
  obtain ⟨thread, found, rfl⟩ := Option.map_eq_some_iff.mp moved
  refine ⟨thread, pool.threads.take position, pool.threads.drop (position + 1), ?_, found,
    rfl, rfl⟩
  obtain ⟨inside, atPosition⟩ := List.getElem?_eq_some_iff.mp found
  rw [← atPosition, List.getElem_cons_drop, List.take_append_drop]

variable (exec) in
/-- The invariant holds and every thread keeps its contract. -/
structure Safe (discipline : Discipline Role Query State) (post : Role → Exit → State → Prop)
    (pool : Pool Role Query Answer State Exit) : Prop where
  valid : discipline.valid pool.shared
  holds : ∀ thread ∈ pool.threads, thread.program.Holds exec (discipline.contract thread.role)
    (post thread.role) pool.shared

variable {discipline : Discipline Role Query State} {post : Role → Exit → State → Prop}
  {pool next : Pool Role Query Answer State Exit}

/-- The shared state is changed from outside as all threads expect. -/
theorem Safe.event (safe : pool.Safe exec discipline post) {shared : State}
    (postStable : ∀ role exit before after, discipline.rely role before after →
      post role exit before → post role exit after)
    (interference : ∀ thread ∈ pool.threads, discipline.rely thread.role pool.shared shared)
    (valid : discipline.valid shared) :
    Pool.Safe exec discipline post { pool with shared := shared } where
  valid := valid
  holds thread member :=
    (safe.holds thread member).stable (postStable thread.role) (interference thread member)

theorem Safe.spawn (safe : pool.Safe exec discipline post)
    {thread : Thread Role Query Answer Exit}
    (holds : thread.program.Holds exec (discipline.contract thread.role) (post thread.role)
      pool.shared) :
    Pool.Safe exec discipline post { pool with threads := pool.threads ++ [thread] } where
  valid := safe.valid
  holds other member := by
    rcases List.mem_append.mp member with old | new
    · exact safe.holds other old
    · obtain rfl := List.mem_singleton.mp new
      exact holds

/-- A step of any thread keeps the pool safe, and changes the shared state
within the guarantee of its role. -/
theorem Safe.advance (safe : pool.Safe exec discipline post) {position : Nat}
    (postStable : ∀ role exit before after, discipline.rely role before after →
      post role exit before → post role exit after)
    (compatible : pool.threads.Pairwise fun first second =>
      discipline.Compatible first.role second.role)
    (admitted : ∀ thread query following, pool.threads[position]? = some thread →
      thread.program = .ask query following → discipline.admits query pool.shared)
    (resumes : ∀ role exit, post role exit pool.shared → ∀ thread ∈ resume exit,
      thread.program.Holds exec (discipline.contract thread.role) (post thread.role)
        pool.shared)
    (moved : pool.advance exec resume position = some next) :
    next.Safe exec discipline post ∧ ∀ thread, pool.threads[position]? = some thread →
      discipline.guarantee thread.role pool.shared next.shared := by
  obtain ⟨thread, before, after, threadsEq, found, sharedEq, nextEq⟩ := advance_cases moved
  have holds := safe.holds thread (by simp [threadsEq])
  cases programEq : thread.program with
  | done exit =>
      simp only [stepThread, programEq] at sharedEq nextEq
      rw [programEq] at holds
      refine ⟨⟨sharedEq ▸ safe.valid, ?_⟩,
        fun other _ => sharedEq ▸ discipline.guaranteeRefl other.role _⟩
      rw [sharedEq, nextEq]
      intro other otherMem
      simp only [List.mem_append, or_assoc] at otherMem
      rcases otherMem with left | new | right
      · exact safe.holds other (by simp [threadsEq, left])
      · exact resumes thread.role exit holds other new
      · exact safe.holds other (by simp [threadsEq, right])
  | ask query following =>
      simp only [stepThread, programEq] at sharedEq nextEq
      rw [programEq] at holds
      obtain ⟨valid, guaranteed, rest⟩ :=
        holds.advance safe.valid (admitted thread query following found programEq)
      rw [← sharedEq] at valid guaranteed rest
      refine ⟨⟨valid, ?_⟩, fun other atPosition => ?_⟩
      rotate_left
      · obtain rfl : thread = other := Option.some.inj (found.symm.trans atPosition)
        exact guaranteed
      rw [nextEq]
      rw [threadsEq] at compatible
      obtain ⟨-, rightCompatible, leftCompatible⟩ := List.pairwise_append.mp compatible
      intro other otherMem
      simp only [List.mem_append, List.mem_singleton, or_assoc] at otherMem
      rcases otherMem with left | rfl | right
      · refine (safe.holds other (by simp [threadsEq, left])).stable (postStable other.role) ?_
        exact (leftCompatible other left thread (by simp) _ _ safe.valid valid).2 guaranteed
      · exact rest
      · refine (safe.holds other (by simp [threadsEq, right])).stable (postStable other.role) ?_
        exact ((List.pairwise_cons.mp rightCompatible).1 other right _ _ safe.valid valid).1
          guaranteed

/-! ## Schedules -/

variable (exec resume) in
/-- The pools that the threads of a pool reach in some order of their steps. -/
abbrev Schedules (start : Pool Role Query Answer State Exit) :
    Pool Role Query Answer State Exit → Prop :=
  Reaches (fun pool position => advance exec resume pool position) (fun _ _ => True) start

variable (exec resume) in
/-- Any thread may be the next. -/
theorem schedules_step (before after : List (Thread Role Query Answer Exit))
    (thread : Thread Role Query Answer Exit) (shared : State) :
    Schedules exec resume ⟨shared, before ++ thread :: after⟩
      ⟨(stepThread exec resume thread shared).1,
        before ++ (stepThread exec resume thread shared).2 ++ after⟩ := by
  have moved : advance exec resume ⟨shared, before ++ thread :: after⟩ before.length =
      some ⟨(stepThread exec resume thread shared).1,
        before ++ (stepThread exec resume thread shared).2 ++ after⟩ := by
    simp [advance]
  exact Reaches.refl.tail trivial moved

variable (exec resume) in
/-- Each thread makes one step that leaves the state as it is. -/
theorem schedules_each (before threads : List (Thread Role Query Answer Exit)) {shared : State}
    (moved : Thread Role Query Answer Exit → Thread Role Query Answer Exit)
    (steps : ∀ thread ∈ threads,
      stepThread exec resume thread shared = (shared, [moved thread])) :
    Schedules exec resume ⟨shared, before ++ threads⟩ ⟨shared, before ++ threads.map moved⟩ := by
  induction threads generalizing before with
  | nil => exact .refl
  | cons thread rest ih =>
      have first := schedules_step exec resume before rest thread shared
      rw [steps thread (by simp)] at first
      have later := ih (before ++ [moved thread]) fun other member => steps other (by simp [member])
      exact first.trans (by simpa using later)

theorem schedules_run (thread : Thread Role Query Answer Exit)
    (after : List (Thread Role Query Answer Exit)) (shared : State) :
    Schedules exec (fun _ => []) ⟨shared, thread :: after⟩
      ⟨(thread.program.run exec shared).2, after⟩ := by
  obtain ⟨role, program⟩ := thread
  induction program generalizing shared with
  | done exit => exact schedules_step exec _ [] after ⟨role, .done exit⟩ shared
  | ask query next ih =>
      exact (schedules_step exec _ [] after ⟨role, .ask query next⟩ shared).trans (ih _ _)

/-- All threads are run one after the other. -/
theorem schedules_drain (threads : List (Thread Role Query Answer Exit)) (shared : State) :
    Schedules exec (fun _ => []) ⟨shared, threads⟩
      ⟨threads.foldl (fun state thread => (thread.program.run exec state).2) shared, []⟩ := by
  induction threads generalizing shared with
  | nil => exact .refl
  | cons thread rest ih => exact (schedules_run thread rest shared).trans (ih _)

end Pool

end MileExplorer
