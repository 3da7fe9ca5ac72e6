import MileExplorer.Conservation

/-!
# Who holds which job

The jobs that are being worked on are those of the workers: a worker holds its
job from when it takes it until it reports that it is finished, and no other
thread touches the list.  And there are always both processing loops, once the
database is ready.  So when every thread but the loops has ended, no job is
being worked on.
-/

namespace MileExplorer

variable {platform : Platform} {chain : Chain}

def SameRunning (before after : Process) : Prop := after.running = before.running

theorem sameRunning_of_writesOnly {Result : Type} (tables : List TableName) {program : Prog Result}
    (steps : program.Steps Process.exec (WritesOnly tables)) :
    program.Steps Process.exec SameRunning :=
  steps.mono fun _ _ writes => writes.2.2.1

/-- Whatever it is answered, the program reports the job as finished once. -/
def Frees (job : Job) : Prog Exit → Prop
  | .done _ => False
  | .ask query next =>
      (query = .finish job ∧ ∀ answer, (next answer).Steps Process.exec SameRunning) ∨
        ((∀ process, SameRunning process (Process.exec query process).2) ∧
          ∀ answer, Frees job (next answer))

def HoldsJob (thread : IndexerThread) : Option Job → Prop
  | none => thread.program.Steps Process.exec SameRunning
  | some job => Frees job thread.program

theorem Frees.of_steps {Result : Type} {job : Job} {program : Prog Result}
    {rest : Result → Prog Exit} (steps : program.Steps Process.exec SameRunning)
    (frees : ∀ result, Frees job (rest result)) : Frees job (program >>= rest) := by
  induction program with
  | done result => exact frees result
  | ask query next ih => exact .inr ⟨steps.1, fun answer => ih answer (steps.2 answer)⟩

/-- A thread that leaves the list holds no job. -/
theorem not_frees_of_steps {job : Job} {program : Prog Exit}
    (steps : program.Steps Process.exec SameRunning) : ¬ Frees job program := by
  induction program with
  | done exit => exact fun frees => frees
  | ask query next ih =>
      rintro (⟨rfl, -⟩ | ⟨-, later⟩)
      · have same := steps.1 { Process.idle Store.empty with running := [job] }
        simp [SameRunning, Process.exec, Process.execFaulty] at same
      · exact ih (.ok .null) (steps.2 _) (later _)

/-! ## The threads -/

section Threads

theorem Db.processBlocks_sameRunning (items : List Json) :
    (Db.processBlocks items).Steps Process.exec SameRunning := by
  have keeps {Result : Type} {program : Prog Result}
      (steps : program.Steps Process.exec
        (WritesOnly [.blocks, .blocksProcessing, .transactionsProcessing])) :
      program.Steps Process.exec SameRunning :=
    sameRunning_of_writesOnly _ steps
  induction items with
  | nil => trivial
  | cons item rest ih =>
      unfold Db.processBlocks
      split
      · trivial
      · refine Program.Steps.bind ?_ fun goesOn => ?_
        · refine (keeps (Db.getNumber_steps _ _)).bind fun prevBid => ?_
          split_ifs
          · trivial
          · refine (keeps (Db.getData_steps _ _)).bind fun row => ?_
            split
            · trivial
            · refine Program.Steps.bind ?_ fun _ =>
                (keeps (Db.storeBlock_steps _ _ _ (by decide) (by decide))).bind fun _ => trivial
              unfold Db.addTransactions
              split_ifs
              · exact ⟨fun _ => rfl, fun _ => ⟨fun _ => rfl, fun _ => trivial⟩⟩
              · exact keeps (Db.insert_steps _ _ (by decide))
        · split_ifs
          · exact ih
          · trivial

namespace Indexer

theorem blocksThread_sameRunning : blocksThread.program.Steps Process.exec SameRunning :=
  Program.Steps.bind ((sameRunning_of_writesOnly [] (Db.getData_steps _ _)).bind fun _ =>
    Db.processBlocks_sameRunning _) fun _ => trivial

theorem transactionsThread_sameRunning (prevBid : Nat) :
    (transactionsThread prevBid).program.Steps Process.exec SameRunning :=
  (sameRunning_of_writesOnly _ (Db.transactionsProcessing_steps _)).bind fun _ => trivial

theorem starterThread_sameRunning : starterThread.program.Steps Process.exec SameRunning :=
  (sameRunning_of_writesOnly [] (Db.getNumber_steps _ _)).bind fun _ =>
    ⟨fun _ => rfl, fun _ => trivial⟩

theorem migratingThread_sameRunning (start : Start) :
    (migratingThread start).program.Steps Process.exec SameRunning :=
  (sameRunning_of_writesOnly _ (Db.migration_steps _ _)).bind fun _ => trivial

theorem deliveryThread_sameRunning (block : Json) (number : Nat) (now : Int) :
    (deliveryThread platform block number now).program.Steps Process.exec SameRunning :=
  (sameRunning_of_writesOnly _ (Db.addBlock_steps platform _ _ _)).bind fun _ =>
    ⟨fun _ => rfl, fun _ => trivial⟩

theorem workerThread_frees (job : Job) : Frees job (workerThread platform job).program := by
  have body := sameRunning_of_writesOnly _ (Db.jobBody_steps platform job)
  have program : (workerThread platform job).program = Db.jobBody platform job >>= fun _ =>
      .ask (.finish job) fun _ => .done .ended := Program.bind_assoc _ _ _
  rw [program]
  exact .of_steps body fun _ => .inl ⟨rfl, fun _ => trivial⟩

end Indexer

end Threads

/-! ## The invariants -/

/-- The jobs that are being worked on are those that the threads hold. -/
def Employed (world : World) : Prop :=
  ∃ crew : List (IndexerThread × Option Job), world.threads = crew.map Prod.fst ∧
    (∀ member ∈ crew, HoldsJob member.1 member.2) ∧
    world.shared.running.Perm (crew.filterMap Prod.snd)

/-- How a thread of each role that goes on for ever ends. -/
def Role.endsAs : Role → Exit → Prop
  | .migrating, exit => exit = .initialized
  | .blocks, exit => exit = .blocks
  | .transactions, exit => ∃ prevBid, exit = .transactions prevBid
  | _, _ => True

/-- The migration is under way, or both loops are. -/
def Manned (world : World) : Prop :=
  Booting world ∨ ((∃ thread ∈ world.threads, thread.role = .blocks) ∧
    ∃ thread ∈ world.threads, thread.role = .transactions)

variable (platform) in
theorem Indexer.startable_endsAs :
    Indexer.Startable platform fun thread => thread.program.Ends thread.role.endsAs where
  blocks := .of_bind _ fun _ => rfl
  transactions _ := .of_bind _ fun prevBid => ⟨prevBid, rfl⟩
  starter := .of_bind _ fun _ _ => trivial
  continues _ _ _ answer ends := ends answer
  migrating _ := .of_bind _ fun _ => rfl
  worker _ := .of_bind _ fun _ => trivial
  delivery _ _ _ := .of_bind _ fun _ _ => trivial

theorem exists_role_stepThread {thread : IndexerThread}
    (ends : thread.program.Ends thread.role.endsAs) (shared : Process)
    (lasting : thread.role = .blocks ∨ thread.role = .transactions) :
    ∃ other ∈ (Pool.stepThread Process.exec Indexer.resume thread shared).2,
      other.role = thread.role := by
  obtain ⟨role, program⟩ := thread
  cases program with
  | ask query next => exact ⟨_, List.mem_singleton_self _, rfl⟩
  | done exit =>
      rcases lasting with rfl | rfl
      · obtain rfl : exit = .blocks := ends
        exact ⟨_, List.mem_singleton_self _, rfl⟩
      · obtain ⟨prevBid, rfl⟩ := ends
        exact ⟨_, List.mem_singleton_self _, rfl⟩

section Steps

variable {world next : World} {move : Indexer.Move}

/-- A role is still there after a step of a thread, if the thread leaves it. -/
theorem exists_role_advance {position : Nat} {role : Role}
    (moved : world.advance Process.exec Indexer.resume position = some next)
    (leaves : ∀ thread ∈ world.threads, thread.role = role →
      ∃ other ∈ (Pool.stepThread Process.exec Indexer.resume thread world.shared).2,
        other.role = role)
    (has : ∃ thread ∈ world.threads, thread.role = role) :
    ∃ thread ∈ next.threads, thread.role = role := by
  obtain ⟨thread, before, after, threadsEq, -, -, nextEq⟩ := Pool.advance_cases moved
  obtain ⟨one, member, roleEq⟩ := has
  rw [threadsEq, List.mem_append, List.mem_cons] at member
  simp only [nextEq, List.mem_append]
  rcases member with left | rfl | right
  · exact ⟨one, .inl (.inl left), roleEq⟩
  · obtain ⟨other, new, same⟩ := leaves one (by simp [threadsEq]) roleEq
    exact ⟨other, .inl (.inr new), same⟩
  · exact ⟨one, .inr right, roleEq⟩

theorem Manned.step (manned : Manned world)
    (ends : ∀ thread ∈ world.threads, thread.program.Ends thread.role.endsAs)
    (moved : Indexer.step platform chain world move = some next) : Manned next := by
  have joined (thread : IndexerThread) (shared : Process) :
      Manned ⟨shared, world.threads ++ [thread]⟩ := by
    have stays {role : Role} : (∃ thread ∈ world.threads, thread.role = role) →
        ∃ other ∈ world.threads ++ [thread], other.role = role := fun ⟨one, member, same⟩ =>
      ⟨one, List.mem_append_left _ member, same⟩
    exact manned.imp stays (And.imp stays stays)
  obtain ⟨first, last, -, -, rfl⟩ | ⟨number, -, rfl⟩ | ⟨number, now, -, rfl⟩ |
    ⟨position, job, -, rfl⟩ | ⟨position, -, advanced⟩ | ⟨start, -, rfl⟩ :=
      Indexer.step_cases moved
  · exact manned
  · exact manned
  · exact joined _ _
  · exact joined _ _
  · have lasting (role : Role) (isLoop : role = .blocks ∨ role = .transactions)
        (has : ∃ thread ∈ world.threads, thread.role = role) :
        ∃ thread ∈ next.threads, thread.role = role := by
      refine exists_role_advance advanced (fun thread member same => ?_) has
      subst same
      exact exists_role_stepThread (ends thread member) world.shared isLoop
    rcases manned with ⟨one, member, migrating⟩ | ⟨blocks, transactions⟩
    · obtain ⟨⟨role, program⟩, before, after, threadsEq, -, -, nextEq⟩ :=
        Pool.advance_cases advanced
      rw [threadsEq, List.mem_append, List.mem_cons] at member
      rcases member with left | rfl | right
      · exact .inl ⟨one, by simp [nextEq, left], migrating⟩
      · obtain rfl : role = .migrating := migrating
        cases program with
        | ask query following =>
            exact .inl ⟨⟨.migrating, following (Process.exec query world.shared).1⟩,
              by simp [nextEq, Pool.stepThread], rfl⟩
        | done exit =>
            obtain rfl : exit = .initialized := ends ⟨.migrating, .done exit⟩ (by simp [threadsEq])
            refine .inr ⟨⟨Indexer.blocksThread, ?_, rfl⟩, ⟨Indexer.transactionsThread 0, ?_, rfl⟩⟩
            · simp [nextEq, Pool.stepThread, Indexer.resume]
            · simp [nextEq, Pool.stepThread, Indexer.resume]
      · exact .inl ⟨one, by simp [nextEq, right], migrating⟩
    · exact .inr ⟨lasting .blocks (.inl rfl) blocks, lasting .transactions (.inr rfl) transactions⟩
  · exact .inl ⟨_, List.mem_singleton_self _, rfl⟩

theorem holdsJob_resume (exit : Exit) : ∀ thread ∈ Indexer.resume exit, HoldsJob thread none := by
  intro thread member
  cases exit with
  | ended => simp [Indexer.resume] at member
  | initialized =>
      simp only [Indexer.resume, List.mem_cons, List.not_mem_nil, or_false] at member
      rcases member with rfl | rfl | rfl
      · exact Indexer.blocksThread_sameRunning
      · exact Indexer.transactionsThread_sameRunning 0
      · exact Indexer.starterThread_sameRunning
  | blocks =>
      obtain rfl : thread = Indexer.blocksThread := by simpa [Indexer.resume] using member
      exact Indexer.blocksThread_sameRunning
  | transactions prevBid =>
      obtain rfl : thread = Indexer.transactionsThread prevBid := by
        simpa [Indexer.resume] using member
      exact Indexer.transactionsThread_sameRunning prevBid

theorem Employed.advance (employed : Employed world) {position : Nat}
    (moved : world.advance Process.exec Indexer.resume position = some next) : Employed next := by
  obtain ⟨crew, threadsEq, holds, running⟩ := employed
  obtain ⟨thread, before, after, split, -, sharedEq, nextEq⟩ := Pool.advance_cases moved
  rw [threadsEq] at split
  obtain ⟨early, rest, rfl, rfl, restEq⟩ := List.map_eq_append_iff.mp split
  obtain ⟨⟨own, held⟩, late, rfl, rfl, rfl⟩ := List.map_eq_cons_iff.mp restEq
  have holder : HoldsJob own held := holds (own, held) (by simp)
  -- the crew with others in the place of the thread
  have employs (new : List (IndexerThread × Option Job))
      (threads : (Pool.stepThread Process.exec Indexer.resume own world.shared).2 =
        new.map Prod.fst) (newHolds : ∀ member ∈ new, HoldsJob member.1 member.2)
      (perm : next.shared.running.Perm (early.filterMap Prod.snd ++ new.filterMap Prod.snd ++
        late.filterMap Prod.snd)) : Employed next := by
    refine ⟨early ++ new ++ late, ?_, ?_, ?_⟩
    · rw [nextEq, threads, List.map_append, List.map_append]
    · intro member inside
      simp only [List.mem_append] at inside
      rcases inside with (old | fresh) | old
      · exact holds member (by simp [old])
      · exact newHolds member fresh
      · exact holds member (by simp [old])
    · rwa [List.filterMap_append, List.filterMap_append]
  rw [List.filterMap_append, List.filterMap_cons] at running
  obtain ⟨role, program⟩ := own
  cases program with
  | done exit =>
      obtain rfl : held = none := by
        cases held with
        | none => rfl
        | some job => exact holder.elim
      refine employs ((Indexer.resume exit).map (·, none)) ?_ ?_ ?_
      · simp [Pool.stepThread, Function.comp_def]
      · intro member inside
        obtain ⟨other, resumed, rfl⟩ := List.mem_map.mp inside
        exact holdsJob_resume exit other resumed
      · rw [sharedEq]
        simpa [Pool.stepThread, Function.comp_def] using running
  | ask query following =>
      have goesOn (now : Option Job)
          (stillHolds : HoldsJob ⟨role, following (Process.exec query world.shared).1⟩ now)
          (perm : next.shared.running.Perm (early.filterMap Prod.snd ++ now.toList ++
            late.filterMap Prod.snd)) : Employed next := by
        refine employs [(_, now)] rfl ?_ ?_
        · simpa using stillHolds
        · cases now <;> simpa using perm
      have after : next.shared.running = (Process.exec query world.shared).2.running := by
        rw [sharedEq]
        rfl
      cases held with
      | none =>
          refine goesOn none (holder.2 _) ?_
          rw [after, show (Process.exec query world.shared).2.running = _ from holder.1 _]
          simpa using running
      | some job =>
          rcases holder with ⟨rfl, nothing⟩ | ⟨same, frees⟩
          · refine goesOn none (nothing _) ?_
            have erased := (running.trans List.perm_middle).erase job
            rw [after]
            simpa [Process.exec, Process.execFaulty] using erased
          · refine goesOn (some job) (frees _) ?_
            rw [after, show (Process.exec query world.shared).2.running = _ from same _]
            simpa using running

theorem Employed.step (employed : Employed world)
    (moved : Indexer.step platform chain world move = some next) : Employed next := by
  obtain ⟨first, last, -, -, rfl⟩ | ⟨number, -, rfl⟩ | ⟨number, now, -, rfl⟩ |
    ⟨position, job, -, rfl⟩ | ⟨position, -, advanced⟩ | ⟨start, -, rfl⟩ :=
      Indexer.step_cases moved
  · exact employed
  · exact employed
  · obtain ⟨crew, threadsEq, holds, running⟩ := employed
    refine ⟨crew ++ [(_, none)], by rw [threadsEq, List.map_append]; rfl, fun member inside => ?_,
      by simpa [Indexer.deliver] using running⟩
    rcases List.mem_append.mp inside with old | new
    · exact holds member old
    · rw [List.mem_singleton.mp new]
      exact Indexer.deliveryThread_sameRunning _ _ _
  · obtain ⟨crew, threadsEq, holds, running⟩ := employed
    refine ⟨crew ++ [(_, some job)], by rw [threadsEq, List.map_append]; rfl,
      fun member inside => ?_, by simpa [Indexer.take] using running.append_right [job]⟩
    rcases List.mem_append.mp inside with old | new
    · exact holds member old
    · rw [List.mem_singleton.mp new]
      exact Indexer.workerThread_frees job
  · exact employed.advance advanced
  · refine ⟨[(_, none)], rfl, fun member inside => ?_, .refl _⟩
    rw [List.mem_singleton.mp inside]
    exact Indexer.migratingThread_sameRunning start

end Steps

end MileExplorer
