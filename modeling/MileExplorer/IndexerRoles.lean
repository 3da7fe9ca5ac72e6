import MileExplorer.Footprints

/-!
# Who runs beside whom

Whatever the tables hold: the migration runs alone and on empty queues, there
is one `blocks_processing` loop and one start of the fetcher, and every thread
keeps to the tables of its role.
-/

namespace MileExplorer

def Role.exitsAs : Role → Exit → Prop
  | .migrating, .initialized => True
  | .migrating, _ => False
  | _, .ended => True
  | .blocks, .blocks => True
  | .transactions, .transactions _ => True
  | _, _ => False

def Role.Footprint : Role → Process → Process → Prop
  | .migrating => WritesOnly [.metadata, .transactionsProcessing]
  | .starter => Writes []
  | .blocks => Writes [.blocks, .blocksProcessing, .transactionsProcessing]
  | .transactions => Writes [.transactions, .transactionsState, .transactionsProcessing]
  | .worker => Writes [.wallets, .transactionsProcessing]
  | .delivery => Writes [.blocksProcessing]

/-- Which roles may run side by side: the migration runs alone, and there is
one `blocks_processing` loop and one start of the fetcher. -/
def Role.besides (first second : Role) : Prop :=
  first ≠ .migrating ∧ second ≠ .migrating ∧ (first = .blocks → second ≠ .blocks) ∧
    (first = .starter → second ≠ .starter)

instance (first second : Role) : Decidable (first.besides second) :=
  inferInstanceAs (Decidable (_ ∧ _))

theorem Role.besides.symm {first second : Role} (together : first.besides second) :
    second.besides first :=
  ⟨together.2.1, together.1, fun isBlocks both => together.2.2.1 both isBlocks,
    fun isStarter both => together.2.2.2 both isStarter⟩

/-- The thread does what its role says, whatever it is answered. -/
structure Regular (thread : IndexerThread) : Prop where
  ends : thread.program.Ends thread.role.exitsAs
  steps : thread.program.Steps Process.exec thread.role.Footprint

namespace Indexer

variable (platform : Platform)

theorem migratingThread_regular (start : Start) : Regular (migratingThread start) where
  ends := .of_bind _ fun _ => trivial
  steps := (Db.migration_steps _ _).bind fun _ => trivial

theorem blocksThread_regular : Regular blocksThread where
  ends := .of_bind _ fun _ => trivial
  steps := Program.Steps.bind (((Db.getData_steps _ _).mono fun _ _ => And.left).bind fun _ =>
    Db.processBlocks_steps _) fun _ => trivial

theorem transactionsThread_regular (prevBid : Nat) : Regular (transactionsThread prevBid) where
  ends := .of_bind _ fun _ => trivial
  steps := ((Db.transactionsProcessing_steps _).mono fun _ _ => And.left).bind fun _ => trivial

theorem starterThread_regular : Regular starterThread where
  ends := .of_bind _ fun _ _ => trivial
  steps := ((Db.getNumber_steps _ _).mono fun _ _ => And.left).bind fun _ =>
    ⟨fun _ _ _ => rfl, fun _ => trivial⟩

theorem workerThread_regular (job : Job) : Regular (workerThread platform job) where
  ends := .of_bind _ fun _ => trivial
  steps := Program.Steps.bind (((Db.jobBody_steps platform job).mono fun _ _ => And.left).bind
    fun _ => ⟨fun _ _ _ => rfl, fun _ => trivial⟩) fun _ => trivial

theorem deliveryThread_regular (block : Json) (number : Nat) (now : Int) :
    Regular (deliveryThread platform block number now) where
  ends := .of_bind _ fun _ _ => trivial
  steps := ((Db.addBlock_steps platform _ _ _).mono fun _ _ => And.left).bind fun _ =>
    ⟨fun _ _ _ => rfl, fun _ => trivial⟩

/-- The threads that follow on one that has ended have the property, and a
thread keeps it from one query to the next. -/
structure Resumable (property : IndexerThread → Prop) : Prop where
  blocks : property blocksThread
  transactions : ∀ prevBid, property (transactionsThread prevBid)
  starter : property starterThread
  continues : ∀ role query next answer, property ⟨role, .ask query next⟩ →
    property ⟨role, next answer⟩

/-- Every thread that the indexer can start has the property, and keeps it. -/
structure Startable (property : IndexerThread → Prop) : Prop extends Resumable property where
  migrating : ∀ start, property (migratingThread start)
  worker : ∀ job, property (workerThread platform job)
  delivery : ∀ block number now, property (deliveryThread platform block number now)

theorem regular_resumable : Resumable Regular where
  blocks := blocksThread_regular
  transactions := transactionsThread_regular
  starter := starterThread_regular
  continues _ _ _ answer regular := ⟨regular.ends answer, regular.steps.2 answer⟩

variable {platform} {property : IndexerThread → Prop}

theorem Resumable.resume (resumable : Resumable property) (exit : Exit) :
    ∀ thread ∈ Indexer.resume exit, property thread := by
  intro thread member
  cases exit with
  | ended => simp [Indexer.resume] at member
  | initialized =>
      simp only [Indexer.resume, List.mem_cons, List.not_mem_nil, or_false] at member
      rcases member with rfl | rfl | rfl
      · exact resumable.blocks
      · exact resumable.transactions 0
      · exact resumable.starter
  | blocks =>
      obtain rfl : thread = blocksThread := by simpa [Indexer.resume] using member
      exact resumable.blocks
  | transactions prevBid =>
      obtain rfl : thread = transactionsThread prevBid := by
        simpa [Indexer.resume] using member
      exact resumable.transactions prevBid

theorem Resumable.stepThread (resumable : Resumable property) {thread : IndexerThread}
    (shared : Process) (has : property thread) :
    ∀ other ∈ (Pool.stepThread Process.exec Indexer.resume thread shared).2, property other := by
  obtain ⟨role, program⟩ := thread
  intro other member
  cases program with
  | done exit => exact resumable.resume exit other member
  | ask query following =>
      obtain rfl := List.mem_singleton.mp member
      exact resumable.continues _ _ _ _ has

/-- What one move does. -/
theorem step_cases {chain : Chain} {world next : World} {move : Move}
    (moved : step platform chain world move = some next) :
    (∃ first last, world.shared.fetcher.first = some first ∧ first < last ∧
      next = { world with shared := fetch first last world.shared }) ∨
    (∃ number, world.shared.fetcher.first.isSome ∧
      next = { world with shared := request number world.shared }) ∨
    (∃ number now, number ∈ world.shared.fetcher.fetching ∧
      next = ⟨deliver number world.shared,
        world.threads ++ [deliveryThread platform (chain number).json number now]⟩) ∨
    (∃ (position : Nat) (job : Job), world.shared.waiting[position]? = some job ∧
      next = ⟨take position job world.shared, world.threads ++ [workerThread platform job]⟩) ∨
    (∃ position, move = .advance position ∧
      world.advance Process.exec resume position = some next) ∨
    ∃ start, move = .restart start ∧ next = boot start world.shared.store := by
  cases move with
  | fetch last =>
      simp only [step] at moved
      split at moved
      · simp at moved
      · rename_i first firstEq
        split_ifs at moved with below
        exact .inl ⟨first, last, firstEq, below, (Option.some.inj moved).symm⟩
  | request number =>
      simp only [step] at moved
      split_ifs at moved with started
      exact .inr (.inl ⟨number, started, (Option.some.inj moved).symm⟩)
  | deliver number now =>
      simp only [step] at moved
      split_ifs at moved with asked
      exact .inr (.inr (.inl ⟨number, now, asked, (Option.some.inj moved).symm⟩))
  | work position =>
      obtain ⟨job, found, done⟩ := Option.map_eq_some_iff.mp moved
      exact .inr (.inr (.inr (.inl ⟨position, job, found, done.symm⟩)))
  | advance position => exact .inr (.inr (.inr (.inr (.inl ⟨position, rfl, moved⟩))))
  | restart start =>
      exact .inr (.inr (.inr (.inr (.inr ⟨start, rfl, (Option.some.inj moved).symm⟩))))

/-- What every thread has when it is started, all threads of a run have. -/
theorem Startable.step (startable : Startable platform property) {chain : Chain}
    {world next : World} {move : Move} (all : ∀ thread ∈ world.threads, property thread)
    (moved : Indexer.step platform chain world move = some next) :
    ∀ thread ∈ next.threads, property thread := by
  have joined {thread : IndexerThread} (has : property thread) :
      ∀ other ∈ world.threads ++ [thread], property other := by
    intro other member
    rcases List.mem_append.mp member with old | new
    · exact all other old
    · exact List.mem_singleton.mp new ▸ has
  obtain ⟨first, last, -, -, rfl⟩ | ⟨number, -, rfl⟩ | ⟨number, now, -, rfl⟩ |
    ⟨position, job, -, rfl⟩ | ⟨position, -, advanced⟩ | ⟨start, -, rfl⟩ := step_cases moved
  · exact all
  · exact all
  · exact joined (startable.delivery _ _ _)
  · exact joined (startable.worker job)
  · obtain ⟨thread, before, after, threadsEq, -, -, nextEq⟩ := Pool.advance_cases advanced
    intro other member
    simp only [nextEq, List.mem_append] at member
    rcases member with (left | new) | right
    · exact all other (by simp [threadsEq, left])
    · exact startable.toResumable.stepThread _ (all thread (by simp [threadsEq])) other new
    · exact all other (by simp [threadsEq, right])
  · intro thread member
    exact List.mem_singleton.mp member ▸ startable.migrating start

end Indexer

def Booting (world : World) : Prop := ∃ thread ∈ world.threads, thread.role = .migrating

/-- Every thread does what its role says, no two of them are in each other's
way, and nothing is queued while the migration runs. -/
structure Staffed (world : World) : Prop where
  regular : ∀ thread ∈ world.threads, Regular thread
  besides : (world.threads.map Thread.role).Pairwise Role.besides
  booting : Booting world → SameQueues (Process.idle world.shared.store) world.shared

namespace Staffed

variable {platform : Platform} {chain : Chain} {world next : World}

theorem boot (start : Start) (store : Store) : Staffed (Indexer.boot start store) where
  regular thread member := by
    obtain rfl := List.mem_singleton.mp member
    exact Indexer.migratingThread_regular start
  besides := List.pairwise_singleton _ _
  booting _ := ⟨rfl, rfl, rfl⟩

/-- Something happens in the queues beside the threads. -/
theorem event (staffed : Staffed world) (running : ¬ Booting world) (shared : Process) :
    Staffed { world with shared := shared } :=
  ⟨staffed.regular, staffed.besides, fun booting => absurd booting running⟩

/-- A delivery or a worker joins. -/
theorem spawn (staffed : Staffed world) (running : ¬ Booting world) {thread : IndexerThread}
    (regular : Regular thread) (joins : thread.role = .delivery ∨ thread.role = .worker) :
    Staffed { world with threads := world.threads ++ [thread] } ∧
      ¬ Booting { world with threads := world.threads ++ [thread] } := by
  have notMigrating : thread.role ≠ .migrating := by
    rcases joins with isDelivery | isWorker <;> simp_all
  have stillRunning : ¬ Booting { world with threads := world.threads ++ [thread] } := by
    rintro ⟨other, member, migrating⟩
    rcases List.mem_append.mp member with old | new
    · exact running ⟨other, old, migrating⟩
    · exact notMigrating (List.mem_singleton.mp new ▸ migrating)
  refine ⟨⟨fun other member => ?_, ?_, fun booting => absurd booting stillRunning⟩, stillRunning⟩
  · rcases List.mem_append.mp member with old | new
    · exact staffed.regular other old
    · exact List.mem_singleton.mp new ▸ regular
  · rw [List.map_append]
    refine List.pairwise_append.mpr ⟨staffed.besides, List.pairwise_singleton _ _, ?_⟩
    intro role member new newMem
    obtain ⟨other, otherMem, rfl⟩ := List.mem_map.mp member
    rw [List.mem_singleton.mp newMem]
    refine ⟨fun migrating => running ⟨other, otherMem, migrating⟩, notMigrating, ?_, ?_⟩ <;>
      rcases joins with isDelivery | isWorker <;> simp [*]

/-- Nothing runs beside the migration. -/
theorem alone (staffed : Staffed world) {thread : IndexerThread}
    {before after : List IndexerThread} (threadsEq : world.threads = before ++ thread :: after)
    {other : IndexerThread} (member : other ∈ before ++ after) :
    thread.role ≠ .migrating ∧ other.role ≠ .migrating := by
  have roles := List.pairwise_map.mp staffed.besides
  rw [threadsEq] at roles
  obtain ⟨-, right, left⟩ := List.pairwise_append.mp roles
  rcases List.mem_append.mp member with earlier | later
  · have beside := left other earlier thread (by simp)
    exact ⟨beside.2.1, beside.1⟩
  · have beside := (List.pairwise_cons.mp right).1 other later
    exact ⟨beside.1, beside.2.1⟩

theorem stepThread_roles {thread : IndexerThread} (shared : Process) (regular : Regular thread) :
    let roles := (Pool.stepThread Process.exec Indexer.resume thread shared).2.map Thread.role
    (roles = [] ∧ thread.role ≠ .migrating) ∨ roles = [thread.role] ∨ thread.role = .migrating ∧
      thread.program = .done .initialized ∧ roles = [.blocks, .transactions, .starter] := by
  obtain ⟨role, program⟩ := thread
  cases program with
  | ask query following => exact .inr (.inl rfl)
  | done exit =>
      have exited : role.exitsAs exit := regular.ends
      cases exit with
      | ended =>
          refine .inl ⟨rfl, ?_⟩
          rintro (rfl : role = .migrating)
          exact exited
      | initialized =>
          cases role <;> first | exact .inr (.inr ⟨rfl, rfl, rfl⟩) | exact exited.elim
      | blocks => cases role <;> first | exact .inr (.inl rfl) | exact exited.elim
      | transactions prevBid =>
          cases role <;> first | exact .inr (.inl rfl) | exact exited.elim

/-- A step of a thread: of one beside the migration, of the migration, or the
last one of the migration. -/
theorem advance_cases (staffed : Staffed world) {position : Nat}
    (moved : world.advance Process.exec Indexer.resume position = some next) :
    ∃ thread ∈ world.threads, world.threads[position]? = some thread ∧
      thread.role.Footprint world.shared next.shared ∧
      ((thread.role ≠ .migrating ∧ ¬ Booting world ∧ ¬ Booting next) ∨
        (thread.role = .migrating ∧ Booting world ∧ Booting next) ∨
        (thread.role = .migrating ∧ thread.program = .done .initialized ∧ Booting world ∧
          ¬ Booting next ∧ next.shared = world.shared)) := by
  obtain ⟨thread, before, after, threadsEq, found, sharedEq, nextEq⟩ := Pool.advance_cases moved
  have member : thread ∈ world.threads := by simp [threadsEq]
  have regular := staffed.regular thread member
  have others (other : IndexerThread) (beside : other ∈ before ++ after) :=
    staffed.alone threadsEq beside
  -- The migration is under way afterwards only if it is among what this thread leaves.
  have nextBooting : Booting next ↔
      .migrating ∈ (Pool.stepThread Process.exec Indexer.resume thread world.shared).2.map
        Thread.role := by
    constructor
    · rintro ⟨other, otherMem, migrating⟩
      simp only [nextEq, List.mem_append] at otherMem
      rcases otherMem with (left | new) | right
      · exact absurd migrating (others other (List.mem_append_left _ left)).2
      · exact List.mem_map.mpr ⟨other, new, migrating⟩
      · exact absurd migrating (others other (List.mem_append_right _ right)).2
    · intro migrating
      obtain ⟨other, otherMem, isMigrating⟩ := List.mem_map.mp migrating
      exact ⟨other, by simp [nextEq, otherMem], isMigrating⟩
  have worldBooting : Booting world ↔ thread.role = .migrating := by
    constructor
    · rintro ⟨other, otherMem, migrating⟩
      rw [threadsEq, List.mem_append, List.mem_cons] at otherMem
      rcases otherMem with left | rfl | right
      · exact absurd migrating (others other (List.mem_append_left _ left)).2
      · exact migrating
      · exact absurd migrating (others other (List.mem_append_right _ right)).2
    · exact fun migrating => ⟨thread, member, migrating⟩
  refine ⟨thread, member, found, ?_, ?_⟩
  · rw [sharedEq]
    obtain ⟨role, program⟩ := thread
    cases program with
    | ask query following => exact regular.steps.1 world.shared
    | done exit => cases role <;> first | exact .refl _ | exact fun _ _ => rfl
  · rw [nextBooting, worldBooting]
    rcases stepThread_roles world.shared regular with ⟨none, running⟩ | same | ⟨role, ended, three⟩
    · exact .inl ⟨running, running, by simp [none]⟩
    · rw [same, List.mem_singleton]
      by_cases isMigrating : thread.role = .migrating
      · exact .inr (.inl ⟨isMigrating, isMigrating, isMigrating.symm⟩)
      · exact .inl ⟨isMigrating, isMigrating, fun same => isMigrating same.symm⟩
    · refine .inr (.inr ⟨role, ended, role, by rw [three]; decide, ?_⟩)
      rw [sharedEq, Pool.stepThread, ended]

theorem advance (staffed : Staffed world) {position : Nat}
    (moved : world.advance Process.exec Indexer.resume position = some next) : Staffed next := by
  obtain ⟨thread, before, after, threadsEq, found, -, nextEq⟩ := Pool.advance_cases moved
  have member : thread ∈ world.threads := by simp [threadsEq]
  have regular := staffed.regular thread member
  refine ⟨fun other otherMem => ?_, ?_, fun booting => ?_⟩
  · simp only [nextEq, List.mem_append] at otherMem
    rcases otherMem with (left | new) | right
    · exact staffed.regular other (by simp [threadsEq, left])
    · exact Indexer.regular_resumable.stepThread world.shared regular other new
    · exact staffed.regular other (by simp [threadsEq, right])
  · rw [nextEq, List.map_append, List.map_append]
    have worldRoles := staffed.besides
    rw [threadsEq, List.map_append, List.map_cons] at worldRoles
    rcases stepThread_roles world.shared regular with ⟨none, -⟩ | same | ⟨migrating, -, three⟩
    · rw [none, List.append_nil]
      exact worldRoles.sublist ((List.Sublist.refl _).append (List.sublist_cons_self _ _))
    · rw [same]
      simpa using worldRoles
    · have nobody : before ++ after = [] := List.eq_nil_iff_forall_not_mem.mpr
        fun other beside => (staffed.alone threadsEq beside).1 migrating
      obtain ⟨rfl, rfl⟩ := List.append_eq_nil_iff.mp nobody
      rw [three]
      decide
  · obtain ⟨actor, -, -, footprint,
      ⟨-, -, running⟩ | ⟨role, wasBooting, -⟩ | ⟨-, -, -, running, -⟩⟩ :=
      staffed.advance_cases moved
    · exact absurd booting running
    · rw [role] at footprint
      exact (staffed.booting wasBooting).trans footprint.2
    · exact absurd booting running

/-- The migration is over once the fetcher runs. -/
theorem not_booting_of_started (staffed : Staffed world)
    (started : world.shared.fetcher.first.isSome) : ¬ Booting world := by
  intro booting
  simp [(staffed.booting booting).2.2, Process.idle] at started

/-- The migration is over once a block is asked for. -/
theorem not_booting_of_fetching (staffed : Staffed world) {number : Nat}
    (asked : number ∈ world.shared.fetcher.fetching) : ¬ Booting world := by
  intro booting
  simp [(staffed.booting booting).2.2, Process.idle] at asked

/-- The migration is over once a job is queued. -/
theorem not_booting_of_waiting (staffed : Staffed world) {position : Nat} {job : Job}
    (found : world.shared.waiting[position]? = some job) : ¬ Booting world := by
  intro booting
  simp [(staffed.booting booting).1, Process.idle] at found

/-- Every move keeps the threads to their roles. -/
theorem step (staffed : Staffed world) {move : Indexer.Move}
    (moved : Indexer.step platform chain world move = some next) : Staffed next := by
  obtain ⟨first, last, firstEq, -, rfl⟩ | ⟨number, started, rfl⟩ | ⟨number, now, asked, rfl⟩ |
    ⟨position, job, found, rfl⟩ | ⟨position, -, advanced⟩ | ⟨start, -, rfl⟩ :=
      Indexer.step_cases moved
  · exact staffed.event (staffed.not_booting_of_started (by simp [firstEq])) _
  · exact staffed.event (staffed.not_booting_of_started started) _
  · have running := staffed.not_booting_of_fetching asked
    exact ((staffed.event running (Indexer.deliver number world.shared)).spawn running
      (Indexer.deliveryThread_regular platform _ number now) (.inl rfl)).1
  · have running := staffed.not_booting_of_waiting found
    exact ((staffed.event running (Indexer.take position job world.shared)).spawn running
      (Indexer.workerThread_regular platform job) (.inr rfl)).1
  · exact staffed.advance advanced
  · exact .boot start _

end Staffed

end MileExplorer
