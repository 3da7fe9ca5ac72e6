import MileExplorer.AppendOnly
import MileExplorer.ConnectableBlocks
import MileExplorer.Served
import MileExplorer.StreamPass
import MileExplorer.Workers

/-!
# The indexer never gets stuck

From every state that the indexer reaches, its threads can work off what there
is, with nothing coming from outside: the jobs, the pending transactions, and
the pending blocks up to those that wait for an earlier one.
-/

namespace MileExplorer

variable {platform : Platform} {chain : Chain}

/-! ## The row of the counter -/

/-- No row of `transactions_state` takes the text of the index option for its
key. -/
def CounterKeyed (process : Process) : Prop :=
  ¬ (process.store .transactionsState).Has (.str Db.indexText)

def KeepsCounterKeyed (before after : Process) : Prop := CounterKeyed before → CounterKeyed after

theorem keepsCounterKeyed_of_writesOnly {Result : Type} (tables : List TableName)
    {program : Prog Result} (apart : .transactionsState ∉ tables)
    (steps : program.Steps Process.exec (WritesOnly tables)) :
    program.Steps Process.exec KeepsCounterKeyed :=
  steps.mono fun before after writes keyed => by
    rwa [CounterKeyed, writes.1 _ apart]

theorem Db.updateState_keepsCounterKeyed (row : String) (count blockId : Nat) :
    (Db.updateState row count blockId).Steps Process.exec KeepsCounterKeyed := by
  have named := Db.find?_stateRow_id count blockId
  have apart : Json.str "state" ≠ .str Db.indexText := by decide
  refine Program.Steps.bind ?_ fun _ => trivial
  unfold Db.update
  rw [show ((Db.stateRow count blockId).indexConst "id" >>= Json.getString) = .ok "state" from
    Json.constText_eq_ok.mpr named]
  refine ⟨fun _ keyed => keyed, fun status => ?_⟩
  dsimp only
  split
  · refine ⟨fun process keyed => ?_, fun _ => trivial⟩
    have inserted : CounterKeyed (process.withTable .transactionsState
        ((process.store .transactionsState).insert (Db.stateRow count blockId))) := by
      simpa [CounterKeyed, KeyedTable.has_insert, docId_of_find? named, apart] using keyed
    exact inserted
  · refine ⟨fun process keyed => ?_, fun _ => trivial⟩
    have modified : CounterKeyed (process.withTable .transactionsState
        ((process.store .transactionsState).modify (.str "state") fun row =>
          row.merge ((Db.stateRow count blockId).erase "state"))) := by
      simpa [CounterKeyed, KeyedTable.has_modify] using keyed
    exact modified
  · trivial

theorem Db.transactionsProcessing_keepsCounterKeyed (prevBid : Nat) :
    (Db.transactionsProcessing prevBid).Steps Process.exec KeepsCounterKeyed := by
  have beside {Result : Type} {program : Prog Result}
      (steps : program.Steps Process.exec (WritesOnly [.transactions, .transactionsProcessing])) :
      program.Steps Process.exec KeepsCounterKeyed :=
    keepsCounterKeyed_of_writesOnly _ (by decide) steps
  have items (lastCount : Nat) (rows : List Json) (prevBid : Nat) :
      (Db.processTransactions prevBid lastCount rows).Steps Process.exec KeepsCounterKeyed := by
    induction rows generalizing prevBid lastCount with
    | nil => trivial
    | cons item rest ih =>
        unfold Db.processTransactions
        split
        · trivial
        · split
          · exact (beside (Db.remove_steps _ _ (by decide))).bind fun _ => ih _ _
          · trivial
          · refine (beside (Db.getData_steps _ _)).bind fun row => ?_
            split_ifs
            · exact (beside (Db.remove_steps _ _ (by decide))).bind fun _ => ih _ _
            · exact (beside (Db.insert_steps _ _ (by decide))).bind fun _ =>
                (Db.updateState_keepsCounterKeyed _ _ _).bind fun _ =>
                  (beside (Db.remove_steps _ _ (by decide))).bind fun _ => ih _ _
  refine (beside (Db.getData_steps _ _)).bind fun pending => Program.Steps.bind ?_ fun _ =>
    items _ _ _
  refine (beside (Db.getData_steps _ _)).bind fun state => ?_
  split
  · trivial
  · exact (Db.updateState_keepsCounterKeyed _ _ _).bind fun _ => trivial

variable (platform) in
theorem Indexer.startable_keepsCounterKeyed :
    Indexer.Startable platform fun thread =>
      thread.program.Steps Process.exec KeepsCounterKeyed where
  blocks := Indexer.blocksThread_regular.steps.mono fun _ _ writes keyed => by
    rwa [CounterKeyed, writes .transactionsState (by decide)]
  transactions prevBid :=
    (Db.transactionsProcessing_keepsCounterKeyed prevBid).bind fun _ => trivial
  starter := Indexer.starterThread_regular.steps.mono fun _ _ writes keyed => by
    rwa [CounterKeyed, writes .transactionsState (by decide)]
  continues _ _ _ answer steps := steps.2 answer
  migrating start := (Indexer.migratingThread_regular start).steps.mono fun _ _ writes keyed => by
    rwa [CounterKeyed, writes.1 .transactionsState (by decide)]
  worker job := (Indexer.workerThread_regular platform job).steps.mono fun _ _ writes keyed => by
    rwa [CounterKeyed, writes .transactionsState (by decide)]
  delivery block number now :=
    (Indexer.deliveryThread_regular platform block number now).steps.mono fun _ _ writes keyed => by
      rwa [CounterKeyed, writes .transactionsState (by decide)]

/-! ## What every state of a run has -/

/-- The tables and the threads of a state that the indexer reaches. -/
structure InOrder (platform : Platform) (chain : Chain) (world : World) : Prop where
  safe : WorldSafe platform chain world
  ends : ∀ thread ∈ world.threads, thread.program.Ends thread.role.endsAs
  manned : Manned world
  employed : Employed world
  steady : ∀ thread ∈ world.threads, thread.program.Steps Process.exec KeepsCounterKeyed
  counter : CounterKeyed world.shared

theorem inOrder_of_reaches (chainFormed : chain.WellFormed platform) {start : Start}
    {world : World} {snapshots : Store → Prop}
    (reached : IndexerReaches platform chain (Recoverable chain) snapshots start world) :
    InOrder platform chain world := by
  refine reached.invariant (InOrder platform chain) ?_ fun current move next before permitted
    moved => ?_
  · have only : ∀ thread ∈ (Indexer.firstBoot start).threads,
        thread = Indexer.migratingThread start := fun thread => List.mem_singleton.mp
    refine ⟨.firstBoot start, fun thread member => ?_, .inl ⟨_, List.mem_singleton_self _, rfl⟩,
      ⟨[(_, none)], rfl, fun member inside => ?_, .refl _⟩, fun thread member => ?_, ?_⟩
    · rw [only thread member]
      exact (Indexer.startable_endsAs platform).migrating start
    · rw [List.mem_singleton.mp inside]
      exact Indexer.migratingThread_sameRunning start
    · rw [only thread member]
      exact (Indexer.startable_keepsCounterKeyed platform).migrating start
    · exact KeyedTable.not_has_empty _
  · have movedBeside : Faulty.step platform sampleSurroundings chain current (.indexer move) =
        some next := moved
    exact ⟨(before.safe.step chainFormed (fun _ recoverable => recoverable) permitted moved).1,
      (Indexer.startable_endsAs platform).step before.ends moved,
      before.manned.step before.ends moved, before.employed.step moved,
      (Indexer.startable_keepsCounterKeyed platform).step before.steady moved,
      Faulty.related_of_step (fun _ _ same keyed => by rwa [CounterKeyed, same]) before.steady
        movedBeside before.counter⟩

/-! ## Working on -/

def Indexer.Move.IsOwn : Indexer.Move → Prop
  | .work _ | .advance _ => True
  | _ => False

/-- The states that the indexer reaches by its own moves. -/
abbrev WorksOn (platform : Platform) (chain : Chain) : World → World → Prop :=
  Reaches (Indexer.step platform chain) fun _ move => move.IsOwn

theorem WorksOn.reaches {restarts : Store → Prop} {start : Start} {world later : World}
    (works : WorksOn platform chain world later)
    (reached : IndexerReaches platform chain restarts (fun _ => True) start world) :
    IndexerReaches platform chain restarts (fun _ => True) start later := by
  refine reached.trans (works.mono fun current move own => ?_)
  cases move with
  | work position => trivial
  | advance position => exact fun _ => trivial
  | _ => exact own.elim

theorem WorksOn.single {world next : World} {move : Indexer.Move}
    (moved : Indexer.step platform chain world move = some next) (own : move.IsOwn) :
    WorksOn platform chain world next :=
  Reaches.refl.tail own moved

/-- A thread is run to its end. -/
theorem WorksOn.finish (before after : List IndexerThread) (thread : IndexerThread)
    (shared : Process) :
    WorksOn platform chain ⟨shared, before ++ thread :: after⟩
      ⟨(thread.program.run Process.exec shared).2,
        before ++ Indexer.resume (thread.program.run Process.exec shared).1 ++ after⟩ := by
  obtain ⟨role, program⟩ := thread
  have advances (program : Prog Exit) (shared : Process) :
      WorksOn platform chain ⟨shared, before ++ ⟨role, program⟩ :: after⟩
        ⟨(Pool.stepThread Process.exec Indexer.resume ⟨role, program⟩ shared).1,
          before ++ (Pool.stepThread Process.exec Indexer.resume ⟨role, program⟩ shared).2 ++
            after⟩ := by
    have moved : Indexer.step platform chain ⟨shared, before ++ ⟨role, program⟩ :: after⟩
        (.advance before.length) = some
          ⟨(Pool.stepThread Process.exec Indexer.resume ⟨role, program⟩ shared).1,
            before ++ (Pool.stepThread Process.exec Indexer.resume ⟨role, program⟩ shared).2 ++
              after⟩ := by
      simp [Indexer.step, Pool.advance]
    exact .single moved trivial
  induction program generalizing shared with
  | done exit => exact advances (.done exit) shared
  | ask query following ih =>
      refine (advances (.ask query following) shared).trans ?_
      simpa [Pool.stepThread] using ih _ _

def BetweenPasses (thread : IndexerThread) : Prop :=
  thread = Indexer.blocksThread ∨ ∃ prevBid, thread = Indexer.transactionsThread prevBid

/-- Every thread is run to its end, or to the end of its pass. -/
theorem exists_betweenPasses (before threads : List IndexerThread)
    (already : ∀ thread ∈ before, BetweenPasses thread) (shared : Process) :
    ∃ later, WorksOn platform chain ⟨shared, before ++ threads⟩ later ∧
      ∀ thread ∈ later.threads, BetweenPasses thread := by
  induction threads generalizing before shared with
  | nil => exact ⟨_, .refl, by simpa using already⟩
  | cons thread rest ih =>
      have finished : WorksOn platform chain ⟨shared, before ++ thread :: rest⟩ _ :=
        .finish before rest thread shared
      have goesOn (loops : List IndexerThread) (between : ∀ other ∈ loops, BetweenPasses other)
          {process : Process} (works : WorksOn platform chain ⟨shared, before ++ thread :: rest⟩
            ⟨process, before ++ loops ++ rest⟩) :
          ∃ later, WorksOn platform chain ⟨shared, before ++ thread :: rest⟩ later ∧
            ∀ thread ∈ later.threads, BetweenPasses thread := by
        obtain ⟨later, further, all⟩ := ih (before ++ loops) (fun other member => by
          rcases List.mem_append.mp member with old | new
          · exact already other old
          · exact between other new) process
        exact ⟨later, works.trans further, all⟩
      cases exit : (thread.program.run Process.exec shared).1 with
      | ended =>
          rw [exit] at finished
          exact goesOn [] (by simp) finished
      | blocks =>
          rw [exit] at finished
          exact goesOn [Indexer.blocksThread] (by simp [BetweenPasses]) finished
      | transactions prevBid =>
          rw [exit] at finished
          exact goesOn [Indexer.transactionsThread prevBid] (by simp [BetweenPasses]) finished
      | initialized =>
          rw [exit] at finished
          have loops : before ++ Indexer.resume .initialized ++ rest =
              (before ++ [Indexer.blocksThread, Indexer.transactionsThread 0]) ++
                Indexer.starterThread :: rest := by simp [Indexer.resume]
          rw [loops] at finished
          have started := finished.trans (WorksOn.finish _ rest Indexer.starterThread _)
          have ends (process : Process) :
              (Indexer.starterThread.program.run Process.exec process).1 = .ended := rfl
          rw [ends] at started
          exact goesOn [Indexer.blocksThread, Indexer.transactionsThread 0]
            (by simp [BetweenPasses]) (by simpa [Indexer.resume] using started)

theorem WritesOnly.run {tables : List TableName} {Result : Type} {program : Prog Result}
    (steps : program.Steps Process.exec (WritesOnly tables)) (process : Process) :
    WritesOnly tables process (program.run Process.exec process).2 := by
  refine steps.run WritesOnly.refl (fun first second third earlier later => ?_) process
  exact ⟨fun table outside => (later.1 table outside).trans (earlier.1 table outside),
    earlier.2.trans later.2⟩

variable (platform) in
/-- A worker ends and leaves the other jobs and the pending blocks. -/
theorem Indexer.workerThread_run (job : Job) (process : Process) :
    let ran := (Indexer.workerThread platform job).program.run Process.exec process
    ran.1 = .ended ∧ ran.2.waiting = process.waiting ∧
      ran.2.store .blocksProcessing = process.store .blocksProcessing := by
  have body := WritesOnly.run (Db.jobBody_steps platform job) process
  rw [Indexer.workerThread, Program.run_bind, Db.runJob, Program.run_bind]
  exact ⟨rfl, body.2.1, body.1 .blocksProcessing (by decide)⟩

theorem exists_worked (threads : List IndexerThread) (process : Process) :
    ∃ after, WorksOn platform chain ⟨process, threads⟩ ⟨after, threads⟩ ∧ after.waiting = [] ∧
      after.store .blocksProcessing = process.store .blocksProcessing := by
  induction waiting : process.waiting generalizing process with
  | nil => exact ⟨process, .refl, waiting, rfl⟩
  | cons job rest ih =>
      have took : Indexer.step platform chain ⟨process, threads⟩ (.work 0) =
          some ⟨Indexer.take 0 job process, threads ++ [Indexer.workerThread platform job]⟩ := by
        simp [Indexer.step, waiting]
      have worked : WorksOn platform chain
          ⟨Indexer.take 0 job process, threads ++ [Indexer.workerThread platform job]⟩ _ :=
        .finish threads [] (Indexer.workerThread platform job) _
      obtain ⟨ends, left, same⟩ :=
        Indexer.workerThread_run platform job (Indexer.take 0 job process)
      rw [ends] at worked
      obtain ⟨after, further, nothing, unchanged⟩ :=
        ih _ (left.trans (by simp [Indexer.take, waiting]))
      refine ⟨after, ?_, nothing, unchanged.trans same⟩
      have first := (WorksOn.single took trivial).trans worked
      simp only [Indexer.resume, List.append_nil] at first
      exact first.trans further

theorem WorksOn.streamPasses (before after : List IndexerThread) (prevBid passes : Nat)
    (process : Process) :
    WorksOn platform chain ⟨process, before ++ Indexer.transactionsThread prevBid :: after⟩
      ⟨(streamPass^[passes] (prevBid, process)).2,
        before ++ Indexer.transactionsThread (streamPass^[passes] (prevBid, process)).1 ::
          after⟩ := by
  induction passes with
  | zero => exact .refl
  | succ passes ih =>
      rw [Function.iterate_succ_apply']
      generalize streamPass^[passes] (prevBid, process) = state at ih
      have finished : WorksOn platform chain
          ⟨state.2, before ++ Indexer.transactionsThread state.1 :: after⟩ _ :=
        .finish before after (Indexer.transactionsThread state.1) state.2
      have ran : (Indexer.transactionsThread state.1).program.run Process.exec state.2 =
          (.transactions (streamPass state).1, (streamPass state).2) := Program.run_bind _ _ _ _
      rw [ran] at finished
      exact ih.trans (by simpa [Indexer.resume] using finished)

/-- The loops are between two passes, no job is left and no transaction is
pending. -/
structure Rests (world : World) : Prop where
  loops : ∀ thread ∈ world.threads, BetweenPasses thread
  waiting : world.shared.waiting = []
  pending : (world.shared.store .transactionsProcessing).rows = []

/-- Nothing runs beside the loops when they are between two passes. -/
theorem InOrder.exists_loops {world : World} (inOrder : InOrder platform chain world)
    (loops : ∀ thread ∈ world.threads, BetweenPasses thread) :
    Indexer.blocksThread ∈ world.threads ∧
      ∃ prevBid, Indexer.transactionsThread prevBid ∈ world.threads := by
  rcases inOrder.manned with ⟨thread, member, migrating⟩ |
    ⟨⟨first, firstMem, isBlocks⟩, second, secondMem, isTransactions⟩
  · rcases loops thread member with rfl | ⟨prevBid, rfl⟩ <;> cases migrating
  · constructor
    · rcases loops first firstMem with rfl | ⟨prevBid, rfl⟩
      · exact firstMem
      · cases isBlocks
    · rcases loops second secondMem with rfl | ⟨prevBid, rfl⟩
      · cases isTransactions
      · exact ⟨prevBid, secondMem⟩

/-- Between two passes of the loops nobody holds a job. -/
theorem InOrder.running {world : World} (inOrder : InOrder platform chain world)
    (loops : ∀ thread ∈ world.threads, BetweenPasses thread) : world.shared.running = [] := by
  obtain ⟨crew, threadsEq, holds, perm⟩ := inOrder.employed
  have nobody : crew.filterMap Prod.snd = [] := by
    refine List.filterMap_eq_nil_iff.mpr fun ⟨thread, held⟩ member => ?_
    have inside : thread ∈ world.threads := by
      rw [threadsEq]
      exact List.mem_map_of_mem member
    have holder : HoldsJob thread held := holds (thread, held) member
    cases held with
    | none => rfl
    | some job =>
        rcases loops thread inside with rfl | ⟨prevBid, rfl⟩
        · exact absurd holder (not_frees_of_steps Indexer.blocksThread_sameRunning)
        · exact absurd holder (not_frees_of_steps (Indexer.transactionsThread_sameRunning _))
  rw [nobody] at perm
  exact perm.eq_nil

theorem Valid.isPending {process : Process} (valid : Valid platform chain process) :
    ∀ row ∈ (process.store .transactionsProcessing).rows, IsPending row := by
  intro row member
  rcases valid.pending row member with ⟨number, id, -, -, idEq, bidEq, small, type, typeEq, -⟩ |
    ⟨number, idEq, bidEq, small, typeEq, -⟩
  · exact ⟨id, number, type, idEq, bidEq, small, typeEq⟩
  · exact ⟨_, number, _, idEq, bidEq, small, typeEq⟩

/-- Enough passes leave nothing pending. -/
theorem rows_streamPass {process : Process} (valid : Valid platform chain process)
    (counter : CounterKeyed process) (prevBid : Nat) :
    ((streamPass^[(process.store .transactionsProcessing).rows.length + 1]
      (prevBid, process)).2.store .transactionsProcessing).rows = [] := by
  have pending := valid.isPending
  have keyed : PendingKeyed process.store := by
    intro row member
    obtain ⟨id, bid, type, idEq, bidEq, -, -⟩ := pending row member
    exact ⟨bid, id, idEq, bidEq⟩
  have sound : ∀ item ∈ pendingItems process.store, isSound item = true := by
    intro item member
    obtain ⟨id, bid, type, idEq, bidEq, -, typeEq⟩ :=
      pending item (keyed.mem_pendingItems.mp member)
    exact isSound_iff.mpr ⟨_, itemHead_eq idEq bidEq typeEq⟩
  have handled := hasHandled_takeWhile prevBid keyed counter (Nat.lt_succ_self _)
  rw [List.takeWhile_eq_self_iff.mpr sound] at handled
  have perm := (handled.settles.keyed keyed).perm
  rw [List.self_eq_append_right.mp handled.split] at perm
  exact perm.nil_eq.symm

/-- The passes leave the jobs and the pending blocks. -/
theorem writesOnly_streamPass (passes : Nat) (state : Nat × Process) :
    WritesOnly [.transactions, .transactionsState, .transactionsProcessing] state.2
      (streamPass^[passes] state).2 := by
  induction passes with
  | zero => exact .refl _
  | succ passes ih =>
      rw [Function.iterate_succ_apply']
      have last := WritesOnly.run (Db.transactionsProcessing_steps
        (streamPass^[passes] state).1) (streamPass^[passes] state).2
      exact ⟨fun table outside => (last.1 table outside).trans (ih.1 table outside),
        ih.2.trans last.2⟩

/-- The jobs and the pending transactions are worked off. -/
theorem exists_rests (chainFormed : chain.WellFormed platform) {start : Start} {world : World}
    (reached : IndexerReaches platform chain (Recoverable chain) (fun _ => True) start world)
    (loops : ∀ thread ∈ world.threads, BetweenPasses thread) :
    ∃ later, WorksOn platform chain world later ∧ Rests later ∧
      later.shared.store .blocksProcessing = world.shared.store .blocksProcessing := by
  obtain ⟨process, threads⟩ := world
  obtain ⟨after, worked, nothing, sameBlocks⟩ := exists_worked threads process
  have inOrder := inOrder_of_reaches chainFormed (worked.reaches reached)
  obtain ⟨prevBid, member⟩ := (inOrder.exists_loops loops).2
  obtain ⟨before, behind, rfl⟩ := List.append_of_mem member
  have passed : WorksOn platform chain _ _ := .streamPasses before behind prevBid
    ((after.store .transactionsProcessing).rows.length + 1) after
  have written := writesOnly_streamPass ((after.store .transactionsProcessing).rows.length + 1)
    (prevBid, after)
  refine ⟨_, worked.trans passed, ⟨fun thread inside => ?_, written.2.1.trans nothing, ?_⟩,
    (written.1 .blocksProcessing (by decide)).trans sameBlocks⟩
  · simp only [List.mem_append, List.mem_cons] at inside
    rcases inside with left | rfl | right
    · exact loops thread (by simp [left])
    · exact .inr ⟨_, rfl⟩
    · exact loops thread (by simp [right])
  · exact rows_streamPass inOrder.safe.safe.valid inOrder.counter prevBid

/-! ## The pending blocks -/

/-- A pass of `blocks_processing` has fewer pending blocks behind it, or leaves
everything as it is because every pending block has to wait for an earlier
one. -/
theorem blocksProcessing_cases {process : Process} (valid : Valid platform chain process)
    (complete : ∀ number, ∃ transactions, (chain number).json.find? "transactions" =
      some transactions) :
    ((Db.blocksProcessing.run Process.exec process).2.store .blocksProcessing).rows.length <
        (process.store .blocksProcessing).rows.length ∨
      ∀ number, process.Pending number → Db.isForward (Db.gateNumber process.store) number := by
  have rows := valid.blocks.numberedRows
  have queued := valid.pendingBlocks.numberedRows
  have ran : Db.blocksProcessing.run Process.exec process = _ :=
    Db.blocksProcessing_eq Db.failsReads_none rows queued
  simp only [Bool.false_eq_true, if_false] at ran
  have increasing := queued.increasing
  have listed {row : Json} : row ∈ Cursor.ordered "block-id"
      (process.store .blocksProcessing).rows ↔ row ∈ (process.store .blocksProcessing).rows :=
    queued.mem_ordered
  cases items : Cursor.ordered "block-id" (process.store .blocksProcessing).rows with
  | nil =>
      right
      intro number pending
      obtain ⟨row, member, -⟩ := queued.hasBlock_iff.mp pending
      rw [← listed, items] at member
      simp at member
  | cons item rest =>
      rw [items] at ran increasing listed
      have first := listed.mp (List.mem_cons_self ..)
      have rowOf := valid.pendingBlocks.rowOf first
      obtain ⟨small, -, -, ⟨time, timed⟩, transactionsEq⟩ := rowOf.members
      by_cases forward : Db.isForward (Db.gateNumber process.store) (blockOf item)
      · right
        intro number pending
        obtain ⟨row, member, numbered⟩ := queued.hasBlock_iff.mp pending
        have above : blockOf item ≤ number := by
          rw [← numbered.blockOf_eq]
          rcases List.mem_cons.mp (listed.mpr member) with rfl | later
          · exact le_rfl
          · exact le_of_lt ((List.pairwise_cons.mp increasing).1 row later)
        obtain ⟨positive, beyond⟩ := (isForward_iff small).mp forward
        exact (isForward_iff numbered.1).mpr ⟨positive, by omega⟩
      · left
        obtain ⟨transactions, given⟩ := complete (blockOf item)
        have works : (Db.itemWork item).isOk = true := by
          rw [Db.itemWork_of_find? timed (transactionsEq.trans given)]
          rfl
        rw [ran, Db.workedOn, if_pos ⟨works, .inr forward⟩, (Db.store_foldl_moveBlock _ _).2,
          KeyedTable.rows_foldl_erase, List.length_filter_lt_length_iff_exists]
        exact ⟨item, first, by simp⟩

/-- Everything is worked off: the loops are between two passes, no job is left,
no transaction is pending, and a block is pending only if it waits for an
earlier one.  The transactions of a stored block are stored, or the fetcher
will bring the block once more. -/
structure WorkedOff (chain : Chain) (world : World) : Prop extends Rests world where
  running : world.shared.running = []
  blocks : ∀ number, world.shared.Pending number →
    Db.isForward (Db.gateNumber world.shared.store) number
  stored : ∀ number, world.shared.Stored number →
    (∀ id ∈ chain.ids number, (world.shared.store .transactions).Has (.str id)) ∨
      number ∈ world.shared.fetcher.fetching ∨ number ∈ world.shared.fetcher.delivering ∨
        world.shared.Awaited number

theorem Rests.workedOff {world : World} (rests : Rests world)
    (inOrder : InOrder platform chain world)
    (blocks : ∀ number, world.shared.Pending number →
      Db.isForward (Db.gateNumber world.shared.store) number) : WorkedOff chain world := by
  have running := inOrder.running rests.loops
  have notBooting : ¬ Booting world := by
    rintro ⟨thread, member, migrating⟩
    rcases rests.loops thread member with rfl | ⟨prevBid, rfl⟩ <;> cases migrating
  refine ⟨rests, running, blocks, fun number stored => ?_⟩
  rcases inOrder.safe.intact notBooting number stored with
    (⟨transactions, time, queued⟩ | covered) | pending | toCome
  · simp [rests.waiting, running] at queued
  · refine .inl fun id listed => (covered id listed).resolve_right ?_
    rintro ⟨row, member, -⟩
    simp [rests.pending] at member
  · -- a stored block is not above the last one
    obtain ⟨row, member, numbered⟩ :=
      inOrder.safe.safe.valid.pendingBlocks.numberedRows.hasBlock_iff.mp pending
    obtain ⟨-, beyond⟩ := (isForward_iff numbered.1).mp (blocks number pending)
    rcases inOrder.safe.safe.valid.blocks.numberedRows.lastBlockId_cases with
      ⟨empty, -⟩ | ⟨last, -, greatest, lastEq⟩
    · obtain ⟨other, otherMem, -⟩ := stored
      simp [empty] at otherMem
    · have below := greatest number stored
      rw [show Db.gateNumber world.shared.store = last from lastEq] at beyond
      omega
  · exact .inr toCome

/-- From every state that the indexer reaches, in every run whose restarts all
find recoverable tables, it can work everything off by its own moves. -/
theorem indexer_works_off (chainFormed : chain.WellFormed platform)
    (complete : ∀ number, ∃ transactions, (chain number).json.find? "transactions" =
      some transactions) {start : Start} {world : World}
    (reached : IndexerReaches platform chain (Recoverable chain) (fun _ => True) start world) :
    ∃ later, WorksOn platform chain world later ∧ WorkedOff chain later := by
  have fromLoops (pending : Nat) (world : World)
      (reached : IndexerReaches platform chain (Recoverable chain) (fun _ => True) start world)
      (loops : ∀ thread ∈ world.threads, BetweenPasses thread)
      (count : (world.shared.store .blocksProcessing).rows.length = pending) :
      ∃ later, WorksOn platform chain world later ∧ WorkedOff chain later := by
    induction pending using Nat.strong_induction_on generalizing world with
    | _ pending ih =>
        obtain ⟨resting, rested, rests, same⟩ := exists_rests chainFormed reached loops
        have restingReached := rested.reaches reached
        have inOrder := inOrder_of_reaches chainFormed restingReached
        rcases blocksProcessing_cases inOrder.safe.safe.valid complete with fewer | forward
        · obtain ⟨before, after, split⟩ :=
            List.append_of_mem (inOrder.exists_loops rests.loops).1
          have passed : WorksOn platform chain
              ⟨resting.shared, before ++ Indexer.blocksThread :: after⟩ _ :=
            .finish before after Indexer.blocksThread resting.shared
          have ran : Indexer.blocksThread.program.run Process.exec resting.shared =
              (.blocks, (Db.blocksProcessing.run Process.exec resting.shared).2) :=
            Program.run_bind _ _ _ _
          rw [ran] at passed
          simp only [Indexer.resume, List.append_assoc, List.singleton_append] at passed
          rw [← split] at passed
          have works : WorksOn platform chain world
              ⟨(Db.blocksProcessing.run Process.exec resting.shared).2, resting.threads⟩ :=
            rested.trans passed
          rw [same, count] at fewer
          obtain ⟨later, further, workedOff⟩ :=
            ih _ fewer _ (works.reaches reached) rests.loops rfl
          exact ⟨later, works.trans further, workedOff⟩
        · exact ⟨resting, rested, rests.workedOff inOrder forward⟩
  obtain ⟨shared, threads⟩ := world
  obtain ⟨between, works, loops⟩ := exists_betweenPasses [] threads (by simp) shared
  obtain ⟨later, further, workedOff⟩ := fromLoops _ between (works.reaches reached) loops rfl
  exact ⟨later, works.trans further, workedOff⟩

/-- Two blocks are being stored while the jobs of the first wait. -/
theorem indexer_works_off_midway :
    ∃ world later, IndexerReaches samplePlatform sampleChain (Recoverable sampleChain)
        (fun _ => True) ⟨0, 0⟩ world ∧ world.shared.waiting ≠ [] ∧
      WorksOn samplePlatform sampleChain world later ∧ WorkedOff sampleChain later := by
  obtain ⟨world, reached, waiting⟩ := Reaches.exists_of_runMoves
    (Indexer.step samplePlatform sampleChain)
    (Indexer.allowed (fun _ => False) (fun _ => True)) (Indexer.firstBoot ⟨0, 0⟩)
    ((catchUp 0 1).take 29) (fun world => world.shared.waiting ≠ []) (by decide +kernel)
  have recovered : IndexerReaches samplePlatform sampleChain (Recoverable sampleChain)
      (fun _ => True) ⟨0, 0⟩ world := IndexerReaches.of_unrestarted reached
  obtain ⟨later, works, workedOff⟩ := indexer_works_off sampleChain_wellFormed
    (fun number => ⟨.arr [transfer], by
      simp [sampleChain, Json.find?_ofMembers, Json.member?_setMember]⟩) recovered
  exact ⟨world, later, recovered, waiting, works, workedOff⟩

end MileExplorer
