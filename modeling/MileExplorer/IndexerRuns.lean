import MileExplorer.BlocksThread
import MileExplorer.FetcherThreads
import MileExplorer.Startup
import MileExplorer.TransactionsThread
import MileExplorer.WorkerThread

/-!
# Runs of the indexer

Every move of the indexer keeps the discipline of its threads.  A restart
keeps it on tables from which the transactions of the stored blocks can be
recovered.
-/

namespace MileExplorer

variable {platform : Platform} {chain : Chain}

/-- The threads keep their contracts and, once the migration is over, the
transactions of no stored block are lost. -/
structure WorldSafe (platform : Platform) (chain : Chain) (world : World) : Prop where
  staffed : Staffed world
  safe : world.Safe Process.exec (indexing platform chain) (indexingPost chain)
  intact : ¬ Booting world → world.shared.Intact chain

/-- What a move leaves: the tables have grown, or the migration was under way
and has not touched the blocks. -/
def Progresses (chain : Chain) (world next : World) : Prop :=
  (¬ Booting next ∧ Grows chain world.shared next.shared) ∨
    (Booting world ∧ next.shared.store .blocks = world.shared.store .blocks)

theorem indexingPost_stable (role : Role) (exit : Exit) (before after : Process)
    (interference : (indexing platform chain).rely role before after)
    (post : indexingPost chain role exit before) : indexingPost chain role exit after := by
  refine ⟨post.1, fun initialized => ?_⟩
  subst initialized
  cases role with
  | migrating =>
      obtain rfl : after = before := interference
      exact post.2 rfl
  | _ => exact post.1.elim

/-- Every role but the migration relies on growth, the `blocks_processing`
loop also on the block tables, the start of the fetcher on its state. -/
theorem rely_of_grows {before after : Process} (grows : Grows chain before after)
    (held : BlocksHeld before after) (unstarted : StillUnstarted before after) {role : Role}
    (running : role ≠ .migrating) :
    (indexing platform chain).rely role before after := by
  cases role with
  | migrating => exact absurd rfl running
  | blocks => exact ⟨grows, held⟩
  | starter => exact ⟨grows, unstarted⟩
  | _ => exact grows

theorem grows_of_guarantee {before after : Process} {role : Role} (running : role ≠ .migrating)
    (guaranteed : (indexing platform chain).guarantee role before after) :
    Grows chain before after := by
  cases role with
  | migrating => exact absurd rfl running
  | _ => exact guaranteed.1

namespace WorldSafe

variable {world next : World}

/-- Something happens in the queues beside the threads. -/
theorem event (safe : WorldSafe platform chain world) {shared : Process}
    (valid : Valid platform chain shared)
    (grows : Grows chain world.shared shared) (held : BlocksHeld world.shared shared)
    (unstarted : StillUnstarted world.shared shared) (running : ¬ Booting world) :
    WorldSafe platform chain { world with shared := shared } := by
  refine ⟨safe.staffed.event running shared, safe.safe.event indexingPost_stable ?_ valid, ?_⟩
  · exact fun thread member => rely_of_grows grows held unstarted
      fun migrating => running ⟨thread, member, migrating⟩
  · exact fun _ number => grows.kept number (safe.intact running number)

/-- A delivery or a worker joins. -/
theorem spawn (safe : WorldSafe platform chain world) {thread : IndexerThread}
    (regular : Regular thread) (joins : thread.role = .delivery ∨ thread.role = .worker)
    (running : ¬ Booting world)
    (holds : thread.program.Holds Process.exec
      ((indexing platform chain).contract thread.role) (indexingPost chain thread.role)
      world.shared) :
    WorldSafe platform chain { world with threads := world.threads ++ [thread] } ∧
      ¬ Booting { world with threads := world.threads ++ [thread] } := by
  obtain ⟨staffed, stillRunning⟩ := safe.staffed.spawn running regular joins
  exact ⟨⟨staffed, safe.safe.spawn holds, fun _ => safe.intact running⟩, stillRunning⟩

/-- The threads that follow on one that has ended keep the discipline. -/
theorem resumed_holds {process : Process} {role : Role} {exit : Exit}
    (post : indexingPost chain role exit process) :
    ∀ thread ∈ Indexer.resume exit, thread.program.Holds Process.exec
      ((indexing platform chain).contract thread.role) (indexingPost chain thread.role)
      process := by
  have loops (prevBid : Nat) : (Indexer.transactionsThread prevBid).program.Holds Process.exec
      ((indexing platform chain).contract .transactions)
      (indexingPost chain .transactions) process :=
    (Db.transactionsProcessing_indexed prevBid).bind fun _ _ _ =>
      ⟨trivial, fun absurd => nomatch absurd⟩
  intro thread member
  cases exit with
  | ended => simp [Indexer.resume] at member
  | initialized =>
      obtain ⟨unstarted, -⟩ := post.2 rfl
      simp only [Indexer.resume, List.mem_cons, List.not_mem_nil, or_false] at member
      rcases member with rfl | rfl | rfl
      · exact blocksThread_holds
      · exact loops 0
      · exact starterThread_holds unstarted
  | blocks =>
      obtain rfl : thread = Indexer.blocksThread := by simpa [Indexer.resume] using member
      exact blocksThread_holds
  | transactions prevBid =>
      obtain rfl : thread = Indexer.transactionsThread prevBid := by
        simpa [Indexer.resume] using member
      exact loops prevBid

/-- A step of a thread. -/
theorem advance (safe : WorldSafe platform chain world) {position : Nat}
    (moved : world.advance Process.exec Indexer.resume position = some next) :
    WorldSafe platform chain next ∧ Progresses chain world next := by
  obtain ⟨nextSafe, guarantees⟩ := safe.safe.advance indexingPost_stable
    (List.pairwise_map.mp (safe.staffed.besides.imp Role.besides.compatible))
    (fun _ _ _ _ _ => trivial) (fun role exit post => resumed_holds post) moved
  have staffed := safe.staffed.advance moved
  obtain ⟨thread, member, found, -, ⟨role, running, nextRunning⟩ | ⟨role, booting, nextBooting⟩ |
    ⟨role, isDone, booting, nextRunning, same⟩⟩ := safe.staffed.advance_cases moved
  · have grows := grows_of_guarantee role (guarantees thread found)
    refine ⟨⟨staffed, nextSafe, fun _ number => ?_⟩, .inl ⟨nextRunning, grows⟩⟩
    exact grows.kept number (safe.intact running number)
  · have guaranteed := guarantees thread found
    rw [role] at guaranteed
    exact ⟨⟨staffed, nextSafe, fun nextRunning => absurd nextBooting nextRunning⟩,
      .inr ⟨booting, guaranteed.2⟩⟩
  · have holds := safe.safe.holds thread member
    rw [isDone] at holds
    refine ⟨⟨staffed, nextSafe, fun _ => ?_⟩, .inr ⟨booting, by rw [same]⟩⟩
    rw [same]
    exact (holds.2 rfl).2

/-! ### The other moves -/

theorem fetch (safe : WorldSafe platform chain world) {first last : Nat}
    (firstEq : world.shared.fetcher.first = some first) (below : first < last) :
    let next : World := { world with shared := Indexer.fetch first last world.shared }
    WorldSafe platform chain next ∧ Progresses chain world next := by
  intro next
  have running := safe.staffed.not_booting_of_started (by simp [firstEq])
  have grows : Grows chain world.shared next.shared := by
    refine .of_fetcher rfl rfl rfl (fun _ => rfl) fun number _ kept => ?_
    rcases kept with secured | pending | fetching | delivering | ⟨unstarted, -⟩ | ⟨begins, -⟩
    · exact .inl secured
    · exact .inr (.inl pending)
    · exact .inr (.inr (.inl (List.mem_append_left _ fetching)))
    · exact .inr (.inr (.inr (.inl delivering)))
    · simp [firstEq] at unstarted
    · obtain rfl : first = number := Option.some.inj (firstEq.symm.trans begins)
      refine .inr (.inr (.inl (List.mem_append_right _ ?_)))
      exact List.mem_range'_1.mpr ⟨le_rfl, by omega⟩
  have valid : Valid platform chain next.shared :=
    { safe.safe.valid with unstarted := fun absurd => nomatch absurd }
  exact ⟨safe.event valid grows ⟨rfl, fun _ has => has⟩
    (fun unstarted => by simp [firstEq] at unstarted) running, .inl ⟨running, grows⟩⟩

theorem request (safe : WorldSafe platform chain world) (number : Nat)
    (started : world.shared.fetcher.first.isSome) :
    let next : World := { world with shared := Indexer.request number world.shared }
    WorldSafe platform chain next ∧ Progresses chain world next := by
  intro next
  have running := safe.staffed.not_booting_of_started started
  have grows : Grows chain world.shared next.shared := by
    refine .of_fetcher rfl rfl rfl (fun has => has) fun other _ kept => ?_
    rcases kept with secured | pending | fetching | delivering | awaited
    · exact .inl secured
    · exact .inr (.inl pending)
    · exact .inr (.inr (.inl (List.mem_append_left _ fetching)))
    · exact .inr (.inr (.inr (.inl delivering)))
    · exact .inr (.inr (.inr (.inr awaited)))
  have valid : Valid platform chain next.shared :=
    { safe.safe.valid with
      unstarted := fun (unstarted : world.shared.fetcher.first = none) => by
        simp [unstarted] at started }
  exact ⟨safe.event valid grows ⟨rfl, fun _ has => has⟩ (fun has => has) running,
    .inl ⟨running, grows⟩⟩

theorem deliver (safe : WorldSafe platform chain world) {number : Nat} (now : Int)
    (asked : number ∈ world.shared.fetcher.fetching) :
    let next : World := ⟨Indexer.deliver number world.shared, world.threads ++
      [Indexer.deliveryThread platform (chain number).json number now]⟩
    WorldSafe platform chain next ∧ Progresses chain world next := by
  intro next
  have started : world.shared.fetcher.first.isSome := by
    cases firstEq : world.shared.fetcher.first with
    | some first => rfl
    | none => simp [(safe.safe.valid.unstarted firstEq).1] at asked
  have running := safe.staffed.not_booting_of_started started
  have grows : Grows chain world.shared next.shared := by
    refine .of_fetcher rfl rfl rfl (fun has => has) fun other _ kept => ?_
    rcases kept with secured | pending | fetching | delivering | awaited
    · exact .inl secured
    · exact .inr (.inl pending)
    · by_cases same : other = number
      · exact .inr (.inr (.inr (.inl (by simp [next, Indexer.deliver, same]))))
      · exact .inr (.inr (.inl ((List.mem_erase_of_ne same).mpr fetching)))
    · exact .inr (.inr (.inr (.inl (List.mem_append_left _ delivering))))
    · exact .inr (.inr (.inr (.inr awaited)))
  have valid : Valid platform chain next.shared :=
    { safe.safe.valid with
      unstarted := fun (unstarted : world.shared.fetcher.first = none) => by
        simp [unstarted] at started }
  have moved := safe.event valid grows ⟨rfl, fun _ has => has⟩ (fun has => has) running
  obtain ⟨nextSafe, nextRunning⟩ :=
    moved.spawn (Indexer.deliveryThread_regular platform _ number now) (.inl rfl) running
      (deliveryThread_holds number now started)
  exact ⟨nextSafe, .inl ⟨nextRunning, grows⟩⟩

theorem take (safe : WorldSafe platform chain world)
    (chainFormed : chain.WellFormed platform) {position : Nat} {job : Job}
    (found : world.shared.waiting[position]? = some job) :
    let next : World := ⟨Indexer.take position job world.shared,
      world.threads ++ [Indexer.workerThread platform job]⟩
    WorldSafe platform chain next ∧ Progresses chain world next := by
  intro next
  obtain ⟨inside, jobEq⟩ := List.getElem?_eq_some_iff.mp found
  have running := safe.staffed.not_booting_of_waiting found
  have sameJobs (other : Job) : other ∈ next.shared.waiting ++ next.shared.running ↔
      other ∈ world.shared.waiting ++ world.shared.running := by
    have split : other ∈ _ :: _ ↔ other ∈ world.shared.waiting :=
      (List.getElem_cons_eraseIdx_perm inside).mem_iff
    rw [jobEq, List.mem_cons] at split
    simp only [next, Indexer.take, List.mem_append, List.mem_singleton, ← split]
    tauto
  have grows : Grows chain world.shared next.shared := by
    refine .of_stream rfl rfl rfl (fun _ has => has) (fun _ _ _ has => has) fun number => ?_
    exact Or.imp_left fun ⟨transactions, time, queued⟩ =>
      ⟨transactions, time, (sameJobs _).mpr queued⟩
  have valid : Valid platform chain next.shared :=
    { safe.safe.valid with
      jobs := fun transactions number time member =>
        safe.safe.valid.jobs transactions number time ((sameJobs _).mp member) }
  have moved := safe.event valid grows ⟨rfl, fun _ has => has⟩ (fun has => has) running
  have taken : job ∈ next.shared.waiting ++ next.shared.running :=
    List.mem_append_right _ (by simp [next, Indexer.take])
  obtain ⟨nextSafe, nextRunning⟩ := moved.spawn (Indexer.workerThread_regular platform job)
    (.inr rfl) running (workerThread_holds chainFormed valid taken)
  exact ⟨nextSafe, .inl ⟨nextRunning, grows⟩⟩

end WorldSafe

end MileExplorer
