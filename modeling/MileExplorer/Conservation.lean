import MileExplorer.IndexerRuns

/-!
# No transaction is lost or invented

Along every run of the indexer without restarts, each id of a stored block is
stored, pending, or still to come from a queued stream job of the block, and
each stored transaction belongs to a delivered block.
-/

namespace MileExplorer

open Indexer (Move)

variable {platform : Platform} {chain : Chain}

namespace WorldSafe

variable {world next : World}

theorem boot (start : Start) {store : Store}
    (valid : Valid platform chain (Process.idle store))
    (recoverable : Recoverable chain store) :
    WorldSafe platform chain (Indexer.boot start store) := by
  have booting : Booting (Indexer.boot start store) :=
    ⟨Indexer.migratingThread start, List.mem_singleton_self _, rfl⟩
  refine ⟨.boot start store, ⟨valid, fun thread member => ?_⟩,
    fun running => absurd booting running⟩
  obtain rfl := List.mem_singleton.mp member
  exact migratingThread_holds start recoverable

theorem firstBoot (start : Start) :
    WorldSafe platform chain (Indexer.firstBoot start) := by
  refine boot start ⟨?_, ?_, ?_, ?_, ?_, fun _ => ⟨rfl, rfl⟩⟩ Recoverable.empty
  all_goals simp [BlockRows, Process.idle, Store.empty]

/-- One move.  A restart needs tables that can be recovered; any other move
keeps what is covered and secured. -/
theorem step (safe : WorldSafe platform chain world)
    (chainFormed : chain.WellFormed platform) {restarts snapshots : Store → Prop}
    {move : Indexer.Move} (recoverable : ∀ store, restarts store → Recoverable chain store)
    (permitted : Indexer.allowed restarts snapshots world move)
    (moved : Indexer.step platform chain world move = some next) :
    WorldSafe platform chain next ∧
      ((∃ start, move = .restart start) ∨ Progresses chain world next) := by
  obtain ⟨first, last, firstEq, below, rfl⟩ | ⟨number, started, rfl⟩ | ⟨number, now, asked, rfl⟩ |
    ⟨position, job, found, rfl⟩ | ⟨position, -, advanced⟩ | ⟨start, rfl, rfl⟩ :=
      Indexer.step_cases moved
  · exact (safe.fetch firstEq below).imp_right .inr
  · exact (safe.request number started).imp_right .inr
  · exact (safe.deliver now asked).imp_right .inr
  · exact (safe.take chainFormed found).imp_right .inr
  · exact (safe.advance advanced).imp_right .inr
  · exact ⟨boot start safe.safe.valid.restart (recoverable _ permitted), .inl ⟨start, rfl⟩⟩

end WorldSafe

theorem indexer_safe (chainFormed : chain.WellFormed platform) {start : Start} {world : World}
    {restarts snapshots : Store → Prop}
    (recoverable : ∀ store, restarts store → Recoverable chain store)
    (reached : IndexerReaches platform chain restarts snapshots start world) :
    WorldSafe platform chain world :=
  reached.invariant (WorldSafe platform chain) (.firstBoot start)
    fun _ _ _ safe permitted moved =>
      (safe.step chainFormed recoverable permitted moved).1

/-! ## Runs without restarts -/

/-- Stored blocks are secured, and there are none before the loops start. -/
def AllSecured (chain : Chain) (world : World) : Prop :=
  (∀ number, world.shared.Stored number → world.shared.Secured chain number) ∧
    (Booting world → (world.shared.store .blocks).rows = [])

theorem indexer_secured (chainFormed : chain.WellFormed platform) {start : Start}
    {world : World} {snapshots : Store → Prop}
    (reached : IndexerReaches platform chain (fun _ => False) snapshots start world) :
    AllSecured chain world := by
  have noRestart : ∀ store, False → Recoverable chain store := fun _ => False.elim
  refine (reached.invariant (fun world => WorldSafe platform chain world ∧
    AllSecured chain world) ⟨.firstBoot start, ?_, fun _ => rfl⟩ ?_).2
  · rintro number ⟨row, member, -⟩
    simp [Indexer.firstBoot, Indexer.boot, Process.idle, Store.empty] at member
  · rintro current move next ⟨safe, secured, unfilled⟩ permitted moved
    obtain ⟨nextSafe, restarted | progress⟩ :=
      safe.step chainFormed noRestart permitted moved
    · obtain ⟨again, rfl⟩ := restarted
      exact permitted.elim
    · refine ⟨nextSafe, ?_⟩
      rcases progress with ⟨running, grows⟩ | ⟨booting, same⟩
      · refine ⟨fun number stored => ?_, fun booting => absurd booting running⟩
        rcases grows.fresh number stored with old | isSecured
        · exact grows.secured number (secured number old)
        · exact isSecured
      · have empty : (next.shared.store .blocks).rows = [] := by rw [same, unfilled booting]
        refine ⟨?_, fun _ => empty⟩
        rintro number ⟨row, member, -⟩
        simp [empty] at member

/-- `find_public_keys` yields the id for a transaction of the block in the
row. -/
def YieldedBy (row : Json) (id : String) : Prop :=
  ∃ (list : List Json) (number : Nat), row.find? "transactions" = some (.arr list) ∧
    row.find? "block-id" = some (.num number) ∧ ∃ trx ∈ list, id ∈ yields number trx

def IsStreamJobOf (row : Json) (job : Job) : Prop :=
  ∃ (transactions : Json) (number : Nat) (time : Int), job = .stream transactions number time ∧
    row.find? "transactions" = some transactions ∧ row.find? "block-id" = some (.num number)

theorem BlockRowOf.yieldedBy_iff {number : Nat} {row : Json} {id : String}
    (rowOf : BlockRowOf platform chain number row) :
    YieldedBy row id ↔ id ∈ chain.ids number := by
  obtain ⟨-, -, bidEq, -, transactionsEq⟩ := rowOf.members
  constructor
  · rintro ⟨list, other, listed, otherEq, trx, member, yielded⟩
    obtain rfl : number = other := by
      rw [bidEq] at otherEq
      simpa using otherEq
    rw [Chain.ids, ← transactionsEq, listed]
    exact List.mem_flatMap.mpr ⟨trx, member, yielded⟩
  · intro member
    unfold Chain.ids blockIds at member
    split at member
    · rename_i list listed
      obtain ⟨trx, trxMem, yielded⟩ := List.mem_flatMap.mp member
      exact ⟨list, number, transactionsEq.trans listed, bidEq, trx, trxMem, yielded⟩
    · simp at member

/-- For every run without restarts, any interleaving of deliveries, passes and
jobs: an id of a stored block is stored, pending, or to come from a queued
stream job of the block; a stored id is one of a delivered block; and once
nothing is queued or pending, the stored ids are those of the stored blocks. -/
theorem transactions_conserved (chainFormed : chain.WellFormed platform) {start : Start}
    {world : World}
    (reached : IndexerReaches platform chain (fun _ => False) (fun _ => True) start world) :
    (∀ row ∈ (world.shared.store .blocks).rows, ∀ id, YieldedBy row id →
      (world.shared.store .transactions).Has (.str id) ∨
      (world.shared.store .transactionsProcessing).Has (.str id) ∨
      ∃ job ∈ world.shared.waiting ++ world.shared.running, IsStreamJobOf row job) ∧
    (∀ transaction ∈ (world.shared.store .transactions).rows, ∃ id,
      transaction.find? "id" = some (.str id) ∧
      ∃ row ∈ (world.shared.store .blocks).rows ++ (world.shared.store .blocksProcessing).rows,
        YieldedBy row id) ∧
    (world.shared.waiting = [] → world.shared.running = [] →
      (world.shared.store .transactionsProcessing).rows = [] →
      (world.shared.store .blocksProcessing).rows = [] →
      ∀ id, (world.shared.store .transactions).Has (.str id) ↔
        ∃ row ∈ (world.shared.store .blocks).rows, YieldedBy row id) := by
  have valid := (indexer_safe chainFormed (fun _ => False.elim) reached).safe.valid
  obtain ⟨secured, -⟩ := indexer_secured chainFormed reached
  have accounted : ∀ row ∈ (world.shared.store .blocks).rows, ∀ id, YieldedBy row id →
      (world.shared.store .transactions).Has (.str id) ∨
      (world.shared.store .transactionsProcessing).Has (.str id) ∨
      ∃ job ∈ world.shared.waiting ++ world.shared.running, IsStreamJobOf row job := by
    intro row member id yielded
    obtain ⟨number, rowOf⟩ := valid.blocks row member
    have stored : world.shared.Stored number :=
      valid.blocks.hasBlock_iff.mpr ⟨row, member, rowOf⟩
    rcases secured number stored with ⟨transactions, time, queued⟩ | covered
    · obtain ⟨-, -, list, rfl, listed⟩ := valid.jobs transactions number time queued
      obtain ⟨-, -, bidEq, -, transactionsEq⟩ := rowOf.members
      exact .inr (.inr ⟨_, queued, .arr list, number, time, rfl,
        transactionsEq.trans listed, bidEq⟩)
    · rcases covered id (rowOf.yieldedBy_iff.mp yielded) with has | pending
      · exact .inl has
      · exact .inr (.inl pending)
  have delivered : ∀ transaction ∈ (world.shared.store .transactions).rows, ∃ id,
      transaction.find? "id" = some (.str id) ∧
      ∃ row ∈ (world.shared.store .blocks).rows ++ (world.shared.store .blocksProcessing).rows,
        YieldedBy row id := by
    intro transaction member
    obtain ⟨number, id, idMem, known, idEq⟩ := valid.stored transaction member
    refine ⟨id, find?_id_of_docId idEq, ?_⟩
    rcases known with stored | pending
    · obtain ⟨row, rowMem, rowOf⟩ := valid.blocks.hasBlock_iff.mp stored
      exact ⟨row, List.mem_append_left _ rowMem, rowOf.yieldedBy_iff.mpr idMem⟩
    · obtain ⟨row, rowMem, rowOf⟩ := valid.pendingBlocks.hasBlock_iff.mp pending
      exact ⟨row, List.mem_append_right _ rowMem, rowOf.yieldedBy_iff.mpr idMem⟩
  refine ⟨accounted, delivered, fun noWaiting noRunning noRows noBlocks id => ⟨?_, ?_⟩⟩
  · rintro ⟨transaction, member, idEq⟩
    obtain ⟨other, otherEq, row, rowMem, yielded⟩ := delivered transaction member
    obtain rfl : other = id := by
      rw [docId_of_find? otherEq] at idEq
      exact Json.str.inj idEq
    rw [noBlocks, List.append_nil] at rowMem
    exact ⟨row, rowMem, yielded⟩
  · rintro ⟨row, member, yielded⟩
    rcases accounted row member id yielded with has | ⟨pendingRow, pendingMem, -⟩ | ⟨job, queued, -⟩
    · exact has
    · simp [noRows] at pendingMem
    · simp [noWaiting, noRunning] at queued

/-- The indexer starts, block 0 is delivered and stored, both its jobs are
worked on, and the transaction is stored. -/
def oneBlockRun : List Indexer.Move :=
  List.replicate 7 (Move.advance 0) ++ List.replicate 3 (Move.advance 2) ++
    [Move.fetch 1, Move.deliver 0 5] ++ List.replicate 4 (Move.advance 2) ++
    List.replicate 8 (Move.advance 0) ++ [Move.work 0, Move.work 0] ++
    List.replicate 4 (Move.advance 3) ++ List.replicate 5 (Move.advance 2) ++
    List.replicate 9 (Move.advance 1)

theorem transactions_conserved_one_block :
    ∃ world, IndexerReaches samplePlatform sampleChain (fun _ => False) (fun _ => True) ⟨0, 0⟩
        world ∧
      (world.shared.store .transactions).rows.length = 1 ∧
      ∀ id, (world.shared.store .transactions).Has (.str id) ↔
        ∃ row ∈ (world.shared.store .blocks).rows, YieldedBy row id := by
  obtain ⟨world, reached, one, noWaiting, noRunning, noRows, noBlocks⟩ :=
    Reaches.exists_of_runMoves (Indexer.step samplePlatform sampleChain)
      (Indexer.allowed (fun _ => False) (fun _ => True)) (Indexer.firstBoot ⟨0, 0⟩) oneBlockRun
      (fun world => (world.shared.store .transactions).rows.length = 1 ∧
        world.shared.waiting = [] ∧ world.shared.running = [] ∧
        (world.shared.store .transactionsProcessing).rows = [] ∧
        (world.shared.store .blocksProcessing).rows = []) (by decide +kernel)
  exact ⟨world, reached, one, (transactions_conserved sampleChain_wellFormed reached).2.2
    noWaiting noRunning noRows noBlocks⟩

end MileExplorer
