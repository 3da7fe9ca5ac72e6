import MileExplorer.Conservation

/-!
# Transactions across restarts

When the process is killed, the queued jobs are gone and the fetcher begins
again at the last stored block.  On tables that can be recovered this loses
nothing: once everything is worked off, the transactions of all stored blocks
are stored.  The jobs of earlier blocks are not queued again.
-/

namespace MileExplorer

open Indexer (Move)

variable {platform : Platform} {chain : Chain}

/-- The fetcher has resumed, and nothing is queued or pending. -/
def Quiescent (process : Process) : Prop :=
  process.fetcher.first.isSome = true ∧ process.fetcher.resumed = true ∧
    process.fetcher.fetching = [] ∧ process.fetcher.delivering = [] ∧
    process.waiting = [] ∧ process.running = [] ∧
    (process.store .blocksProcessing).rows = [] ∧
    (process.store .transactionsProcessing).rows = []

instance : DecidablePred Quiescent := fun _ => inferInstanceAs (Decidable (_ ∧ _))

theorem Quiescent.stored {process : Process} (quiet : Quiescent process) {number : Nat}
    (kept : process.Kept chain number) :
    ∀ id ∈ chain.ids number, (process.store .transactions).Has (.str id) := by
  obtain ⟨started, resumed, noFetching, noDelivering, noWaiting, noRunning, noBlocks, noRows⟩ :=
    quiet
  intro id member
  rcases kept with (⟨_, _, queued⟩ | covered) | ⟨row, pending, -⟩ | fetching | delivering |
    ⟨unstarted, -⟩ | ⟨-, waits⟩
  · simp [noWaiting, noRunning] at queued
  · rcases covered id member with has | ⟨row, pending, -⟩
    · exact has
    · simp [noRows] at pending
  · simp [noBlocks] at pending
  · simp [noFetching] at fetching
  · simp [noDelivering] at delivering
  · simp [unstarted] at started
  · simp [resumed] at waits

/-- In every run whose restarts all find recoverable tables: whenever nothing
is queued or pending, every id of a stored block is stored. -/
theorem transactions_survive_restarts (chainFormed : chain.WellFormed platform) {start : Start}
    {world : World}
    (reached : IndexerReaches platform chain (Recoverable chain) (fun _ => True) start world)
    (quiet : Quiescent world.shared) :
    ∀ row ∈ (world.shared.store .blocks).rows, ∀ id, YieldedBy row id →
      (world.shared.store .transactions).Has (.str id) := by
  have safe := indexer_safe chainFormed (fun _ recoverable => recoverable) reached
  have running := safe.staffed.not_booting_of_started quiet.1
  intro row member id yielded
  obtain ⟨number, rowOf⟩ := safe.safe.valid.blocks row member
  have stored : world.shared.Stored number :=
    safe.safe.valid.blocks.hasBlock_iff.mpr ⟨row, member, rowOf⟩
  exact quiet.stored (safe.intact running number stored) id (rowOf.yieldedBy_iff.mp yielded)

/-- From its start the indexer fetches and stores two blocks and works on
their jobs and pending rows. -/
def catchUp (first second : Nat) : List Indexer.Move :=
  List.replicate 7 (Move.advance 0) ++ List.replicate 3 (Move.advance 2) ++
    [Move.fetch second, Move.deliver first 5] ++ List.replicate 4 (Move.advance 2) ++
    [Move.deliver second 5] ++ List.replicate 4 (Move.advance 2) ++
    List.replicate 14 (Move.advance 0) ++
    List.replicate 4 (Move.work 0) ++ List.replicate 19 (Move.advance 2) ++
    List.replicate 15 (Move.advance 1)

/-- A single stored block is the one with which the fetcher begins again. -/
theorem recoverable_of_single {store : Store} {number : Nat}
    (stored : (store .blocks).rows.map docId = [.str (toString number)])
    (noPending : (store .blocksProcessing).rows = []) : Recoverable chain store := by
  have only (other : Nat) : HasBlock (store .blocks) other ↔ other = number := by
    have listed : HasBlock (store .blocks) other ↔
        .str (toString other) ∈ (store .blocks).rows.map docId := List.mem_map.symm
    rw [listed, stored, List.mem_singleton, Json.str.injEq]
    exact ⟨toString_injective, congrArg _⟩
  intro other has
  refine .inr (.inr ⟨has, fun another alsoStored => ?_, ?_⟩)
  · rw [(only other).mp has, (only another).mp alsoStored]
  · rintro another ⟨row, member, -⟩
    have absent : row ∈ (store .blocksProcessing).rows := member
    simp [noPending] at absent

/-- Block 0 is stored and the process killed before its jobs are run. -/
theorem transactions_survive_restarts_once :
    ∃ world, IndexerReaches samplePlatform sampleChain (Recoverable sampleChain) (fun _ => True)
        ⟨0, 0⟩ world ∧ Quiescent world.shared ∧
      (world.shared.store .blocks).rows.length = 2 ∧
      ∀ row ∈ (world.shared.store .blocks).rows, ∀ id, YieldedBy row id →
        (world.shared.store .transactions).Has (.str id) := by
  obtain ⟨world, reached, quiet, two⟩ :=
    Reaches.exists_of_runMoves (Indexer.step samplePlatform sampleChain)
      (Indexer.allowed (fun store => (store .blocks).rows.map docId = [.str (toString 0)] ∧
        (store .blocksProcessing).rows = []) (fun _ => True)) (Indexer.firstBoot ⟨0, 0⟩)
      ((catchUp 0 1).take 16 ++ List.replicate 8 (.advance 0) ++ .restart ⟨0, 0⟩ :: catchUp 0 1)
      (fun world => Quiescent world.shared ∧ (world.shared.store .blocks).rows.length = 2)
      (by decide +kernel)
  have recovered : IndexerReaches samplePlatform sampleChain (Recoverable sampleChain)
      (fun _ => True) ⟨0, 0⟩ world := by
    refine reached.mono fun current move permitted => ?_
    cases move with
    | restart start => exact recoverable_of_single permitted.1 permitted.2
    | advance position => exact fun _ => trivial
    | _ => trivial
  exact ⟨world, recovered, quiet, two,
    transactions_survive_restarts sampleChain_wellFormed recovered quiet⟩

/-- Blocks 0 and 1 are stored and the process killed before their jobs are
run.  The fetcher begins again at block 1, and block 0 stays without its
transaction. -/
theorem transactions_lost_by_restart :
    ∃ world, IndexerReaches samplePlatform sampleChain (fun _ => True) (fun _ => True) ⟨0, 0⟩
        world ∧ Quiescent world.shared ∧
      ∃ row ∈ (world.shared.store .blocks).rows, ∃ id, YieldedBy row id ∧
        ¬ (world.shared.store .transactions).Has (.str id) := by
  obtain ⟨world, reached, quiet, row, member, listed, bidEq, lost⟩ :=
    Reaches.exists_of_runMoves (Indexer.step samplePlatform sampleChain)
      (Indexer.allowed (fun _ => True) (fun _ => True)) (Indexer.firstBoot ⟨0, 0⟩)
      ((catchUp 0 1).take 35 ++ .restart ⟨0, 0⟩ :: catchUp 1 2)
      (fun world => Quiescent world.shared ∧ ∃ row ∈ (world.shared.store .blocks).rows,
        row.find? "transactions" = some (.arr [transfer]) ∧
        row.find? "block-id" = some (.num 0) ∧
        ¬ (world.shared.store .transactions).Has (.str "alice:0:0")) (by decide +kernel)
  refine ⟨world, reached, quiet, row, member, "alice:0:0", ?_, lost⟩
  exact ⟨[transfer], 0, listed, bidEq, transfer, by simp, by decide⟩

end MileExplorer
