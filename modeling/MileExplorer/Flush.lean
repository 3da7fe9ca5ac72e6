import MileExplorer.BlockRows
import MileExplorer.IndexerRoles

/-!
# The flush at the start of the indexer

The last step of `db::migration` removes pending rows from the smallest pending
block on.  It passes the last processed block as a length, so the range ends
beyond that block, and it does not look whether a row is stored.
-/

namespace MileExplorer

open Indexer (Move)

/-! ## Pending rows carry the number of a block -/

def OfBlock (row : Json) (number : Nat) : Prop := row.find? "block-id" = some (.num number)

theorem OfBlock.set {value new : Json} {number : Nat} {key : String}
    (ofBlock : OfBlock value number) (other : key ≠ "block-id") :
    OfBlock (value.set key new) number := by
  have isObj := Json.isObject_of_find? ofBlock
  rw [OfBlock, Json.find?_set _ isObj, if_neg other]
  exact ofBlock

theorem OfBlock.erase {value : Json} {number : Nat} {key : String}
    (ofBlock : OfBlock value number) (other : key ≠ "block-id") :
    OfBlock (value.erase key) number := by
  rw [OfBlock, Json.find?_erase, if_neg other]
  exact ofBlock

/-- Rows are added to `transactions_processing` only with the number of a
block. -/
def AddsNumbered (before after : Process) : Prop :=
  ∀ row ∈ (after.store .transactionsProcessing).rows,
    row ∈ (before.store .transactionsProcessing).rows ∨ ∃ number, OfBlock row number

theorem AddsNumbered.of_writes {tables : List TableName} {before after : Process}
    (apart : .transactionsProcessing ∉ tables) (writes : Writes tables before after) :
    AddsNumbered before after := by
  intro row member
  rw [writes _ apart] at member
  exact .inl member

/-- The row of a transaction has the number of its block, whatever the
transaction looks like. -/
theorem ofBlock_of_streamRow {platform : Platform} {blockId : Nat} {time : Int} {uniqId : String}
    {trx row : Json} (built : streamRow platform blockId time uniqId trx = .ok row) :
    OfBlock row blockId := by
  obtain ⟨number, numbered, built⟩ := bind_eq_ok.mp built
  unfold stoull at numbered
  split_ifs at numbered
  obtain rfl := Except.ok.inj numbered
  obtain ⟨textual, textualEq, truncated⟩ := bind_eq_ok.mp built
  generalize headedEq : ((trx.set "id" (.str uniqId)).set "block-id" (.num blockId)).set
    "timestamp" (.num time) = headed at textualEq
  obtain ⟨text, textEq, converted⟩ := bind_eq_ok.mp textualEq
  -- Only an object or null comes through `operator[]`.
  have headedOf : OfBlock headed blockId := by
    cases trx with
    | obj members =>
        have isObj : (Json.obj members).isObject = true := rfl
        simp [← headedEq, OfBlock, isObj]
    | null =>
        rw [← headedEq]
        rfl
    | _ => simp [← headedEq, Json.set, Json.index] at textEq
  have textualOf : OfBlock textual blockId := by
    split at converted <;> obtain rfl := Except.ok.inj converted
    · exact headedOf.set (by decide)
    · exact headedOf.set (by decide)
    · exact headedOf
  have renamedOf : OfBlock (replaceKeys "transaction-name" "transaction-type" textual) blockId := by
    unfold replaceKeys
    split
    · exact textualOf
    · exact (textualOf.set (by decide)).erase (by decide)
  unfold truncateDescription at truncated
  dsimp only at truncated
  split at truncated
  · obtain rfl := Except.ok.inj truncated
    exact renamedOf
  · obtain ⟨text, -, kept⟩ := bind_eq_ok.mp truncated
    split at kept
    · obtain rfl := Except.ok.inj kept
      exact renamedOf.set (by decide)
    · simp at kept

namespace Db

theorem remove_adds (site : Site) (id : String) :
    (remove site .transactionsProcessing id).Steps Process.exec AddsNumbered :=
  ⟨fun _ _ member => .inl (KeyedTable.mem_erase.mp member).1, fun _ => trivial⟩

/-- The rows of a document or of an array of documents are added. -/
theorem insert_adds (site : Site) {data : Json}
    (document : data.isObject = true → ∃ number, OfBlock data number)
    (documents : ∀ rows, data = .arr rows → ∀ row ∈ rows, ∃ number, OfBlock row number) :
    (insert site .transactionsProcessing data).Steps Process.exec AddsNumbered := by
  refine ⟨fun process row member => ?_, fun _ => trivial⟩
  simp only [Process.exec, Process.execFaulty, Bool.false_eq_true, if_false] at member
  cases data with
  | obj members =>
      rcases KeyedTable.mem_insert.mp member with old | ⟨rfl, -⟩
      · exact .inl old
      · exact .inr (document rfl)
  | arr rows =>
      rcases KeyedTable.mem_of_mem_insertMany member with old | new
      · exact .inl old
      · exact .inr (documents rows rfl row new)
  | _ => exact .inl member

theorem adds_of_writesOnly {Result : Type} {program : Prog Result} {tables : List TableName}
    (apart : .transactionsProcessing ∉ tables)
    (steps : program.Steps Process.exec (WritesOnly tables)) :
    program.Steps Process.exec AddsNumbered :=
  steps.mono fun _ _ writes => .of_writes apart writes.1

theorem migration_adds (indexerVersion : Nat) (now : Int) :
    (migration indexerVersion now).Steps Process.exec AddsNumbered := by
  have versions {Result : Type} {program : Prog Result}
      (steps : program.Steps Process.exec (WritesOnly [.metadata])) :
      program.Steps Process.exec AddsNumbered := adds_of_writesOnly (by decide) steps
  refine (versions getVersion_steps).bind fun _ => (versions (getNumber_steps _ _)).bind fun _ =>
    (versions (removeOldVersion_steps _ (by decide))).bind fun _ =>
      (versions (upgrade_steps _ _ (by decide))).bind fun _ => ?_
  refine (versions (getNumber_steps _ _)).bind fun state =>
    (versions (getNumber_steps _ _)).bind fun processing => ?_
  dsimp only
  split_ifs
  · exact ⟨fun _ _ member => .inl (KeyedTable.mem_eraseWhere.mp member).1, fun _ => trivial⟩
  · trivial

theorem processTransactions_adds (prevBid lastCount : Nat) (items : List Json) :
    (processTransactions prevBid lastCount items).Steps Process.exec AddsNumbered := by
  have stores {Result : Type} {program : Prog Result}
      (steps : program.Steps Process.exec (WritesOnly [.transactions, .transactionsState])) :
      program.Steps Process.exec AddsNumbered := adds_of_writesOnly (by decide) steps
  induction items generalizing prevBid lastCount with
  | nil => trivial
  | cons item rest ih =>
      unfold processTransactions
      split
      · trivial
      · split
        · exact (remove_adds _ _).bind fun _ => ih _ _
        · trivial
        · refine (stores (getData_steps _ _)).bind fun row => ?_
          split_ifs
          · exact (remove_adds _ _).bind fun _ => ih _ _
          · exact (stores (insert_steps _ _ (by decide))).bind fun _ =>
              (stores (updateState_steps _ _ _ (by decide))).bind fun _ =>
                (remove_adds _ _).bind fun _ => ih _ _

theorem transactionsProcessing_adds (prevBid : Nat) :
    (transactionsProcessing prevBid).Steps Process.exec AddsNumbered := by
  have stores {Result : Type} {program : Prog Result}
      (steps : program.Steps Process.exec (WritesOnly [.transactionsState])) :
      program.Steps Process.exec AddsNumbered := adds_of_writesOnly (by decide) steps
  exact (stores (getData_steps _ _)).bind fun _ => (stores (readLastCount_steps (by decide))).bind
    fun _ => processTransactions_adds _ _ _

/-! ### The rows of a stream job -/

def GathersBlock (blockId : Nat) (result : Except Exn (List Json)) : Prop :=
  ∀ rows, result = .ok rows → ∀ row ∈ rows, OfBlock row blockId

theorem addStreamEntries_ends (platform : Platform) (blockId : Nat) (time : Int) (trx : Json)
    {output : List Json} (entries : List (String × String))
    (gathered : ∀ row ∈ output, OfBlock row blockId) :
    (addStreamEntries platform blockId time trx output entries).Ends (GathersBlock blockId) := by
  induction entries generalizing trx output with
  | nil =>
      intro rows rowsEq
      exact Except.ok.inj rowsEq ▸ gathered
  | cons entry rest ih =>
      refine Program.Ends.of_bind _ fun found => ?_
      split_ifs
      · exact ih trx gathered
      · split
        · exact fun rows absurd => nomatch absurd
        · rename_i row built
          refine ih row fun other member => ?_
          rcases List.mem_append.mp member with old | new
          · exact gathered other old
          · exact List.mem_singleton.mp new ▸ ofBlock_of_streamRow built

theorem addStreamTransactions_ends (platform : Platform) (blockId : Nat) (time : Int)
    {output : List Json} (transactions : List Json)
    (gathered : ∀ row ∈ output, OfBlock row blockId) :
    (addStreamTransactions platform blockId time output transactions).Ends
      (GathersBlock blockId) := by
  induction transactions generalizing output with
  | nil =>
      intro rows rowsEq
      exact Except.ok.inj rowsEq ▸ gathered
  | cons trx rest ih =>
      have first : (addStreamTransaction platform blockId time output trx).Ends
          (GathersBlock blockId) := by
        unfold addStreamTransaction
        split
        · exact fun rows absurd => nomatch absurd
        · exact addStreamEntries_ends _ _ _ _ _ gathered
      refine first.bind fun result resultOf => ?_
      split
      · exact fun rows absurd => nomatch absurd
      · rename_i rows
        exact ih (resultOf rows rfl)

theorem jobBody_adds (platform : Platform) (job : Job) :
    (jobBody platform job).Steps Process.exec AddsNumbered := by
  cases job with
  | wallet transactions blockId time =>
      exact adds_of_writesOnly (by decide) (walletJob_steps _ _ _)
  | stream transactions blockId time =>
      refine (adds_of_writesOnly List.not_mem_nil (addStreamTransactions_steps _ _ _ _ _)).bind_ends
        (addStreamTransactions_ends _ blockId _ _ (by simp)) fun result gathered => ?_
      split
      · trivial
      · rename_i rows
        refine insert_adds _ (fun isObj => ?_) fun others othersEq row member => ?_
        · unfold streamValue at isObj
          split_ifs at isObj <;> simp [Json.isObject] at isObj
        · unfold streamValue at othersEq
          split_ifs at othersEq
          obtain rfl := Json.arr.inj othersEq
          exact ⟨blockId, gathered _ rfl row member⟩

theorem addTransactions_adds (transactions : Json) (blockId : Nat) (time : Int) :
    (addTransactions transactions blockId time).Steps Process.exec AddsNumbered := by
  unfold addTransactions
  split_ifs
  · exact ⟨fun _ _ => .inl, fun _ => ⟨fun _ _ => .inl, fun _ => trivial⟩⟩
  · refine insert_adds _ (fun _ => ⟨blockId, ?_⟩) fun rows absurd => nomatch absurd
    simp [markerRow, OfBlock, Json.find?_ofMembers, Json.member?_setMember]

theorem processBlocks_adds (items : List Json) :
    (processBlocks items).Steps Process.exec AddsNumbered := by
  have others {Result : Type} {program : Prog Result}
      (steps : program.Steps Process.exec (WritesOnly [.blocks, .blocksProcessing])) :
      program.Steps Process.exec AddsNumbered := adds_of_writesOnly (by decide) steps
  induction items with
  | nil => trivial
  | cons item rest ih =>
      unfold processBlocks
      split
      · trivial
      · refine Program.Steps.bind ?_ fun goesOn => ?_
        · refine (others (getNumber_steps _ _)).bind fun prevBid => ?_
          split_ifs
          · trivial
          · refine (others (getData_steps _ _)).bind fun row => ?_
            split
            · trivial
            · exact (addTransactions_adds _ _ _).bind fun _ =>
                (others (storeBlock_steps _ _ _ (by decide) (by decide))).bind fun _ => trivial
        · split_ifs
          · exact ih
          · trivial

end Db

theorem adds_startable (platform : Platform) :
    Indexer.Startable platform fun thread => thread.program.Steps Process.exec AddsNumbered where
  migrating start := (Db.migration_adds _ _).bind fun _ => trivial
  blocks := Program.Steps.bind ((Db.adds_of_writesOnly List.not_mem_nil
    (Db.getData_steps _ _)).bind fun _ => Db.processBlocks_adds _) fun _ => trivial
  transactions prevBid := (Db.transactionsProcessing_adds prevBid).bind fun _ => trivial
  starter := (Db.adds_of_writesOnly List.not_mem_nil (Db.getNumber_steps _ _)).bind fun _ =>
    ⟨fun _ _ => .inl, fun _ => trivial⟩
  worker job := Program.Steps.bind ((Db.jobBody_adds platform job).bind fun _ =>
    ⟨fun _ _ => .inl, fun _ => trivial⟩) fun _ => trivial
  delivery block number now := (Db.adds_of_writesOnly (by decide)
    (Db.addBlock_steps platform _ _ _)).bind fun _ => ⟨fun _ _ => .inl, fun _ => trivial⟩
  continues _ _ _ answer steps := steps.2 answer

def PendingNumbered (store : Store) : Prop :=
  ∀ row ∈ (store .transactionsProcessing).rows, ∃ number, OfBlock row number

theorem pendingNumbered_of_reaches {platform : Platform} {chain : Chain}
    {restarts snapshots : Store → Prop} {start : Start} {world : World}
    (reached : IndexerReaches platform chain restarts snapshots start world) :
    PendingNumbered world.shared.store := by
  refine (reached.invariant (fun world => PendingNumbered world.shared.store ∧
    ∀ thread ∈ world.threads, thread.program.Steps Process.exec AddsNumbered) ⟨?_, ?_⟩ ?_).1
  · simp [PendingNumbered, Indexer.firstBoot, Indexer.boot, Process.idle, Store.empty]
  · intro thread member
    exact List.mem_singleton.mp member ▸ (adds_startable platform).migrating start
  · rintro current move next ⟨numbered, all⟩ - moved
    refine ⟨?_, (adds_startable platform).step all moved⟩
    obtain ⟨first, last, -, -, rfl⟩ | ⟨number, -, rfl⟩ | ⟨number, now, -, rfl⟩ |
      ⟨position, job, -, rfl⟩ | ⟨position, -, advanced⟩ | ⟨start, -, rfl⟩ :=
        Indexer.step_cases moved
    case inr.inr.inr.inr.inl =>
      obtain ⟨thread, before, after, threadsEq, -, sharedEq, -⟩ := Pool.advance_cases advanced
      have steps := all thread (by simp [threadsEq])
      rw [sharedEq]
      obtain ⟨role, program⟩ := thread
      cases program with
      | done exit => exact numbered
      | ask query following =>
          intro row member
          exact (steps.1 current.shared row member).elim (numbered row) fun new => new
    all_goals exact numbered

/-! ## What the flush removes -/

namespace Db

/-- `state_block_id` of the migration. -/
def stateBlockId (store : Store) : Nat := toUInt64 (getNumberOf (lastProcessedBlockId store))

/-- `processing_block_id` of the migration. -/
def firstPendingBlockId (store : Store) : Nat := toUInt64 (getNumberOf (processingBlockId store))

/-- The tables after `db::migration`. -/
def migrated (start : Start) (store : Store) : Store :=
  ((migration start.indexerVersion start.now).run Process.exec (Process.idle store)).2.store

/-- The first part of the migration only writes version rows. -/
theorem exists_versions (start : Start) (process : Process) :
    ∃ updated, Writes [.metadata] process updated ∧
      ((migration start.indexerVersion start.now).run Process.exec process).2 =
        (flush.run Process.exec updated).2 := by
  let versions : Prog Unit := do
    let _ ← getVersion
    let old ← getNumber .other (((cursor .metadata).get "version").field "current")
    removeOldVersion old
    upgrade start.indexerVersion start.now
  have steps : versions.Steps Process.exec (WritesOnly [.metadata]) :=
    getVersion_steps.bind fun _ => (getNumber_steps _ _).bind fun _ =>
      (removeOldVersion_steps _ (by decide)).bind fun _ => upgrade_steps _ _ (by decide)
  have split : migration start.indexerVersion start.now = versions >>= fun _ => flush := by
    simp only [versions, migration, Program.bind_assoc]
  refine ⟨(versions.run Process.exec process).2,
    Writes.run (steps.mono fun _ _ => And.left) process, ?_⟩
  rw [split, Program.run_bind]

theorem flush_run (process : Process) :
    (flush.run Process.exec process).2.store .transactionsProcessing =
      if stateBlockId process.store > firstPendingBlockId process.store ∧
          firstPendingBlockId process.store > 0 then
        (process.store .transactionsProcessing).eraseWhere (Cursor.between.inRange
          (firstPendingBlockId process.store) (stateBlockId process.store) "block-id")
      else process.store .transactionsProcessing := by
  change (Program.run Process.exec (if stateBlockId process.store >
      firstPendingBlockId process.store ∧ firstPendingBlockId process.store > 0 then
    .request (.write .other (removeBetweenEffect .transactionsProcessing
      (firstPendingBlockId process.store) (stateBlockId process.store) "block-id")) fun _ => ()
    else pure ()) process).2.store .transactionsProcessing = _
  split_ifs <;> rfl

theorem mem_migrated {start : Start} {store : Store} {row : Json} :
    row ∈ (migrated start store .transactionsProcessing).rows ↔
      row ∈ (store .transactionsProcessing).rows ∧ ¬ Flushes store row := by
  obtain ⟨updated, writes, runEq⟩ := exists_versions start (Process.idle store)
  have pending : updated.store .transactionsProcessing = store .transactionsProcessing :=
    writes _ (by decide)
  have state : updated.store .transactionsState = store .transactionsState :=
    writes _ (by decide)
  have stateEq : stateBlockId updated.store = stateBlockId store := by
    simp only [stateBlockId, lastProcessedBlockId, cursor, Cursor.get, Cursor.field, state]
  have firstEq : firstPendingBlockId updated.store = firstPendingBlockId store := by
    simp only [firstPendingBlockId, processingBlockId, cursor, Cursor.min, Cursor.field, pending]
  rw [migrated, runEq, flush_run, stateEq, firstEq, pending]
  split_ifs with runs
  · rw [KeyedTable.mem_eraseWhere]
    refine and_congr_right fun _ => ?_
    rw [← Bool.not_eq_true]
    exact not_congr ⟨fun inRange => ⟨runs, inRange⟩, fun flushes => flushes.2⟩
  · exact ⟨fun member => ⟨member, fun flushes => runs flushes.1⟩, fun both => both.1⟩

end Db

/-- The migration removes only rows of blocks below the state whose
transactions are stored. -/
def FlushesFinished (start : Start) (store : Store) : Prop :=
  ∀ row ∈ (store .transactionsProcessing).rows,
    row ∈ (Db.migrated start store .transactionsProcessing).rows ∨
      (∃ number, OfBlock row number ∧ number < Db.stateBlockId store) ∧
        (store .transactions).Has (docId row)

/-- If the flush runs, the pending rows in its range, which ends at the sum of
both block ids, are of blocks below the state and are stored. -/
def FlushHarmless (store : Store) : Prop :=
  let first := Db.firstPendingBlockId store
  let state := Db.stateBlockId store
  0 < first → first < state →
    ∀ row ∈ (store .transactionsProcessing).rows, ∀ number, OfBlock row number →
      Cursor.toDouble first ≤ number → number < Cursor.toDouble ((first + state) % 2 ^ 64) →
        number < state ∧ (store .transactions).Has (docId row)

/-- On tables whose pending rows belong to blocks, the migration removes only
finished rows exactly if the flush is harmless. -/
theorem flushesFinished_iff {start : Start} {store : Store} (numbered : PendingNumbered store) :
    FlushesFinished start store ↔ FlushHarmless store := by
  constructor
  · intro finished positive below row member number ofBlock fromFirst inside
    rcases finished row member with survives | ⟨⟨other, otherOf, isBelow⟩, stored⟩
    · refine absurd ⟨⟨below, positive⟩, ?_⟩ (Db.mem_migrated.mp survives).2
      exact (Cursor.inRange_iff ofBlock).mpr ⟨fromFirst, inside⟩
    · obtain rfl : other = number := by simpa using otherOf.symm.trans ofBlock
      exact ⟨isBelow, stored⟩
  · intro harmless row member
    by_cases flushed : Db.Flushes store row
    · obtain ⟨number, ofBlock⟩ := numbered row member
      obtain ⟨⟨below, positive⟩, inRange⟩ := flushed
      obtain ⟨fromFirst, inside⟩ := (Cursor.inRange_iff ofBlock).mp inRange
      obtain ⟨isBelow, stored⟩ :=
        harmless positive below row member number ofBlock fromFirst inside
      exact .inr ⟨⟨number, ofBlock, isBelow⟩, stored⟩
    · exact .inl (Db.mem_migrated.mpr ⟨member, flushed⟩)

/-- In every state that runs with restarts anywhere reach, the next start
discards only finished work exactly if the flush is harmless. -/
theorem flush_discards_finished_iff {platform : Platform} {chain : Chain} {first : Start}
    {world : World}
    (reached : IndexerReaches platform chain (fun _ => True) (fun _ => True) first world)
    (start : Start) :
    FlushesFinished start world.shared.store ↔ FlushHarmless world.shared.store :=
  flushesFinished_iff (pendingNumbered_of_reaches reached)

/-- Blocks 0 to 2 are stored, and the stream jobs of the two last ones are run
in the given order, with a pass of `transactions_processing` in between. -/
def twoJobsRun (early late : Nat) : List Indexer.Move :=
  List.replicate 7 (Move.advance 0) ++ List.replicate 3 (Move.advance 2) ++ [Move.fetch 2] ++
    (List.range 3).flatMap (fun number =>
      Move.deliver number 5 :: List.replicate 4 (Move.advance 2)) ++
    List.replicate 20 (Move.advance 0) ++ Move.work early :: List.replicate 4 (Move.advance 2) ++
    List.replicate 9 (Move.advance 1) ++ Move.work late :: List.replicate 4 (Move.advance 2)

theorem flush_discards_finished_iff_late :
    ∃ world, IndexerReaches samplePlatform sampleChain (fun _ => True) (fun _ => True) ⟨0, 0⟩
        world ∧
      (0 < Db.firstPendingBlockId world.shared.store ∧
        Db.firstPendingBlockId world.shared.store < Db.stateBlockId world.shared.store) ∧
      (FlushesFinished ⟨0, 0⟩ world.shared.store ↔ FlushHarmless world.shared.store) := by
  obtain ⟨world, reached, runs⟩ :=
    Reaches.exists_of_runMoves (Indexer.step samplePlatform sampleChain)
      (Indexer.allowed (fun _ => True) (fun _ => True)) (Indexer.firstBoot ⟨0, 0⟩)
      (twoJobsRun 5 3) (fun world => 0 < Db.firstPendingBlockId world.shared.store ∧
        Db.firstPendingBlockId world.shared.store < Db.stateBlockId world.shared.store)
      (by decide +kernel)
  exact ⟨world, reached, runs, flush_discards_finished_iff reached ⟨0, 0⟩⟩

/-- The transaction of block 2 is stored before that of block 1 is pending: the
next start removes the row of block 1, which is nowhere else. -/
theorem flush_discards_unfinished :
    ∃ world, IndexerReaches samplePlatform sampleChain (fun _ => True) (fun _ => True) ⟨0, 0⟩
      world ∧ ¬ FlushesFinished ⟨0, 0⟩ world.shared.store := by
  obtain ⟨world, reached, row, member, removed, lost⟩ :=
    Reaches.exists_of_runMoves (Indexer.step samplePlatform sampleChain)
      (Indexer.allowed (fun _ => True) (fun _ => True)) (Indexer.firstBoot ⟨0, 0⟩)
      (twoJobsRun 5 3)
      (fun world => ∃ row ∈ (world.shared.store .transactionsProcessing).rows,
        row ∉ (Db.migrated ⟨0, 0⟩ world.shared.store .transactionsProcessing).rows ∧
        ¬ (world.shared.store .transactions).Has (docId row)) (by decide +kernel)
  refine ⟨world, reached, fun finished => ?_⟩
  rcases finished row member with survives | ⟨-, stored⟩
  · exact removed survives
  · exact lost stored

end MileExplorer
