import MileExplorer.SerialNumbering

/-!
# Serial numbers over whole runs

The `transactions_processing` loop with stream jobs inserting rows at any
moment, stopped and restarted where the run allows it.  Without restarts the
stored counter is the number of rows between any two passes.  With restarts
this stays true as long as each of them finds the counter equal to the number
of rows; one that falls between the insert of a row and the update of the
counter makes a later row take a serial that is in use.
-/

namespace MileExplorer

/-- The loop of `transactions_processing`.  An event is one insert of rows by
a stream job; a restart runs the migration and begins with `prev_bid` zero. -/
def streamLoop : Loop Query (Except DbError Json) Process Nat (List Json) Start where
  exec := Process.exec
  pass := Db.transactionsProcessing
  boot start := do
    Db.migration start.indexerVersion start.now
    return 0
  occur rows process := process.withTable .transactionsProcessing
    ((process.store .transactionsProcessing).insertMany rows)

abbrev StreamConfig := LoopConfig Query (Except DbError Json) Process Nat

/-- Runs in which the stream jobs insert rows of the form they build and the
process is restarted only with a database that `restarts` admits. -/
def streamAllowed (restarts : Store → Prop) (config : StreamConfig) :
    LoopMove (List Json) Start → Prop
  | .event rows => ∀ row ∈ rows, IsPending row
  | .advance => True
  | .restart _ => restarts config.shared.store

instance (restarts : Store → Prop) [DecidablePred restarts] (config : StreamConfig)
    (move : LoopMove (List Json) Start) : Decidable (streamAllowed restarts config move) :=
  match move with
  | .event rows => inferInstanceAs (Decidable (∀ row ∈ rows, IsPending row))
  | .advance => inferInstanceAs (Decidable True)
  | .restart _ => inferInstanceAs (Decidable (restarts config.shared.store))

def streamStart : StreamConfig := Loop.asleep (Process.idle Store.empty) 0

/-- Every state of the run is one of a run with these restarts. -/
abbrev StreamReaches (restarts : Store → Prop) : StreamConfig → StreamConfig → Prop :=
  Reaches streamLoop.step (streamAllowed restarts)

namespace Db

theorem flush_counted {process : Process} (counted : Counted process.store) :
    flush.Holds Process.exec streamContract (fun _ final => Counted final.store) process := by
  refine flush_holds (fun current => Counted current.store)
    (fun _ _ moved holds => Counted.of_rely moved holds) (fun _ holds => holds) ?_ counted
  intro first second third moved movedAgain valid holds _ _
  refine ⟨valid.of_pending ?_, ?_, ?_⟩
  · exact fun row member => valid.pending row (KeyedTable.mem_eraseWhere.mp member).1
  · intro row member
    simpa using member
  · simpa [Counted, CountIs] using (holds.of_rely moved).of_rely movedAgain

theorem migration_counted (indexerVersion : Nat) (now : Int) {process : Process}
    (counted : Counted process.store) :
    (migration indexerVersion now).Holds Process.exec streamContract
      (fun _ final => Counted final.store) process := by
  refine migration_holds (fun current => Counted current.store)
    (fun _ _ moved holds => Counted.of_rely moved holds) ?_ indexerVersion now
    (fun _ => flush_counted) counted
  intro current rows valid holds
  refine ⟨valid.of_metadata, ?_, ?_⟩
  · intro row member
    simpa using member
  · simpa [Counted, CountIs] using holds

end Db

theorem insertPending_rely {process : Process} (rows : List Json) :
    streamContract.rely process (streamLoop.occur rows process) := by
  intro table other
  simp [streamLoop, other]

theorem Numbered.insertPending {process : Process} (numbered : Numbered process.store)
    {rows : List Json} (pending : ∀ row ∈ rows, IsPending row) :
    Numbered (streamLoop.occur rows process).store := by
  refine numbered.of_pending fun row member => ?_
  rcases KeyedTable.mem_of_mem_insertMany member with old | new
  · exact numbered.pending row old
  · exact pending row new

/-- In every state reached the rows are numbered, and the pass under way will
end with the counter right. -/
theorem stream_holds {restarts : Store → Prop} {config : StreamConfig}
    (safe : ∀ store, restarts store → Counted store)
    (reached : StreamReaches restarts streamStart config) :
    Numbered config.shared.store ∧
      config.thread.Holds Process.exec streamContract (fun _ final => Counted final.store)
        config.shared := by
  have initially : streamContract.valid (Process.idle Store.empty) := Numbered.empty
  refine Loop.reaches_holds streamContract initially Counted.empty
    (fun _ _ => Counted.of_rely) (fun _ _ _ _ _ => trivial) ?_ ?_ ?_ reached
  · intro current rows permitted numbered
    exact ⟨insertPending_rely rows, numbered.insertPending permitted⟩
  · exact fun prevBid process _ counted => Db.transactionsProcessing_holds prevBid counted
  · intro current start permitted _
    exact (Db.migration_counted _ _ (safe _ permitted)).bind fun _ _ counted => counted

theorem stream_rows_persist {restarts : Store → Prop} {config later : StreamConfig}
    (safe : ∀ store, restarts store → Counted store)
    (reached : StreamReaches restarts streamStart config)
    (continued : StreamReaches restarts config later) :
    ∀ row ∈ (config.shared.store .transactions).rows,
      row ∈ (later.shared.store .transactions).rows := by
  induction continued with
  | refl => exact fun row member => member
  | tail before permitted moved ih =>
      obtain ⟨numbered, holds⟩ := stream_holds safe (reached.trans before)
      intro row member
      refine Loop.step_related streamContract.guarantee
        streamContract.guaranteeRefl ?_ (fun _ _ kept => kept) numbered holds
        (fun _ _ _ _ => trivial) ?_ moved row (ih row member)
      · intro first second same row member
        rwa [same .transactions (by decide)]
      · exact fun rows _ => insertPending_rely rows

/-! ## Counters and serials -/

theorem Numbered.mem_serials {store : Store} (numbered : Numbered store) (serial : Option Json) :
    serial ∈ serials store ↔
      ∃ number < (store .transactions).rows.length, serial = some (.num number) := by
  simp [numbered.serials_eq, eq_comm]

theorem Numbered.serials_nodup {store : Store} (numbered : Numbered store) :
    (serials store).Nodup := by
  rw [numbered.serials_eq]
  refine List.Nodup.map ?_ List.nodup_range
  intro first second same
  simpa using same

/-- Every run without restarts from empty tables, any rows inserted at any
moment.  Between two passes the counter is the number of stored rows and the
serials are the numbers below it, each used once; a stored row never changes,
and no marker row is ever stored. -/
theorem serials_of_run {config : StreamConfig}
    (reached : StreamReaches (fun _ => False) streamStart config) :
    (∀ prevBid, config.thread = .done prevBid →
      storedCount config.shared.store = (config.shared.store .transactions).rows.length ∧
      (serials config.shared.store).Nodup ∧
      ∀ serial, serial ∈ serials config.shared.store ↔
        ∃ number < storedCount config.shared.store, serial = some (.num number)) ∧
    (∀ later, StreamReaches (fun _ => False) config later →
      ∀ row ∈ (config.shared.store .transactions).rows,
        row ∈ (later.shared.store .transactions).rows) ∧
    ∀ row ∈ (config.shared.store .transactions).rows,
      row.find? "transaction-type" ≠ some processingType := by
  have safe : ∀ store : Store, False → Counted store := fun _ => False.elim
  obtain ⟨numbered, holds⟩ := stream_holds safe reached
  refine ⟨fun prevBid asleep => ?_, fun later => stream_rows_persist safe reached,
    numbered.unmarked⟩
  rw [asleep] at holds
  have count := CountIs.storedCount_eq holds
  rw [count]
  exact ⟨rfl, numbered.serials_nodup, numbered.mem_serials⟩

def pendingRow (id : String) (blockId : Nat) (type : String) : Json :=
  .ofMembers [("id", .str id), ("block-id", .num blockId), ("transaction-type", .str type)]

/-- Two rows of block 1 and a marker arrive, a pass begins, and the first row
arrives again while it is under way. -/
def orderlyRun : List (LoopMove (List Json) Start) :=
  [LoopMove.event [pendingRow "a:1:0" 1 "TransferAssetsTransaction",
      pendingRow "b:1:1" 1 "EmissionTransaction", pendingRow "2" 2 "__processing__"]] ++
    List.replicate 12 LoopMove.advance ++
    [LoopMove.event [pendingRow "a:1:0" 1 "TransferAssetsTransaction"]] ++
    List.replicate 4 LoopMove.advance

theorem serials_of_run_orderly :
    ∃ config, StreamReaches (fun _ => False) streamStart config ∧
      config.thread.isDone ∧ (config.shared.store .transactions).rows.length = 2 ∧
      storedCount config.shared.store = 2 ∧ (serials config.shared.store).Nodup := by
  obtain ⟨config, reached, finished, two⟩ := Reaches.exists_of_runMoves
    streamLoop.step (streamAllowed (fun _ => False)) streamStart orderlyRun
    (fun config => config.thread.isDone ∧ (config.shared.store .transactions).rows.length = 2)
    (by decide +kernel)
  obtain ⟨prevBid, asleep⟩ := Program.isDone_iff.mp finished
  obtain ⟨count, unique, _⟩ := (serials_of_run reached).1 prevBid asleep
  exact ⟨config, reached, finished, two, count.trans two, unique⟩

/-! ## Restarts -/

/-- Runs in which each restart finds the counter equal to the number of rows.
No two rows ever have the same serial, and after a pass the counter is above
every serial. -/
theorem serials_of_restarted_run {config : StreamConfig}
    (reached : StreamReaches Counted streamStart config) :
    (serials config.shared.store).Nodup ∧
    ∀ prevBid, config.thread = .done prevBid →
      ∀ serial ∈ serials config.shared.store,
        ∃ number < storedCount config.shared.store, serial = some (.num number) := by
  obtain ⟨numbered, holds⟩ := stream_holds (fun _ counted => counted) reached
  refine ⟨numbered.serials_nodup, fun prevBid asleep serial member => ?_⟩
  rw [asleep] at holds
  rw [CountIs.storedCount_eq holds]
  exact (numbered.mem_serials serial).mp member

/-- One row is stored completely, the process restarts, and the second row of
the block is stored by the next pass. -/
def restartedRun : List (LoopMove (List Json) Start) :=
  [LoopMove.event [pendingRow "a:1:0" 1 "TransferAssetsTransaction",
      pendingRow "b:1:1" 1 "EmissionTransaction"]] ++
    List.replicate 9 LoopMove.advance ++ [LoopMove.restart ⟨130, 0⟩] ++
    List.replicate 19 LoopMove.advance

theorem serials_of_restarted_run_second :
    ∃ config, StreamReaches Counted streamStart config ∧
      config.thread.isDone ∧ (config.shared.store .transactions).rows.length = 2 ∧
      (serials config.shared.store).Nodup := by
  obtain ⟨config, reached, finished, two⟩ := Reaches.exists_of_runMoves
    streamLoop.step (streamAllowed Counted) streamStart restartedRun
    (fun config => config.thread.isDone ∧ (config.shared.store .transactions).rows.length = 2)
    (by decide +kernel)
  exact ⟨config, reached, finished, two, (serials_of_restarted_run reached).1⟩

/-- The process stops after the first row is inserted and before the counter
is updated; the row found at the next pass is skipped, and the second row
takes its serial. -/
def tornRun : List (LoopMove (List Json) Start) :=
  [LoopMove.event [pendingRow "a:1:0" 1 "TransferAssetsTransaction",
      pendingRow "b:1:1" 1 "EmissionTransaction"]] ++
    List.replicate 7 LoopMove.advance ++ [LoopMove.restart ⟨130, 0⟩] ++
    List.replicate 21 LoopMove.advance

theorem serial_used_twice :
    ¬ ∀ config, StreamReaches (fun _ => True) streamStart config →
      (serials config.shared.store).Nodup := by
  intro unique
  obtain ⟨config, reached, twice⟩ := Reaches.exists_of_runMoves
    streamLoop.step (streamAllowed fun _ => True) streamStart tornRun
    (fun config => ¬ (serials config.shared.store).Nodup) (by decide +kernel)
  exact twice (unique config reached)

end MileExplorer
