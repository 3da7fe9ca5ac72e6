import MileExplorer.Indexer

/-!
# What the threads write

Every thread writes to a few tables only, whatever its queries are answered.
The wallet and stream jobs, the migration and the `transactions_processing`
loop also leave the queues alone.
-/

namespace MileExplorer

/-- No table but those named has changed. -/
def Writes (tables : List TableName) (before after : Process) : Prop :=
  ∀ table ∉ tables, after.store table = before.store table

theorem Writes.run {faults : Site → Bool} {tables : List TableName} {Result : Type}
    {program : Prog Result} (steps : program.Steps (Process.execFaulty faults) (Writes tables))
    (process : Process) :
    Writes tables process (program.run (Process.execFaulty faults) process).2 :=
  steps.run (fun _ _ _ => rfl)
    (fun _ _ _ earlier later table outside => (later table outside).trans (earlier table outside))
    process

def SameQueues (before after : Process) : Prop :=
  after.waiting = before.waiting ∧ after.running = before.running ∧
    after.fetcher = before.fetcher

theorem SameQueues.trans {first second third : Process} (earlier : SameQueues first second)
    (later : SameQueues second third) : SameQueues first third :=
  ⟨later.1.trans earlier.1, later.2.1.trans earlier.2.1, later.2.2.trans earlier.2.2⟩

/-- No table but those named has changed, and none of the queues. -/
def WritesOnly (tables : List TableName) (before after : Process) : Prop :=
  Writes tables before after ∧ SameQueues before after

theorem WritesOnly.refl {tables : List TableName} (process : Process) :
    WritesOnly tables process process :=
  ⟨fun _ _ => rfl, rfl, rfl, rfl⟩

theorem WritesOnly.mono {tables more : List TableName} {before after : Process}
    (included : tables ⊆ more) (writes : WritesOnly tables before after) :
    WritesOnly more before after :=
  ⟨fun table outside => writes.1 table fun inside => outside (included inside), writes.2⟩

namespace Db

variable {faults : Site → Bool} {tables : List TableName} {table : TableName}

/-! ## Single queries -/

theorem write_writesOnly {site : Site} {effect : Store → Except DbError Store}
    (member : table ∈ tables)
    (confined : ∀ store result, effect store = .ok result →
      ∀ another ≠ table, result another = store another) (process : Process) :
    WritesOnly tables process (Process.execFaulty faults (.write site effect) process).2 := by
  unfold Process.execFaulty
  dsimp only
  split_ifs
  · exact .refl process
  · split
    · rename_i store result
      refine ⟨fun another outside => confined _ store result another ?_, rfl, rfl, rfl⟩
      exact fun same => outside (same ▸ member)
    · exact .refl process

theorem read_writesOnly (site : Site) (cursor : Cursor) (process : Process) :
    WritesOnly tables process (Process.execFaulty faults (.read site cursor) process).2 := by
  unfold Process.execFaulty
  dsimp only
  split_ifs <;> exact .refl process

theorem insertEffect_confined {data : Json} (store result : Store)
    (done : insertEffect table data store = .ok result) :
    ∀ another ≠ table, result another = store another := by
  intro another other
  cases data <;> simp only [insertEffect, Except.ok.injEq, reduceCtorEq] at done
  all_goals
    subst done
    simp [other]

theorem updateEffect_confined {id : String} {data : Json} (store result : Store)
    (done : updateEffect table id data store = .ok result) :
    ∀ another ≠ table, result another = store another := by
  intro another other
  obtain rfl := Except.ok.inj done
  simp [other]

theorem removeEffect_confined {id : String} (store result : Store)
    (done : removeEffect table id store = .ok result) :
    ∀ another ≠ table, result another = store another := by
  intro another other
  obtain rfl := Except.ok.inj done
  simp [other]

theorem removeBetweenEffect_confined {first limit : Nat} {index : String} (store result : Store)
    (done : removeBetweenEffect table first limit index store = .ok result) :
    ∀ another ≠ table, result another = store another := by
  intro another other
  obtain rfl := Except.ok.inj done
  simp [other]

theorem unionEffect_confined {id field : String} {value : Json} (store result : Store)
    (done : unionEffect table id field value store = .ok result) :
    ∀ another ≠ table, result another = store another := by
  intro another other
  unfold unionEffect at done
  split at done
  · rw [Except.ok.inj done]
  · obtain ⟨row, -, built⟩ := bind_eq_ok.mp done
    obtain rfl := Except.ok.inj built
    simp [other]

theorem getData_steps (site : Site) (cursor : Cursor) :
    (getData site cursor).Steps (Process.execFaulty faults) (WritesOnly tables) :=
  ⟨read_writesOnly site cursor, fun _ => trivial⟩

theorem getNumber_steps (site : Site) (cursor : Cursor) :
    (getNumber site cursor).Steps (Process.execFaulty faults) (WritesOnly tables) :=
  ⟨read_writesOnly site cursor, fun _ => trivial⟩

theorem insert_steps (site : Site) (data : Json) (member : table ∈ tables) :
    (insert site table data).Steps (Process.execFaulty faults) (WritesOnly tables) :=
  ⟨write_writesOnly member insertEffect_confined, fun _ => trivial⟩

theorem remove_steps (site : Site) (id : String) (member : table ∈ tables) :
    (remove site table id).Steps (Process.execFaulty faults) (WritesOnly tables) :=
  ⟨write_writesOnly member removeEffect_confined, fun _ => trivial⟩

theorem update_steps (row : String) (data : Json) (member : table ∈ tables) :
    (update row table data).Steps (Process.execFaulty faults) (WritesOnly tables) := by
  unfold update
  split
  · trivial
  · refine ⟨read_writesOnly _ _, fun answer => ?_⟩
    dsimp only
    split
    · exact ⟨write_writesOnly member insertEffect_confined, fun _ => trivial⟩
    · exact ⟨write_writesOnly member updateEffect_confined, fun _ => trivial⟩
    · trivial

theorem unionFields_steps (row id : String) (data : List (String × Json))
    (member : table ∈ tables) :
    (unionFields row table id data).Steps (Process.execFaulty faults) (WritesOnly tables) := by
  induction data with
  | nil => trivial
  | cons entry rest ih =>
      refine ⟨write_writesOnly member unionEffect_confined, fun answer => ?_⟩
      cases answer with
      | ok _ => exact ih
      | error _ => trivial

theorem updateFields_steps (row id : String) (data : List (String × Json))
    (member : table ∈ tables) :
    (updateFields row table id data).Steps (Process.execFaulty faults) (WritesOnly tables) := by
  refine ⟨read_writesOnly _ _, fun answer => ?_⟩
  dsimp only
  split
  · exact ⟨write_writesOnly member insertEffect_confined, fun _ => trivial⟩
  · exact unionFields_steps row id data member
  · trivial

/-! ## The migration -/

theorem getVersion_steps : getVersion.Steps (Process.execFaulty faults) (WritesOnly tables) :=
  (getNumber_steps _ _).bind fun _ => trivial

theorem removeOldVersion_steps (old : Rat) (member : .metadata ∈ tables) :
    (removeOldVersion old).Steps (Process.execFaulty faults) (WritesOnly tables) := by
  unfold removeOldVersion
  split_ifs
  · exact remove_steps _ _ member
  · trivial

theorem upgrade_steps (indexerVersion : Nat) (now : Int) (member : .metadata ∈ tables) :
    (upgrade indexerVersion now).Steps (Process.execFaulty faults) (WritesOnly tables) := by
  refine getVersion_steps.bind fun version => ?_
  split_ifs
  · exact (getNumber_steps _ _).bind fun _ => getVersion_steps.bind fun _ =>
      insert_steps _ _ member
  · trivial

theorem flush_steps (member : .transactionsProcessing ∈ tables) :
    flush.Steps (Process.execFaulty faults) (WritesOnly tables) := by
  refine (getNumber_steps _ _).bind fun state => (getNumber_steps _ _).bind fun processing => ?_
  dsimp only
  split_ifs
  · exact ⟨write_writesOnly member removeBetweenEffect_confined, fun _ => trivial⟩
  · trivial

theorem migration_steps (indexerVersion : Nat) (now : Int) :
    (migration indexerVersion now).Steps (Process.execFaulty faults)
      (WritesOnly [.metadata, .transactionsProcessing]) :=
  getVersion_steps.bind fun _ => (getNumber_steps _ _).bind fun old =>
    (removeOldVersion_steps old (by decide)).bind fun _ =>
      (upgrade_steps indexerVersion now (by decide)).bind fun _ => flush_steps (by decide)

/-! ## The `transactions_processing` loop -/

theorem updateState_steps (row : String) (count blockId : Nat)
    (member : .transactionsState ∈ tables) :
    (updateState row count blockId).Steps (Process.execFaulty faults) (WritesOnly tables) :=
  (update_steps row _ member).bind fun _ => trivial

theorem readLastCount_steps (member : .transactionsState ∈ tables) :
    readLastCount.Steps (Process.execFaulty faults) (WritesOnly tables) := by
  refine (getData_steps _ _).bind fun state => ?_
  split
  · trivial
  · exact (updateState_steps "" 0 0 member).bind fun _ => trivial

theorem processTransactions_steps (prevBid lastCount : Nat) (items : List Json) :
    (processTransactions prevBid lastCount items).Steps (Process.execFaulty faults)
      (WritesOnly [.transactions, .transactionsState, .transactionsProcessing]) := by
  induction items generalizing prevBid lastCount with
  | nil => trivial
  | cons item rest ih =>
      unfold processTransactions
      split
      · trivial
      · split
        · exact (remove_steps _ _ (by decide)).bind fun _ => ih _ _
        · trivial
        · refine (getData_steps _ _).bind fun row => ?_
          split_ifs
          · exact (remove_steps _ _ (by decide)).bind fun _ => ih _ _
          · exact (insert_steps _ _ (by decide)).bind fun _ =>
              (updateState_steps _ _ _ (by decide)).bind fun _ =>
                (remove_steps _ _ (by decide)).bind fun _ => ih _ _

theorem transactionsProcessing_steps (prevBid : Nat) :
    (transactionsProcessing prevBid).Steps (Process.execFaulty faults)
      (WritesOnly [.transactions, .transactionsState, .transactionsProcessing]) :=
  (getData_steps _ _).bind fun _ => (readLastCount_steps (by decide)).bind fun _ =>
    processTransactions_steps _ _ _

/-! ## The jobs -/

theorem updateWallet_steps (address uniqId : String) (fields : List (String × Json)) :
    (updateWallet address uniqId fields).Steps (Process.execFaulty faults)
      (WritesOnly [.wallets]) :=
  (updateFields_steps _ _ _ (by decide)).bind fun _ =>
    ⟨fun _ => ⟨fun _ _ => rfl, rfl, rfl, rfl⟩, fun _ => trivial⟩

theorem addWalletEntries_steps (trx : Json) (blockId : Nat) (time : Int)
    (entries : List (String × String)) :
    (addWalletEntries trx blockId time entries).Steps (Process.execFaulty faults)
      (WritesOnly [.wallets]) := by
  induction entries with
  | nil => trivial
  | cons entry rest ih =>
      obtain ⟨address, uniqId⟩ := entry
      unfold addWalletEntries
      split
      · trivial
      · refine (updateWallet_steps _ _ _).bind fun _ => ?_
        split
        · exact ih
        · split
          · trivial
          · exact (updateWallet_steps _ _ _).bind fun _ => ih

theorem walletJob_steps (blockId : Nat) (time : Int) (transactions : List Json) :
    (walletJob blockId time transactions).Steps (Process.execFaulty faults)
      (WritesOnly [.wallets]) := by
  induction transactions with
  | nil => trivial
  | cons trx rest ih =>
      refine Program.Steps.bind ?_ fun result => ?_
      · unfold addWalletTransaction
        split
        · exact addWalletEntries_steps _ _ _ _
        · trivial
        · trivial
      · split
        · trivial
        · exact ih

variable (platform : Platform)

theorem addStreamEntries_steps (blockId : Nat) (time : Int) (trx : Json) (output : List Json)
    (entries : List (String × String)) :
    (addStreamEntries platform blockId time trx output entries).Steps (Process.execFaulty faults)
      (WritesOnly tables) := by
  induction entries generalizing trx output with
  | nil => trivial
  | cons entry rest ih =>
      refine (getData_steps _ _).bind fun row => ?_
      split_ifs
      · exact ih _ _
      · split
        · trivial
        · exact ih _ _

theorem addStreamTransactions_steps (blockId : Nat) (time : Int) (output transactions : List Json) :
    (addStreamTransactions platform blockId time output transactions).Steps
      (Process.execFaulty faults) (WritesOnly tables) := by
  induction transactions generalizing output with
  | nil => trivial
  | cons trx rest ih =>
      refine Program.Steps.bind ?_ fun result => ?_
      · unfold addStreamTransaction
        split
        · trivial
        · exact addStreamEntries_steps _ _ _ _ _ _
      · split
        · trivial
        · exact ih _

theorem jobBody_steps (job : Job) :
    (jobBody platform job).Steps (Process.execFaulty faults)
      (WritesOnly [.wallets, .transactionsProcessing]) := by
  cases job with
  | wallet transactions blockId time =>
      exact (walletJob_steps _ _ _).mono fun _ _ => WritesOnly.mono (by simp)
  | stream transactions blockId time =>
      refine (addStreamTransactions_steps _ _ _ _ _).bind fun result => ?_
      split
      · trivial
      · exact insert_steps _ _ (by decide)

/-! ## Blocks -/

theorem addBlock_steps (block : Json) (blockId : Nat) (now : Int) :
    (addBlock platform block blockId now).Steps (Process.execFaulty faults)
      (WritesOnly [.blocksProcessing]) := by
  refine (getData_steps _ _).bind fun row => ?_
  split_ifs
  · trivial
  · split
    · trivial
    · exact insert_steps _ _ (by decide)

theorem addTransactions_steps (transactions : Json) (blockId : Nat) (time : Int)
    (member : .transactionsProcessing ∈ tables) :
    (addTransactions transactions blockId time).Steps (Process.execFaulty faults)
      (Writes tables) := by
  unfold addTransactions
  split_ifs
  · exact ⟨fun _ _ _ => rfl, fun _ => ⟨fun _ _ _ => rfl, fun _ => trivial⟩⟩
  · exact (insert_steps _ _ member).mono fun _ _ => And.left

theorem storeBlock_steps (item : Json) (id : String) (found : Bool) (blocks : .blocks ∈ tables)
    (pending : .blocksProcessing ∈ tables) :
    (storeBlock item id found).Steps (Process.execFaulty faults) (WritesOnly tables) := by
  unfold storeBlock
  split_ifs
  · exact remove_steps _ _ pending
  · exact (insert_steps _ _ blocks).bind fun _ => remove_steps _ _ pending

theorem processBlocks_steps (items : List Json) :
    (processBlocks items).Steps (Process.execFaulty faults)
      (Writes [.blocks, .blocksProcessing, .transactionsProcessing]) := by
  have reads {Result : Type} {program : Prog Result}
      (steps : program.Steps (Process.execFaulty faults)
        (WritesOnly [.blocks, .blocksProcessing, .transactionsProcessing])) :
      program.Steps (Process.execFaulty faults)
        (Writes [.blocks, .blocksProcessing, .transactionsProcessing]) :=
    steps.mono fun _ _ => And.left
  induction items with
  | nil => trivial
  | cons item rest ih =>
      unfold processBlocks
      split
      · trivial
      · refine Program.Steps.bind ?_ fun goesOn => ?_
        · refine (reads (getNumber_steps _ _)).bind fun prevBid => ?_
          split_ifs
          · trivial
          · refine (reads (getData_steps _ _)).bind fun row => ?_
            split
            · trivial
            · exact (addTransactions_steps _ _ _ (by decide)).bind fun _ =>
                (reads (storeBlock_steps _ _ _ (by decide) (by decide))).bind fun _ => trivial
        · split_ifs
          · exact ih
          · trivial

end Db

end MileExplorer
