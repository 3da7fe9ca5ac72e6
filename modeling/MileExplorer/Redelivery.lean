import MileExplorer.BlockRows
import MileExplorer.StreamRows
import MileExplorer.WalletTable

/-!
# Delivering a block again

The fetcher asks for the last block of every range a second time.  The tables
recognise what they have in three ways: the blocks and the transactions by
their keys, the wallets by comparing whole entries.  An entry holds the time
of its block, which is the time of arrival if the block has none of its own.
-/

namespace MileExplorer

variable {platform : Platform} {chain : Chain} {number : Nat}

/-- A worker takes the first job of the queue and completes it. -/
def workOn (platform : Platform) (process : Process) (job : Job) : Process :=
  ((Db.runJob platform job).run Process.exec (Indexer.take 0 job process)).2

/-- A block is delivered: `add_block`, a pass of `blocks_processing`, the jobs
that it has queued, and a pass of `transactions_processing`. -/
def deliverBlock (platform : Platform) (block : Json) (number : Nat) (now : Int) (prevBid : Nat)
    (process : Process) : Process :=
  let added := ((Db.addBlock platform block number now).run Process.exec process).2
  let passed := (Db.blocksProcessing.run Process.exec added).2
  let worked := passed.waiting.foldl (workOn platform) passed
  ((Db.transactionsProcessing prevBid).run Process.exec worked).2

/-- The tables of the index are as they were, and nothing is pending. -/
def IndexUnchanged (before after : Process) : Prop :=
  (∀ table ∈ [TableName.blocks, .transactions, .transactionsState, .wallets],
    after.store table = before.store table) ∧
  (after.store .blocksProcessing).rows = [] ∧ (after.store .transactionsProcessing).rows = []

def blockUpdates (chain : Chain) (number : Nat) (time : Int) : List WalletUpdate :=
  match (chain number).json.find? "transactions" with
  | some (.arr transactions) => jobUpdates number time transactions
  | _ => []

def blockStream (platform : Platform) (chain : Chain) (number : Nat) (time : Int) : List Json :=
  match (chain number).json.find? "transactions" with
  | some (.arr transactions) => streamRows platform number time transactions
  | _ => []

/-- The block has been indexed completely, each time under one of the given
times: it is stored, its transactions are in the stream, the wallets have its
entries with these times, and nothing is pending. -/
structure IndexedAt (platform : Platform) (chain : Chain) (number : Nat) (times : List Int)
    (process : Process) : Prop where
  blocks : BlockRows platform chain (process.store .blocks)
  stored : HasBlock (process.store .blocks) number
  listed : ∃ transactions, (chain number).json.find? "transactions" = some transactions
  delivered : times ≠ []
  timed : ∀ time ∈ times, ∃ now, blockTime platform (chain number).json now = .ok time
  formed : process.Formed
  held : ∀ time ∈ times, ∀ update ∈ blockUpdates chain number time,
    HoldsCall update.address process.store update.call
  once : ∀ time ∉ times, ∀ update ∈ blockUpdates chain number time,
    update.call.entry ∉ walletList update.address "transactions" process.store
  streamed : ∀ time, ∀ row ∈ blockStream platform chain number time,
    (∃ type, row.find? "transaction-type" = some type ∧ type ≠ processingType) ∧
      (process.store .transactions).Has (docId row)
  counted : ∃ count, (getDataOf (Db.transactionHistoryState process.store)).getUInt64 = .ok count
  noBlocks : (process.store .blocksProcessing).rows = []
  noRows : (process.store .transactionsProcessing).rows = []
  noJobs : process.waiting = []

theorem blockUpdates_addresses (first second : Int) :
    (blockUpdates chain number first).map WalletUpdate.address =
      (blockUpdates chain number second).map WalletUpdate.address := by
  unfold blockUpdates
  split
  · exact jobUpdates_addresses number first second _
  · rfl

/-! ## The pass of `blocks_processing` -/

namespace Db

theorem addBlock_run {row : Json} {now : Int} {process : Process}
    (built : blockRow platform (chain number).json number now = .ok row)
    (absent : ¬ (process.store .blocksProcessing).Has (.str (toString number))) :
    (addBlock platform (chain number).json number now).run Process.exec process =
      ((), process.withTable .blocksProcessing
        ((process.store .blocksProcessing).insert row)) := by
  have rowOf : BlockRowOf platform chain number row := ⟨now, built⟩
  have isObj := Json.isObject_of_find? rowOf.id
  simp only [addBlock, Program.run_bind, run_getData, Cursor.count_get, absent, if_false, built]
  exact run_insert _ _ isObj _

theorem not_isForward_of_stored {store : Store} (rows : BlockRows platform chain (store .blocks))
    (stored : HasBlock (store .blocks) number) :
    ¬ isForward (toUInt64 (getNumberOf (lastBlockId store))) number := by
  rintro ⟨-, -, above⟩
  rcases lastBlockId_cases rows with ⟨empty, -⟩ | ⟨last, -, greatest, lastEq⟩
  · obtain ⟨row, member, -⟩ := stored
    simp [empty] at member
  · have := greatest number stored
    omega

theorem processBlock_run {row transactions : Json} {time : Int} {process : Process}
    (rows : BlockRows platform chain (process.store .blocks))
    (stored : HasBlock (process.store .blocks) number)
    (work : itemWork row = .ok (time, transactions)) :
    let queued := ((addTransactions transactions number time).run Process.exec process).2
    (processBlock row number).run Process.exec process =
      (true, queued.withTable .blocksProcessing
        ((queued.store .blocksProcessing).erase (.str (toString number)))) := by
  intro queued
  have found : (process.store .blocks).Has (.str (toString number)) := stored
  rw [processBlock, Program.run_bind, run_getNumber]
  dsimp only
  rw [if_neg (not_isForward_of_stored rows stored), Program.run_bind, run_getData]
  simp only [work, Cursor.count_get, found, decide_true, storeBlock, if_true, Program.run_bind,
    run_remove]
  rfl

theorem blocksProcessing_run {row transactions : Json} {time : Int} {process : Process}
    (rows : BlockRows platform chain (process.store .blocks))
    (stored : HasBlock (process.store .blocks) number)
    (rowOf : BlockRowOf platform chain number row)
    (pending : (process.store .blocksProcessing).rows = [row])
    (work : itemWork row = .ok (time, transactions)) :
    let queued := ((addTransactions transactions number time).run Process.exec process).2
    blocksProcessing.run Process.exec process =
      ((), queued.withTable .blocksProcessing
        ((queued.store .blocksProcessing).erase (.str (toString number)))) := by
  intro queued
  have items : (getDataOf ((cursor .blocksProcessing).sort "block-id" process.store)).elements =
      [row] := by
    rw [Cursor.elements_sort, pending, Cursor.ordered, List.filter_cons_of_pos (by
      simp [rowOf.blockId])]
    rfl
  rw [blocksProcessing, Program.run_bind, run_getData]
  dsimp only
  rw [items, processBlocks, rowOf.index_blockId]
  dsimp only
  rw [Program.run_bind, processBlock_run rows stored work]
  rfl

/-! ## The pass of `transactions_processing` -/

/-- The gate of the loop lets a row of the block through. -/
def passesGate (prevBid bid : Nat) : Prop := prevBid = 0 ∨ sub64 bid prevBid ≤ 1

instance (prevBid bid : Nat) : Decidable (passesGate prevBid bid) :=
  inferInstanceAs (Decidable (_ ∨ _))

theorem passesGate_self {bid : Nat} : passesGate bid bid := by
  right
  unfold sub64
  rw [Nat.add_sub_cancel_left]
  decide

theorem disposition_of_passes {prevBid bid : Nat} {type : Json} (unmarked : type ≠ processingType)
    (passes : passesGate prevBid bid) : disposition prevBid bid type = .take := by
  unfold disposition
  rcases passes with rfl | near
  · simp [unmarked]
  · simp [unmarked, show ¬ 1 < sub64 bid prevBid by omega]

theorem disposition_of_not_passes {prevBid bid : Nat} {type : Json}
    (unmarked : type ≠ processingType) (blocked : ¬ passesGate prevBid bid) :
    disposition prevBid bid type = .forward := by
  obtain ⟨positive, far⟩ := not_or.mp blocked
  unfold disposition
  simp [unmarked, show prevBid > 0 by omega, show 1 < sub64 bid prevBid by omega]

/-- A pending row of the block whose transaction is stored already. -/
structure IsKnownRow (number : Nat) (stored : Table) (row : Json) : Prop where
  rowOf : IsRowOf number row
  typed : ∃ type, row.find? "transaction-type" = some type ∧ type ≠ processingType
  known : stored.Has (docId row)

/-- The item loop removes rows it knows, once the gate lets the first of them
through. -/
theorem processTransactions_known {items : List Json} {prevBid lastCount : Nat}
    {process : Process}
    (known : ∀ item ∈ items, IsKnownRow number (process.store .transactions) item)
    (passes : passesGate prevBid number) :
    ((processTransactions prevBid lastCount items).run Process.exec process).2 =
      process.withTable .transactionsProcessing
        (items.foldl (fun table item => table.erase (docId item))
          (process.store .transactionsProcessing)) := by
  induction items generalizing prevBid process with
  | nil =>
      rw [List.foldl_nil, Process.withTable, Function.update_eq_self]
      rfl
  | cons item rest ih =>
      obtain ⟨⟨id, idEq, bidEq⟩, ⟨type, typeEq, unmarked⟩, isStored⟩ := known item (by simp)
      have keyEq := docId_of_find? idEq
      rw [keyEq] at isStored
      simp only [processTransactions, itemHead_eq idEq bidEq typeEq,
        disposition_of_passes unmarked passes, Program.run_bind, run_getData, Cursor.count_get,
        if_pos isStored, run_remove]
      rw [ih _ passesGate_self]
      · simp [Process.withTable, keyEq]
      · intro other member
        simpa using known other (by simp [member])

/-- A gate that does not let the first row through leaves them all. -/
theorem processTransactions_blocked {item : Json} {rest : List Json} {prevBid lastCount : Nat}
    {process : Process} (known : IsKnownRow number (process.store .transactions) item)
    (blocked : ¬ passesGate prevBid number) :
    ((processTransactions prevBid lastCount (item :: rest)).run Process.exec process).2 =
      process := by
  obtain ⟨⟨id, idEq, bidEq⟩, ⟨type, typeEq, unmarked⟩, -⟩ := known
  simp only [processTransactions, itemHead_eq idEq bidEq typeEq,
    disposition_of_not_passes unmarked blocked]
  rfl

theorem transactionsProcessing_run {prevBid count : Nat} {process : Process}
    (counted : (getDataOf (transactionHistoryState process.store)).getUInt64 = .ok count) :
    (transactionsProcessing prevBid).run Process.exec process =
      (processTransactions prevBid count
        (Cursor.ordered "block-id" (process.store .transactionsProcessing).rows)).run
          Process.exec process := by
  rw [transactionsProcessing, Program.run_bind, run_getData, Program.run_bind, readLastCount,
    Program.run_bind, run_getData]
  dsimp only
  rw [counted, Cursor.elements_sort]
  rfl

/-- A pass over rows that are all known leaves none of them exactly if there
are none or the gate lets them through; no other table changes. -/
theorem transactionsProcessing_known (prevBid : Nat) {count : Nat} {process : Process}
    (counted : (getDataOf (transactionHistoryState process.store)).getUInt64 = .ok count)
    (known : ∀ row ∈ (process.store .transactionsProcessing).rows,
      IsKnownRow number (process.store .transactions) row) :
    let final := ((transactionsProcessing prevBid).run Process.exec process).2
    (∀ table ≠ .transactionsProcessing, final.store table = process.store table) ∧
      ((final.store .transactionsProcessing).rows = [] ↔
        (process.store .transactionsProcessing).rows = [] ∨ passesGate prevBid number) := by
  intro final
  have finalEq : final = ((processTransactions prevBid count (Cursor.ordered "block-id"
      (process.store .transactionsProcessing).rows)).run Process.exec process).2 := by
    rw [← transactionsProcessing_run counted]
  have listed : ∀ row ∈ (process.store .transactionsProcessing).rows,
      row ∈ Cursor.ordered "block-id" (process.store .transactionsProcessing).rows := by
    intro row member
    obtain ⟨_, -, indexed⟩ := (known row member).rowOf
    exact Cursor.mem_ordered.mpr ⟨member, by simp [indexed]⟩
  have itemsKnown : ∀ item ∈ Cursor.ordered "block-id"
      (process.store .transactionsProcessing).rows,
        IsKnownRow number (process.store .transactions) item :=
    fun item member => known item (Cursor.mem_ordered.mp member).1
  by_cases passes : passesGate prevBid number
  · rw [processTransactions_known itemsKnown passes] at finalEq
    refine ⟨fun table other => ?_, ⟨fun _ => .inr passes, fun _ => ?_⟩⟩
    · simp [finalEq, other]
    · apply List.eq_nil_iff_forall_not_mem.mpr
      intro row member
      rw [finalEq, Process.store_withTable, Function.update_self,
        KeyedTable.mem_foldl_erase] at member
      exact member.2 row (listed row member.1) rfl
  · have unchanged : final = process := by
      cases items : Cursor.ordered "block-id" (process.store .transactionsProcessing).rows with
      | nil =>
          rw [finalEq, items]
          rfl
      | cons item rest =>
          rw [finalEq, items]
          exact processTransactions_blocked (itemsKnown item (by simp [items])) passes
    rw [unchanged]
    exact ⟨fun _ _ => rfl, by simp [passes]⟩

/-! ## The jobs -/

theorem transactionHistoryState_congr {first second : Store}
    (same : first .transactionsState = second .transactionsState) :
    transactionHistoryState first = transactionHistoryState second := by
  simp only [transactionHistoryState, cursor, Cursor.get, Cursor.field, same]

end Db

theorem store_workOn (process : Process) (job : Job) :
    (workOn platform process job).store =
      ((Db.jobBody platform job).run Process.exec (Indexer.take 0 job process)).2.store := by
  rw [workOn, Db.runJob, Program.run_bind]
  rfl

theorem store_workOn_wallet {process : Process} (formed : process.Formed)
    (transactions : List Json) (time : Int) :
    (workOn platform process (.wallet (.arr transactions) number time)).store =
      Function.update process.store .wallets
        ((jobUpdates number time transactions).foldl updatedWallets
          (process.store .wallets)) := by
  have taken : (Indexer.take 0 (.wallet (.arr transactions) number time) process).Formed := formed
  rw [store_workOn, Db.jobBody, Json.elements, walletJob_run _ _ _ taken,
    store_foldl_updateWallet]
  rfl

theorem store_workOn_stream {process : Process}
    (unmarked : ¬ (process.store .transactionsProcessing).Has (.str (toString number)))
    (transactions : List Json) (time : Int) :
    (workOn platform process (.stream (.arr transactions) number time)).store =
      Function.update process.store .transactionsProcessing
        ((process.store .transactionsProcessing).insertMany
          (streamRows platform number time transactions)) := by
  let job : Job := .stream (.arr transactions) number time
  have taken : ¬ ((Indexer.take 0 job process).store .transactionsProcessing).Has
      (.str (toString number)) := unmarked
  rw [store_workOn, Db.jobBody, streamJob_run taken]
  rfl

/-! ## One delivery -/

/-- The time and the transactions that a pass reads from the row of a block. -/
theorem itemWork_of_built {row transactions : Json} {now time : Int}
    (built : blockRow platform (chain number).json number now = .ok row)
    (arrives : blockTime platform (chain number).json now = .ok time)
    (listed : (chain number).json.find? "transactions" = some transactions) :
    Db.itemWork row = .ok (time, transactions) := by
  have rowOf : BlockRowOf platform chain number row := ⟨now, built⟩
  have timeEq : row.find? "timestamp" = some (.num time) := by
    obtain ⟨stored, -, rest⟩ := bind_eq_ok.mp built
    have isObj := Json.isObject_of_find? (chain number).idEq
    cases json : (chain number).json with
    | obj entries =>
        rw [json] at rest arrives
        obtain ⟨later, laterEq, done⟩ := bind_eq_ok.mp rest
        obtain rfl : time = later := Except.ok.inj (arrives.symm.trans laterEq)
        rw [← Except.ok.inj done]
        have asObject : (Json.obj entries).isObject = true := rfl
        simp [asObject]
    | _ => simp [json, Json.isObject] at isObj
  have transactionsEq := rowOf.members.2.2.2.2.trans listed
  rw [Db.itemWork, Json.index_of_find? timeEq, Json.at?_of_find? transactionsEq]
  rfl

/-- The tables after a block that is stored has been delivered again: the
wallets after the updates of its wallet job, and pending rows only if the gate
of the loop holds them back. -/
structure AfterRedelivery (platform : Platform) (chain : Chain) (number : Nat) (time : Int)
    (prevBid : Nat) (before after : Process) : Prop where
  same : ∀ table ∈ [TableName.blocks, .transactions, .transactionsState],
    after.store table = before.store table
  wallets : after.store .wallets =
    (blockUpdates chain number time).foldl updatedWallets (before.store .wallets)
  noBlocks : (after.store .blocksProcessing).rows = []
  pending : (after.store .transactionsProcessing).rows = [] ↔
    blockStream platform chain number time = [] ∨ Db.passesGate prevBid number

namespace IndexedAt

variable {times : List Int} {process : Process}
  (indexed : IndexedAt platform chain number times process)

include indexed

/-- The process after the pass of `blocks_processing`. -/
theorem passed {now time : Int} (arrives : blockTime platform (chain number).json now = .ok time)
    {transactions : Json}
    (listed : (chain number).json.find? "transactions" = some transactions) :
    ∃ added : Process, (∀ table ≠ .blocksProcessing, added.store table = process.store table) ∧
      added.waiting = [] ∧
      let queued := ((Db.addTransactions transactions number time).run Process.exec added).2
      (Db.blocksProcessing.run Process.exec ((Db.addBlock platform (chain number).json number
        now).run Process.exec process).2).2 = queued.withTable .blocksProcessing
          ((queued.store .blocksProcessing).erase (.str (toString number))) ∧
      ∀ key, (added.store .blocksProcessing).Has key → key = .str (toString number) := by
  obtain ⟨stored, storedMem, storedOf⟩ := indexed.blocks.hasBlock_iff.mp indexed.stored
  obtain ⟨row, built⟩ := storedOf.rebuilt now
  have rowOf : BlockRowOf platform chain number row := ⟨now, built⟩
  have none : ∀ key, ¬ (process.store .blocksProcessing).Has key := by
    simp [KeyedTable.Has, indexed.noBlocks]
  let added := process.withTable .blocksProcessing ((process.store .blocksProcessing).insert row)
  have others : ∀ table ≠ .blocksProcessing, added.store table = process.store table := by
    intro table other
    simp [added, other]
  have pending : (added.store .blocksProcessing).rows = [row] := by
    simp [added, KeyedTable.rows_insert_of_not_has (none _), indexed.noBlocks]
  refine ⟨added, others, indexed.noJobs, ?_, ?_⟩
  · rw [Db.addBlock_run built (none _)]
    rw [Db.blocksProcessing_run _ _ rowOf pending (itemWork_of_built built arrives listed)]
    · rw [others _ (by decide)]
      exact indexed.blocks
    · rw [others _ (by decide)]
      exact indexed.stored
  · rintro key ⟨other, member, rfl⟩
    rw [pending, List.mem_singleton] at member
    rw [member]
    exact rowOf.docId_eq

theorem not_has_pending (key : Json) : ¬ (process.store .transactionsProcessing).Has key := by
  simp [KeyedTable.Has, indexed.noRows]

theorem streamed_known {time : Int} {row : Json}
    (member : row ∈ blockStream platform chain number time) :
    Db.IsKnownRow number (process.store .transactions) row := by
  obtain ⟨typed, known⟩ := indexed.streamed time row member
  refine ⟨?_, typed, known⟩
  unfold blockStream at member
  split at member
  · exact streamRows_isRowOf row member
  · simp at member

/-- The last step of a delivery, once the jobs have worked on a list of
transactions. -/
theorem redelivered_of_worked {worked : Process} {time : Int} (prevBid : Nat)
    (same : ∀ table ∈ [TableName.blocks, .transactions, .transactionsState],
      worked.store table = process.store table)
    (wallets : worked.store .wallets =
      (blockUpdates chain number time).foldl updatedWallets (process.store .wallets))
    (noBlocks : (worked.store .blocksProcessing).rows = [])
    (inserted : worked.store .transactionsProcessing =
      (process.store .transactionsProcessing).insertMany
        (blockStream platform chain number time)) :
    AfterRedelivery platform chain number time prevBid process
      ((Db.transactionsProcessing prevBid).run Process.exec worked).2 := by
  obtain ⟨count, counted⟩ := indexed.counted
  rw [← Db.transactionHistoryState_congr (same .transactionsState (by simp))] at counted
  have known : ∀ row ∈ (worked.store .transactionsProcessing).rows,
      Db.IsKnownRow number (worked.store .transactions) row := by
    intro row member
    rw [inserted] at member
    rw [same .transactions (by simp)]
    rcases KeyedTable.mem_of_mem_insertMany member with old | new
    · simp [indexed.noRows] at old
    · exact indexed.streamed_known new
  have empty : (worked.store .transactionsProcessing).rows = [] ↔
      blockStream platform chain number time = [] := by
    rw [inserted]
    constructor
    · intro none
      apply List.eq_nil_iff_forall_not_mem.mpr
      intro row member
      obtain ⟨other, otherMem, -⟩ := KeyedTable.has_insertMany.mpr
        (.inr ⟨row, member, rfl⟩ : (process.store .transactionsProcessing).Has (docId row) ∨ _)
      simp [none] at otherMem
    · intro none
      rw [none, KeyedTable.insertMany_nil]
      exact indexed.noRows
  obtain ⟨others, pending⟩ := Db.transactionsProcessing_known prevBid counted known
  refine ⟨fun table member => ?_, ?_, ?_, ?_⟩
  · rw [others table (by rintro rfl; simp at member), same table member]
  · rw [others _ (by decide), wallets]
  · rw [others _ (by decide), noBlocks]
  · rw [pending, empty]

/-- A block with a list of transactions, after the pass of
`blocks_processing`. -/
theorem redelivered_of_list {added : Process} {time : Int} {list : List Json} (prevBid : Nat)
    (others : ∀ table ≠ .blocksProcessing, added.store table = process.store table)
    (noJobs : added.waiting = [])
    (erased : ((added.store .blocksProcessing).erase (.str (toString number))).rows = [])
    (listed : (chain number).json.find? "transactions" = some (.arr list)) :
    let queued := ((Db.addTransactions (.arr list) number time).run Process.exec added).2
    let passed := queued.withTable .blocksProcessing
      ((queued.store .blocksProcessing).erase (.str (toString number)))
    AfterRedelivery platform chain number time prevBid process
      ((Db.transactionsProcessing prevBid).run Process.exec
        (passed.waiting.foldl (workOn platform) passed)).2 := by
  intro queued passed
  have updatesEq : blockUpdates chain number time = jobUpdates number time list := by
    rw [blockUpdates, listed]
  have streamEq : blockStream platform chain number time =
      streamRows platform number time list := by
    rw [blockStream, listed]
  have queuedEq : queued = { added with
      waiting := added.waiting ++ [.wallet (.arr list) number time] ++
        [.stream (.arr list) number time] } := rfl
  have jobs : passed.waiting = [.wallet (.arr list) number time,
      .stream (.arr list) number time] := by
    simp [passed, queuedEq, noJobs]
  have passedStore : passed.store = Function.update added.store .blocksProcessing
      ((added.store .blocksProcessing).erase (.str (toString number))) := rfl
  have formed : passed.Formed := by
    rw [Process.Formed, passedStore, Function.update_of_ne (by decide), others _ (by decide)]
    exact indexed.formed
  rw [jobs, List.foldl_cons, List.foldl_cons, List.foldl_nil]
  let first := workOn platform passed (.wallet (.arr list) number time)
  have firstStore : first.store = Function.update passed.store .wallets
      ((jobUpdates number time list).foldl updatedWallets (passed.store .wallets)) :=
    store_workOn_wallet formed list time
  have stillNone : first.store .transactionsProcessing =
      process.store .transactionsProcessing := by
    rw [firstStore, Function.update_of_ne (by decide), passedStore,
      Function.update_of_ne (by decide), others _ (by decide)]
  have unmarked : ¬ (first.store .transactionsProcessing).Has (.str (toString number)) := by
    rw [stillNone]
    exact indexed.not_has_pending _
  have lastStore : (workOn platform first (.stream (.arr list) number time)).store =
      Function.update first.store .transactionsProcessing
        ((first.store .transactionsProcessing).insertMany
          (streamRows platform number time list)) :=
    store_workOn_stream unmarked list time
  apply indexed.redelivered_of_worked
  · intro table member
    have apart : table ≠ .transactionsProcessing ∧ table ≠ .wallets ∧
        table ≠ .blocksProcessing := by
      simp only [List.mem_cons, List.not_mem_nil, or_false] at member
      rcases member with rfl | rfl | rfl <;> decide
    rw [lastStore, Function.update_of_ne apart.1, firstStore, Function.update_of_ne apart.2.1,
      passedStore, Function.update_of_ne apart.2.2, others _ apart.2.2]
  · rw [lastStore, Function.update_of_ne (by decide), firstStore, Function.update_self,
      passedStore, Function.update_of_ne (by decide), others _ (by decide), updatesEq]
  · rw [lastStore, Function.update_of_ne (by decide), firstStore,
      Function.update_of_ne (by decide), passedStore, Function.update_self, erased]
  · rw [lastStore, Function.update_self, stillNone, streamEq]

omit indexed in
theorem markerRow_members (number : Nat) (time : Int) :
    (Db.markerRow number time).find? "id" = some (.str (toString number)) ∧
      (Db.markerRow number time).find? "block-id" = some (.num number) ∧
      (Db.markerRow number time).find? "transaction-type" = some processingType := by
  simp [Db.markerRow, Json.find?_ofMembers, Json.member?_setMember]

/-- A block without a list of transactions: its marker is inserted and dropped
by the next pass. -/
theorem redelivered_of_marker {added : Process} {time : Int} {transactions : Json} (prevBid : Nat)
    (others : ∀ table ≠ .blocksProcessing, added.store table = process.store table)
    (noJobs : added.waiting = [])
    (erased : ((added.store .blocksProcessing).erase (.str (toString number))).rows = [])
    (listed : (chain number).json.find? "transactions" = some transactions)
    (noList : transactions.isArray = false) :
    let queued := ((Db.addTransactions transactions number time).run Process.exec added).2
    let passed := queued.withTable .blocksProcessing
      ((queued.store .blocksProcessing).erase (.str (toString number)))
    AfterRedelivery platform chain number time prevBid process
      ((Db.transactionsProcessing prevBid).run Process.exec
        (passed.waiting.foldl (workOn platform) passed)).2 := by
  intro queued passed
  have noUpdates : blockUpdates chain number time = [] := by
    rw [blockUpdates, listed]
    cases transactions <;> simp_all [Json.isArray]
  have noStream : blockStream platform chain number time = [] := by
    rw [blockStream, listed]
    cases transactions <;> simp_all [Json.isArray]
  obtain ⟨idEq, bidEq, typeEq⟩ := markerRow_members number time
  have isObj := Json.isObject_of_find? idEq
  have queuedEq : queued = added.withTable .transactionsProcessing
      ((added.store .transactionsProcessing).insert (Db.markerRow number time)) := by
    simp only [queued, Db.addTransactions, noList, Bool.false_eq_true, if_false,
      Db.run_insert _ _ isObj]
  have jobs : passed.waiting = [] := by
    simp [passed, queuedEq, noJobs]
  have passedStore (table : TableName) (apart : table ≠ .blocksProcessing)
      (notRows : table ≠ .transactionsProcessing) : passed.store table = process.store table := by
    simp [passed, queuedEq, apart, notRows, others]
  have pending : (passed.store .transactionsProcessing).rows = [Db.markerRow number time] := by
    simp [passed, queuedEq, others,
      KeyedTable.rows_insert_of_not_has (indexed.not_has_pending _), indexed.noRows]
  obtain ⟨count, counted⟩ := indexed.counted
  rw [← Db.transactionHistoryState_congr (passedStore _ (by decide) (by decide))] at counted
  have items : Cursor.ordered "block-id" [Db.markerRow number time] =
      [Db.markerRow number time] := by
    rw [Cursor.ordered, List.filter_cons_of_pos (by simp [bidEq])]
    rfl
  have dropped : disposition prevBid number processingType = .marker := by
    simp [disposition]
  rw [jobs, List.foldl_nil, Db.transactionsProcessing_run counted, pending, items]
  simp only [Db.processTransactions, itemHead_eq idEq bidEq typeEq, dropped, Program.run_bind,
    Db.run_remove, Program.pure_eq_done, Program.run_done]
  refine ⟨?_, ?_, ?_, ?_⟩
  · intro table member
    have apart : table ≠ .transactionsProcessing ∧ table ≠ .blocksProcessing := by
      simp only [List.mem_cons, List.not_mem_nil, or_false] at member
      rcases member with rfl | rfl | rfl <;> decide
    rw [Process.store_withTable, Function.update_of_ne apart.1, passedStore _ apart.2 apart.1]
  · rw [Process.store_withTable, Function.update_of_ne (by decide),
      passedStore _ (by decide) (by decide), noUpdates]
    rfl
  · simpa [passed, queuedEq] using erased
  · simp only [noStream, true_or, iff_true]
    apply List.eq_nil_iff_forall_not_mem.mpr
    intro row member
    rw [Process.store_withTable, Function.update_self, KeyedTable.mem_erase, pending,
      List.mem_singleton] at member
    exact member.2 (member.1 ▸ docId_of_find? idEq)

theorem redelivered {now time : Int}
    (arrives : blockTime platform (chain number).json now = .ok time) (prevBid : Nat) :
    AfterRedelivery platform chain number time prevBid process
      (deliverBlock platform (chain number).json number now prevBid process) := by
  obtain ⟨transactions, listed⟩ := indexed.listed
  obtain ⟨added, others, noJobs, passEq, keys⟩ := indexed.passed arrives listed
  simp only [deliverBlock, passEq]
  have erased : ((added.store .blocksProcessing).erase (.str (toString number))).rows = [] := by
    apply List.eq_nil_iff_forall_not_mem.mpr
    intro row member
    obtain ⟨old, differ⟩ := KeyedTable.mem_erase.mp member
    exact differ (keys _ (KeyedTable.has_of_mem old))
  by_cases isList : transactions.isArray = true
  · obtain ⟨list, rfl⟩ : ∃ list, transactions = .arr list := by
      cases transactions <;> simp_all [Json.isArray]
    exact indexed.redelivered_of_list prevBid others noJobs erased listed
  · exact indexed.redelivered_of_marker prevBid others noJobs erased listed (by simpa using isList)

/-- The wallets that a delivery updates are there, whatever its time. -/
theorem wallet_found {time : Int} {update : WalletUpdate}
    (member : update ∈ blockUpdates chain number time) :
    ∃ row, (process.store .wallets).get? (.str update.address) = some row := by
  obtain ⟨earlier, earlierMem⟩ := List.exists_mem_of_ne_nil times indexed.delivered
  have listed : update.address ∈
      (blockUpdates chain number earlier).map WalletUpdate.address := by
    rw [blockUpdates_addresses earlier time]
    exact List.mem_map_of_mem member
  obtain ⟨other, otherMem, sameAddress⟩ := List.mem_map.mp listed
  obtain ⟨block, -⟩ := indexed.held earlier earlierMem other otherMem
  rw [sameAddress] at block
  cases found : (process.store .wallets).get? (.str update.address) with
  | none => simp [walletList, found] at block
  | some row => exact ⟨row, rfl⟩

theorem wallets_unchanged_iff (time : Int) :
    (blockUpdates chain number time).foldl updatedWallets (process.store .wallets) =
        process.store .wallets ↔
      time ∈ times ∨ blockUpdates chain number time = [] := by
  constructor
  · intro unchanged
    by_contra changes
    obtain ⟨newTime, some⟩ := not_or.mp changes
    -- the entry of the first update is new, and it is kept to the end
    obtain ⟨update, rest, updatesEq⟩ := List.exists_cons_of_ne_nil some
    have member : update ∈ blockUpdates chain number time := by simp [updatesEq]
    obtain ⟨row, found⟩ := indexed.wallet_found member
    obtain ⟨middle, middleFound, -, added⟩ := get?_updatedWallets indexed.formed update found
    obtain ⟨final, finalFound, kept⟩ := get?_foldl_updatedWallets
      (indexed.formed.update update) rest middleFound
    rw [updatesEq, List.foldl_cons] at unchanged
    rw [unchanged, found] at finalFound
    have absent := indexed.once time newTime update member
    rw [walletList_eq_rowList found, Option.some.inj finalFound] at absent
    exact absent (kept (added rfl))
  · rintro (known | none)
    · exact foldl_updatedWallets_eq_self indexed.formed (indexed.held time known)
    · rw [none]
      rfl

/-- The time of a redelivery is one that the entries have exactly if the block
has a time of its own or arrives at one of them. -/
theorem time_mem_iff {now time : Int}
    (arrives : blockTime platform (chain number).json now = .ok time) :
    time ∈ times ↔ ((chain number).json.find? "timestamp").isSome = true ∨ now ∈ times := by
  cases own : (chain number).json.find? "timestamp" with
  | none =>
      obtain rfl : now = time := by simpa [blockTime, own] using arrives
      simp
  | some value =>
      obtain ⟨earlier, member⟩ := List.exists_mem_of_ne_nil times indexed.delivered
      obtain ⟨before, earlierEq⟩ := indexed.timed earlier member
      have same : earlier = time := by
        rw [blockTime, own] at arrives earlierEq
        exact Except.ok.inj (earlierEq.symm.trans arrives)
      simp [← same, member]

end IndexedAt

/-- A block that has been indexed completely is delivered again.  The tables
are as they were and nothing is pending exactly if the wallets have its
entries under the same time or it has none, and the gate of
`transactions_processing` lets its rows through or it has none. -/
theorem redelivery_unchanged_iff {times : List Int} {process : Process}
    (indexed : IndexedAt platform chain number times process) {now time : Int}
    (arrives : blockTime platform (chain number).json now = .ok time) (prevBid : Nat) :
    IndexUnchanged process
        (deliverBlock platform (chain number).json number now prevBid process) ↔
      (((chain number).json.find? "timestamp").isSome = true ∨ now ∈ times ∨
        blockUpdates chain number time = []) ∧
      (prevBid = 0 ∨ sub64 number prevBid ≤ 1 ∨ blockStream platform chain number time = []) := by
  obtain ⟨same, wallets, noBlocks, pending⟩ := indexed.redelivered arrives prevBid
  have walletsKept := indexed.wallets_unchanged_iff time
  rw [← wallets, indexed.time_mem_iff arrives, or_assoc] at walletsKept
  have gate : ((deliverBlock platform (chain number).json number now prevBid process).store
      .transactionsProcessing).rows = [] ↔
        prevBid = 0 ∨ sub64 number prevBid ≤ 1 ∨ blockStream platform chain number time = [] := by
    rw [pending, or_comm, Db.passesGate, or_assoc]
  rw [← walletsKept, ← gate]
  constructor
  · rintro ⟨tables, -, none⟩
    exact ⟨tables .wallets (by simp), none⟩
  · rintro ⟨walletsEq, none⟩
    refine ⟨fun table member => ?_, noBlocks, none⟩
    simp only [List.mem_cons, List.not_mem_nil, or_false] at member
    rcases member with rfl | rfl | rfl | rfl
    · exact same _ (by simp)
    · exact same _ (by simp)
    · exact same _ (by simp)
    · exact walletsEq

/-- Block 1 of the sample chain, delivered once to an empty database. -/
def deliveredOnce : Process :=
  deliverBlock samplePlatform (sampleChain 1).json 1 10 0 (Process.idle Store.empty)

theorem sample_stream (time : Int) :
    ∃ row, blockStream samplePlatform sampleChain 1 time = [row] ∧
      row.find? "id" = some (.str "alice:1:0") ∧
      ∃ type, row.find? "transaction-type" = some type ∧ type ≠ processingType := by
  have listed : (sampleChain 1).json.find? "transactions" = some (.arr [transfer]) := by decide
  have formed := sampleChain_wellFormed 1 [transfer] listed transfer (by simp)
  obtain ⟨row, rowEq, -, idEq, -, typed⟩ :=
    formed.toStreamable.streamRow (show 1 < 2 ^ 64 by decide) time "alice:1:0"
  have keys : findPublicKeys transfer (toString 1) = .ok [("alice", "alice:1:0")] := by decide
  refine ⟨row, ?_, idEq, typed⟩
  rw [blockStream, listed]
  simp only [streamRows, streamTransactions, keys, streamEntries, rowEq]
  rfl

theorem deliveredOnce_indexed : IndexedAt samplePlatform sampleChain 1 [10] deliveredOnce where
  blocks := by
    have built : ∀ row ∈ (deliveredOnce.store .blocks).rows,
        blockRow samplePlatform (sampleChain 1).json 1 10 = .ok row := by decide +kernel
    exact fun row member => ⟨1, 10, built row member⟩
  stored := by
    change (deliveredOnce.store .blocks).Has _
    decide +kernel
  listed := ⟨.arr [transfer], by decide⟩
  delivered := by simp
  timed := by
    intro time member
    rw [List.mem_singleton.mp member]
    exact ⟨10, by decide⟩
  formed := by
    have rows : (deliveredOnce.store .wallets).rows = [Db.fieldRow "alice" (WalletCall.fields
        ⟨1, .ofMembers [("id", .str "alice:1:0"), ("block-id", .num 1), ("digest", .str "0x"),
          ("transaction-type", .str "TransferAssetsTransaction"), ("timestamp", .num 10)]⟩)] := by
      decide +kernel
    intro row member
    rw [rows, List.mem_singleton] at member
    rw [member]
    exact (isWalletRow_fieldRow _ _).1
  held := by
    intro time member
    rw [List.mem_singleton.mp member]
    change ∀ update ∈ _, _ ∈ _ ∧ _ ∈ _
    decide +kernel
  once := by
    intro time newTime update member held
    have addresses : (blockUpdates sampleChain 1 10).map WalletUpdate.address = ["alice"] := by
      decide +kernel
    have own : update.address = "alice" := by
      have listed := List.mem_map_of_mem (f := WalletUpdate.address) member
      rw [blockUpdates_addresses time 10, addresses] at listed
      exact List.mem_singleton.mp listed
    have recorded : ∀ entry ∈ walletList "alice" "transactions" deliveredOnce.store,
        entry.find? "timestamp" = some (.num 10) := by decide +kernel
    rw [own] at held
    have fresh : update.call.entry.find? "timestamp" = some (.num time) := by
      have listed : (sampleChain 1).json.find? "transactions" = some (.arr [transfer]) := by decide
      rw [blockUpdates, listed] at member
      exact find?_timestamp_of_jobUpdates member
    have same : (10 : Int) = time := by simpa [recorded _ held] using fresh
    exact newTime (by simp [same])
  streamed := by
    intro time row member
    obtain ⟨only, streamEq, idEq, typed⟩ := sample_stream time
    rw [streamEq, List.mem_singleton] at member
    rw [member, docId_of_find? idEq]
    exact ⟨typed, by decide +kernel⟩
  counted := ⟨1, by decide +kernel⟩
  noBlocks := by decide +kernel
  noRows := by decide +kernel
  noJobs := by decide +kernel

/-- The block arrives again in the same second, after its own rows. -/
theorem redelivery_unchanged_iff_same_second :
    IndexUnchanged deliveredOnce
      (deliverBlock samplePlatform (sampleChain 1).json 1 10 1 deliveredOnce) := by
  have arrives : blockTime samplePlatform (sampleChain 1).json 10 = .ok 10 := by decide
  apply (redelivery_unchanged_iff deliveredOnce_indexed arrives 1).mpr
  exact ⟨.inr (.inl (by simp)), .inr (.inl (by decide))⟩

/-- The block arrives again a second later: its wallet gets a second entry. -/
theorem redelivery_adds_entry :
    ¬ ∀ (platform : Platform) (chain : Chain) (number : Nat) (times : List Int)
      (process : Process) (now : Int) (prevBid : Nat),
      IndexedAt platform chain number times process →
        IndexUnchanged process
          (deliverBlock platform (chain number).json number now prevBid process) := by
  intro always
  have unchanged := always _ _ _ _ _ 11 1 deliveredOnce_indexed
  have wallets := unchanged.1 .wallets (by simp)
  have one : (walletList "alice" "transactions" deliveredOnce.store).length = 1 := by
    decide +kernel
  have two : (walletList "alice" "transactions" (deliverBlock samplePlatform
      (sampleChain 1).json 1 11 1 deliveredOnce).store).length = 2 := by
    decide +kernel
  simp only [walletList, wallets] at one two
  omega

end MileExplorer
