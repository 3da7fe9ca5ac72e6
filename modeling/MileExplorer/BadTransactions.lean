import MileExplorer.Chain
import MileExplorer.SerialRuns
import MileExplorer.StreamRows
import MileExplorer.WalletRecords

/-!
# Blocks with transactions that throw

The stream job builds the rows of a whole block before it inserts any, and the
wallet job goes from one transaction to the next: neither catches what a
transaction throws.  A bad transaction takes all rows of its block with it, and
the wallet entries of everything that comes after it.
-/

namespace MileExplorer

variable {platform : Platform} {blockId : Nat} {time : Int} {process : Process}
  {transactions : List Json}

/-! ## The stream job -/

def StreamSound (platform : Platform) (blockId : Nat) (time : Int) (trx : Json) : Prop :=
  (streamTransactions platform blockId time [] [trx]).isOk = true

instance (platform : Platform) (blockId : Nat) (time : Int) (trx : Json) :
    Decidable (StreamSound platform blockId time trx) :=
  inferInstanceAs (Decidable (_ = _))

def ownRows (platform : Platform) (blockId : Nat) (time : Int) (trx : Json) : List Json :=
  streamRows platform blockId time [trx]

theorem streamEntries_append (trx : Json) (output : List Json)
    (entries : List (String × String)) :
    streamEntries platform blockId time trx output entries =
      (streamEntries platform blockId time trx [] entries).map (output ++ ·) := by
  suffices joins : ∀ trx first second, streamEntries platform blockId time trx (first ++ second)
      entries = (streamEntries platform blockId time trx second entries).map (first ++ ·) by
    simpa using joins trx output []
  induction entries with
  | nil => exact fun _ _ _ => rfl
  | cons head rest ih =>
      intro trx first second
      unfold streamEntries
      cases streamRow platform blockId time head.2 trx with
      | error exception => rfl
      | ok row =>
          simp only [List.append_assoc]
          exact ih row first (second ++ [row])

theorem streamTransactions_cons (output : List Json) (trx : Json) (rest : List Json) :
    streamTransactions platform blockId time output (trx :: rest) =
      streamTransactions platform blockId time [] [trx] >>= fun rows =>
        streamTransactions platform blockId time (output ++ rows) rest := by
  simp only [streamTransactions]
  cases findPublicKeys trx (toString blockId) with
  | error exception => rfl
  | ok entries =>
      dsimp only
      rw [streamEntries_append]
      cases streamEntries platform blockId time trx [] entries with
      | error exception => rfl
      | ok rows => rfl

theorem StreamSound.eq_ok {trx : Json} (sound : StreamSound platform blockId time trx) :
    streamTransactions platform blockId time [] [trx] =
      .ok (ownRows platform blockId time trx) := by
  unfold StreamSound at sound
  unfold ownRows streamRows
  cases built : streamTransactions platform blockId time [] [trx] with
  | error exception => simp [built, Except.isOk, Except.toBool] at sound
  | ok rows => rfl

/-- Either all rows of the block are built or none. -/
theorem streamTransactions_eq_ok {output rows : List Json} :
    streamTransactions platform blockId time output transactions = .ok rows ↔
      (∀ trx ∈ transactions, StreamSound platform blockId time trx) ∧
        rows = output ++ transactions.flatMap (ownRows platform blockId time) := by
  induction transactions generalizing output with
  | nil => simp [streamTransactions, eq_comm]
  | cons trx rest ih =>
      rw [streamTransactions_cons]
      by_cases sound : StreamSound platform blockId time trx
      · rw [sound.eq_ok]
        simp only [bind, Except.bind, ih, List.forall_mem_cons, sound, true_and,
          List.flatMap_cons, List.append_assoc]
      · constructor
        · intro built
          obtain ⟨own, ownEq, -⟩ := bind_eq_ok.mp built
          exact absurd (by rw [StreamSound, ownEq]; rfl) sound
        · rintro ⟨every, -⟩
          exact absurd (every trx (by simp)) sound

theorem mem_streamRows {row : Json} :
    row ∈ streamRows platform blockId time transactions ↔
      (∀ trx ∈ transactions, StreamSound platform blockId time trx) ∧
        ∃ trx ∈ transactions, row ∈ ownRows platform blockId time trx := by
  unfold streamRows
  cases built : streamTransactions platform blockId time [] transactions with
  | error exception =>
      refine iff_of_false (by simp) ?_
      rintro ⟨every, -⟩
      rw [streamTransactions_eq_ok.mpr ⟨every, rfl⟩] at built
      cases built
  | ok rows =>
      obtain ⟨every, rfl⟩ := streamTransactions_eq_ok.mp built
      rw [and_iff_right every, List.nil_append, List.mem_flatMap]

section Marked

variable (marked : (process.store .transactionsProcessing).Has (.str (toString blockId)))

include marked

/-- With the marker of the block pending, every address is skipped. -/
theorem addStreamEntries_marked (trx : Json) (output : List Json)
    (entries : List (String × String)) :
    (Db.addStreamEntries platform blockId time trx output entries).run Process.exec process =
      (.ok output, process) := by
  induction entries with
  | nil => rfl
  | cons head rest ih =>
      simp only [Db.addStreamEntries, Program.run_bind, Db.run_getData, Cursor.count_get, marked,
        if_true]
      exact ih

theorem addStreamTransactions_marked (platform : Platform) (time : Int)
    (transactions : List Json) :
    let ended := (Db.addStreamTransactions platform blockId time [] transactions).run
      Process.exec process
    ended.2 = process ∧ (ended.1 = .ok [] ∨ ∃ exception, ended.1 = .error exception) := by
  induction transactions with
  | nil => exact ⟨rfl, .inl rfl⟩
  | cons trx rest ih =>
      simp only [Db.addStreamTransactions, Db.addStreamTransaction, Program.run_bind]
      cases findPublicKeys trx (toString blockId) with
      | error exception => exact ⟨rfl, .inr ⟨exception, rfl⟩⟩
      | ok entries =>
          simp only [addStreamEntries_marked marked]
          exact ih

theorem streamJob_marked (transactions : List Json) :
    (Db.streamJob platform (.arr transactions) blockId time).run Process.exec process =
      ((), process) := by
  obtain ⟨same, result⟩ := addStreamTransactions_marked marked platform time transactions
  rw [Db.streamJob, Program.run_bind, Json.elements]
  generalize (Db.addStreamTransactions platform blockId time [] transactions).run Process.exec
    process = ended at same result ⊢
  obtain ⟨rows, left⟩ := ended
  obtain rfl : left = process := same
  rcases result with rfl | ⟨exception, rfl⟩
  · rfl
  · rfl

end Marked

theorem has_streamJob {key : Json} :
    (((Db.streamJob platform (.arr transactions) blockId time).run Process.exec process).2.store
        .transactionsProcessing).Has key ↔
      (process.store .transactionsProcessing).Has key ∨
        ¬ (process.store .transactionsProcessing).Has (.str (toString blockId)) ∧
          ∃ row ∈ streamRows platform blockId time transactions, docId row = key := by
  by_cases marked : (process.store .transactionsProcessing).Has (.str (toString blockId))
  · rw [streamJob_marked marked, or_iff_left]
    exact fun unmarked => unmarked.1 marked
  · rw [streamJob_run marked, Process.store_withTable, Function.update_self,
      KeyedTable.has_insertMany, and_iff_right marked]

/-- Every row of a transaction that the stream job could build alone is
pending. -/
def RowsPending (platform : Platform) (blockId : Nat) (time : Int) (transactions : List Json)
    (store : Store) : Prop :=
  ∀ trx ∈ transactions, ∀ row ∈ ownRows platform blockId time trx,
    (store .transactionsProcessing).Has (docId row)

instance (platform : Platform) (blockId : Nat) (time : Int) (transactions : List Json)
    (store : Store) : Decidable (RowsPending platform blockId time transactions store) :=
  inferInstanceAs (Decidable (∀ trx ∈ transactions, _))

theorem rowsPending_iff :
    RowsPending platform blockId time transactions
        ((Db.streamJob platform (.arr transactions) blockId time).run Process.exec
          process).2.store ↔
      (∀ trx ∈ transactions, StreamSound platform blockId time trx) ∧
          ¬ (process.store .transactionsProcessing).Has (.str (toString blockId)) ∨
        RowsPending platform blockId time transactions process.store := by
  simp only [RowsPending, has_streamJob]
  by_cases works : (∀ trx ∈ transactions, StreamSound platform blockId time trx) ∧
      ¬ (process.store .transactionsProcessing).Has (.str (toString blockId))
  · refine iff_of_true ?_ (.inl works)
    intro trx member row rowMem
    exact .inr ⟨works.2, row, mem_streamRows.mpr ⟨works.1, trx, member, rowMem⟩, rfl⟩
  · rw [or_iff_right works]
    apply forall₄_congr
    intro trx _ row _
    apply or_iff_left
    rintro ⟨unmarked, other, otherMem, -⟩
    exact works ⟨(mem_streamRows.mp otherMem).1, unmarked⟩

/-! ## The wallet job -/

theorem blockId_of_walletUpdates {trx : Json} {update : WalletUpdate}
    (member : update ∈ (walletUpdates trx blockId time).1) : update.call.blockId = blockId := by
  unfold walletUpdates stoull at member
  split_ifs at member with small
  · split at member
    · rename_i number entries numberEq _
      rw [← Except.ok.inj numberEq] at member
      exact (mem_entryUpdates member).1
    · simp at member
    · simp at member
  · simp at member

theorem mem_jobUpdates {update : WalletUpdate}
    (member : update ∈ jobUpdates blockId time transactions) :
    ∃ trx ∈ transactions, update ∈ (walletUpdates trx blockId time).1 := by
  induction transactions with
  | nil => simp [jobUpdates] at member
  | cons trx rest ih =>
      unfold jobUpdates at member
      split at member
      · rename_i updates exception madeEq
        exact ⟨trx, by simp, by rw [madeEq]; exact member⟩
      · rename_i updates done madeEq
        rcases List.mem_append.mp member with first | later
        · exact ⟨trx, by simp, by rw [madeEq]; exact first⟩
        · obtain ⟨other, otherMem, made⟩ := ih later
          exact ⟨other, by simp [otherMem], made⟩

/-- Every transaction that does not throw is recorded in its wallets. -/
def EntriesRecorded (blockId : Nat) (time : Int) (transactions : List Json) (store : Store) :
    Prop :=
  ∀ trx ∈ transactions, (walletUpdates trx blockId time).2 = .ok () →
    ∀ update ∈ (walletUpdates trx blockId time).1, HoldsCall update.address store update.call

/-- What a transaction that does not throw adds to its wallets is there before,
or is added before the job ends; and none of its wallets is hidden. -/
def EntriesReached (blockId : Nat) (time : Int) (transactions : List Json) (store : Store) :
    Prop :=
  let made := jobUpdates blockId time transactions
  ∀ trx ∈ transactions, (walletUpdates trx blockId time).2 = .ok () →
    ∀ update ∈ (walletUpdates trx blockId time).1,
      ¬ HiddenIn (store .wallets) update.address made ∧
        (.num update.call.blockId ∈ walletList update.address "blocks" store ∨
          update.address ∈ made.map WalletUpdate.address) ∧
        (update.call.entry ∈ walletList update.address "transactions" store ∨ update ∈ made)

theorem entriesRecorded_iff (formed : process.Formed) :
    EntriesRecorded blockId time transactions
        ((Db.walletJob blockId time transactions).run Process.exec process).2.store ↔
      EntriesReached blockId time transactions process.store := by
  have wallets : ((Db.walletJob blockId time transactions).run Process.exec process).2.store
      .wallets = (jobUpdates blockId time transactions).foldl updatedWallets
        (process.store .wallets) := by
    rw [walletJob_run _ _ _ formed, store_foldl_updateWallet, Function.update_self]
  apply forall₅_congr
  intro trx _ _ update member
  apply holdsCall_foldl_iff formed _ wallets
  intro other otherMem
  obtain ⟨maker, -, made⟩ := mem_jobUpdates otherMem
  rw [blockId_of_walletUpdates made, blockId_of_walletUpdates member]

/-! ## Both jobs of a block -/

/-- The jobs of a block keep what its good transactions give exactly if all of
them are good and no marker of the block is pending, or their rows are pending
already; and if what they add to wallets is there or is added before the first
bad one. -/
theorem neighbours_kept_iff (platform : Platform) (blockId : Nat) (time : Int)
    (transactions : List Json) (formed : process.Formed) :
    RowsPending platform blockId time transactions
          ((Db.streamJob platform (.arr transactions) blockId time).run Process.exec
            process).2.store ∧
        EntriesRecorded blockId time transactions
          ((Db.walletJob blockId time transactions).run Process.exec process).2.store ↔
      ((∀ trx ∈ transactions, StreamSound platform blockId time trx) ∧
            ¬ (process.store .transactionsProcessing).Has (.str (toString blockId)) ∨
          RowsPending platform blockId time transactions process.store) ∧
        EntriesReached blockId time transactions process.store := by
  rw [rowsPending_iff, entriesRecorded_iff formed]

def badTransfer : Json := .ofMembers [("from", .num 5)]

theorem walletUpdates_transfer :
    walletUpdates transfer 1 0 = ([⟨"alice", 1, (.ofMembers [("id", .str "alice:1:0"),
      ("block-id", .num 1), ("digest", .str "0x"),
      ("transaction-type", .str "TransferAssetsTransaction"), ("timestamp", .num 0)])⟩],
        .ok ()) := by
  decide +kernel

/-- The row of the transfer is pending already, and the wallet job comes to it
before the bad transaction. -/
theorem neighbours_kept_iff_first :
    let process := Process.idle (Function.update Store.empty .transactionsProcessing
      (KeyedTable.empty.insert (pendingRow "alice:1:0" 1 "TransferAssetsTransaction")))
    RowsPending samplePlatform 1 0 [transfer, badTransfer]
        ((Db.streamJob samplePlatform (.arr [transfer, badTransfer]) 1 0).run Process.exec
          process).2.store ∧
      EntriesRecorded 1 0 [transfer, badTransfer]
        ((Db.walletJob 1 0 [transfer, badTransfer]).run Process.exec process).2.store := by
  intro process
  have formed : process.Formed := fun row member => absurd member List.not_mem_nil
  apply (neighbours_kept_iff samplePlatform 1 0 [transfer, badTransfer] formed).mpr
  refine ⟨.inr (by decide +kernel), ?_⟩
  intro trx member sound update updateMem
  rcases List.mem_pair.mp member with rfl | rfl
  · rw [walletUpdates_transfer] at updateMem
    rw [List.mem_singleton.mp updateMem]
    refine ⟨by decide +kernel, .inr (by decide +kernel), .inr (by decide +kernel)⟩
  · exact absurd sound (by decide +kernel)

/-- After a bad transaction the transfer is neither in the stream nor in the
wallet of its sender. -/
theorem neighbours_dropped :
    let process := Process.idle Store.empty
    ¬ RowsPending samplePlatform 1 0 [badTransfer, transfer]
        ((Db.streamJob samplePlatform (.arr [badTransfer, transfer]) 1 0).run Process.exec
          process).2.store ∧
      ¬ EntriesRecorded 1 0 [badTransfer, transfer]
        ((Db.walletJob 1 0 [badTransfer, transfer]).run Process.exec process).2.store := by
  intro process
  have formed : process.Formed := fun row member => absurd member List.not_mem_nil
  rw [rowsPending_iff, entriesRecorded_iff formed]
  constructor
  · decide +kernel
  · intro reached
    have own := reached transfer (by simp) (by rw [walletUpdates_transfer])
    rw [walletUpdates_transfer] at own
    obtain ⟨-, -, listed | made⟩ := own _ (List.mem_singleton_self _)
    · exact absurd listed (by decide +kernel)
    · exact absurd made (by decide +kernel)

end MileExplorer
