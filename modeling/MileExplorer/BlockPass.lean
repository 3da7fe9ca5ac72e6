import MileExplorer.Handover

/-!
# One pass of `blocks_processing`

The item loop reads the greatest stored number anew for every pending block,
while it changes that number itself.  Run alone it is a function of the
snapshot: it works on the blocks of a beginning of the list, which ends at the
first block that the gate holds or that makes the iteration throw.
-/

namespace MileExplorer

namespace Db

variable {faults : Site → Bool} {process : Process} {item : Json} {number : Nat}

/-- Reads of the database may fail, writes do not. -/
def FailsReads (faults : Site → Bool) : Prop :=
  ∀ table row, faults (.insert table row) = false ∧ faults (.remove table row) = false ∧
    faults (.update table row) = false

/-- The process after `block_changes` has been called for a pending block. -/
def blockChanges (process : Process) (item : Json) : Process :=
  match itemWork item with
  | .error _ => process
  | .ok (time, transactions) =>
      ((addTransactions transactions (blockOf item) time).run Process.exec process).2

/-- The process after an iteration that stores the block. -/
def moveBlock (process : Process) (item : Json) : Process :=
  let queued := blockChanges process item
  (queued.withTable .blocks ((queued.store .blocks).insert item)).withTable .blocksProcessing
    ((queued.store .blocksProcessing).erase (docId item))

/-- The loop does not end at the block, which comes when `last` is the number
that the gate reads. -/
def Passes (faults : Site → Bool) (last : Nat) (item : Json) : Prop :=
  (itemWork item).isOk = true ∧
    (faults (.gate (toString (blockOf item))) = true ∨ ¬ isForward last (blockOf item))

instance (last : Nat) (item : Json) : Decidable (Passes faults last item) :=
  inferInstanceAs (Decidable (_ ∧ _))

/-- The blocks of a snapshot that a pass works on, if `last` is the number that
the gate reads first. -/
def workedOn (faults : Site → Bool) (last : Nat) : List Json → List Json
  | [] => []
  | item :: rest =>
      if Passes faults last item then item :: workedOn faults (max last (blockOf item)) rest
      else []

/-! ## One iteration -/

/-- The writes of a block's transactions: two jobs, or a marker. -/
theorem run_addTransactions (reads : FailsReads faults) (transactions : Json) (blockId : Nat)
    (time : Int) (process : Process) :
    (addTransactions transactions blockId time).run (Process.execFaulty faults) process =
      ((), if transactions.isArray then
        { process with waiting := process.waiting ++
            [.wallet transactions blockId time, .stream transactions blockId time] }
      else process.withTable .transactionsProcessing
        ((process.store .transactionsProcessing).insert (markerRow blockId time))) := by
  unfold addTransactions
  split_ifs with isArray
  · simp [Process.execFaulty]
  · have works := (reads .transactionsProcessing (toString blockId)).1
    simp only [insert, Program.request, Program.run_ask, Program.run_done, Process.execFaulty,
      works, Bool.false_eq_true, if_false]
    rfl

theorem failsReads_none : FailsReads fun _ => false := fun _ _ => ⟨rfl, rfl, rfl⟩

theorem blockChanges_eq {time : Int} {transactions : Json}
    (work : itemWork item = .ok (time, transactions)) (process : Process) :
    blockChanges process item =
      if transactions.isArray then
        { process with waiting := process.waiting ++
            [.wallet transactions (blockOf item) time, .stream transactions (blockOf item) time] }
      else process.withTable .transactionsProcessing
        ((process.store .transactionsProcessing).insert (markerRow (blockOf item) time)) := by
  rw [blockChanges, work]
  exact congrArg Prod.snd (run_addTransactions failsReads_none transactions (blockOf item) time
    process)

theorem store_blockChanges (process : Process) (item : Json) {table : TableName}
    (other : table ≠ .transactionsProcessing) :
    (blockChanges process item).store table = process.store table := by
  cases work : itemWork item with
  | error exception => rw [blockChanges, work]
  | ok found =>
      obtain ⟨time, transactions⟩ := found
      rw [blockChanges_eq work]
      split_ifs
      · rfl
      · exact Function.update_of_ne other _ _

theorem storeBlock_run (reads : FailsReads faults) (numbered : IsNumbered item number)
    {found : Bool} (isStored : found = true → HasBlock (process.store .blocks) number) :
    (storeBlock item (toString number) found).run (Process.execFaulty faults) process =
      ((), (process.withTable .blocks ((process.store .blocks).insert item)).withTable
        .blocksProcessing ((process.store .blocksProcessing).erase (docId item))) := by
  have removes := (reads .blocksProcessing (toString number)).2.1
  have inserts := (reads .blocks (toString number)).1
  rw [numbered.docId_eq]
  unfold storeBlock
  cases found with
  | true =>
      have known : (process.store .blocks).insert item = process.store .blocks := by
        apply KeyedTable.insert_of_has
        rw [numbered.docId_eq]
        exact isStored rfl
      have same : process.withTable .blocks (process.store .blocks) = process := by
        rw [Process.withTable, Function.update_eq_self]
      rw [known, same]
      simp only [if_true, remove, Program.request, Program.run_ask, Program.run_done,
        Process.execFaulty, removes, Bool.false_eq_true, if_false]
      rfl
  | false =>
      simp only [Bool.false_eq_true, if_false, Program.run_bind, insert, remove, Program.request,
        Program.run_ask, Program.run_done, Process.execFaulty, removes, inserts,
        insertEffect_of_isObject numbered.isObject]
      rfl

/-- One iteration, whichever of its reads fail. -/
theorem processBlock_eq (reads : FailsReads faults) (numbered : IsNumbered item number) :
    (processBlock item number).run (Process.execFaulty faults) process =
      if Passes faults (gateNumber process.store) item then (true, moveBlock process item)
      else (false, process) := by
  have bidEq := numbered.blockOf_eq
  rw [processBlock, Program.run_bind, run_getNumber_faulty]
  simp only [isForward_numberAt, Passes, bidEq]
  by_cases held : faults (.gate (toString number)) = false ∧
      isForward (gateNumber process.store) number
  · have stops : ¬ (faults (.gate (toString number)) = true ∨
        ¬ isForward (gateNumber process.store) number) := by
      rw [held.1]
      exact not_or.mpr ⟨Bool.false_ne_true, not_not.mpr held.2⟩
    rw [if_pos held, if_neg fun both => stops both.2]
    rfl
  · have goesOn : faults (.gate (toString number)) = true ∨
        ¬ isForward (gateNumber process.store) number := by
      by_contra neither
      simp only [not_or, Bool.not_eq_true, not_not] at neither
      exact held neither
    rw [if_neg held, Program.run_bind, run_getData_faulty]
    cases work : itemWork item with
    | error exception => simp [Except.isOk, Except.toBool]
    | ok found =>
        obtain ⟨time, transactions⟩ := found
        have works : (Except.ok (time, transactions) : Except Exn (Int × Json)).isOk = true := rfl
        have changed := run_addTransactions reads transactions number time process
        have changes := blockChanges_eq work process
        rw [bidEq] at changes
        rw [← changes] at changed
        have isStored : ∀ found : Bool, found = decide ((dataAt faults
            (.lookup .blocks (toString number)) ((cursor .blocks).get (toString number))
            process).count "id" > 0) → found = true →
              HasBlock ((blockChanges process item).store .blocks) number := by
          rintro _ rfl found
          rw [store_blockChanges process item (by decide)]
          exact has_of_lookup (of_decide_eq_true found)
        simp only [works, goesOn, and_self, if_true, Program.run_bind, changed,
          storeBlock_run reads numbered (isStored _ rfl)]
        rfl

/-! ## The item loop -/

theorem store_moveBlock (process : Process) (item : Json) :
    (moveBlock process item).store .blocks = (process.store .blocks).insert item ∧
      (moveBlock process item).store .blocksProcessing =
        (process.store .blocksProcessing).erase (docId item) := by
  constructor
  · simp [moveBlock, store_blockChanges]
  · simp [moveBlock, store_blockChanges]

theorem gateNumber_insert {store after : Store} (rows : NumberedRows (store .blocks))
    (numbered : IsNumbered item number)
    (inserted : after .blocks = (store .blocks).insert item) :
    gateNumber after = max (gateNumber store) number := by
  have afterRows : NumberedRows (after .blocks) := inserted ▸ rows.insert numbered
  rcases rows.lastBlockId_cases with ⟨empty, zero⟩ | ⟨last, stored, greatest, lastEq⟩
  · have has (other : Nat) : HasBlock (after .blocks) other ↔
        HasBlock (store .blocks) other ∨ number = other := by
      rw [inserted]
      exact numbered.hasBlock_insert
    rw [show gateNumber store = 0 from zero, Nat.zero_max]
    refine afterRows.lastBlockId_eq ((has number).mpr (.inr rfl)) fun other stored => ?_
    rcases (has other).mp stored with ⟨row, member, -⟩ | same
    · simp [empty] at member
    · exact same.ge
  · obtain ⟨storedAfter, greatestAfter⟩ := numbered.greatest_insert stored greatest
    rw [← inserted] at storedAfter greatestAfter
    rw [show gateNumber store = last from lastEq]
    exact afterRows.lastBlockId_eq storedAfter greatestAfter

/-- The item loop, whichever of its reads fail. -/
theorem processBlocks_eq (reads : FailsReads faults) {items : List Json}
    (rows : NumberedRows (process.store .blocks))
    (numbered : ∀ item ∈ items, IsNumbered item (blockOf item)) :
    (processBlocks items).run (Process.execFaulty faults) process =
      ((), (workedOn faults (gateNumber process.store) items).foldl moveBlock process) := by
  induction items generalizing process with
  | nil => rfl
  | cons item rest ih =>
      have isNumbered := numbered item (by simp)
      rw [processBlocks, isNumbered.index_blockId]
      dsimp only
      rw [Program.run_bind, processBlock_eq reads isNumbered, workedOn]
      by_cases passes : Passes faults (gateNumber process.store) item
      · have stored := (store_moveBlock process item).1
        have moved : NumberedRows ((moveBlock process item).store .blocks) :=
          stored ▸ rows.insert isNumbered
        rw [if_pos passes, if_pos passes, List.foldl_cons,
          ← gateNumber_insert rows isNumbered stored]
        exact ih moved fun other member => numbered other (by simp [member])
      · rw [if_neg passes, if_neg passes]
        rfl

/-- A pass, whichever of its reads fail. -/
theorem blocksProcessing_eq (reads : FailsReads faults)
    (rows : NumberedRows (process.store .blocks))
    (queued : NumberedRows (process.store .blocksProcessing)) :
    blocksProcessing.run (Process.execFaulty faults) process =
      ((), (workedOn faults (gateNumber process.store)
        (if faults (.snapshot .blocksProcessing) then []
          else Cursor.ordered "block-id" (process.store .blocksProcessing).rows)).foldl moveBlock
            process) := by
  rw [blocksProcessing, Program.run_bind, run_getData_faulty]
  dsimp only
  rw [elements_snapshot, snapshot]
  apply processBlocks_eq reads rows
  intro item member
  split_ifs at member
  · simp at member
  · exact queued.numbered (queued.mem_ordered.mp member)

/-! ## The tables after a pass -/

theorem store_foldl_moveBlock (items : List Json) (process : Process) :
    (items.foldl moveBlock process).store .blocks =
        (process.store .blocks).insertMany items ∧
      (items.foldl moveBlock process).store .blocksProcessing =
        items.foldl (fun table item => table.erase (docId item))
          (process.store .blocksProcessing) := by
  induction items generalizing process with
  | nil => exact ⟨rfl, rfl⟩
  | cons item rest ih =>
      obtain ⟨stored, erased⟩ := store_moveBlock process item
      obtain ⟨storedRest, erasedRest⟩ := ih (moveBlock process item)
      rw [List.foldl_cons, List.foldl_cons, storedRest, erasedRest, stored, erased,
        KeyedTable.insertMany_cons]
      exact ⟨rfl, rfl⟩

end Db

end MileExplorer
