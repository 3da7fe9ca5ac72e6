import MileExplorer.ConnectableBlocks

/-!
# Passes in which reads fail

A failed read looks like an empty table: `get_number` returns 0 and `get_data`
an empty array.  For the gate of `blocks_processing` a last number of 0 means
that no block is stored yet, and it lets every block through.
-/

namespace MileExplorer

variable {faults : Site → Bool} {process : Process} {item : Json} {number last : Nat}

/-! ## The gate of `blocks_processing` -/

/-- A block that is new in the table is at most one above a block that was
there before. -/
def BoundedInserts (before after : Process) : Prop :=
  ∀ number, HasBlock (after.store .blocks) number → HasBlock (before.store .blocks) number ∨
    ∃ present, HasBlock (before.store .blocks) present ∧ number ≤ present + 1

theorem BoundedInserts.of_same {before after : Process}
    (same : after.store .blocks = before.store .blocks) : BoundedInserts before after :=
  fun _ stored => .inl (same ▸ stored)

structure IsLast (last : Nat) (store : Store) : Prop where
  rows : NumberedRows (store .blocks)
  stored : HasBlock (store .blocks) last
  greatest : ∀ other, HasBlock (store .blocks) other → other ≤ last

theorem IsLast.gateNumber_eq {store : Store} (isLast : IsLast last store) :
    Db.gateNumber store = last :=
  isLast.rows.lastBlockId_eq isLast.stored isLast.greatest

theorem IsLast.insert {store after : Store} (isLast : IsLast last store)
    (numbered : Db.IsNumbered item number)
    (inserted : after .blocks = (store .blocks).insert item) :
    IsLast (max last number) after := by
  obtain ⟨stored, greatest⟩ := numbered.greatest_insert isLast.stored isLast.greatest
  rw [← inserted] at stored greatest
  exact ⟨inserted ▸ isLast.rows.insert numbered, stored, greatest⟩

theorem IsLast.bounded_iff {after : Process} (isLast : IsLast last process.store)
    (numbered : Db.IsNumbered item number)
    (inserted : after.store .blocks = (process.store .blocks).insert item) :
    BoundedInserts process after ↔ number ≤ last + 1 := by
  constructor
  · intro bounded
    have stored : HasBlock (after.store .blocks) number := by
      rw [inserted]
      exact numbered.hasBlock_insert.mpr (.inr rfl)
    rcases bounded number stored with old | ⟨present, isPresent, near⟩
    · exact (isLast.greatest number old).trans (Nat.le_succ last)
    · have := isLast.greatest present isPresent
      omega
  · intro near other stored
    rw [inserted] at stored
    rcases numbered.hasBlock_insert.mp stored with old | rfl
    · exact .inl old
    · exact .inr ⟨last, isLast.stored, near⟩

namespace Db

theorem along_getNumber (site : Site) (cursor : Cursor) (process : Process) :
    (getNumber site cursor).Along (Process.execFaulty faults) BoundedInserts process := by
  refine ⟨.of_same ?_, trivial⟩
  simp only [Process.execFaulty]
  split_ifs <;> rfl

theorem along_getData (site : Site) (cursor : Cursor) (process : Process) :
    (getData site cursor).Along (Process.execFaulty faults) BoundedInserts process := by
  refine ⟨.of_same ?_, trivial⟩
  simp only [Process.execFaulty]
  split_ifs <;> rfl

theorem along_addTransactions (transactions : Json) (blockId : Nat) (time : Int)
    (process : Process) :
    (addTransactions transactions blockId time).Along (Process.execFaulty faults) BoundedInserts
      process := by
  have steps : (addTransactions transactions blockId time).Steps (Process.execFaulty faults)
      (Writes [.transactionsProcessing]) := addTransactions_steps _ _ _ (by decide)
  apply Program.Steps.along
  exact steps.mono fun _ _ writes => .of_same (writes .blocks (by decide))

theorem along_remove (site : Site) (id : String) (process : Process) :
    (remove site .blocksProcessing id).Along (Process.execFaulty faults) BoundedInserts
      process := by
  have steps : (remove site .blocksProcessing id).Steps (Process.execFaulty faults)
      (WritesOnly [.blocksProcessing]) := remove_steps _ _ (by decide)
  apply Program.Steps.along
  exact steps.mono fun _ _ writes => .of_same (writes.1 .blocks (by decide))

/-- The second half of an iteration, in the table with the greatest number
`last`. -/
theorem storeBlock_along (reads : FailsReads faults) (numbered : IsNumbered item number)
    (isLast : IsLast last process.store) (found : Bool) :
    (storeBlock item (toString number) found).Along (Process.execFaulty faults) BoundedInserts
        process ↔ (found = false → number ≤ last + 1) := by
  unfold storeBlock
  cases found with
  | true => simp [along_remove]
  | false =>
      have inserts := (reads .blocks (toString number)).1
      have step : (insert (.insert .blocks (toString number)) .blocks item).Along
          (Process.execFaulty faults) BoundedInserts process ↔ number ≤ last + 1 := by
        simp only [insert, Program.request, Program.along_ask, Program.along_done, and_true]
        apply isLast.bounded_iff numbered
        simp only [Process.execFaulty, inserts, Bool.false_eq_true, if_false,
          insertEffect_of_isObject numbered.isObject, Function.update_self]
      rw [if_neg (by decide), Program.along_bind, step]
      simp [along_remove]

/-- One iteration, in the table with the greatest number `last`. -/
theorem processBlock_along (reads : FailsReads faults) (numbered : IsNumbered item number)
    (isLast : IsLast last process.store) :
    (processBlock item number).Along (Process.execFaulty faults) BoundedInserts process ↔
      (Passes faults last item → number ≤ last + 1) := by
  have bidEq := numbered.blockOf_eq
  rw [processBlock, Program.along_bind, and_iff_right (along_getNumber _ _ _),
    run_getNumber_faulty]
  simp only [isForward_numberAt, isLast.gateNumber_eq, Passes, bidEq]
  by_cases held : faults (.gate (toString number)) = false ∧ isForward last number
  · rw [if_pos held]
    refine iff_of_true trivial ?_
    rintro ⟨-, fails | passes⟩
    · rw [held.1] at fails
      exact absurd fails Bool.false_ne_true
    · exact absurd held.2 passes
  · have goesOn : faults (.gate (toString number)) = true ∨ ¬ isForward last number := by
      by_contra neither
      simp only [not_or, Bool.not_eq_true, not_not] at neither
      exact held neither
    rw [if_neg held, Program.along_bind, and_iff_right (along_getData _ _ _), run_getData_faulty]
    cases work : itemWork item with
    | error exception => simp [Except.isOk, Except.toBool]
    | ok found =>
        obtain ⟨time, transactions⟩ := found
        have changed := run_addTransactions reads transactions number time process
        have changes := blockChanges_eq work process
        rw [bidEq] at changes
        rw [← changes] at changed
        have stillLast : IsLast last (blockChanges process item).store := by
          have same : (blockChanges process item).store .blocks = process.store .blocks :=
            store_blockChanges process item (by decide)
          exact ⟨same ▸ isLast.rows, same ▸ isLast.stored, same ▸ isLast.greatest⟩
        dsimp only
        rw [Program.along_bind, and_iff_right (along_addTransactions _ _ _ _), changed,
          Program.along_bind, storeBlock_along reads numbered stillLast]
        simp only [Program.pure_eq_done, Program.along_done, and_true, goesOn, Except.isOk,
          Except.toBool, forall_const]
        constructor
        · intro near
          by_cases isStored : (dataAt faults (.lookup .blocks (toString number))
              ((cursor .blocks).get (toString number)) process).count "id" > 0
          · exact (isLast.greatest number (has_of_lookup isStored)).trans (Nat.le_succ last)
          · exact near (decide_eq_false isStored)
        · exact fun near _ => near

/-- No block of the list is stored out of order, if `last` is the greatest
number stored before it. -/
def Orderly (faults : Site → Bool) (last : Nat) : List Json → Prop
  | [] => True
  | item :: rest =>
      Passes faults last item →
        blockOf item ≤ last + 1 ∧ Orderly faults (max last (blockOf item)) rest

theorem processBlocks_along (reads : FailsReads faults) {items : List Json}
    (numbered : ∀ item ∈ items, IsNumbered item (blockOf item))
    (isLast : IsLast last process.store) :
    (processBlocks items).Along (Process.execFaulty faults) BoundedInserts process ↔
      Orderly faults last items := by
  induction items generalizing process last with
  | nil => exact Iff.rfl
  | cons item rest ih =>
      have isNumbered := numbered item (by simp)
      rw [processBlocks, isNumbered.index_blockId]
      dsimp only
      rw [Program.along_bind, processBlock_along reads isNumbered isLast,
        processBlock_eq reads isNumbered, isLast.gateNumber_eq, Orderly]
      by_cases passes : Passes faults last item
      · have moved := isLast.insert isNumbered (store_moveBlock process item).1
        have later := ih (fun other member => numbered other (by simp [member])) moved
        simp only [passes, forall_const, if_true, later]
      · simp [passes]

end Db

/-! ## The first block beyond the run -/

/-- The pending row does not belong to the unbroken run that follows on
`last`. -/
def Beyond (last : Nat) (queue : Table) (row : Json) : Prop :=
  ∃ gap, last < gap ∧ gap < blockOf row ∧ ¬ HasBlock queue gap

/-- The first pending row that does not belong to the run. -/
structure FirstBeyond (last : Nat) (queue : Table) (row : Json) : Prop where
  member : row ∈ queue.rows
  beyond : Beyond last queue row
  least : ∀ other ∈ queue.rows, Beyond last queue other → blockOf row ≤ blockOf other

/-- A pass that gets as far as to the row, which is the first beyond the run,
reads the number for its gate. -/
def GateAnswered (faults : Site → Bool) (last : Nat) (queue : Table) : Prop :=
  ∀ row, FirstBeyond last queue row →
    (∀ earlier ∈ queue.rows, blockOf earlier ≤ blockOf row →
      (Db.itemWork earlier).isOk = true) →
    faults (.gate (toString (blockOf row))) = false

theorem beyond_iff {queue : Table} (rows : NumberedRows queue) {row : Json}
    (member : row ∈ queue.rows) :
    Beyond last queue row ↔
      reach last ((Cursor.ordered "block-id" queue.rows).map blockOf) < blockOf row := by
  have sorted : ((Cursor.ordered "block-id" queue.rows).map blockOf).Pairwise (· < ·) :=
    List.pairwise_map.mpr rows.increasing
  constructor
  · rintro ⟨gap, above, below, absent⟩
    by_contra within
    exact absent (rows.mem_map_blockOf.mp (mem_of_le_reach sorted above (by omega)))
  · intro higher
    have further := le_reach last ((Cursor.ordered "block-id" queue.rows).map blockOf)
    have absent := reach_succ_not_mem last sorted
    refine ⟨_, by omega, ?_, fun present => absent (rows.mem_map_blockOf.mpr present)⟩
    refine lt_of_le_of_ne higher fun same => absent ?_
    rw [same]
    exact rows.mem_map_blockOf.mpr (rows.hasBlock_of_mem member)

/-- The loop is orderly exactly if the gate holds the first block beyond the
run, unless the loop ends before it. -/
theorem orderly_iff {items : List Json} (positive : 0 < last)
    (numbered : ∀ item ∈ items, Db.IsNumbered item (blockOf item))
    (sorted : (items.map blockOf).Pairwise (· < ·)) :
    Db.Orderly faults last items ↔
      ∀ item ∈ items, reach last (items.map blockOf) < blockOf item →
        (∀ other ∈ items, reach last (items.map blockOf) < blockOf other →
          blockOf item ≤ blockOf other) →
        (∀ earlier ∈ items, blockOf earlier ≤ blockOf item →
          (Db.itemWork earlier).isOk = true) →
        faults (.gate (toString (blockOf item))) = false := by
  induction items generalizing last with
  | nil => simp [Db.Orderly]
  | cons head rest ih =>
      have small := (numbered head (by simp)).1
      obtain ⟨least, restSorted⟩ := List.pairwise_cons.mp sorted
      have headLeast : ∀ other ∈ head :: rest, blockOf head ≤ blockOf other := by
        intro other member
        rcases List.mem_cons.mp member with rfl | later
        · exact le_rfl
        · exact (least _ (List.mem_map_of_mem later)).le
      rcases near_or_far last sorted with near | far
      · -- The head belongs to the run: the gate lets it through even if it is read.
        have lets : ¬ Db.isForward last (blockOf head) := by
          rw [isForward_iff small]
          omega
        have further := le_reach (max last (blockOf head)) (rest.map blockOf)
        rw [Db.Orderly, List.map_cons, reach_near near]
        by_cases works : (Db.itemWork head).isOk = true
        · have passes : Db.Passes faults last head := ⟨works, .inr lets⟩
          simp only [passes, near, true_and, forall_const]
          rw [ih (by omega) (fun other member => numbered other (by simp [member])) restSorted]
          constructor
          · intro held item member beyond first allWork
            rcases List.mem_cons.mp member with rfl | later
            · omega
            · exact held item later beyond (fun other otherMem => first other (by simp [otherMem]))
                fun earlier earlierMem => allWork earlier (by simp [earlierMem])
          · intro held item member beyond first allWork
            refine held item (by simp [member]) beyond ?_ ?_
            · intro other otherMem otherBeyond
              rcases List.mem_cons.mp otherMem with rfl | later
              · omega
              · exact first other later otherBeyond
            · intro earlier earlierMem below
              rcases List.mem_cons.mp earlierMem with rfl | later
              · exact works
              · exact allWork earlier later below
        · refine iff_of_true (fun passes => absurd passes.1 works) ?_
          intro item member beyond first allWork
          exact absurd (allWork head (by simp) (headLeast item member)) works
      · have beyond := far (blockOf head) (by simp)
        have holds : Db.isForward last (blockOf head) :=
          (isForward_iff small).mpr ⟨positive, beyond⟩
        rw [Db.Orderly, List.map_cons, reach_far far]
        have notNear : ¬ blockOf head ≤ last + 1 := by omega
        simp only [notNear, false_and, imp_false, Db.Passes, holds, not_true, or_false, not_and,
          Bool.not_eq_true]
        constructor
        · intro held item member higher first allWork
          have within := first head (by simp) (by omega)
          have same : blockOf item = blockOf head := le_antisymm within (headLeast item member)
          rw [same]
          exact held (allWork head (by simp) (headLeast item member))
        · intro held works
          refine held head (by simp) (by omega)
            (fun other otherMem _ => headLeast other otherMem) ?_
          intro earlier earlierMem below
          rcases List.mem_cons.mp earlierMem with rfl | later
          · exact works
          · have := least _ (List.mem_map_of_mem later)
            omega

/-- A pass keeps the order exactly if its item loop does. -/
theorem blocksProcessing_along (reads : Db.FailsReads faults)
    (isLast : IsLast last process.store)
    (queue : NumberedRows (process.store .blocksProcessing)) :
    Db.blocksProcessing.Along (Process.execFaulty faults) BoundedInserts process ↔
      faults (.snapshot .blocksProcessing) = true ∨
        Db.Orderly faults last
          (Cursor.ordered "block-id" (process.store .blocksProcessing).rows) := by
  rw [Db.blocksProcessing, Program.along_bind, and_iff_right (Db.along_getData _ _ _),
    Db.run_getData_faulty]
  dsimp only
  rw [Db.elements_snapshot, Db.snapshot]
  by_cases fails : faults (.snapshot .blocksProcessing) = true
  · simp [fails, Db.processBlocks]
  · rw [if_neg fails, or_iff_right fails]
    exact Db.processBlocks_along reads
      (fun item member => queue.numbered (queue.mem_ordered.mp member)) isLast

/-- A pass in which reads fail stores no block out of order exactly if its
snapshot fails, or the gate of the first block beyond the run that follows on
the stored ones is answered or not reached. -/
theorem gate_closed_iff (reads : Db.FailsReads faults) (positive : 0 < last)
    (isLast : IsLast last process.store)
    (queue : NumberedRows (process.store .blocksProcessing)) :
    Db.blocksProcessing.Along (Process.execFaulty faults) BoundedInserts process ↔
      faults (.snapshot .blocksProcessing) = true ∨
        GateAnswered faults last (process.store .blocksProcessing) := by
  rw [blocksProcessing_along reads isLast queue, orderly_iff positive
    (fun item member => queue.numbered (queue.mem_ordered.mp member))
    (List.pairwise_map.mpr queue.increasing)]
  refine or_congr_right ⟨fun held row first allWork => ?_, ?_⟩
  · refine held row (queue.mem_ordered.mpr first.member)
      ((beyond_iff queue first.member).mp first.beyond) ?_ ?_
    · intro other member higher
      have inQueue := queue.mem_ordered.mp member
      exact first.least other inQueue ((beyond_iff queue inQueue).mpr higher)
    · exact fun earlier member => allWork earlier (queue.mem_ordered.mp member)
  · intro answered item member higher least allWork
    have inQueue := queue.mem_ordered.mp member
    refine answered item ⟨inQueue, (beyond_iff queue inQueue).mpr higher, ?_⟩ ?_
    · intro other otherMem beyond
      exact least other (queue.mem_ordered.mpr otherMem) ((beyond_iff queue otherMem).mp beyond)
    · exact fun earlier earlierMem => allWork earlier (queue.mem_ordered.mpr earlierMem)

theorem StoresInterval.isLast {first : Nat} {store : Store}
    (interval : StoresInterval first last store) : IsLast last store :=
  ⟨interval.rows, (interval.exactly last).mpr ⟨interval.nonempty, le_rfl⟩,
    fun other stored => ((interval.exactly other).mp stored).2⟩

/-- A failed gate for block 7, which belongs to the run, does no harm. -/
theorem gate_closed_iff_run :
    let faults : Site → Bool := fun site => site = .gate "7"
    Db.FailsReads faults ∧ IsLast 6 gapProcess.store ∧
      NumberedRows (gapProcess.store .blocksProcessing) ∧
      Db.blocksProcessing.Along (Process.execFaulty faults) BoundedInserts gapProcess := by
  intro faults
  have reads : Db.FailsReads faults := fun _ _ => ⟨rfl, rfl, rfl⟩
  have isLast := gapProcess_interval.isLast
  have queue := gapProcess_queued.rows
  refine ⟨reads, isLast, queue, (gate_closed_iff reads (by decide) isLast queue).mpr (.inr ?_)⟩
  rintro row ⟨member, ⟨gap, above, below, absent⟩, -⟩ -
  have notSeven : toString (blockOf row) ≠ toString 7 := by
    intro same
    have := toString_injective same
    omega
  exact decide_eq_false fun same => notSeven (Site.gate.inj same)

/-- The gate for block 9 is not answered: the block is stored while 7 is the
greatest number. -/
theorem gate_opened_by_failed_read :
    ¬ Db.blocksProcessing.Along (Process.execFaulty fun site => site = .gate "9") BoundedInserts
      gapProcess := by
  have reads : Db.FailsReads fun site => site = .gate "9" := fun _ _ => ⟨rfl, rfl, rfl⟩
  have items : Cursor.ordered "block-id" (gapProcess.store .blocksProcessing).rows =
      [Db.pendingBlock 7, Db.pendingBlock 9] := by
    decide +kernel
  rw [blocksProcessing_along reads gapProcess_interval.isLast gapProcess_queued.rows, items]
  rintro (failed | orderly)
  · simp at failed
  · obtain ⟨-, later⟩ := orderly (by decide +kernel)
    obtain ⟨near, -⟩ := later (by decide +kernel)
    revert near
    decide +kernel

end MileExplorer
