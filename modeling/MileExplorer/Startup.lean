import MileExplorer.StreamThreads

/-!
# The migration in the indexer

What a start of the indexer needs of the tables it finds.  The queued jobs are
gone, and the flush may remove pending rows; the transactions of a stored
block survive if they are stored, pending outside the range of the flush, or
will be looked at again because the block is pending or is the one with which
the fetcher begins.
-/

namespace MileExplorer

variable {platform : Platform} {chain : Chain}

/-- A start on these tables loses the transactions of no stored block. -/
def Recoverable (chain : Chain) (store : Store) : Prop :=
  ∀ number, HasBlock (store .blocks) number →
    (∀ id ∈ chain.ids number, (store .transactions).Has (.str id) ∨
      ∃ row ∈ (store .transactionsProcessing).rows, docId row = .str id ∧
        ¬ Db.Flushes store row) ∨
    HasBlock (store .blocksProcessing) number ∨ (Process.idle store).Closed number

theorem Recoverable.empty : Recoverable chain Store.empty := by
  rintro number ⟨row, member, -⟩
  simp [Store.empty] at member

/-- After the flush the transactions of no stored block are lost. -/
theorem Recoverable.intact {process : Process} {rows : Table}
    (recoverable : Recoverable chain process.store) (unstarted : process.fetcher.first = none)
    (survives : ∀ row ∈ (process.store .transactionsProcessing).rows,
      ¬ Db.Flushes process.store row → row ∈ rows.rows) :
    (process.withTable .transactionsProcessing rows).Intact chain := by
  intro number stored
  rcases recoverable number stored with covered | pending | closed
  · refine .inl (.inr fun id member => ?_)
    rcases covered id member with has | ⟨row, rowMem, idEq, unflushed⟩
    · exact .inl has
    · exact .inr ⟨row, survives row rowMem unflushed, idEq⟩
  · exact .inr (.inl pending)
  · exact .inr (.inr (.inr (.inr (.inl ⟨unstarted, closed⟩))))

theorem flush_intact {process : Process} (recoverable : Recoverable chain process.store)
    (unstarted : process.fetcher.first = none) :
    Db.flush.Holds Process.exec ((indexing platform chain).contract .migrating)
      (fun _ final => final.fetcher.first = none ∧ final.Intact chain) process := by
  refine Db.flush_holds (fun current => current.fetcher.first = none ∧
    Recoverable chain current.store) ?_ ?_ ?_ ⟨unstarted, recoverable⟩
  · rintro current later (rfl : later = current) holds
    exact holds
  · rintro current ⟨stillUnstarted, stillRecoverable⟩
    refine ⟨stillUnstarted, ?_⟩
    have unchanged : current.withTable .transactionsProcessing
        (current.store .transactionsProcessing) = current := by
      simp [Process.withTable]
    rw [← unchanged]
    exact stillRecoverable.intact stillUnstarted fun row member _ => member
  · rintro first second third (rfl : second = first) (rfl : third = second)
      (valid : Valid platform chain third) ⟨stillUnstarted, stillRecoverable⟩
      above positive
    refine ⟨valid.withPending fun row member =>
        valid.pending row (KeyedTable.mem_eraseWhere.mp member).1, ⟨⟨rfl, rfl, rfl⟩, rfl⟩,
      stillUnstarted, stillRecoverable.intact stillUnstarted fun row member unflushed => ?_⟩
    refine KeyedTable.mem_eraseWhere.mpr ⟨member, ?_⟩
    by_contra inRange
    exact unflushed ⟨⟨above, positive⟩, by simpa using inRange⟩

theorem migratingThread_holds (start : Start) {store : Store}
    (recoverable : Recoverable chain store) :
    (Indexer.migratingThread start).program.Holds Process.exec
      ((indexing platform chain).contract .migrating) (indexingPost chain .migrating)
      (Process.idle store) := by
  refine (Db.migration_holds (fun current => current.fetcher.first = none ∧
    Recoverable chain current.store) ?_ ?_ start.indexerVersion start.now
    (fun current holds => flush_intact holds.2 holds.1) ⟨rfl, recoverable⟩).bind ?_
  · rintro current later (rfl : later = current) holds
    exact holds
  · rintro current rows (valid : Valid platform chain current) holds
    have same : SameIndex current (current.withTable .metadata rows) :=
      ⟨rfl, rfl, rfl, rfl, rfl, rfl, rfl⟩
    exact ⟨same.valid valid, same.guarantee platform chain .migrating, holds⟩
  · exact fun _ final holds => ⟨trivial, fun _ => holds⟩

end MileExplorer
