import MileExplorer.Indexing
import MileExplorer.SerialNumbering

/-!
# The wallet jobs and the `transactions_processing` loop

Under the discipline of the indexer: a wallet job touches nothing the others
depend on, and the loop removes a pending row only when the transaction is
stored or the row is a marker.
-/

namespace MileExplorer

variable {platform : Platform} {chain : Chain}

/-- The tables of blocks and transactions and the queues are as they were. -/
def SameIndex (before after : Process) : Prop :=
  after.store .blocks = before.store .blocks ∧
    after.store .blocksProcessing = before.store .blocksProcessing ∧
    after.store .transactions = before.store .transactions ∧
    after.store .transactionsProcessing = before.store .transactionsProcessing ∧
    SameQueues before after

namespace SameIndex

variable {before after : Process}

theorem refl (process : Process) : SameIndex process process :=
  ⟨rfl, rfl, rfl, rfl, rfl, rfl, rfl⟩

theorem of_writesOnly {tables : List TableName}
    (apart : ∀ table ∈ [.blocks, .blocksProcessing, .transactions, .transactionsProcessing],
      table ∉ tables) (writes : WritesOnly tables before after) : SameIndex before after :=
  ⟨writes.1 _ (apart _ (by simp)), writes.1 _ (apart _ (by simp)), writes.1 _ (apart _ (by simp)),
    writes.1 _ (apart _ (by simp)), writes.2⟩

theorem known (same : SameIndex before after) (number : Nat) :
    after.Known number ↔ before.Known number := by
  obtain ⟨blocks, pending, -⟩ := same
  simp only [Process.Known, Process.Stored, Process.Pending, blocks, pending]

theorem valid (same : SameIndex before after) (valid : Valid platform chain before) :
    Valid platform chain after := by
  have known := same.known
  obtain ⟨blocks, pendingBlocks, transactions, pending, waiting, running, fetcher⟩ := same
  refine ⟨?_, ?_, ?_, ?_, ?_, ?_⟩
  · rw [blocks]; exact valid.blocks
  · rw [pendingBlocks]; exact valid.pendingBlocks
  · simp only [pending, IsStreamRow, known]; exact valid.pending
  · simp only [transactions, known]; exact valid.stored
  · simp only [waiting, running, known]; exact valid.jobs
  · rw [fetcher]; exact valid.unstarted

theorem grows (same : SameIndex before after) (chain : Chain) : Grows chain before after := by
  obtain ⟨blocks, pendingBlocks, transactions, pending, waiting, running, fetcher⟩ := same
  have covered (id : String) : after.Covered id ↔ before.Covered id := by
    rw [Process.Covered, Process.Covered, transactions, pending]
  refine .of_stream blocks pendingBlocks fetcher ?_ (fun _ id _ => (covered id).mpr) ?_
  · rw [transactions]; exact fun _ has => has
  · intro number
    simp only [Process.Secured, Process.Queued, covered, waiting, running]
    exact fun has => has

variable (platform chain) in
theorem guarantee (same : SameIndex before after) (role : Role) :
    (indexing platform chain).guarantee role before after := by
  have held : BlocksHeld before after :=
    ⟨same.1, fun number has => by rw [Process.Pending, same.2.1]; exact has⟩
  have unstarted : StillUnstarted before after := by
    rw [StillUnstarted, same.2.2.2.2.2.2]; exact fun has => has
  cases role with
  | migrating => exact ⟨same.2.2.2.2, same.1⟩
  | blocks => exact ⟨same.grows chain, unstarted⟩
  | starter => exact ⟨same.grows chain, held⟩
  | _ => exact ⟨same.grows chain, held, unstarted⟩

/-- A program that touches nothing the others depend on. -/
theorem holds {Result : Type} {program : Prog Result} {role : Role} {tables : List TableName}
    (kept : Process → Prop) {process : Process}
    (steps : program.Steps Process.exec (WritesOnly tables))
    (apart : ∀ table ∈ [.blocks, .blocksProcessing, .transactions, .transactionsProcessing],
      table ∉ tables)
    (stable : ∀ before after, (indexing platform chain).rely role before after →
      kept before → kept after)
    (survives : ∀ before after, SameIndex before after → kept before → kept after)
    (initially : kept process) :
    program.Holds Process.exec ((indexing platform chain).contract role)
      (fun _ => kept) process :=
  (steps.mono fun _ _ => of_writesOnly apart).holds (fun before _ same valid =>
      ⟨same.valid (show Valid platform chain before from valid),
        same.guarantee platform chain role⟩)
    stable survives initially

end SameIndex

/-! ## Changes of the transaction tables -/

theorem Valid.withPending {process : Process} (valid : Valid platform chain process)
    {rows : Table}
    (pending : ∀ row ∈ rows.rows, IsStreamRow chain process row ∨ IsMarkerRow chain row) :
    Valid platform chain (process.withTable .transactionsProcessing rows) where
  blocks := valid.blocks
  pendingBlocks := valid.pendingBlocks
  pending := pending
  stored := valid.stored
  jobs := valid.jobs
  unstarted := valid.unstarted

theorem Grows.withPending {process : Process} {rows : Table}
    (covered : ∀ number, ∀ id ∈ chain.ids number, process.Covered id →
      (process.store .transactions).Has (.str id) ∨ rows.Has (.str id)) :
    Grows chain process (process.withTable .transactionsProcessing rows) := by
  have covered' : ∀ number, ∀ id ∈ chain.ids number, process.Covered id →
      (process.withTable .transactionsProcessing rows).Covered id := covered
  refine .of_stream rfl rfl rfl (fun _ has => has) covered' fun number secured => ?_
  exact secured.imp (fun queued => queued) fun all id member =>
    covered' number id member (all id member)

/-- A new row of a known block. -/
theorem Valid.insertTransaction {process : Process}
    (valid : Valid platform chain process) {row : Json} {number : Nat} {id : String}
    (member : id ∈ chain.ids number) (known : process.Known number)
    (idEq : docId row = .str id) :
    Valid platform chain
      (process.withTable .transactions ((process.store .transactions).insert row)) where
  blocks := valid.blocks
  pendingBlocks := valid.pendingBlocks
  pending := valid.pending
  stored other otherMem := by
    rcases KeyedTable.mem_insert.mp otherMem with old | ⟨rfl, -⟩
    · exact valid.stored other old
    · exact ⟨number, id, member, known, idEq⟩
  jobs := valid.jobs
  unstarted := valid.unstarted

theorem Grows.insertTransaction (chain : Chain) (process : Process) (row : Json) :
    Grows chain process
      (process.withTable .transactions ((process.store .transactions).insert row)) := by
  have has (id : Json) (old : (process.store .transactions).Has id) :
      ((process.store .transactions).insert row).Has id := KeyedTable.has_insert.mpr (.inl old)
  have covered (id : String) (old : process.Covered id) :
      (process.withTable .transactions ((process.store .transactions).insert row)).Covered id :=
    old.imp (has _) fun pending => pending
  refine .of_stream rfl rfl rfl has (fun _ id _ => covered id) fun number secured => ?_
  exact secured.imp (fun queued => queued) fun all id member => covered id (all id member)

theorem IsStreamRow.mono {before after : Process} {row : Json} (grows : Grows chain before after)
    (isStream : IsStreamRow chain before row) : IsStreamRow chain after row := by
  obtain ⟨number, id, member, known, rest⟩ := isStream
  exact ⟨number, id, member, grows.known number known, rest⟩

end MileExplorer
