import MileExplorer.Footprints
import MileExplorer.TransactionPages

/-!
# The order of the transaction stream

A pass of `transactions_processing` stores what it has read in the order of
the blocks, so the serials follow the block ids as long as each pass begins
before a row of a later block has been stored.  The gate of the loop compares
a row with the last row looked at only: at `prev_bid` zero it lets every row
through, and the pass that stops at a row moves `prev_bid` to it, so that the
next pass takes a row of any earlier block.
-/

namespace MileExplorer

/-- None of the rows that are still to be stored belongs to a block below that
of a stored one. -/
def NoneBelow (stored : Table) (rows : List Json) : Prop :=
  ∀ row ∈ rows, row.find? "transaction-type" ≠ some processingType →
    ¬ stored.Has (docId row) → ∀ other ∈ stored.rows, blockOf other ≤ blockOf row

instance (stored : Table) (rows : List Json) : Decidable (NoneBelow stored rows) :=
  inferInstanceAs (Decidable (∀ row ∈ rows, _ → _ → ∀ other ∈ stored.rows, _))

theorem NoneBelow.insert {stored : Table} {item row : Json} {rest : List Json}
    (none : NoneBelow stored (item :: rest)) (same : blockOf row = blockOf item)
    (least : ∀ other ∈ rest, blockOf item ≤ blockOf other) :
    NoneBelow (stored.insert row) rest := by
  intro other listed unmarked fresh earlier member
  rcases KeyedTable.mem_insert.mp member with old | ⟨rfl, _⟩
  · apply none other (by simp [listed]) unmarked _ earlier old
    exact fun taken => fresh (KeyedTable.has_insert.mpr (.inl taken))
  · rw [same]
    exact least other listed

structure BlockSorted (store : Store) : Prop where
  sorted : (store .transactions).rows.Pairwise fun first second => blockOf first ≤ blockOf second
  pending : ∀ row ∈ (store .transactionsProcessing).rows, IsPending row

theorem BlockSorted.empty : BlockSorted Store.empty where
  sorted := by simp [Store.empty]
  pending := by simp [Store.empty]

theorem BlockSorted.of_pending {store : Store} (sorted : BlockSorted store) {rows : Table}
    (pending : ∀ row ∈ rows.rows, IsPending row) :
    BlockSorted (Function.update store .transactionsProcessing rows) where
  sorted := by simpa using sorted.sorted
  pending := by simpa using pending

theorem BlockSorted.insert {store : Store} (sorted : BlockSorted store) {row : Json}
    (above : ∀ other ∈ (store .transactions).rows, blockOf other ≤ blockOf row) :
    BlockSorted (Function.update store .transactions ((store .transactions).insert row)) where
  sorted := by
    simp only [Function.update_self]
    by_cases taken : (store .transactions).Has (docId row)
    · rw [KeyedTable.insert_of_has taken]
      exact sorted.sorted
    · rw [KeyedTable.rows_insert_of_not_has taken]
      apply List.pairwise_append.mpr ⟨sorted.sorted, List.pairwise_singleton _ _, _⟩
      intro other member last isLast
      rw [List.mem_singleton.mp isLast]
      exact above other member
  pending := by simpa using sorted.pending

theorem BlockSorted.of_state {before after : Process} (sorted : BlockSorted before.store)
    (writes : WritesOnly [.transactionsState] before after) : BlockSorted after.store where
  sorted := by
    rw [writes.1 .transactions (by decide)]
    exact sorted.sorted
  pending := by
    rw [writes.1 .transactionsProcessing (by decide)]
    exact sorted.pending

/-! ## One pass -/

/-- The stream jobs leave the stored rows alone, and a pass reads the pending
rows only when none of them comes too late. -/
def orderContract : Contract Query Process where
  valid process := BlockSorted process.store
  rely before after := after.store .transactions = before.store .transactions
  guarantee _ _ := True
  admits query process :=
    match query with
    | .read (.snapshot .transactionsProcessing) _ =>
        NoneBelow (process.store .transactions) (process.store .transactionsProcessing).rows
    | _ => True
  relyRefl := fun _ => rfl
  relyTrans := fun _ _ _ first second => second.trans first
  guaranteeRefl := fun _ => trivial

namespace Db

/-- A program that writes the counter only leaves the stored rows alone. -/
theorem stateOnly_holds {Result : Type} {program : Prog Result} {process : Process}
    (steps : program.Steps (Process.execFaulty fun _ => false) (WritesOnly [.transactionsState])) :
    program.Holds Process.exec orderContract
      (fun _ final => final.store .transactions = process.store .transactions) process := by
  apply steps.holds
  · exact fun before after writes sorted => ⟨sorted.of_state writes, trivial⟩
  · exact fun before after moved same => Eq.trans moved same
  · exact fun before after writes same => (writes.1 .transactions (by decide)).trans same
  · rfl

theorem removeListed_holds {process : Process} {site : Site} {id : String}
    {rest : Unit → Prog Nat} {post : Nat → Process → Prop}
    (continues : ∀ final, final.store .transactions = process.store .transactions →
      (rest ()).Holds Process.exec orderContract post final) :
    (remove site .transactionsProcessing id >>= rest).Holds Process.exec orderContract
      post process := by
  apply remove_bind_holds
  intro current moved valid
  refine ⟨valid.of_pending ?_, trivial, continues _ ?_⟩
  · exact fun row member => valid.pending row (KeyedTable.mem_erase.mp member).1
  · have same : current.store .transactions = process.store .transactions := moved
    simpa using same

/-- The item loop keeps the order when the items are in block order and none
of them comes too late, whatever `prev_bid` and the counter are. -/
theorem processTransactions_sorted (items : List Json)
    (pending : ∀ item ∈ items, IsPending item)
    (ascending : items.Pairwise fun first second => blockOf first ≤ blockOf second)
    (prevBid lastCount : Nat) {process : Process}
    (none : NoneBelow (process.store .transactions) items) :
    (processTransactions prevBid lastCount items).Holds Process.exec orderContract
      (fun _ _ => True) process := by
  induction items generalizing prevBid lastCount process with
  | nil => trivial
  | cons item rest ih =>
      obtain ⟨id, bid, type, idEq, bidEq, -, typeEq⟩ := pending item (by simp)
      obtain ⟨least, restAscending⟩ := List.pairwise_cons.mp ascending
      have continues (lastCount : Nat) (final : Process)
          (restNone : NoneBelow (final.store .transactions) rest) :=
        ih (fun other member => pending other (by simp [member])) restAscending bid lastCount
          restNone
      have restNone : NoneBelow (process.store .transactions) rest :=
        fun other member => none other (by simp [member])
      simp only [processTransactions, itemHead_eq idEq bidEq typeEq]
      cases decided : disposition prevBid bid type with
      | forward => trivial
      | marker =>
          apply removeListed_holds
          intro final same
          exact continues lastCount final (same ▸ restNone)
      | take =>
          apply getData_bind_holds
          intro found moved _
          simp only [Cursor.count_get]
          split_ifs with present
          · apply removeListed_holds
            intro final same
            exact continues lastCount final (same.trans moved ▸ restNone)
          · have isObj := Json.isObject_of_find? idEq
            have unmarked : item.find? "transaction-type" ≠ some processingType := by
              rw [typeEq]
              exact fun isMarker => disposition_take decided (Option.some.inj isMarker)
            have fresh : ¬ (process.store .transactions).Has (docId item) := by
              rw [docId_of_find? idEq, ← show _ = _ from moved]
              exact present
            have sameBlock : blockOf (item.set "serial" (.num lastCount)) = blockOf item := by
              simp [blockOf, isObj]
            apply insert_bind_holds (by simp [isObj])
            intro current movedAgain valid
            have same : current.store .transactions = process.store .transactions :=
              Eq.trans movedAgain moved
            refine ⟨valid.insert ?_, trivial, ?_⟩
            · rw [same, sameBlock]
              exact none item (by simp) unmarked fresh
            · apply (stateOnly_holds (updateState_steps id _ bid (by decide))).bind
              intro _ updated updatedSame
              apply removeListed_holds
              intro final finalSame
              apply continues
              rw [finalSame, updatedSame, Process.store_withTable, Function.update_self, same]
              exact none.insert sameBlock least

/-- What the snapshot of a pass lists is in block order. -/
theorem ordered_ascending {rows : List Json} (pending : ∀ row ∈ rows, IsPending row) :
    (Cursor.ordered "block-id" rows).Pairwise
      fun first second => blockOf first ≤ blockOf second := by
  apply (Cursor.ordered_pairwise "block-id" rows).imp_of_mem
  intro first second firstMem secondMem before
  obtain ⟨_, lower, _, -, lowerEq, -, -⟩ := pending first (Cursor.mem_ordered.mp firstMem).1
  obtain ⟨_, upper, _, -, upperEq, -, -⟩ := pending second (Cursor.mem_ordered.mp secondMem).1
  rw [blockOf_eq lowerEq, blockOf_eq upperEq]
  rw [Cursor.rank, Cursor.rank, lowerEq, upperEq, Option.getD_some, Option.getD_some,
    Json.sortKey_num_le] at before
  omega

theorem transactionsProcessing_sorted (prevBid : Nat) (process : Process) :
    (transactionsProcessing prevBid).Holds Process.exec orderContract (fun _ _ => True)
      process := by
  intro current _ valid admitted
  have none : NoneBelow (current.store .transactions)
      (current.store .transactionsProcessing).rows := admitted
  refine ⟨valid, trivial, ?_⟩
  apply (stateOnly_holds (readLastCount_steps (by decide))).bind
  intro lastCount started same
  apply processTransactions_sorted
  · exact fun item member => valid.pending item (Cursor.mem_ordered.mp member).1
  · exact ordered_ascending valid.pending
  · rw [same]
    exact fun item member => none item (Cursor.mem_ordered.mp member).1

end Db

/-! ## Whole runs -/

/-- The loop is about to read the pending rows for a new pass. -/
def readsPending (config : StreamConfig) : Bool :=
  match config.thread with
  | .ask (.read (.snapshot .transactionsProcessing) _) _ => true
  | _ => false

/-- Runs without restarts in which a pass reads the pending rows only when
none of them belongs to a block below that of a stored row. -/
def inTime (config : StreamConfig) : LoopMove (List Json) Start → Prop
  | .event rows => ∀ row ∈ rows, IsPending row
  | .advance => readsPending config = true →
      NoneBelow (config.shared.store .transactions)
        (config.shared.store .transactionsProcessing).rows
  | .restart _ => False

instance (config : StreamConfig) (move : LoopMove (List Json) Start) :
    Decidable (inTime config move) :=
  match move with
  | .event rows => inferInstanceAs (Decidable (∀ row ∈ rows, IsPending row))
  | .advance => inferInstanceAs (Decidable (readsPending config = true → NoneBelow _ _))
  | .restart _ => inferInstanceAs (Decidable False)

theorem inTime.allowed {config : StreamConfig} {move : LoopMove (List Json) Start}
    (permitted : inTime config move) : streamAllowed (fun _ => False) config move := by
  cases move with
  | event rows => exact permitted
  | advance => trivial
  | restart start => exact permitted

/-- Of two stored rows the one of the earlier block has the smaller serial. -/
def SerialsFollowBlocks (store : Store) : Prop :=
  ∀ first ∈ (store .transactions).rows, ∀ second ∈ (store .transactions).rows,
    ∀ lower upper : Nat, first.find? "block-id" = some (.num lower) →
      second.find? "block-id" = some (.num upper) → lower < upper →
        ∃ earlier later : Nat, first.find? "serial" = some (.num earlier) ∧
          second.find? "serial" = some (.num later) ∧ earlier < later

theorem BlockSorted.serialsFollowBlocks {store : Store} (sorted : BlockSorted store)
    (numbered : Numbered store) : SerialsFollowBlocks store := by
  let agree (first second : Json) : Prop :=
    blockOf first < blockOf second → serialOf first < serialOf second
  have both := sorted.sorted.and numbered.increasing
  have forward : (store .transactions).rows.Pairwise agree := by
    apply both.imp
    rintro first second ⟨_, serials⟩ _
    exact serials
  have backward : (store .transactions).rows.Pairwise (flip agree) := by
    apply both.imp
    intro first second ordered less
    omega
  have agrees := List.Pairwise.forall_of_forall_of_flip
    (fun row _ less => absurd less (lt_irrefl _)) forward backward
  intro first firstMem second secondMem lower upper lowerEq upperEq less
  refine ⟨serialOf first, serialOf second, (numbered.find?_serial firstMem).1,
    (numbered.find?_serial secondMem).1, ?_⟩
  apply agrees firstMem secondMem
  rw [blockOf_eq lowerEq, blockOf_eq upperEq]
  exact less

theorem stream_sorted {config : StreamConfig}
    (reached : Reaches streamLoop.step inTime streamStart config) :
    BlockSorted config.shared.store := by
  have initially : orderContract.valid (Process.idle Store.empty) := BlockSorted.empty
  have passes : ∀ prevBid process, orderContract.valid process → True →
      (streamLoop.pass prevBid).Holds Process.exec orderContract (fun _ _ => True) process :=
    fun prevBid process _ _ => Db.transactionsProcessing_sorted prevBid process
  refine (Loop.reaches_holds orderContract initially trivial (fun _ _ _ _ => trivial) ?_ ?_
    passes ?_ reached).1
  · intro current query next permitted threadEq
    unfold orderContract
    dsimp only
    split
    · exact permitted (by simp [readsPending, threadEq])
    · trivial
  · intro current rows permitted sorted
    refine ⟨by simp [orderContract, streamLoop], sorted.of_pending ?_⟩
    intro row member
    rcases KeyedTable.mem_of_mem_insertMany member with old | new
    · exact sorted.pending row old
    · exact permitted row new
  · exact fun _ _ permitted => absurd permitted id

/-- In every state of every run whose passes begin in time, of any two stored
rows the one of the earlier block has the smaller serial. -/
theorem serials_follow_blocks {config : StreamConfig}
    (reached : Reaches streamLoop.step inTime streamStart config) :
    SerialsFollowBlocks config.shared.store := by
  have safe : ∀ store : Store, False → Counted store := fun _ => False.elim
  have unrestarted := reached.mono fun _ _ => inTime.allowed
  exact (stream_sorted reached).serialsFollowBlocks (stream_holds safe unrestarted).1

/-- The rows of block 2 arrive before those of block 1, and a pass begins when
both are there. -/
def crossedRun : List (LoopMove (List Json) Start) :=
  [.event [pendingRow "a:2:0" 2 "TransferAssetsTransaction"],
    .event [pendingRow "b:1:0" 1 "EmissionTransaction"]] ++ List.replicate 16 .advance

theorem serials_follow_blocks_crossed :
    ∃ config, Reaches streamLoop.step inTime streamStart config ∧
      (config.shared.store .transactions).rows.length = 2 ∧
      SerialsFollowBlocks config.shared.store := by
  obtain ⟨config, reached, two⟩ := Reaches.exists_of_runMoves
    streamLoop.step inTime streamStart crossedRun
    (fun config => (config.shared.store .transactions).rows.length = 2) (by decide +kernel)
  exact ⟨config, reached, two, serials_follow_blocks reached⟩

/-- A pass stores the row of block 2 before that of block 1 arrives.  The next
pass stops at the row, and the one after it stores it. -/
def lateRun : List (LoopMove (List Json) Start) :=
  [LoopMove.event [pendingRow "a:2:0" 2 "TransferAssetsTransaction"]] ++
    List.replicate 10 LoopMove.advance ++
    [LoopMove.event [pendingRow "b:1:0" 1 "EmissionTransaction"]] ++
    List.replicate 14 LoopMove.advance

theorem serial_of_late_block :
    ¬ ∀ config, StreamReaches (fun _ => False) streamStart config →
      SerialsFollowBlocks config.shared.store := by
  intro always
  obtain ⟨config, reached, first, firstMem, second, secondMem, lowerEq, upperEq, later, earlier⟩ :=
    Reaches.exists_of_runMoves
      streamLoop.step (streamAllowed (fun _ => False)) streamStart lateRun
      (fun config => ∃ first ∈ (config.shared.store .transactions).rows,
        ∃ second ∈ (config.shared.store .transactions).rows,
          first.find? "block-id" = some (.num 1) ∧ second.find? "block-id" = some (.num 2) ∧
          first.find? "serial" = some (.num 1) ∧ second.find? "serial" = some (.num 0))
      (by decide +kernel)
  obtain ⟨earlierSerial, laterSerial, firstEq, secondEq, less⟩ :=
    always config reached first firstMem second secondMem 1 2 lowerEq upperEq (by decide)
  have isOne : (1 : Int) = earlierSerial := by simpa [later] using firstEq
  have isZero : (0 : Int) = laterSerial := by simpa [earlier] using secondEq
  omega

end MileExplorer
