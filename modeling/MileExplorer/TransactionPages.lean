import MileExplorer.Getters
import MileExplorer.Paging
import MileExplorer.SerialRuns

/-!
# Pages of the transaction stream

The transactions are stored in the order of their serials, so a page of the
history is a page of the table.  Read page by page up to the stored counter
they are the table, except for the moment between the insert of a row and the
update of the counter.
-/

namespace MileExplorer

def historyPage (store : Store) (first limit : Nat) : List Json :=
  (getDataOf (Db.transactionHistory first limit store)).elements

def historyState (store : Store) : Except Exn Nat :=
  (getDataOf (Db.transactionHistoryState store)).getUInt64

/-- The pages one after the other, as long as they begin below the count. -/
def historyPages (store : Store) (limit count : Nat) : List Json :=
  ((List.range count).filter fun page => page * limit < count).flatMap fun page =>
    historyPage store (page * limit) limit

def serialOf (row : Json) : Nat :=
  match row.find? "serial" with
  | some (.num serial) => serial.toNat
  | _ => 0

theorem CountIs.of_historyState {store : Store} {stored count : Nat}
    (counted : CountIs store stored) (stateEq : historyState store = .ok count) :
    count = stored := by
  have yields : (cursor .transactionsState).get "state" store =
      .ok (((store .transactionsState).get? (.str "state")).getD .null) := rfl
  unfold CountIs at counted
  split at counted
  · rename_i absent
    rw [absent] at yields
    have fails : historyState store = .error (.typeError "type must be number, but is array") := by
      simp only [historyState, Db.transactionHistoryState, Cursor.field, yields]
      rfl
    simp [fails] at stateEq
  · rename_i row found
    rw [found] at yields
    have read := Cursor.field_of_find? yields counted
    rw [historyState, Db.transactionHistoryState, read] at stateEq
    simpa [getDataOf, eq_comm] using stateEq

namespace Numbered

variable {store : Store} (numbered : Numbered store)

include numbered

theorem find?_serial {row : Json} (member : row ∈ (store .transactions).rows) :
    row.find? "serial" = some (.num (serialOf row)) ∧
      serialOf row < (store .transactions).rows.length := by
  have listed : row.find? "serial" ∈ serials store := List.mem_map_of_mem member
  obtain ⟨number, below, serialEq⟩ := (numbered.mem_serials _).mp listed
  have same : serialOf row = number := by simp [serialOf, serialEq]
  exact ⟨by rw [serialEq, same], same ▸ below⟩

theorem map_serialOf :
    (store .transactions).rows.map serialOf =
      List.range' 0 (store .transactions).rows.length := by
  let read (serial : Option Json) : Nat :=
    match serial with
    | some (.num serial) => serial.toNat
    | _ => 0
  have composed : (store .transactions).rows.map serialOf = (serials store).map read := by
    rw [serials, List.map_map]
    rfl
  rw [composed, numbered.serials_eq, List.map_map, ← List.range_eq_range']
  exact List.map_id'' (fun number => by simp [read]) _

theorem increasing :
    (store .transactions).rows.Pairwise fun first second => serialOf first < serialOf second := by
  rw [← List.pairwise_map, numbered.map_serialOf]
  exact List.pairwise_lt_range'

/-- The table is in the order of the serials already. -/
theorem ordered_eq :
    Cursor.ordered "serial" (store .transactions).rows = (store .transactions).rows := by
  have all : (store .transactions).rows.filter (fun row => (row.find? "serial").isSome) =
      (store .transactions).rows :=
    List.filter_eq_self.mpr fun row member => by simp [(numbered.find?_serial member).1]
  rw [Cursor.ordered, all]
  refine List.Pairwise.insertionSort_eq (numbered.increasing.imp_of_mem ?_)
  intro first second firstMem secondMem before
  have serialsBefore :
      (Json.num (serialOf first)).sortKey < (Json.num (serialOf second)).sortKey := by
    rw [← not_le, Json.sortKey_num_le]
    omega
  refine Prod.Lex.toLex_le_toLex.mpr (.inl ?_)
  simpa [(numbered.find?_serial firstMem).1, (numbered.find?_serial secondMem).1]
    using serialsBefore

theorem historyPage_eq {first limit : Nat} (bound : first < 2 ^ 64) (fits : limit ≤ 1000)
    (few : (store .transactions).rows.length < 2 ^ 53) :
    historyPage store first limit = pageOf (store .transactions).rows first limit := by
  have selected : historyPage store first limit =
      (Cursor.ordered "serial" (store .transactions).rows).filter
        (Cursor.between.inRange first limit "serial") := rfl
  have sameRows : (store .transactions).rows.filter (Cursor.between.inRange first limit "serial") =
      (store .transactions).rows.filter fun row =>
        first ≤ serialOf row ∧ serialOf row < (first + limit) % 2 ^ 64 := by
    refine List.filter_congr fun row member => ?_
    have small : serialOf row < 2 ^ 53 := (numbered.find?_serial member).2.trans few
    rw [Bool.eq_iff_iff, Cursor.inRange_iff_of_lt (numbered.find?_serial member).1 small]
    simp
  rw [selected, numbered.ordered_eq, sameRows, filter_range_eq numbered.map_serialOf]
  rcases Nat.lt_or_ge (first + limit) (2 ^ 64) with inside | wraps
  · rw [Nat.mod_eq_of_lt inside, show first + limit - max first 0 = limit by omega, Nat.sub_zero]
  · -- a page whose end wraps around begins far behind the last row
    have past : (store .transactions).rows.length ≤ first := by omega
    simp [pageOf, List.drop_eq_nil_of_le past]

theorem mem_historyPage {first limit : Nat} (bound : first < 2 ^ 64) (fits : limit ≤ 1000)
    (few : (store .transactions).rows.length < 2 ^ 53) {row : Json} :
    row ∈ historyPage store first limit ↔ row ∈ (store .transactions).rows ∧
      ∃ serial : Nat, row.find? "serial" = some (.num serial) ∧
        first ≤ serial ∧ serial < first + limit := by
  have filtered := filter_range_eq numbered.map_serialOf first (first + limit)
  rw [Nat.sub_zero, show first + limit - max first 0 = limit by omega] at filtered
  rw [numbered.historyPage_eq bound fits few, ← filtered, List.mem_filter]
  refine and_congr_right fun member => ?_
  have serialEq := (numbered.find?_serial member).1
  simp [serialEq]

theorem historyPages_eq {limit count : Nat} (positive : 1 ≤ limit) (fits : limit ≤ 1000)
    (bound : count < 2 ^ 64) (few : (store .transactions).rows.length < 2 ^ 53) :
    historyPages store limit count =
      (store .transactions).rows.take ((count + limit - 1) / limit * limit) := by
  rw [← flatMap_pageOf, ← filter_mul_lt positive, historyPages]
  refine List.flatMap_congr fun page member => ?_
  have begins : page * limit < count := by simpa using (List.mem_filter.mp member).2
  exact numbered.historyPage_eq (by omega) fits few

/-- The rows of the first pages are those with a serial below their end. -/
theorem take_eq_filter (last : Nat) :
    (store .transactions).rows.take last =
      (store .transactions).rows.filter fun row => serialOf row < last := by
  have filtered := filter_range_eq numbered.map_serialOf 0 last
  simpa [pageOf] using filtered.symm

end Numbered

/-- In every state of every run without restarts a page holds exactly the rows
with a serial in its range, in the order of the serials, and the pages up to
the counter together hold the rows with a serial below the counter, rounded up
to whole pages.  Between two passes these are all rows. -/
theorem transaction_pages_exact {config : StreamConfig}
    (reached : StreamReaches (fun _ => False) streamStart config)
    (few : (config.shared.store .transactions).rows.length < 2 ^ 53) :
    (∀ first limit, first < 2 ^ 64 → 1 ≤ limit → limit ≤ 1000 →
      (historyPage config.shared.store first limit).Pairwise
        (fun first second => serialOf first < serialOf second) ∧
      ∀ row, row ∈ historyPage config.shared.store first limit ↔
        row ∈ (config.shared.store .transactions).rows ∧
          ∃ serial : Nat, row.find? "serial" = some (.num serial) ∧
            first ≤ serial ∧ serial < first + limit) ∧
    (config.shared.store .transactions).rows.Pairwise
      (fun first second => serialOf first < serialOf second) ∧
    ∀ limit count, 1 ≤ limit → limit ≤ 1000 → count < 2 ^ 64 →
      historyState config.shared.store = .ok count →
        historyPages config.shared.store limit count =
          (config.shared.store .transactions).rows.filter
            (fun row => serialOf row < (count + limit - 1) / limit * limit) ∧
        (config.thread.isDone = true →
          historyPages config.shared.store limit count =
            (config.shared.store .transactions).rows) := by
  have safe : ∀ store : Store, False → Counted store := fun _ => False.elim
  obtain ⟨numbered, holds⟩ := stream_holds safe reached
  refine ⟨fun first limit bound positive fits => ⟨?_, fun row => ?_⟩, numbered.increasing,
    fun limit count positive fits bound stateEq => ⟨?_, fun asleep => ?_⟩⟩
  · rw [numbered.historyPage_eq bound fits few]
    exact (numbered.increasing.sublist (List.drop_sublist _ _)).sublist (List.take_sublist _ _)
  · exact numbered.mem_historyPage bound fits few
  · rw [numbered.historyPages_eq positive fits bound few, numbered.take_eq_filter]
  · obtain ⟨prevBid, threadEq⟩ := Program.isDone_iff.mp asleep
    rw [threadEq] at holds
    have counted : Counted config.shared.store := holds
    rw [numbered.historyPages_eq positive fits bound few, counted.of_historyState stateEq]
    apply List.take_of_length_le
    exact le_pages positive _

def twoRowsRun : List (LoopMove (List Json) Start) :=
  .event [pendingRow "a:1:0" 1 "TransferAssetsTransaction",
    pendingRow "b:1:0" 1 "TransferAssetsTransaction"] :: List.replicate 15 .advance

theorem transaction_pages_exact_two :
    ∃ config, StreamReaches (fun _ => False) streamStart config ∧
      (config.shared.store .transactions).rows.length = 2 ∧
      historyPages config.shared.store 1 2 = (config.shared.store .transactions).rows := by
  obtain ⟨config, reached, finished, two, stateEq⟩ := Reaches.exists_of_runMoves
    streamLoop.step (streamAllowed (fun _ => False)) streamStart twoRowsRun
    (fun config => config.thread.isDone ∧ (config.shared.store .transactions).rows.length = 2 ∧
      historyState config.shared.store = .ok 2)
    (by decide +kernel)
  have exact := transaction_pages_exact reached (by rw [two]; decide)
  exact ⟨config, reached, two,
    (exact.2.2 1 2 (by decide) (by decide) (by decide) stateEq).2 finished⟩

/-- The pass has inserted the row and not yet updated the counter. -/
def uncountedRun : List (LoopMove (List Json) Start) :=
  .event [pendingRow "a:1:0" 1 "TransferAssetsTransaction"] :: List.replicate 7 .advance

theorem transaction_page_missing :
    ¬ ∀ config, StreamReaches (fun _ => False) streamStart config →
      (config.shared.store .transactions).rows.length < 2 ^ 53 →
        ∀ limit count, 1 ≤ limit → limit ≤ 1000 →
          historyState config.shared.store = .ok count →
            historyPages config.shared.store limit count =
              (config.shared.store .transactions).rows := by
  intro always
  obtain ⟨config, reached, one, stateEq⟩ := Reaches.exists_of_runMoves
    streamLoop.step (streamAllowed (fun _ => False)) streamStart uncountedRun
    (fun config => (config.shared.store .transactions).rows.length = 1 ∧
      historyState config.shared.store = .ok 0)
    (by decide +kernel)
  have pages := always config reached (by rw [one]; decide) 1 0 (by decide) (by decide) stateEq
  have none : (config.shared.store .transactions).rows = [] := pages.symm
  simp [none] at one

end MileExplorer
