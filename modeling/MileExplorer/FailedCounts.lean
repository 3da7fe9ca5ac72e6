import MileExplorer.BlockPass
import MileExplorer.StreamPass

/-!
# Passes of the transaction loop in which reads fail

A count that cannot be read is taken for a missing one: the pass resets the
stored counter and numbers its rows from zero.  The reset itself begins with a
read, and so does every update of the counter after a row; what a pass does to
the numbering depends on which of these fail together.
-/

namespace MileExplorer

variable {faults : Site → Bool} {process : Process} {least lastCount : Nat}

/-! ## What must not happen -/

def CountAtLeast (least : Nat) (store : Store) : Prop :=
  ∃ (row : Json) (count : Nat), (store .transactionsState).get? (.str "state") = some row ∧
    row.find? "count" = some (.num count) ∧ least ≤ count

/-- The count has not fallen below `least`, and no row is new in the table with
a smaller serial. -/
structure KeepsNumbering (least : Nat) (before after : Process) : Prop where
  counted : CountAtLeast least after.store
  numbered : ∀ row ∈ (after.store .transactions).rows, row ∉ (before.store .transactions).rows →
    ∃ serial : Nat, row.find? "serial" = some (.num serial) ∧ least ≤ serial

theorem CountAtLeast.congr {first second : Store}
    (same : second .transactionsState = first .transactionsState)
    (counted : CountAtLeast least first) : CountAtLeast least second := by
  obtain ⟨row, count, found, counts, enough⟩ := counted
  exact ⟨row, count, same ▸ found, counts, enough⟩

theorem CountAtLeast.present {store : Store} (counted : CountAtLeast least store) :
    (store .transactionsState).Has (.str "state") := by
  obtain ⟨row, -, found, -⟩ := counted
  exact KeyedTable.has_iff_get?.mpr ⟨row, found⟩

/-- A step that changes neither the transactions nor their count. -/
theorem KeepsNumbering.of_same {before after : Process} (counted : CountAtLeast least before.store)
    (sameState : after.store .transactionsState = before.store .transactionsState)
    (sameRows : after.store .transactions = before.store .transactions) :
    KeepsNumbering least before after where
  counted := counted.congr sameState
  numbered := by
    intro row member absent
    rw [sameRows] at member
    exact absurd member absent

namespace Process

theorem execFaulty_read_process (site : Site) (cursor : Cursor) (process : Process) :
    (execFaulty faults (.read site cursor) process).2 = process := by
  simp only [execFaulty]
  split_ifs <;> rfl

theorem execFaulty_write_of_ok {site : Site} {effect : Store → Except DbError Store}
    {store : Store} (answers : faults site = false) (succeeds : effect process.store = .ok store) :
    execFaulty faults (.write site effect) process =
      (.ok .null, { process with store := store }) := by
  simp [execFaulty, answers, succeeds]

end Process

namespace Db

/-! ## The operations of a pass -/

theorem run_insert_faulty (reads : FailsReads faults) (table : TableName) (row : String)
    {document : Json} (isObj : document.isObject = true) (process : Process) :
    (insert (.insert table row) table document).run (Process.execFaulty faults) process =
      ((), process.withTable table ((process.store table).insert document)) := by
  rw [insert, Program.request, Program.run_ask,
    Process.execFaulty_write_of_ok (reads table row).1 (insertEffect_of_isObject isObj)]
  rfl

theorem run_remove_faulty (reads : FailsReads faults) (table : TableName) (id : String)
    (process : Process) :
    (remove (.remove table id) table id).run (Process.execFaulty faults) process =
      ((), process.withTable table ((process.store table).erase (.str id))) := by
  have succeeds : removeEffect table id process.store =
      .ok (Function.update process.store table ((process.store table).erase (.str id))) := rfl
  rw [remove, Program.request, Program.run_ask,
    Process.execFaulty_write_of_ok (reads table id).2.1 succeeds]
  rfl

/-- The process after `update_state` has found the row. -/
def countedProcess (process : Process) (count blockId : Nat) : Process :=
  process.withTable .transactionsState ((process.store .transactionsState).modify (.str "state")
    fun row => row.merge ((stateRow count blockId).erase "state"))

/-- `update_state` when the row is there is a read and a write, and nothing if
the read fails. -/
theorem updateState_eq (present : (process.store .transactionsState).Has (.str "state"))
    (faults : Site → Bool) (row : String) (count blockId : Nat) :
    ∃ next, updateState row count blockId =
        .ask (.read (.check .transactionsState row) (isEmpty .transactionsState "state")) next ∧
      next (Process.execFaulty faults (.read (.check .transactionsState row)
        (isEmpty .transactionsState "state")) process).1 =
          if faults (.check .transactionsState row) then .done ()
          else .ask (.write (.update .transactionsState row) (updateEffect .transactionsState
            "state" ((stateRow count blockId).erase "state"))) fun _ => .done () := by
  have head : (stateRow count blockId).indexConst "id" >>= Json.getString = .ok "state" := by
    rw [Json.indexConst_of_find? (find?_stateRow_id count blockId)]
    rfl
  have status : isEmpty .transactionsState "state" process.store = .ok (.bool false) := by
    simp [isEmpty, present]
  simp only [updateState, update, head]
  refine ⟨_, rfl, ?_⟩
  cases fails : faults (.check .transactionsState row) with
  | true =>
      simp only [Process.execFaulty, fails, if_true]
      rfl
  | false =>
      simp only [Process.execFaulty, fails, Bool.false_eq_true, if_false, status]
      rfl

theorem execFaulty_updateState (reads : FailsReads faults) (row : String) (count blockId : Nat) :
    Process.execFaulty faults (.write (.update .transactionsState row) (updateEffect
      .transactionsState "state" ((stateRow count blockId).erase "state"))) process =
        (.ok .null, countedProcess process count blockId) :=
  Process.execFaulty_write_of_ok (reads .transactionsState row).2.2 rfl

theorem updateState_run_faulty (present : (process.store .transactionsState).Has (.str "state"))
    (reads : FailsReads faults) (row : String) (count blockId : Nat) :
    (updateState row count blockId).run (Process.execFaulty faults) process =
      ((), if faults (.check .transactionsState row) then process
        else countedProcess process count blockId) := by
  obtain ⟨next, programEq, nextEq⟩ := updateState_eq present faults row count blockId
  rw [programEq, Program.run_ask, nextEq, Process.execFaulty_read_process]
  split_ifs
  · rfl
  · rw [Program.run_ask, execFaulty_updateState reads]
    rfl

theorem countAtLeast_countedProcess (counted : CountAtLeast least process.store)
    (count blockId bound : Nat) :
    CountAtLeast bound (countedProcess process count blockId).store ↔ bound ≤ count := by
  obtain ⟨row, old, found, -, -⟩ := counted
  obtain ⟨-, rowId⟩ := KeyedTable.get?_eq_some.mp found
  obtain ⟨members, rfl⟩ := exists_members_of_docId (by simp [rowId] : docId row ≠ .null)
  obtain ⟨counts, keeps⟩ := merge_stateRow members count blockId
  have foundNow : ((countedProcess process count blockId).store .transactionsState).get?
      (.str "state") =
        some ((Json.obj members).merge ((stateRow count blockId).erase "state")) := by
    rw [countedProcess, Process.store_withTable, Function.update_self]
    exact KeyedTable.get?_modify_self found keeps
  constructor
  · rintro ⟨stored, number, storedEq, numberEq, enough⟩
    rw [foundNow] at storedEq
    obtain rfl := Option.some.inj storedEq
    rw [counts] at numberEq
    have same : count = number := by simpa using numberEq
    omega
  · intro enough
    exact ⟨_, count, foundNow, counts, enough⟩

theorem updateState_along (reads : FailsReads faults) (counted : CountAtLeast least process.store)
    (row : String) (count blockId : Nat) :
    (updateState row count blockId).Along (Process.execFaulty faults) (KeepsNumbering least)
        process ↔ (faults (.check .transactionsState row) = false → least ≤ count) := by
  obtain ⟨next, programEq, nextEq⟩ := updateState_eq counted.present faults row count blockId
  have still : KeepsNumbering least process process := .of_same counted rfl rfl
  rw [programEq, Program.along_ask, nextEq, Process.execFaulty_read_process, and_iff_right still]
  cases faults (.check .transactionsState row) with
  | true => simp
  | false =>
      rw [if_neg Bool.false_ne_true, Program.along_ask, execFaulty_updateState reads,
        and_iff_left (Program.along_done _ _), imp_iff_right rfl]
      constructor
      · intro keeps
        exact (countAtLeast_countedProcess counted count blockId least).mp keeps.counted
      · intro enough
        refine ⟨(countAtLeast_countedProcess counted count blockId least).mpr enough, ?_⟩
        intro other member absent
        simp only [countedProcess, Process.store_withTable, ne_eq, reduceCtorEq,
          not_false_eq_true, Function.update_of_ne] at member
        exact absurd member absent

end Db

/-! ## The rows a pass numbers -/

/-- The row is no marker, and the pass does not find its transaction. -/
def TakenForNew (faults : Site → Bool) (stored : Table) (row : Json) : Prop :=
  row.find? "transaction-type" ≠ some processingType ∧
    (faults (.lookup .transactions (keyText row)) = true ∨ ¬ stored.Has (docId row))

instance (faults : Site → Bool) (stored : Table) (row : Json) :
    Decidable (TakenForNew faults stored row) :=
  inferInstanceAs (Decidable (_ ∧ _))

/-- The rows that the pass takes for new ones, one count for each. -/
def takenForNew (faults : Site → Bool) (stored : Table) (rows : List Json) : List Json :=
  rows.filter fun row => TakenForNew faults stored row

/-- Counting the rows taken for new from `lastCount` on, no row that is really
new and no counter that is really written gets less than `least`. -/
def CountsFrom (faults : Site → Bool) (stored : Table) (least lastCount : Nat)
    (rows : List Json) : Prop :=
  ∀ position row, (takenForNew faults stored rows)[position]? = some row →
    (¬ stored.Has (docId row) → least ≤ lastCount + position) ∧
      (faults (.check .transactionsState (keyText row)) = false →
        least ≤ lastCount + position + 1)

section CountsFrom

variable {stored : Table} {item : Json} {rest : List Json}

theorem countsFrom_nil : CountsFrom faults stored least lastCount [] := by
  intro position row found
  simp [takenForNew] at found

theorem countsFrom_of_le (enough : least ≤ lastCount) (rows : List Json) :
    CountsFrom faults stored least lastCount rows := by
  intro position row _
  exact ⟨fun _ => by omega, fun _ => by omega⟩

theorem countsFrom_skip (known : ¬ TakenForNew faults stored item) :
    CountsFrom faults stored least lastCount (item :: rest) ↔
      CountsFrom faults stored least lastCount rest := by
  have same : takenForNew faults stored (item :: rest) = takenForNew faults stored rest := by
    rw [takenForNew, List.filter_cons_of_neg (by simpa using known)]
    rfl
  rw [CountsFrom, same, CountsFrom]

theorem countsFrom_cons (isNew : TakenForNew faults stored item) :
    CountsFrom faults stored least lastCount (item :: rest) ↔
      ((¬ stored.Has (docId item) → least ≤ lastCount) ∧
        (faults (.check .transactionsState (keyText item)) = false → least ≤ lastCount + 1)) ∧
      CountsFrom faults stored least (lastCount + 1) rest := by
  have split : takenForNew faults stored (item :: rest) =
      item :: takenForNew faults stored rest := by
    rw [takenForNew, List.filter_cons_of_pos (by simpa using isNew)]
    rfl
  rw [CountsFrom, split, CountsFrom]
  constructor
  · intro counts
    refine ⟨counts 0 item rfl, ?_⟩
    intro position row found
    have later := counts (position + 1) row found
    rwa [show lastCount + (position + 1) = lastCount + 1 + position by omega] at later
  · rintro ⟨first, later⟩ position row found
    cases position with
    | zero =>
        obtain rfl : item = row := by simpa using found
        exact first
    | succ position =>
        have counts := later position row found
        rwa [show lastCount + 1 + position = lastCount + (position + 1) by omega] at counts

theorem countsFrom_insert {row : Json} (apart : ∀ other ∈ rest, docId other ≠ docId row) :
    CountsFrom faults (stored.insert row) least lastCount rest ↔
      CountsFrom faults stored least lastCount rest := by
  have sameHas : ∀ other ∈ rest,
      ((stored.insert row).Has (docId other) ↔ stored.Has (docId other)) := by
    intro other member
    rw [KeyedTable.has_insert, or_iff_left (Ne.symm (apart other member))]
  have same : takenForNew faults (stored.insert row) rest = takenForNew faults stored rest := by
    apply List.filter_congr
    intro other member
    apply decide_eq_decide.mpr
    rw [TakenForNew, TakenForNew, sameHas other member]
  rw [CountsFrom, CountsFrom, same]
  apply forall_congr'
  intro position
  apply forall_congr'
  intro other
  apply imp_congr_right
  intro found
  rw [sameHas other (List.mem_of_mem_filter (List.mem_of_getElem? found))]

end CountsFrom

/-! ## The item loop -/

namespace Db

theorem getData_along (counted : CountAtLeast least process.store) (site : Site)
    (cursor : Cursor) :
    (getData site cursor).Along (Process.execFaulty faults) (KeepsNumbering least) process := by
  rw [getData, Program.request, Program.along_ask, Process.execFaulty_read_process]
  exact ⟨.of_same counted rfl rfl, trivial⟩

theorem removePending_along (counted : CountAtLeast least process.store) (id : String) :
    (remove (.remove .transactionsProcessing id) .transactionsProcessing id).Along
      (Process.execFaulty faults) (KeepsNumbering least) process := by
  have steps : (remove (.remove .transactionsProcessing id) .transactionsProcessing id).Steps
      (Process.execFaulty faults) (WritesOnly [.transactionsProcessing]) :=
    remove_steps _ _ (by decide)
  have writes := (steps.1 process).1
  exact ⟨.of_same counted (writes _ (by decide)) (writes _ (by decide)), trivial⟩

/-- A row that is really new must not get less than `least`. -/
theorem insertRow_along (reads : FailsReads faults) (counted : CountAtLeast least process.store)
    {item : Json} (isObj : item.isObject = true) (id : String) :
    (insert (.insert .transactions id) .transactions (item.set "serial" (.num lastCount))).Along
        (Process.execFaulty faults) (KeepsNumbering least) process ↔
      (¬ (process.store .transactions).Has (docId item) → least ≤ lastCount) := by
  have newObj : (item.set "serial" (.num lastCount)).isObject = true := by simp [isObj]
  have serialEq : (item.set "serial" (.num lastCount)).find? "serial" = some (.num lastCount) := by
    simp [isObj]
  have keyEq := docId_set_serial item (.num lastCount)
  rw [insert, Program.request, Program.along_ask, Process.execFaulty_write_of_ok
    (reads .transactions id).1 (insertEffect_of_isObject newObj),
    and_iff_left (Program.along_done _ _)]
  constructor
  · intro keeps fresh
    have absent : item.set "serial" (.num lastCount) ∉ (process.store .transactions).rows := by
      intro member
      exact fresh (keyEq ▸ KeyedTable.has_of_mem member)
    obtain ⟨serial, serialIs, enough⟩ := keeps.numbered (item.set "serial" (.num lastCount))
      (by simpa [KeyedTable.mem_insert, keyEq] using .inr fresh) absent
    rw [serialEq] at serialIs
    have same : lastCount = serial := by simpa using serialIs
    omega
  · intro enough
    refine ⟨counted.congr (by simp), ?_⟩
    intro row member absent
    simp only [Function.update_self, KeyedTable.mem_insert, keyEq] at member
    rcases member with old | ⟨rfl, fresh⟩
    · exact absurd old absent
    · exact ⟨lastCount, serialEq, enough fresh⟩

theorem lookup_count (id : String) :
    (dataAt faults (.lookup .transactions id) ((cursor .transactions).get id) process).count
        "id" > 0 ↔
      faults (.lookup .transactions id) = false ∧ (process.store .transactions).Has (.str id) := by
  unfold dataAt
  cases faults (.lookup .transactions id) with
  | true => simp [Json.count, Json.find?]
  | false => simp [Cursor.count_get]

theorem removePending_bind_along (reads : FailsReads faults)
    (counted : CountAtLeast least process.store) (id : String) (rest : Prog Nat) :
    (remove (.remove .transactionsProcessing id) .transactionsProcessing id >>=
        fun _ => rest).Along (Process.execFaulty faults) (KeepsNumbering least) process ↔
      rest.Along (Process.execFaulty faults) (KeepsNumbering least)
        (process.withTable .transactionsProcessing
          ((process.store .transactionsProcessing).erase (.str id))) := by
  rw [Program.along_bind, and_iff_right (removePending_along counted id), run_remove_faulty reads]

/-- The process after the three writes for a row taken for new. -/
def numberedProcess (faults : Site → Bool) (process : Process) (item : Json) (id : String)
    (count blockId : Nat) : Process :=
  let inserted := process.withTable .transactions
    ((process.store .transactions).insert (item.set "serial" (.num count)))
  let updated := if faults (.check .transactionsState id) then inserted
    else countedProcess inserted (count + 1) blockId
  updated.withTable .transactionsProcessing
    ((updated.store .transactionsProcessing).erase (.str id))

theorem numberedProcess_transactions (item : Json) (id : String) (count blockId : Nat) :
    (numberedProcess faults process item id count blockId).store .transactions =
      (process.store .transactions).insert (item.set "serial" (.num count)) := by
  unfold numberedProcess
  split_ifs <;> simp [countedProcess]

theorem countAtLeast_numberedProcess (counted : CountAtLeast least process.store) (item : Json)
    {id : String} (blockId : Nat)
    (enough : faults (.check .transactionsState id) = false → least ≤ lastCount + 1) :
    CountAtLeast least (numberedProcess faults process item id lastCount blockId).store := by
  have inserted : CountAtLeast least (process.withTable .transactions
      ((process.store .transactions).insert (item.set "serial" (.num lastCount)))).store :=
    counted.congr (by simp)
  cases failed : faults (.check .transactionsState id) with
  | true => exact inserted.congr (by simp [numberedProcess, failed])
  | false =>
      have updated := (countAtLeast_countedProcess inserted (lastCount + 1) blockId least).mpr
        (enough failed)
      exact updated.congr (by simp [numberedProcess, failed])

/-- The writes for a row taken for new: its serial counts if it is really new,
and the next count if it is really written. -/
theorem storeRow_bind_along (reads : FailsReads faults)
    (counted : CountAtLeast least process.store) {item : Json} (isObj : item.isObject = true)
    (id : String) (blockId : Nat) (rest : Prog Nat) :
    (do insert (.insert .transactions id) .transactions (item.set "serial" (.num lastCount))
        updateState id (lastCount + 1) blockId
        remove (.remove .transactionsProcessing id) .transactionsProcessing id
        rest : Prog Nat).Along (Process.execFaulty faults) (KeepsNumbering least) process ↔
      ((¬ (process.store .transactions).Has (docId item) → least ≤ lastCount) ∧
        (faults (.check .transactionsState id) = false → least ≤ lastCount + 1)) ∧
      rest.Along (Process.execFaulty faults) (KeepsNumbering least)
        (numberedProcess faults process item id lastCount blockId) := by
  have newObj : (item.set "serial" (.num lastCount)).isObject = true := by simp [isObj]
  have inserted : CountAtLeast least (process.withTable .transactions
      ((process.store .transactions).insert (item.set "serial" (.num lastCount)))).store :=
    counted.congr (by simp)
  rw [Program.along_bind, insertRow_along reads counted isObj, and_assoc]
  apply and_congr_right
  intro _
  rw [run_insert_faulty reads _ _ newObj, Program.along_bind, updateState_along reads inserted]
  apply and_congr_right
  intro enough
  rw [updateState_run_faulty inserted.present reads]
  apply removePending_bind_along reads
  split_ifs with failed
  · exact inserted
  · exact (countAtLeast_countedProcess inserted _ _ _).mpr (enough (by simpa using failed))

/-- A row that is only removed does not change what the loop counts. -/
theorem processTransactions_along_skip (reads : FailsReads faults)
    (counted : CountAtLeast least process.store) {item : Json} {items handled : List Json}
    {bid : Nat} (id : String) (known : ¬ TakenForNew faults (process.store .transactions) item)
    (later : ∀ {process : Process}, CountAtLeast least process.store →
      ((processTransactions bid lastCount items).Along (Process.execFaulty faults)
          (KeepsNumbering least) process ↔
        CountsFrom faults (process.store .transactions) least lastCount handled)) :
    (remove (.remove .transactionsProcessing id) .transactionsProcessing id >>=
        fun _ => processTransactions bid lastCount items).Along (Process.execFaulty faults)
          (KeepsNumbering least) process ↔
      CountsFrom faults (process.store .transactions) least lastCount (item :: handled) := by
  rw [removePending_bind_along reads counted, later (counted.congr (by simp)),
    countsFrom_skip known]
  simp

theorem processTransactions_along (reads : FailsReads faults) (prevBid : Nat)
    {items : List Json} (distinct : (items.map docId).Nodup)
    (counted : CountAtLeast least process.store) :
    (processTransactions prevBid lastCount items).Along (Process.execFaulty faults)
        (KeepsNumbering least) process ↔
      CountsFrom faults (process.store .transactions) least lastCount
        (handledRows prevBid items) := by
  induction items generalizing prevBid lastCount process with
  | nil => exact iff_of_true trivial countsFrom_nil
  | cons item rest ih =>
      obtain ⟨fresh, restDistinct⟩ := List.nodup_cons.mp distinct
      cases head : itemHead item with
      | error exception =>
          simp only [processTransactions, handledRows, head]
          exact iff_of_true trivial countsFrom_nil
      | ok found =>
          obtain ⟨bid, trxid, type⟩ := found
          obtain ⟨idEq, typeEq⟩ := find?_of_itemHead head
          have keyEq := docId_of_find? idEq
          have textEq := keyText_eq idEq
          simp only [processTransactions, handledRows, head]
          cases decided : disposition prevBid bid type with
          | forward => exact iff_of_true trivial countsFrom_nil
          | marker =>
              refine processTransactions_along_skip reads counted trxid ?_ (ih bid restDistinct)
              rintro ⟨unmarked, -⟩
              rw [typeEq, disposition_marker decided] at unmarked
              exact unmarked rfl
          | take =>
              simp only [reduceCtorEq, if_false]
              rw [Program.along_bind, and_iff_right (getData_along counted _ _),
                run_getData_faulty]
              simp only [lookup_count]
              split_ifs with known
              · refine processTransactions_along_skip reads counted trxid ?_ (ih bid restDistinct)
                rintro ⟨-, failed | absent⟩
                · rw [textEq, known.1] at failed
                  exact Bool.false_ne_true failed
                · exact absent (keyEq ▸ known.2)
              · have isNew : TakenForNew faults (process.store .transactions) item := by
                  refine ⟨?_, ?_⟩
                  · rw [typeEq]
                    exact fun same => disposition_take decided (Option.some.inj same)
                  · rw [textEq, keyEq]
                    by_contra neither
                    simp only [not_or, Bool.not_eq_true, not_not] at neither
                    exact known neither
                rw [countsFrom_cons isNew, textEq,
                  storeRow_bind_along reads counted (Json.isObject_of_find? idEq)]
                apply and_congr_right
                rintro ⟨-, enough⟩
                rw [ih bid restDistinct (countAtLeast_numberedProcess counted item bid enough),
                  numberedProcess_transactions]
                apply countsFrom_insert
                intro other member same
                rw [docId_set_serial] at same
                obtain ⟨unhandled, split, -⟩ := exists_unhandled bid rest
                refine fresh (same ▸ List.mem_map_of_mem ?_)
                rw [split]
                exact List.mem_append_left _ member

def snapshotItems (faults : Site → Bool) (store : Store) : List Json :=
  if faults (.snapshot .transactionsProcessing) then [] else pendingItems store

theorem nodup_snapshotItems (faults : Site → Bool) (store : Store) :
    ((snapshotItems faults store).map docId).Nodup := by
  unfold snapshotItems
  split_ifs
  · exact List.nodup_nil
  · exact Cursor.nodup_ordered _ _

/-- A pass reads its rows and the counter, and goes through the rows. -/
theorem transactionsProcessing_along (counted : CountAtLeast least process.store)
    (prevBid : Nat) :
    (transactionsProcessing prevBid).Along (Process.execFaulty faults) (KeepsNumbering least)
        process ↔
      (readLastCount >>= fun lastCount => processTransactions prevBid lastCount
        (snapshotItems faults process.store)).Along (Process.execFaulty faults)
          (KeepsNumbering least) process := by
  have items : (dataAt faults (.snapshot .transactionsProcessing)
      ((cursor .transactionsProcessing).sort "block-id") process).elements =
        snapshotItems faults process.store := elements_snapshot _ _
  rw [transactionsProcessing, Program.along_bind, and_iff_right (getData_along counted _ _),
    run_getData_faulty]
  dsimp only
  rw [items]

/-- A pass that cannot read the counter. -/
theorem transactionsProcessing_along_reset (reads : FailsReads faults)
    (counted : CountAtLeast least process.store) (fails : faults .count = true) (prevBid : Nat) :
    (transactionsProcessing prevBid).Along (Process.execFaulty faults) (KeepsNumbering least)
        process ↔
      (faults (.check .transactionsState "") = false → least = 0) ∧
        CountsFrom faults (process.store .transactions) least 0
          (handledRows prevBid (snapshotItems faults process.store)) := by
  have noCount : dataAt faults .count transactionHistoryState process = .arr [] := by
    simp [dataAt, fails]
  rw [transactionsProcessing_along counted, readLastCount, Program.bind_assoc, Program.along_bind,
    and_iff_right (getData_along counted _ _), run_getData_faulty, noCount]
  simp only [Json.getUInt64]
  rw [Program.bind_assoc, Program.along_bind, updateState_along reads counted,
    updateState_run_faulty counted.present reads, Nat.le_zero]
  apply and_congr_right
  intro unharmed
  rw [Program.pure_eq_done, Program.done_bind]
  cases checked : faults (.check .transactionsState "") with
  | true =>
      simp only [if_true]
      exact processTransactions_along reads prevBid (nodup_snapshotItems _ _) counted
  | false =>
      obtain rfl := unharmed checked
      have countedNow : CountAtLeast 0 (countedProcess process 0 0).store :=
        (countAtLeast_countedProcess counted 0 0 0).mpr le_rfl
      simp only [Bool.false_eq_true, if_false]
      refine iff_of_true ?_ (countsFrom_of_le le_rfl _)
      apply (processTransactions_along reads prevBid (nodup_snapshotItems _ _) countedNow).mpr
      exact countsFrom_of_le le_rfl _

theorem transactionsProcessing_along_counted (reads : FailsReads faults)
    (counted : CountAtLeast least process.store) (answers : faults .count = false)
    (prevBid : Nat) :
    (transactionsProcessing prevBid).Along (Process.execFaulty faults) (KeepsNumbering least)
      process := by
  obtain ⟨row, count, found, counts, enough⟩ := id counted
  have isObj := Json.isObject_of_find? counts
  have theCount : dataAt faults .count transactionHistoryState process = .num count := by
    rw [dataAt, answers, if_neg Bool.false_ne_true, transactionHistoryState_eq, found]
    cases row with
    | obj members => simp [counts, getDataOf]
    | _ => simp [Json.isObject] at isObj
  rw [transactionsProcessing_along counted, readLastCount, Program.bind_assoc, Program.along_bind,
    and_iff_right (getData_along counted _ _), run_getData_faulty, theCount]
  simp only [Json.getUInt64_num]
  rw [Program.pure_eq_done, Program.done_bind]
  apply (processTransactions_along reads prevBid (nodup_snapshotItems _ _) counted).mpr
  exact countsFrom_of_le enough _

end Db

/-- A pass keeps the numbering exactly if there is none yet, or it reads the
count, or the check of the reset fails as well and no row that the pass takes
for new is stored or counted below the count. -/
theorem numbering_kept_iff {row : Json} {count : Nat} (reads : Db.FailsReads faults)
    (found : (process.store .transactionsState).get? (.str "state") = some row)
    (counts : row.find? "count" = some (.num count)) (prevBid : Nat) :
    (Db.transactionsProcessing prevBid).Along (Process.execFaulty faults) (KeepsNumbering count)
        process ↔
      count = 0 ∨ faults .count = false ∨
        faults (.check .transactionsState "") = true ∧
          CountsFrom faults (process.store .transactions) count 0
            (handledRows prevBid (Db.snapshotItems faults process.store)) := by
  have counted : CountAtLeast count process.store := ⟨row, count, found, counts, le_rfl⟩
  cases fails : faults .count with
  | false =>
      have kept := Db.transactionsProcessing_along_counted reads counted fails prevBid
      exact iff_of_true kept (.inr (.inl rfl))
  | true =>
      rw [Db.transactionsProcessing_along_reset reads counted fails]
      rcases Nat.eq_zero_or_pos count with rfl | positive
      · exact iff_of_true ⟨fun _ => rfl, countsFrom_of_le le_rfl _⟩ (.inl rfl)
      · have notZero : count ≠ 0 := by omega
        simp [notZero]

def fiveCounted : Process :=
  Process.idle (Function.update (Function.update Store.empty
    .transactionsState (KeyedTable.empty.insert (Db.stateRow 5 3)))
    .transactionsProcessing
      (KeyedTable.empty.insert (pendingRow "a:4:0" 4 "TransferAssetsTransaction")))

theorem fiveCounted_state :
    (fiveCounted.store .transactionsState).get? (.str "state") = some (Db.stateRow 5 3) := by
  decide +kernel

/-- The lookup of the row fails, which does no harm. -/
theorem numbering_kept_iff_lookup :
    let faults : Site → Bool := fun site => site = .lookup .transactions "a:4:0"
    Db.FailsReads faults ∧
      (Db.transactionsProcessing 3).Along (Process.execFaulty faults) (KeepsNumbering 5)
        fiveCounted := by
  intro faults
  have reads : Db.FailsReads faults := fun _ _ => ⟨rfl, rfl, rfl⟩
  refine ⟨reads, ?_⟩
  apply (numbering_kept_iff reads fiveCounted_state (Db.find?_stateRow_count 5 3) 3).mpr
  exact .inr (.inl rfl)

/-- The count cannot be read: the counter falls from five to zero. -/
theorem numbering_reset_by_failed_read :
    let faults : Site → Bool := fun site => site = .count
    Db.FailsReads faults ∧
      ¬ (Db.transactionsProcessing 3).Along (Process.execFaulty faults) (KeepsNumbering 5)
        fiveCounted := by
  intro faults
  have reads : Db.FailsReads faults := fun _ _ => ⟨rfl, rfl, rfl⟩
  have counted : CountAtLeast 5 fiveCounted.store :=
    ⟨_, 5, fiveCounted_state, Db.find?_stateRow_count 5 3, le_rfl⟩
  refine ⟨reads, ?_⟩
  rw [Db.transactionsProcessing_along_reset reads counted rfl]
  rintro ⟨unharmed, -⟩
  have zero := unharmed rfl
  omega

end MileExplorer
