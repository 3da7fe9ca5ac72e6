import Mathlib.Data.List.TakeWhile
import Mathlib.Logic.Function.Iterate
import MileExplorer.SerialRuns
import MileExplorer.StreamRows

/-!
# Passes of the transaction loop

A pass of `transactions_processing` run alone is a function of the pending
rows: it handles the rows before the first one it stops at, gives serials to
those that are not stored yet, and remembers a block.  The block it remembers
is the one of the row it stopped at, so that the next pass takes that row; only
a row that cannot be read stops every pass.
-/

namespace MileExplorer

/-! ## What a pass handles and remembers -/

/-- The rows that the item loop handles, all of which it removes. -/
def handledRows (prevBid : Nat) : List Json → List Json
  | [] => []
  | item :: rest =>
      match itemHead item with
      | .error _ => []
      | .ok (bid, _, type) =>
          if disposition prevBid bid type = .forward then [] else item :: handledRows bid rest

def rememberedBid (prevBid : Nat) : List Json → Nat
  | [] => prevBid
  | item :: rest =>
      match itemHead item with
      | .error _ => prevBid
      | .ok (bid, _, type) =>
          if disposition prevBid bid type = .forward then bid else rememberedBid bid rest

/-- The row is no marker and its transaction is not stored. -/
def IsFresh (stored : Table) (row : Json) : Prop :=
  row.find? "transaction-type" ≠ some processingType ∧ ¬ stored.Has (docId row)

instance (stored : Table) (row : Json) : Decidable (IsFresh stored row) :=
  inferInstanceAs (Decidable (_ ∧ _))

def freshRows (stored : Table) (rows : List Json) : List Json :=
  rows.filter fun row => IsFresh stored row

def withSerials (count : Nat) : List Json → List Json
  | [] => []
  | row :: rest => row.set "serial" (.num count) :: withSerials (count + 1) rest

theorem withSerials_append (count : Nat) (first second : List Json) :
    withSerials count (first ++ second) =
      withSerials count first ++ withSerials (count + first.length) second := by
  induction first generalizing count with
  | nil => rfl
  | cons row rest ih =>
      rw [List.cons_append, withSerials, ih, withSerials, List.length_cons, List.cons_append]
      rw [show count + 1 + rest.length = count + (rest.length + 1) by omega]

theorem docId_set_serial (row serial : Json) : docId (row.set "serial" serial) = docId row := by
  cases row with
  | obj members => simp [docId, Json.find?_set (.obj members) rfl]
  | _ => rfl

theorem map_docId_withSerials (count : Nat) (rows : List Json) :
    (withSerials count rows).map docId = rows.map docId := by
  induction rows generalizing count with
  | nil => rfl
  | cons row rest ih => rw [withSerials, List.map_cons, docId_set_serial, ih, List.map_cons]

/-- A row of the block that was seen last is never one of a forward block. -/
theorem disposition_self (bid : Nat) (type : Json) : disposition bid bid type ≠ .forward := by
  have none : sub64 bid bid = 0 := by
    unfold sub64
    rw [Nat.add_sub_cancel_left, Nat.mod_self]
  unfold disposition
  split_ifs with _ _ far
  · simp
  · simp [none] at far
  · simp
  · simp
  · simp

/-- The members that a pass reads are there. -/
def isSound (item : Json) : Bool := (itemHead item).isOk

theorem isSound_iff {item : Json} :
    isSound item = true ↔ ∃ head, itemHead item = .ok head := by
  unfold isSound
  cases itemHead item <;> simp [Except.isOk, Except.toBool]

/-- A pass stops at the end, at a row that is not sound, or at a row whose
block it remembers. -/
theorem exists_unhandled (prevBid : Nat) (items : List Json) :
    ∃ rest, items = handledRows prevBid items ++ rest ∧
      (∀ item ∈ handledRows prevBid items, isSound item = true) ∧
      ∀ next more bid id type, rest = next :: more → itemHead next = .ok (bid, id, type) →
        rememberedBid prevBid items = bid := by
  induction items generalizing prevBid with
  | nil => exact ⟨[], rfl, by simp [handledRows], by simp⟩
  | cons item rest ih =>
      cases head : itemHead item with
      | error exception =>
          refine ⟨item :: rest, by simp [handledRows, head], by simp [handledRows, head], ?_⟩
          intro next more bid id type split nextHead
          obtain ⟨rfl, -⟩ := List.cons.inj split
          rw [head] at nextHead
          cases nextHead
      | ok found =>
          obtain ⟨bid, trxid, type⟩ := found
          simp only [handledRows, rememberedBid, head]
          by_cases stops : disposition prevBid bid type = .forward
          · rw [if_pos stops, if_pos stops]
            refine ⟨item :: rest, rfl, by simp, ?_⟩
            intro next more nextBid id nextType split nextHead
            obtain ⟨rfl, -⟩ := List.cons.inj split
            rw [head] at nextHead
            exact (Prod.ext_iff.mp (Except.ok.inj nextHead)).1
          · rw [if_neg stops, if_neg stops]
            obtain ⟨unhandled, split, sound, remembers⟩ := ih bid
            refine ⟨unhandled, by rw [List.cons_append, ← split], ?_, remembers⟩
            intro other member
            rcases List.mem_cons.mp member with rfl | later
            · exact isSound_iff.mpr ⟨_, head⟩
            · exact sound other later

/-! ## What becomes of the rows that are handled -/

theorem storedCount_congr {first second : Store}
    (same : first .transactionsState = second .transactionsState) :
    storedCount first = storedCount second := by
  unfold storedCount
  rw [same]

/-- The rows are no longer pending, and those that were not stored have been
stored with the next serials. -/
structure Settles (rows : List Json) (before after : Store) : Prop where
  pending : after .transactionsProcessing =
    rows.foldl (fun table row => table.erase (docId row)) (before .transactionsProcessing)
  stored : (after .transactions).rows = (before .transactions).rows ++
    withSerials (storedCount before) (freshRows (before .transactions) rows)
  counted : storedCount after =
    storedCount before + (freshRows (before .transactions) rows).length
  noText : ¬ (after .transactionsState).Has (.str Db.indexText)

namespace Settles

variable {rows more : List Json} {before middle after : Store}

theorem refl {store : Store} (noText : ¬ (store .transactionsState).Has (.str Db.indexText)) :
    Settles [] store store where
  pending := rfl
  stored := by simp [freshRows, withSerials]
  counted := by simp [freshRows]
  noText := noText

theorem has_iff (settles : Settles rows before after) (id : Json) :
    (after .transactions).Has id ↔ (before .transactions).Has id ∨
      id ∈ (freshRows (before .transactions) rows).map docId := by
  have stored (table : Table) : table.Has id ↔ id ∈ table.rows.map docId := by
    simp [KeyedTable.Has]
  rw [stored, stored, settles.stored, List.map_append, List.mem_append, map_docId_withSerials]

theorem trans (first : Settles rows before middle) (second : Settles more middle after)
    (distinct : ((rows ++ more).map docId).Nodup) : Settles (rows ++ more) before after := by
  have apart : ∀ row ∈ more, docId row ∉ rows.map docId := by
    rw [List.map_append, List.nodup_append] at distinct
    intro row member listed
    exact distinct.2.2 _ listed _ (List.mem_map_of_mem member) rfl
  have sameFresh : freshRows (middle .transactions) more =
      freshRows (before .transactions) more := by
    apply List.filter_congr
    intro row member
    have notAdded : docId row ∉ (freshRows (before .transactions) rows).map docId := by
      intro listed
      exact apart row member (List.filter_sublist.map docId |>.subset listed)
    apply decide_eq_decide.mpr
    simp only [IsFresh, first.has_iff, notAdded, or_false]
  have joined : freshRows (before .transactions) (rows ++ more) =
      freshRows (before .transactions) rows ++ freshRows (before .transactions) more :=
    List.filter_append _ _
  constructor
  · rw [second.pending, first.pending, List.foldl_append]
  · rw [second.stored, first.stored, sameFresh, joined, withSerials_append, first.counted,
      List.append_assoc]
  · rw [second.counted, first.counted, sameFresh, joined, List.length_append, Nat.add_assoc]
  · exact second.noText

theorem of_remove {row : Json} {id : String} {store : Store} (idEq : docId row = .str id)
    (stale : ¬ IsFresh (store .transactions) row)
    (noText : ¬ (store .transactionsState).Has (.str Db.indexText)) :
    Settles [row] store (Function.update store .transactionsProcessing
      ((store .transactionsProcessing).erase (.str id))) where
  pending := by simp [idEq]
  stored := by simp [freshRows, stale, withSerials]
  counted := by
    rw [storedCount_congr (Function.update_of_ne (by decide) _ _)]
    simp [freshRows, stale]
  noText := by simpa using noText

end Settles

/-! ## The programs -/

namespace Db

theorem updateState_run (row : String) (count blockId : Nat) (process : Process) :
    (updateState row count blockId).run Process.exec process =
      ((), process.withTable .transactionsState
        (upsert (absentIn process .transactionsState "state") "state" (stateRow count blockId)
          (process.store .transactionsState))) := by
  rw [updateState, Program.run_bind, run_update _ _ (find?_stateRow_id count blockId)]
  rfl

theorem storedCount_updateState (row : String) (count blockId : Nat) {process : Process}
    (noText : ¬ (process.store .transactionsState).Has (.str indexText)) :
    let updated := ((updateState row count blockId).run Process.exec process).2.store
    storedCount updated = count ∧ ¬ (updated .transactionsState).Has (.str indexText) ∧
      ∀ table ≠ .transactionsState, updated table = process.store table := by
  obtain ⟨noOther, stored, found, counts⟩ := upsert_stateRow rfl noText
    count blockId
  rw [updateState_run]
  refine ⟨?_, ?_, ?_⟩
  · simp [storedCount, found, counts]
  · simp only [Process.store_withTable, Function.update_self]
    intro has
    rcases noOther _ has with old | isState
    · exact noText old
    · exact absurd isState (by decide)
  · intro table other
    simp [other]

/-- The number that a pass starts from, whether it finds the counter or not. -/
theorem storedCount_cases (store : Store) :
    (getDataOf (transactionHistoryState store)).getUInt64 = .ok (storedCount store) ∨
      storedCount store = 0 ∧
        ∃ exception, (getDataOf (transactionHistoryState store)).getUInt64 = .error exception := by
  rw [transactionHistoryState_eq]
  unfold storedCount
  cases found : (store .transactionsState).get? (.str "state") with
  | none => exact .inr ⟨rfl, _, rfl⟩
  | some row =>
      obtain ⟨-, rowId⟩ := KeyedTable.get?_eq_some.mp found
      obtain ⟨members, rfl⟩ := exists_members_of_docId (by simp [rowId] : docId row ≠ .null)
      cases counts : (Json.obj members).find? "count" with
      | none => exact .inr ⟨by simp [counts, Json.getUInt64], _, by simp [counts]; rfl⟩
      | some value =>
          cases value <;> simp [counts, getDataOf, Json.getUInt64]

theorem readLastCount_run {process : Process}
    (noText : ¬ (process.store .transactionsState).Has (.str indexText)) :
    let started := readLastCount.run Process.exec process
    started.1 = storedCount process.store ∧ Settles [] process.store started.2.store := by
  rw [readLastCount, Program.run_bind, run_getData]
  dsimp only
  rcases storedCount_cases process.store with counts | ⟨zero, exception, failed⟩
  · rw [counts]
    exact ⟨rfl, .refl noText⟩
  · rw [failed, Program.run_bind]
    obtain ⟨reset, stillNoText, kept⟩ := storedCount_updateState "" 0 0 noText
    refine ⟨zero.symm, kept _ (by decide), ?_, ?_, stillNoText⟩
    · simpa [freshRows, withSerials] using congrArg KeyedTable.rows (kept .transactions (by decide))
    · simpa [freshRows, zero] using reset

/-- A row that is neither a marker nor known is stored, counted and removed. -/
theorem settles_store (bid : Nat) {item : Json} {id : String} {process : Process}
    (idEq : docId item = .str id)
    (fresh : IsFresh (process.store .transactions) item)
    (noText : ¬ (process.store .transactionsState).Has (.str indexText)) :
    let inserted := process.withTable .transactions ((process.store .transactions).insert
      (item.set "serial" (.num (storedCount process.store))))
    let counted := ((updateState id (storedCount process.store + 1) bid).run Process.exec
      inserted).2
    Settles [item] process.store (Function.update counted.store .transactionsProcessing
      ((counted.store .transactionsProcessing).erase (.str id))) := by
  intro inserted counted
  have newKey : ¬ (process.store .transactions).Has
      (docId (item.set "serial" (.num (storedCount process.store)))) := by
    rw [docId_set_serial]
    exact fresh.2
  have noTextInserted : ¬ (inserted.store .transactionsState).Has (.str indexText) := by
    simpa [inserted] using noText
  obtain ⟨counts, stillNoText, kept⟩ := storedCount_updateState id (storedCount process.store + 1)
    bid noTextInserted
  have rowsEq : (counted.store .transactions).rows = (process.store .transactions).rows ++
      [item.set "serial" (.num (storedCount process.store))] := by
    rw [kept .transactions (by decide), Process.store_withTable, Function.update_self,
      KeyedTable.rows_insert_of_not_has newKey]
  have pendingEq : counted.store .transactionsProcessing =
      process.store .transactionsProcessing := by
    rw [kept .transactionsProcessing (by decide)]
    simp [inserted]
  constructor
  · simp [pendingEq, idEq]
  · simp [rowsEq, freshRows, fresh, withSerials]
  · rw [storedCount_congr (Function.update_of_ne (by decide) _ _), counts]
    simp [freshRows, fresh]
  · simpa using stillNoText

theorem processTransactions_run (prevBid : Nat) {items : List Json} {process : Process}
    (distinct : (items.map docId).Nodup)
    (noText : ¬ (process.store .transactionsState).Has (.str indexText)) :
    let final := (processTransactions prevBid (storedCount process.store) items).run
      Process.exec process
    final.1 = rememberedBid prevBid items ∧
      Settles (handledRows prevBid items) process.store final.2.store := by
  induction items generalizing prevBid process with
  | nil => exact ⟨rfl, .refl noText⟩
  | cons item rest ih =>
      obtain ⟨-, restDistinct⟩ := List.nodup_cons.mp distinct
      cases head : itemHead item with
      | error exception =>
          simp only [processTransactions, handledRows, rememberedBid, head]
          exact ⟨rfl, .refl noText⟩
      | ok found =>
          obtain ⟨bid, trxid, type⟩ := found
          obtain ⟨idEq, typeEq⟩ := find?_of_itemHead head
          have keyEq := docId_of_find? idEq
          -- One row settled, then the rest of the loop from the counter it left.
          have continues {next : Process} {count : Nat}
              (settled : Settles [item] process.store next.store)
              (counts : storedCount next.store = count) :
              let final := (processTransactions bid count rest).run Process.exec next
              final.1 = rememberedBid bid rest ∧
                Settles (item :: handledRows bid rest) process.store final.2.store := by
            subst counts
            obtain ⟨remembers, settles⟩ := ih bid restDistinct settled.noText
            refine ⟨remembers, settled.trans settles ?_⟩
            obtain ⟨unhandled, split, -⟩ := exists_unhandled bid rest
            rw [split, ← List.cons_append, List.map_append] at distinct
            exact (List.nodup_append.mp distinct).1
          have stale_continues (stale : ¬ IsFresh (process.store .transactions) item) :
              let next := process.withTable .transactionsProcessing
                ((process.store .transactionsProcessing).erase (.str trxid))
              let final := (processTransactions bid (storedCount process.store) rest).run
                Process.exec next
              final.1 = rememberedBid bid rest ∧
                Settles (item :: handledRows bid rest) process.store final.2.store := by
            have settled := Settles.of_remove keyEq stale noText
            refine continues settled ?_
            simpa [freshRows, stale] using settled.counted
          simp only [processTransactions, handledRows, rememberedBid, head]
          cases decided : disposition prevBid bid type with
          | forward => exact ⟨rfl, .refl noText⟩
          | marker =>
              simp only [Program.run_bind, run_remove]
              refine stale_continues ?_
              rintro ⟨unmarked, -⟩
              rw [typeEq, disposition_marker decided] at unmarked
              exact unmarked rfl
          | take =>
              simp only [reduceCtorEq, if_false, Program.run_bind, run_getData, Cursor.count_get]
              split_ifs with known
              · simp only [Program.run_bind, run_remove]
                refine stale_continues ?_
                rintro ⟨-, unknown⟩
                rw [keyEq] at unknown
                exact unknown known
              · have isObj := Json.isObject_of_find? idEq
                have newObj : (item.set "serial" (.num (storedCount process.store))).isObject =
                    true := by
                  simp [isObj]
                have fresh : IsFresh (process.store .transactions) item := by
                  constructor
                  · rw [typeEq]
                    exact fun same => disposition_take decided (Option.some.inj same)
                  · rw [keyEq]
                    exact known
                have settled := settles_store bid keyEq fresh noText
                simp only [Program.run_bind, run_remove, run_insert _ _ newObj]
                refine continues settled ?_
                simpa [freshRows, fresh] using settled.counted

end Db

/-! ## One pass after another -/

/-- The pending rows in the order in which a pass reads them. -/
def pendingItems (store : Store) : List Json :=
  Cursor.ordered "block-id" (store .transactionsProcessing).rows

/-- A pass as a step of `prev_bid` and the process. -/
def streamPass (state : Nat × Process) : Nat × Process :=
  (Db.transactionsProcessing state.1).run Process.exec state.2

theorem streamPass_spec {state : Nat × Process}
    (noText : ¬ (state.2.store .transactionsState).Has (.str Db.indexText)) :
    (streamPass state).1 = rememberedBid state.1 (pendingItems state.2.store) ∧
      Settles (handledRows state.1 (pendingItems state.2.store)) state.2.store
        (streamPass state).2.store := by
  obtain ⟨counts, started⟩ := Db.readLastCount_run noText
  have distinct := Cursor.nodup_ordered (state.2.store .transactionsProcessing) "block-id"
  obtain ⟨unhandled, split, -⟩ := exists_unhandled state.1 (pendingItems state.2.store)
  have handledDistinct : ((handledRows state.1 (pendingItems state.2.store)).map docId).Nodup := by
    change ((pendingItems state.2.store).map docId).Nodup at distinct
    rw [split, List.map_append] at distinct
    exact (List.nodup_append.mp distinct).1
  have sameCount := started.counted
  rw [← counts] at sameCount
  obtain ⟨remembers, settles⟩ := Db.processTransactions_run state.1 distinct started.noText
  have unfolded : streamPass state =
      (Db.processTransactions state.1 (Db.readLastCount.run Process.exec state.2).1
        (pendingItems state.2.store)).run Process.exec
          (Db.readLastCount.run Process.exec state.2).2 := by
    rw [streamPass, Db.transactionsProcessing, Program.run_bind, Db.run_getData,
      Program.run_bind, Cursor.elements_sort]
    rfl
  rw [unfolded]
  rw [show storedCount _ = _ from sameCount] at remembers settles
  exact ⟨remembers, started.trans settles handledDistinct⟩

section Passes

variable {store later : Store}

def PendingKeyed (store : Store) : Prop :=
  ∀ row ∈ (store .transactionsProcessing).rows, ∃ number, IsRowOf number row

theorem PendingKeyed.mem_pendingItems (keyed : PendingKeyed store) {row : Json} :
    row ∈ pendingItems store ↔ row ∈ (store .transactionsProcessing).rows := by
  rw [pendingItems, Cursor.mem_ordered, and_iff_left_iff_imp]
  intro member
  obtain ⟨number, id, -, indexed⟩ := keyed row member
  simp [indexed]

theorem PendingKeyed.perm (keyed : PendingKeyed store) :
    (pendingItems store).Perm (store .transactionsProcessing).rows := by
  have everyIndexed : (store .transactionsProcessing).rows.filter
      (fun row => (row.find? "block-id").isSome) = (store .transactionsProcessing).rows := by
    apply List.filter_eq_self.mpr
    intro row member
    exact (Cursor.mem_ordered.mp (keyed.mem_pendingItems.mpr member)).2
  have perm := Cursor.ordered_perm "block-id" (store .transactionsProcessing).rows
  rwa [everyIndexed] at perm

theorem Settles.keyed {rows : List Json} (settles : Settles rows store later)
    (keyed : PendingKeyed store) : PendingKeyed later := by
  intro row member
  rw [settles.pending, KeyedTable.mem_foldl_erase] at member
  exact keyed row member.1

/-- What is left when the first rows have been handled. -/
theorem Settles.pendingItems_eq {rows rest : List Json} (settles : Settles rows store later)
    (split : pendingItems store = rows ++ rest) : pendingItems later = rest := by
  have distinct := Cursor.nodup_ordered (store .transactionsProcessing) "block-id"
  change ((pendingItems store).map docId).Nodup at distinct
  rw [split, List.map_append, List.nodup_append] at distinct
  rw [pendingItems, settles.pending, KeyedTable.rows_foldl_erase, Cursor.ordered_filter]
  change (pendingItems store).filter _ = rest
  rw [split, List.filter_append]
  have handled : rows.filter (fun row => decide (docId row ∉ rows.map docId)) = [] := by
    apply List.filter_eq_nil_iff.mpr
    intro row member
    simpa using ⟨row, member, rfl⟩
  have unhandled : rest.filter (fun row => decide (docId row ∉ rows.map docId)) = rest := by
    apply List.filter_eq_self.mpr
    intro row member
    apply decide_eq_true
    intro listed
    exact distinct.2.2 _ listed _ (List.mem_map_of_mem member) rfl
  rw [handled, unhandled, List.nil_append]

def NextSound (store : Store) : Prop :=
  ∃ next more, pendingItems store = next :: more ∧ isSound next = true

/-- `prev_bid` is the block of the first pending row, if it can be read. -/
def GateOpen (state : Nat × Process) : Prop :=
  ∀ next more bid id type, pendingItems state.2.store = next :: more →
    itemHead next = .ok (bid, id, type) → state.1 = bid

/-- The rows `done` of the pending rows at the start have been handled, and the
others are still pending. -/
structure HasHandled (start : Store) (done : List Json) (state : Nat × Process) : Prop where
  settles : Settles done start state.2.store
  split : pendingItems start = done ++ pendingItems state.2.store
  sound : ∀ item ∈ done, isSound item = true

/-- A pass handles more rows, at least one if the gate is open, and leaves the
gate open. -/
theorem HasHandled.streamPass {start : Store} {done : List Json} {state : Nat × Process}
    (handled : HasHandled start done state) :
    ∃ more, HasHandled start (done ++ more) (streamPass state) ∧ GateOpen (streamPass state) ∧
      (GateOpen state → NextSound state.2.store → more ≠ []) ∧
      (¬ NextSound state.2.store → more = []) := by
  obtain ⟨remembers, settles⟩ := streamPass_spec handled.settles.noText
  obtain ⟨rest, split, sound, stops⟩ := exists_unhandled state.1 (pendingItems state.2.store)
  have restEq := settles.pendingItems_eq split
  have whole : pendingItems start =
      (done ++ handledRows state.1 (pendingItems state.2.store)) ++ rest := by
    rw [List.append_assoc, ← split]
    exact handled.split
  refine ⟨handledRows state.1 (pendingItems state.2.store), ⟨?_, ?_, ?_⟩, ?_, ?_, ?_⟩
  · apply handled.settles.trans settles
    have distinct := Cursor.nodup_ordered (start .transactionsProcessing) "block-id"
    change ((pendingItems start).map docId).Nodup at distinct
    rw [whole, List.map_append] at distinct
    exact (List.nodup_append.mp distinct).1
  · rw [restEq]
    exact whole
  · intro item member
    rcases List.mem_append.mp member with before | now
    · exact handled.sound item before
    · exact sound item now
  · intro next more bid id type nextEq head
    rw [restEq] at nextEq
    rw [remembers]
    exact stops next more bid id type nextEq head
  · rintro gate ⟨next, more, nextEq, nextSound⟩
    obtain ⟨⟨bid, id, type⟩, head⟩ := isSound_iff.mp nextSound
    have known := gate next more bid id type nextEq head
    rw [nextEq, known]
    simp [handledRows, head, disposition_self]
  · intro stuck
    cases items : pendingItems state.2.store with
    | nil => rfl
    | cons next more =>
        cases head : itemHead next with
        | error exception => simp [handledRows, head]
        | ok found => exact absurd ⟨next, more, items, isSound_iff.mpr ⟨found, head⟩⟩ stuck

/-- Every pass but the first handles a row, as long as the next one can be
read. -/
theorem exists_hasHandled {process : Process} (prevBid : Nat)
    (noText : ¬ (process.store .transactionsState).Has (.str Db.indexText)) (passes : Nat) :
    let state := streamPass^[passes] (prevBid, process)
    ∃ done, HasHandled process.store done state ∧ (0 < passes → GateOpen state) ∧
      (NextSound state.2.store → passes ≤ done.length + 1) := by
  induction passes with
  | zero => exact ⟨[], ⟨.refl noText, rfl, by simp⟩, by simp, by simp⟩
  | succ passes ih =>
      obtain ⟨done, handled, gate, bound⟩ := ih
      obtain ⟨more, next, opens, advances, stays⟩ := handled.streamPass
      rw [Function.iterate_succ_apply']
      refine ⟨done ++ more, next, fun _ => opens, ?_⟩
      intro nextSound
      have sound : NextSound (streamPass^[passes] (prevBid, process)).2.store := by
        by_contra stuck
        have nothing := stays stuck
        have same := next.split
        rw [nothing, List.append_nil, handled.split] at same
        obtain ⟨first, others, itemsEq, firstSound⟩ := nextSound
        exact stuck ⟨first, others, (List.append_cancel_left same).trans itemsEq, firstSound⟩
      have atLeast := bound sound
      rw [List.length_append]
      rcases Nat.eq_zero_or_pos passes with rfl | positive
      · omega
      · have := List.length_pos_iff.mpr (advances (gate positive) sound)
        omega

/-- After one pass more than there are rows, exactly the rows before the first
one that cannot be read have been handled. -/
theorem hasHandled_takeWhile {process : Process} (prevBid : Nat)
    (keyed : PendingKeyed process.store)
    (noText : ¬ (process.store .transactionsState).Has (.str Db.indexText)) {passes : Nat}
    (enough : (process.store .transactionsProcessing).rows.length < passes) :
    HasHandled process.store ((pendingItems process.store).takeWhile isSound)
      (streamPass^[passes] (prevBid, process)) := by
  obtain ⟨done, handled, -, bound⟩ := exists_hasHandled prevBid noText passes
  have stuck : ¬ NextSound (streamPass^[passes] (prevBid, process)).2.store := by
    intro sound
    have atLeast := bound sound
    obtain ⟨next, more, itemsEq, -⟩ := sound
    have lengths := congrArg List.length handled.split
    rw [itemsEq, keyed.perm.length_eq, List.length_append, List.length_cons] at lengths
    omega
  have doneEq : (pendingItems process.store).takeWhile isSound = done := by
    rw [handled.split, List.takeWhile_append_of_pos handled.sound]
    cases items : pendingItems (streamPass^[passes] (prevBid, process)).2.store with
    | nil => simp
    | cons next more =>
        have unsound : ¬ isSound next = true := fun sound => stuck ⟨next, more, items, sound⟩
        simp [unsound]
  rw [doneEq]
  exact handled

end Passes

/-- Pending rows that can all be read are drained.  Whatever `prev_bid` is,
after one pass more than there are rows nothing is pending, every row that is
no marker is stored, and the rows that were not stored before follow the old
ones with consecutive serials from the former count on; every pass but the
first removes a row while there is one. -/
theorem stream_drains {process : Process} (prevBid : Nat)
    (pending : ∀ row ∈ (process.store .transactionsProcessing).rows, IsPending row)
    (noText : ¬ (process.store .transactionsState).Has (.str Db.indexText)) :
    let after := fun passes => (streamPass^[passes] (prevBid, process)).2.store
    let rows := (process.store .transactionsProcessing).rows
    (∀ passes, rows.length + 1 ≤ passes →
      (after passes .transactionsProcessing).rows = [] ∧
      (∀ row ∈ rows, row.find? "transaction-type" ≠ some processingType →
        (after passes .transactions).Has (docId row)) ∧
      ∃ stored, stored.Perm (freshRows (process.store .transactions) rows) ∧
        (after passes .transactions).rows = (process.store .transactions).rows ++
          withSerials (storedCount process.store) stored) ∧
    ∀ passes, 0 < passes → (after passes .transactionsProcessing).rows ≠ [] →
      (after (passes + 1) .transactionsProcessing).rows.length <
        (after passes .transactionsProcessing).rows.length := by
  intro after rows
  have keyed : PendingKeyed process.store := by
    intro row member
    obtain ⟨id, bid, type, idEq, bidEq, -, -⟩ := pending row member
    exact ⟨bid, id, idEq, bidEq⟩
  have sound : ∀ item ∈ pendingItems process.store, isSound item = true := by
    intro item member
    obtain ⟨id, bid, type, idEq, bidEq, -, typeEq⟩ :=
      pending item (keyed.mem_pendingItems.mp member)
    exact isSound_iff.mpr ⟨_, itemHead_eq idEq bidEq typeEq⟩
  constructor
  · intro passes enough
    have handled := hasHandled_takeWhile prevBid keyed noText enough
    rw [List.takeWhile_eq_self_iff.mpr sound] at handled
    have nothing : pendingItems (after passes) = [] := by
      exact List.self_eq_append_right.mp handled.split
    have emptied : (after passes .transactionsProcessing).rows = [] := by
      have perm := (handled.settles.keyed keyed).perm
      rw [show pendingItems _ = [] from nothing] at perm
      exact perm.nil_eq.symm
    have freshPerm : (freshRows (process.store .transactions) (pendingItems process.store)).Perm
        (freshRows (process.store .transactions) rows) := keyed.perm.filter _
    refine ⟨emptied, ?_, _, freshPerm, handled.settles.stored⟩
    intro row member unmarked
    apply (handled.settles.has_iff (docId row)).mpr
    by_cases known : (process.store .transactions).Has (docId row)
    · exact .inl known
    · right
      apply List.mem_map_of_mem
      apply List.mem_filter.mpr
      exact ⟨keyed.mem_pendingItems.mpr member, by simpa using ⟨unmarked, known⟩⟩
  · intro passes positive nonempty
    obtain ⟨done, handled, gate, -⟩ := exists_hasHandled prevBid noText passes
    obtain ⟨more, next, -, advances, -⟩ := handled.streamPass
    have nowKeyed := handled.settles.keyed keyed
    have nextKeyed := next.settles.keyed keyed
    have nextSound : NextSound (after passes) := by
      cases items : pendingItems (after passes) with
      | nil =>
          have perm := nowKeyed.perm
          rw [show pendingItems _ = [] from items] at perm
          exact absurd perm.nil_eq.symm nonempty
      | cons first others =>
          refine ⟨first, others, items, sound first ?_⟩
          rw [handled.split, show pendingItems _ = _ from items]
          simp
    have handledMore := List.length_pos_iff.mpr (advances (gate positive) nextSound)
    have split := next.split
    rw [handled.split, List.append_assoc] at split
    have lengths := congrArg List.length (List.append_cancel_left split)
    rw [List.length_append, nowKeyed.perm.length_eq, nextKeyed.perm.length_eq] at lengths
    simp only [after, Function.iterate_succ_apply']
    omega

/-- Rows of the blocks 5 and 9 and the marker of block 7, the row of block 5
being stored already. -/
def gapStream : Process :=
  Process.idle (Function.update (Function.update Store.empty
    .transactionsProcessing (KeyedTable.empty.insertMany
      [pendingRow "b:9:0" 9 "TransferAssetsTransaction", pendingRow "7" 7 "__processing__",
        pendingRow "a:5:0" 5 "TransferAssetsTransaction"]))
    .transactions (KeyedTable.empty.insert (pendingRow "a:5:0" 5 "TransferAssetsTransaction")))

theorem stream_drains_gap :
    (∀ row ∈ (gapStream.store .transactionsProcessing).rows, IsPending row) ∧
      ((streamPass^[4] (3, gapStream)).2.store .transactionsProcessing).rows = [] ∧
      ((streamPass^[4] (3, gapStream)).2.store .transactions).Has (.str "b:9:0") := by
  have pending : ∀ row ∈ (gapStream.store .transactionsProcessing).rows, IsPending row := by
    decide +kernel
  have noText : ¬ (gapStream.store .transactionsState).Has (.str Db.indexText) :=
    KeyedTable.not_has_empty _
  obtain ⟨emptied, stored, -⟩ := (stream_drains 3 pending noText).1 4 (by decide +kernel)
  refine ⟨pending, emptied, ?_⟩
  exact stored (pendingRow "b:9:0" 9 "TransferAssetsTransaction") (by decide +kernel)
    (by decide +kernel)

end MileExplorer
