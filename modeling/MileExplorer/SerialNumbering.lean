import MileExplorer.Migration
import MileExplorer.StoreRules
import MileExplorer.TransactionsProcessing

/-!
# Serial numbers of the transaction stream

The `transactions_processing` loop beside stream jobs that insert rows into
`transactions_processing` at any moment.  Serials are the positions of the
rows in the transaction table at every moment; the stored counter agrees with
their number whenever the loop is asleep, and after a restart exactly as long
as no restart falls between the insert of a row and the counter update that
follows it.
-/

namespace MileExplorer

/-- A row as the stream jobs insert it: with an id, a 64-bit block id and a
type. -/
def IsPending (row : Json) : Prop :=
  ∃ (id : String) (bid : Nat) (type : Json),
    row.find? "id" = some (.str id) ∧ row.find? "block-id" = some (.num bid) ∧
      bid < 2 ^ 64 ∧ row.find? "transaction-type" = some type

def isPending (row : Json) : Bool :=
  match row.find? "id", row.find? "block-id", row.find? "transaction-type" with
  | some (.str _), some (.num bid), some _ => 0 ≤ bid && bid < 2 ^ 64
  | _, _, _ => false

theorem isPending_iff (row : Json) : isPending row = true ↔ IsPending row := by
  constructor
  · intro accepted
    unfold isPending at accepted
    split at accepted
    · rename_i id bid type idEq bidEq typeEq
      simp only [Bool.and_eq_true, decide_eq_true_eq] at accepted
      refine ⟨id, bid.toNat, type, idEq, ?_, by omega, typeEq⟩
      rw [bidEq, Int.toNat_of_nonneg accepted.1]
    · simp at accepted
  · rintro ⟨id, bid, type, idEq, bidEq, small, typeEq⟩
    simp only [isPending, idEq, bidEq, typeEq, Bool.and_eq_true, decide_eq_true_eq]
    omega

instance : DecidablePred IsPending := fun row => decidable_of_iff _ (isPending_iff row)

/-! ## Rows, serials and the stored counter -/

/-- The serials of the transaction table, in arrival order. -/
def serials (store : Store) : List (Option Json) :=
  (store .transactions).rows.map fun row => row.find? "serial"

/-- `transactions_state.count`, zero if the row is absent. -/
def storedCount (store : Store) : Nat :=
  match (store .transactionsState).get? (.str "state") with
  | none => 0
  | some row =>
      match ((row.find? "count").getD .null).getUInt64 with
      | .ok count => count
      | .error _ => 0

/-- The state row is absent and the count zero, or it holds the count. -/
def CountIs (store : Store) (count : Nat) : Prop :=
  match (store .transactionsState).get? (.str "state") with
  | none => count = 0
  | some row => row.find? "count" = some (.num count)

instance (store : Store) (count : Nat) : Decidable (CountIs store count) :=
  match found : (store .transactionsState).get? (.str "state") with
  | none => decidable_of_iff (count = 0) (by simp [CountIs, found])
  | some row =>
      decidable_of_iff (row.find? "count" = some (.num count)) (by simp [CountIs, found])

theorem CountIs.storedCount_eq {store : Store} {count : Nat} (counted : CountIs store count) :
    storedCount store = count := by
  unfold CountIs at counted
  unfold storedCount
  split at counted
  · simp [counted]
  · simp [counted]

/-- What holds of the tables at every moment. -/
structure Numbered (store : Store) : Prop where
  serials_eq : serials store =
    (List.range (store .transactions).rows.length).map fun position => some (.num position)
  unmarked : ∀ row ∈ (store .transactions).rows,
    row.find? "transaction-type" ≠ some processingType
  stateOnly : ∀ row ∈ (store .transactionsState).rows, docId row = .str "state"
  pending : ∀ row ∈ (store .transactionsProcessing).rows, IsPending row

/-- What also holds between two passes: the counter is the number of rows. -/
def Counted (store : Store) : Prop :=
  CountIs store (store .transactions).rows.length

instance : DecidablePred Counted := fun store =>
  inferInstanceAs (Decidable (CountIs store (store .transactions).rows.length))

theorem Numbered.empty : Numbered Store.empty where
  serials_eq := rfl
  unmarked := by simp [Store.empty]
  stateOnly := by simp [Store.empty]
  pending := by simp [Store.empty]

theorem Counted.empty : Counted Store.empty := rfl

theorem Numbered.of_pending {store : Store} (numbered : Numbered store) {rows : Table}
    (pending : ∀ row ∈ rows.rows, IsPending row) :
    Numbered (Function.update store .transactionsProcessing rows) where
  serials_eq := by simpa [serials] using numbered.serials_eq
  unmarked := by simpa using numbered.unmarked
  stateOnly := by simpa using numbered.stateOnly
  pending := by simpa using pending

/-- A change of the version rows alone. -/
theorem Numbered.of_metadata {store : Store} (numbered : Numbered store) {rows : Table} :
    Numbered (Function.update store .metadata rows) where
  serials_eq := by simpa [serials] using numbered.serials_eq
  unmarked := by simpa using numbered.unmarked
  stateOnly := by simpa using numbered.stateOnly
  pending := by simpa using numbered.pending

theorem Numbered.of_state {store : Store} (numbered : Numbered store) {rows : Table}
    (stateOnly : ∀ row ∈ rows.rows, docId row = .str "state") :
    Numbered (Function.update store .transactionsState rows) where
  serials_eq := by simpa [serials] using numbered.serials_eq
  unmarked := by simpa using numbered.unmarked
  stateOnly := by simpa using stateOnly
  pending := by simpa using numbered.pending

/-- A fresh row inserted with the number of rows as its serial. -/
theorem Numbered.insert {store : Store} (numbered : Numbered store) {row : Json}
    (serial : row.find? "serial" = some (.num (store .transactions).rows.length))
    (unmarked : row.find? "transaction-type" ≠ some processingType)
    (fresh : ¬ (store .transactions).Has (docId row)) :
    Numbered (Function.update store .transactions ((store .transactions).insert row)) where
  serials_eq := by
    have old := numbered.serials_eq
    unfold serials at old ⊢
    simp only [Function.update_self, KeyedTable.rows_insert_of_not_has fresh, List.map_append,
      List.length_append, old, List.map_cons, List.map_nil, serial, List.length_cons,
      List.length_nil, List.range_succ]
  unmarked := by
    intro other member
    simp only [Function.update_self, KeyedTable.mem_insert] at member
    rcases member with old | ⟨rfl, _⟩
    · exact numbered.unmarked other old
    · exact unmarked
  stateOnly := by simpa using numbered.stateOnly
  pending := by simpa using numbered.pending

/-! ## The contract of the loop -/

/-- The environment changes the pending rows only; the loop never changes or
removes a stored transaction. -/
def streamContract : Contract Query Process where
  valid process := Numbered process.store
  rely before after := ∀ table ≠ TableName.transactionsProcessing,
    after.store table = before.store table
  guarantee before after := ∀ row ∈ (before.store .transactions).rows,
    row ∈ (after.store .transactions).rows
  admits _ _ := True
  relyRefl := fun _ _ _ => rfl
  relyTrans := fun _ _ _ first second table other =>
    (second table other).trans (first table other)
  guaranteeRefl := fun _ _ member => member

theorem CountIs.of_rely {before after : Process} {count : Nat}
    (interference : streamContract.rely before after) (counted : CountIs before.store count) :
    CountIs after.store count := by
  unfold CountIs
  rw [interference .transactionsState (by decide)]
  exact counted

theorem Counted.of_rely {before after : Process}
    (interference : streamContract.rely before after) (counted : Counted before.store) :
    Counted after.store := by
  unfold Counted
  rw [interference .transactions (by decide)]
  exact CountIs.of_rely interference counted

namespace Db

@[simp]
theorem find?_stateRow_id (count blockId : Nat) :
    (stateRow count blockId).find? "id" = some (.str "state") := by
  simp [stateRow, Json.find?_ofMembers, Json.member?_setMember]

@[simp]
theorem find?_stateRow_count (count blockId : Nat) :
    (stateRow count blockId).find? "count" = some (.num count) := by
  simp [stateRow, Json.find?_ofMembers, Json.member?_setMember]

theorem merge_stateRow (members : List (String × Json)) (count blockId : Nat) :
    ((Json.obj members).merge ((stateRow count blockId).erase "state")).find? "count" =
        some (.num count) ∧
      docId ((Json.obj members).merge ((stateRow count blockId).erase "state")) =
        .str "state" := by
  have countEq := find?_stateRow_count count blockId
  have idEq := find?_stateRow_id count blockId
  unfold stateRow at countEq idEq ⊢
  refine ⟨?_, docId_of_find? ?_⟩
  · rw [Json.find?_merge_erase, countEq]
    cases Json.member? "count" members <;> simp
  · rw [Json.find?_merge_erase, idEq]
    cases Json.member? "id" members <;> simp

/-- The state table after `update_state`: it holds the count, whether the row
was there or not, and no other row is added. -/
theorem upsert_stateRow {checked : Process} {rows : Table}
    (same : rows = checked.store .transactionsState) (noText : ¬ rows.Has (.str indexText))
    (count blockId : Nat) :
    let updated := upsert (absentIn checked .transactionsState "state") "state"
      (stateRow count blockId) rows
    (∀ id, updated.Has id → rows.Has id ∨ id = .str "state") ∧
      ∃ row, updated.get? (.str "state") = some row ∧ row.find? "count" = some (.num count) := by
  have newId : docId (stateRow count blockId) = .str "state" :=
    docId_of_find? (find?_stateRow_id count blockId)
  by_cases present : rows.Has (.str "state")
  · have stored : absentIn checked .transactionsState "state" = false := by
      simp [absentIn, ← same, present]
    obtain ⟨row, found⟩ := KeyedTable.has_iff_get?.mp present
    obtain ⟨member, rowId⟩ := KeyedTable.get?_eq_some.mp found
    obtain ⟨members, rfl⟩ := exists_members_of_docId (by simp [rowId] : docId row ≠ .null)
    obtain ⟨counts, keeps⟩ := merge_stateRow members count blockId
    simp only [stored, upsert, Bool.false_eq_true, if_false]
    refine ⟨?_, _, KeyedTable.get?_modify_self found keeps, counts⟩
    intro id has
    exact .inl (KeyedTable.has_modify.mp has)
  · have absent : absentIn checked .transactionsState "state" = true := by
      simp [absentIn, ← same, present, noText]
    have fresh : ¬ rows.Has (docId (stateRow count blockId)) := by
      rw [newId]
      exact present
    simp only [absent, upsert, if_true]
    refine ⟨?_, stateRow count blockId, KeyedTable.get?_eq_some.mpr ⟨?_, newId⟩, by simp⟩
    · intro id has
      rcases KeyedTable.has_insert.mp has with old | rfl
      · exact .inl old
      · exact .inr newId
    · exact KeyedTable.mem_insert.mpr (Or.inr ⟨rfl, fresh⟩)

theorem not_has_indexText {rows : Table} (stateOnly : ∀ row ∈ rows.rows, docId row = .str "state") :
    ¬ rows.Has (.str indexText) := by
  rintro ⟨row, member, rowId⟩
  rw [stateOnly row member] at rowId
  exact absurd rowId (by decide)

theorem updateState_holds {process : Process} (row : String) (count blockId : Nat) :
    (updateState row count blockId).Holds Process.exec streamContract
      (fun _ final => CountIs final.store count ∧
        final.store .transactions = process.store .transactions) process := by
  refine update_bind_holds (find?_stateRow_id count blockId) ?_
  intro checked current moved valid movedAgain currentValid
  have sameState := movedAgain .transactionsState (by decide)
  obtain ⟨noOther, row, found, counts⟩ := upsert_stateRow sameState
    (not_has_indexText currentValid.stateOnly) count blockId
  refine ⟨currentValid.of_state ?_, ?_, ?_, ?_⟩
  · intro other otherMem
    rcases noOther _ (KeyedTable.has_of_mem otherMem) with ⟨old, oldMem, sameId⟩ | isState
    · rw [← sameId]
      exact currentValid.stateOnly old oldMem
    · exact isState
  · intro other otherMem
    simpa using otherMem
  · simp only [CountIs, Process.store_withTable, Function.update_self, found]
    exact counts
  · have kept := streamContract.relyTrans _ _ _ moved movedAgain .transactions (by decide)
    simpa using kept

theorem transactionHistoryState_eq (store : Store) :
    transactionHistoryState store =
      match ((store .transactionsState).get? (.str "state")).getD .null with
      | .arr rows => .ok (.arr (rows.filterMap fun row => row.find? "count"))
      | document =>
          match document.find? "count" with
          | some value => .ok value
          | none => .error ⟨"No attribute count in object."⟩ :=
  rfl

/-- The counter a pass starts from is the number of stored rows. -/
theorem readLastCount_holds {process : Process} (counted : Counted process.store) :
    readLastCount.Holds Process.exec streamContract
      (fun lastCount final => lastCount = (final.store .transactions).rows.length ∧
        Counted final.store) process := by
  refine getData_bind_holds ?_
  intro current moved valid
  have stillCounted := counted.of_rely moved
  unfold Counted CountIs at stillCounted
  split at stillCounted
  · rename_i absent
    have noCount : getDataOf (transactionHistoryState current.store) = .arr [] := by
      rw [transactionHistoryState_eq, absent]
      rfl
    rw [noCount]
    refine (updateState_holds "" 0 0).bind ?_
    rintro _ final ⟨reset, sameRows⟩
    have empty : (final.store .transactions).rows.length = 0 := by rw [sameRows, stillCounted]
    exact ⟨empty.symm, by unfold Counted; rw [empty]; exact reset⟩
  · rename_i row found
    obtain ⟨_, rowId⟩ := KeyedTable.get?_eq_some.mp found
    obtain ⟨members, rfl⟩ := exists_members_of_docId (by simp [rowId] : docId row ≠ .null)
    have theCount : getDataOf (transactionHistoryState current.store) =
        .num (current.store .transactions).rows.length := by
      rw [transactionHistoryState_eq, found]
      simp only [Option.getD_some, stillCounted]
      rfl
    rw [theCount, Json.getUInt64_num]
    refine ⟨rfl, ?_⟩
    simp only [Counted, CountIs, found]
    exact stillCounted

/-- Removing a pending row touches neither the rows nor the counter. -/
theorem removePending_holds {process : Process} {site : Site} {id : String}
    {rest : Unit → Prog Nat} {post : Nat → Process → Prop} (counted : Counted process.store)
    (continues : ∀ final, Counted final.store →
      final.store .transactions = process.store .transactions →
      (rest ()).Holds Process.exec streamContract post final) :
    (remove site .transactionsProcessing id >>= rest).Holds Process.exec streamContract
      post process := by
  refine remove_bind_holds fun current moved valid => ⟨valid.of_pending ?_, ?_, continues _ ?_ ?_⟩
  · exact fun row member => valid.pending row (KeyedTable.mem_erase.mp member).1
  · intro row member
    simpa using member
  · simpa [Counted, CountIs] using counted.of_rely moved
  · simpa using moved .transactions (by decide)

theorem storeRow_holds {process : Process} {item type : Json} {id : String} {bid : Nat}
    {rest : Unit → Prog Nat} {post : Nat → Process → Prop}
    (idEq : item.find? "id" = some (.str id))
    (typeEq : item.find? "transaction-type" = some type) (unmarked : type ≠ processingType)
    (fresh : ¬ (process.store .transactions).Has (.str id))
    (continues : ∀ final, Counted final.store →
      (final.store .transactions).rows.length =
        (process.store .transactions).rows.length + 1 →
      (rest ()).Holds Process.exec streamContract post final) :
    (insert (.insert .transactions id) .transactions
        (item.set "serial" (.num (process.store .transactions).rows.length)) >>= fun _ =>
      updateState id ((process.store .transactions).rows.length + 1) bid >>= rest).Holds
        Process.exec streamContract post process := by
  have isObj := Json.isObject_of_find? idEq
  refine insert_bind_holds (by simp [isObj]) fun current moved valid => ?_
  have sameRows := moved .transactions (by decide)
  have newId : docId (item.set "serial" (.num (process.store .transactions).rows.length)) =
      .str id := docId_of_find? (by simp [isObj, idEq])
  have stillFresh : ¬ (current.store .transactions).Has (docId (item.set "serial"
      (.num (process.store .transactions).rows.length))) := by
    rw [newId, sameRows]
    exact fresh
  have numbered := valid.insert (by simp [isObj, sameRows])
    (by simpa [isObj, typeEq] using unmarked) stillFresh
  refine ⟨numbered, ?_, ?_⟩
  · intro row member
    simpa [KeyedTable.mem_insert] using Or.inl member
  · refine (updateState_holds id _ bid).bind ?_
    rintro _ updated ⟨newCount, updatedRows⟩
    have lengthEq : (updated.store .transactions).rows.length =
        (process.store .transactions).rows.length + 1 := by
      rw [updatedRows, Process.store_withTable, Function.update_self,
        KeyedTable.rows_insert_of_not_has stillFresh, List.length_append, sameRows]
      rfl
    refine continues updated ?_ lengthEq
    unfold Counted
    rw [lengthEq]
    exact newCount

/-- The item loop keeps the numbering and ends with the counter right. -/
theorem processTransactions_holds (items : List Json) (pending : ∀ item ∈ items, IsPending item)
    (prevBid : Nat) {process : Process} (counted : Counted process.store) :
    (processTransactions prevBid (process.store .transactions).rows.length items).Holds
      Process.exec streamContract (fun _ final => Counted final.store) process := by
  induction items generalizing prevBid process with
  | nil => exact counted
  | cons item rest ih =>
      obtain ⟨id, bid, type, idEq, bidEq, -, typeEq⟩ := pending item (by simp)
      have restPending : ∀ other ∈ rest, IsPending other :=
        fun other member => pending other (by simp [member])
      have continues (final : Process) (finalCounted : Counted final.store) :=
        ih restPending bid finalCounted
      simp only [processTransactions, itemHead_eq idEq bidEq typeEq]
      cases decided : disposition prevBid bid type with
      | forward => exact counted
      | marker =>
          refine removePending_holds counted fun final finalCounted sameRows => ?_
          rw [← sameRows]
          exact continues final finalCounted
      | take =>
          refine getData_bind_holds fun found moved _ => ?_
          have foundCounted := counted.of_rely moved
          have foundRows := moved .transactions (by decide)
          simp only [Cursor.count_get]
          rw [← foundRows]
          split_ifs with present
          · refine removePending_holds foundCounted fun final finalCounted sameRows => ?_
            rw [← sameRows]
            exact continues final finalCounted
          · refine storeRow_holds idEq typeEq (disposition_take decided) present
              fun stored storedCounted lengthEq => ?_
            refine removePending_holds storedCounted fun final finalCounted sameRows => ?_
            rw [← lengthEq, ← sameRows]
            exact continues final finalCounted

/-- A whole pass, from any `prev_bid`. -/
theorem transactionsProcessing_holds (prevBid : Nat) {process : Process}
    (counted : Counted process.store) :
    (transactionsProcessing prevBid).Holds Process.exec streamContract
      (fun _ final => Counted final.store) process := by
  refine getData_bind_holds fun current moved valid => ?_
  have pending : ∀ item ∈ Cursor.ordered "block-id" (current.store .transactionsProcessing).rows,
      IsPending item :=
    fun item member => valid.pending item (Cursor.mem_ordered.mp member).1
  refine (readLastCount_holds (counted.of_rely moved)).bind ?_
  rintro _ started ⟨rfl, startedCounted⟩
  exact processTransactions_holds _ pending prevBid startedCounted

end Db

end MileExplorer
