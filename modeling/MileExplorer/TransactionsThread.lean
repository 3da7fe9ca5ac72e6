import MileExplorer.StreamThreads

/-!
# The `transactions_processing` loop in the indexer

A pass removes a pending row only when the transaction is stored or the row
marks a block without transactions, so what is covered stays covered, whatever
the other threads do meanwhile.
-/

namespace MileExplorer

variable {platform : Platform} {chain : Chain}

namespace Db

variable {process : Process} {Result : Type} {post : Result → Process → Prop}

/-- Removing a pending row that is no transaction's or whose transaction is
stored. -/
theorem removeCovered_holds {site : Site} {id : String} {rest : Unit → Prog Result}
    (gone : (∀ number, id ∉ chain.ids number) ∨ (process.store .transactions).Has (.str id))
    (continues : ∀ final, Grows chain process final →
      (rest ()).Holds Process.exec ((indexing platform chain).contract .transactions)
        post final) :
    (remove site .transactionsProcessing id >>= rest).Holds Process.exec
      ((indexing platform chain).contract .transactions) post process := by
  refine remove_bind_holds fun current (moved : Grows chain process current)
    (valid : Valid platform chain current) => ?_
  have grows : Grows chain current (current.withTable .transactionsProcessing
      ((current.store .transactionsProcessing).erase (.str id))) := by
    refine .withPending fun number other member covered => ?_
    rcases covered with stored | pending
    · exact .inl stored
    · by_cases same : other = id
      · subst same
        rcases gone with noTransaction | stored
        · exact absurd member (noTransaction number)
        · exact .inl (moved.transactions _ stored)
      · exact .inr (KeyedTable.has_erase.mpr ⟨pending, by simpa using same⟩)
  refine ⟨valid.withPending ?_, ⟨grows, ⟨rfl, fun _ has => has⟩, fun has => has⟩,
    continues _ (moved.trans grows)⟩
  exact fun row member => valid.pending row (KeyedTable.mem_erase.mp member).1

theorem storeTransaction_holds {item : Json} {number bid lastCount : Nat} {id : String}
    {rest : Unit → Prog Result} (idEq : item.find? "id" = some (.str id))
    (member : id ∈ chain.ids number) (known : process.Known number)
    (continues : ∀ final, Grows chain process final →
      (final.store .transactions).Has (.str id) →
      (rest ()).Holds Process.exec ((indexing platform chain).contract .transactions)
        post final) :
    (insert (.insert .transactions id) .transactions (item.set "serial" (.num lastCount)) >>=
      fun _ => updateState id (lastCount + 1) bid >>= rest).Holds Process.exec
        ((indexing platform chain).contract .transactions) post process := by
  have isObj := Json.isObject_of_find? idEq
  have newId : docId (item.set "serial" (.num lastCount)) = .str id :=
    docId_of_find? (by simp [isObj, idEq])
  refine insert_bind_holds (by simp [isObj]) fun current (moved : Grows chain process current)
    (valid : Valid platform chain current) => ?_
  have grows := Grows.insertTransaction chain current (item.set "serial" (.num lastCount))
  refine ⟨valid.insertTransaction member (moved.known number known) newId,
    ⟨grows, ⟨rfl, fun _ has => has⟩, fun has => has⟩, ?_⟩
  have stored : ((current.store .transactions).insert (item.set "serial" (.num lastCount))).Has
      (.str id) := KeyedTable.has_insert.mpr (.inr newId)
  refine (SameIndex.holds
    (fun final => Grows chain process final ∧ (final.store .transactions).Has (.str id))
    (updateState_steps id (lastCount + 1) bid (List.mem_singleton_self _)) (by decide) ?_ ?_
    ⟨moved.trans grows, stored⟩).bind
    fun _ final kept => continues final kept.1 kept.2
  · intro before after (later : Grows chain before after) ⟨grown, has⟩
    exact ⟨grown.trans later, later.transactions _ has⟩
  · intro before after same ⟨grown, has⟩
    exact ⟨grown.trans (same.grows chain), (same.grows chain).transactions _ has⟩

/-- The item loop, on rows that are transactions of known blocks or markers. -/
theorem processTransactions_indexed (items : List Json) (prevBid lastCount : Nat)
    (rows : ∀ item ∈ items, IsStreamRow chain process item ∨ IsMarkerRow chain item) :
    (processTransactions prevBid lastCount items).Holds Process.exec
      ((indexing platform chain).contract .transactions) (fun _ _ => True) process := by
  induction items generalizing prevBid lastCount process with
  | nil => trivial
  | cons item rest ih =>
      have restRows (final : Process) (grows : Grows chain process final) :
          ∀ other ∈ rest, IsStreamRow chain final other ∨ IsMarkerRow chain other :=
        fun other member => (rows other (by simp [member])).imp_left (.mono grows)
      rcases rows item (by simp) with
        ⟨number, id, member, known, idEq, bidEq, -, type, typeEq, unmarked⟩ |
        ⟨number, idEq, bidEq, -, typeEq, -⟩
      · simp only [processTransactions, itemHead_eq idEq bidEq typeEq]
        cases decided : disposition prevBid number type with
        | forward => trivial
        | marker => exact absurd (disposition_marker decided) unmarked
        | take =>
            refine getData_bind_holds fun current (moved : Grows chain process current) _ => ?_
            simp only [Cursor.count_get]
            split_ifs with present
            · exact removeCovered_holds (.inr present) fun final grows =>
                ih _ _ (restRows final (moved.trans grows))
            · refine storeTransaction_holds idEq member (moved.known number known)
                fun stored grows has => ?_
              exact removeCovered_holds (.inr has) fun final later =>
                ih _ _ (restRows final ((moved.trans grows).trans later))
      · simp only [processTransactions, itemHead_eq idEq bidEq typeEq]
        cases decided : disposition prevBid number processingType with
        | forward => trivial
        | take => exact absurd rfl (disposition_take decided)
        | marker =>
            refine removeCovered_holds (.inl fun other member => ?_) fun final grows =>
              ih _ _ (restRows final grows)
            exact Chain.ids_ne_toString member rfl

/-- A whole pass. -/
theorem transactionsProcessing_indexed (prevBid : Nat) :
    (transactionsProcessing prevBid).Holds Process.exec
      ((indexing platform chain).contract .transactions) (fun _ _ => True) process := by
  refine getData_bind_holds fun current _ (valid : Valid platform chain current) => ?_
  have rows : ∀ item ∈ Cursor.ordered "block-id" (current.store .transactionsProcessing).rows,
      IsStreamRow chain current item ∨ IsMarkerRow chain item :=
    fun item member => valid.pending item (Cursor.mem_ordered.mp member).1
  refine (SameIndex.holds (Grows chain current)
    (readLastCount_steps (List.mem_singleton_self _)) (by decide) ?_ ?_ (.refl current)).bind
      fun lastCount started grows => ?_
  · exact fun before after later grown => grown.trans later
  · exact fun before after same grown => grown.trans (same.grows chain)
  · exact processTransactions_indexed _ _ _ fun item member =>
      (rows item member).imp_left (.mono grows)

end Db

end MileExplorer
