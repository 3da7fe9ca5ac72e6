import MileExplorer.Store

/-!
# The `transactions_processing` loop

One pass reads the pending rows in block order, reads the number of
transactions stored so far, and moves row after row to the transaction table,
giving each the next serial.  The only thing a pass leaves for the next one is
`prev_bid`, the block of the last row it looked at.
-/

namespace MileExplorer

/-- The type of the row that stands for a block without transactions. -/
def processingType : Json := .str "__processing__"

/-- Difference of unsigned 64-bit numbers. -/
def sub64 (first second : Nat) : Nat := (first + 2 ^ 64 - second) % 2 ^ 64

/-- What the head of the item loop does with a row: drop a marker, stop at a
row it takes for one of a forward block, or store the row. -/
inductive Disposition where
  | marker
  | forward
  | take
  deriving DecidableEq, Repr

def disposition (prevBid bid : Nat) (type : Json) : Disposition :=
  if prevBid > 0 then
    if type = processingType then .marker
    else if sub64 bid prevBid > 1 then .forward
    else .take
  else if type = processingType then .marker
  else .take

theorem disposition_take {prevBid bid : Nat} {type : Json}
    (taken : disposition prevBid bid type = .take) : type ≠ processingType := by
  intro isMarker
  unfold disposition at taken
  split_ifs at taken

theorem disposition_marker {prevBid bid : Nat} {type : Json}
    (marked : disposition prevBid bid type = .marker) : type = processingType := by
  unfold disposition at marked
  split_ifs at marked with _ isMarker _ isMarker <;> exact isMarker

/-- The members of an item that a pass reads: block id, row id and type. -/
def itemHead (item : Json) : Except Exn (Nat × String × Json) := do
  let bid ← (← item.index "block-id").getUInt64
  let trxid ← (← item.index "id").getString
  let type ← item.at? "transaction-type"
  return (bid, trxid, type)

theorem itemHead_eq {row type : Json} {id : String} {bid : Nat}
    (idEq : row.find? "id" = some (.str id))
    (bidEq : row.find? "block-id" = some (.num bid))
    (typeEq : row.find? "transaction-type" = some type) :
    itemHead row = .ok (bid, id, type) := by
  simp only [itemHead, Json.index_of_find? idEq, Json.index_of_find? bidEq,
    Json.at?_of_find? typeEq]
  simp [bind, Except.bind, pure, Except.pure, Json.getString]

theorem find?_of_itemHead {row type : Json} {id : String} {bid : Nat}
    (head : itemHead row = .ok (bid, id, type)) :
    row.find? "id" = some (.str id) ∧ row.find? "transaction-type" = some type := by
  obtain ⟨_, -, rest⟩ := bind_eq_ok.mp head
  obtain ⟨_, -, rest⟩ := bind_eq_ok.mp rest
  obtain ⟨member, memberEq, rest⟩ := bind_eq_ok.mp rest
  obtain ⟨text, textEq, rest⟩ := bind_eq_ok.mp rest
  obtain ⟨value, valueEq, done⟩ := bind_eq_ok.mp rest
  obtain ⟨-, textIs, valueIs⟩ : _ ∧ text = id ∧ value = type := by
    simpa [pure, Except.pure] using done
  exact ⟨textIs ▸ Json.find?_of_index_text memberEq textEq, valueIs ▸ Json.find?_of_at? valueEq⟩

namespace Db

/-- `get_transaction_history_state`, before its conversion to a number. -/
def transactionHistoryState : Cursor :=
  ((cursor .transactionsState).get "state").field "count"

def stateRow (count blockId : Nat) : Json :=
  .ofMembers [("id", .str "state"), ("count", .num count), ("block-id", .num blockId)]

def updateState (row : String) (count blockId : Nat) : Prog Unit := do
  let _ ← update row .transactionsState (stateRow count blockId)
  return ()

/-- The counter at the begin of a pass.  A state that does not convert to a
number is taken for a missing one and reset. -/
def readLastCount : Prog Nat := do
  let state ← getData .count transactionHistoryState
  match state.getUInt64 with
  | .ok count => return count
  | .error _ =>
      updateState "" 0 0
      return 0

/-- The item loop.  Its result is `prev_bid`; an exception leaves the loop
with the value reached, since the handler of the pass does nothing else. -/
def processTransactions (prevBid lastCount : Nat) : List Json → Prog Nat
  | [] => return prevBid
  | item :: rest =>
      match itemHead item with
      | .error _ => return prevBid
      | .ok (bid, trxid, type) =>
          match disposition prevBid bid type with
          | .marker => do
              remove (.remove .transactionsProcessing trxid) .transactionsProcessing trxid
              processTransactions bid lastCount rest
          | .forward => return bid
          | .take => do
              let row ← getData (.lookup .transactions trxid)
                ((cursor .transactions).get trxid)
              if row.count "id" > 0 then
                remove (.remove .transactionsProcessing trxid) .transactionsProcessing trxid
                processTransactions bid lastCount rest
              else
                insert (.insert .transactions trxid) .transactions
                  (item.set "serial" (.num lastCount))
                updateState trxid (lastCount + 1) bid
                remove (.remove .transactionsProcessing trxid) .transactionsProcessing trxid
                processTransactions bid (lastCount + 1) rest

def transactionsProcessing (prevBid : Nat) : Prog Nat := do
  let items ← getData (.snapshot .transactionsProcessing)
    ((cursor .transactionsProcessing).sort "block-id")
  let lastCount ← readLastCount
  processTransactions prevBid lastCount items.elements

end Db

end MileExplorer
