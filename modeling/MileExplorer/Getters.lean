import MileExplorer.Migration
import MileExplorer.Transactions

/-!
# Queries of the backend

The getters of `Db` that the API methods call, with the cursors that only they
use.  A getter reads the database once or twice and changes nothing, so it is
a function of the tables.
-/

namespace MileExplorer

namespace Cursor

/-- The rows that have the value in a secondary index. -/
def getAll (cursor : Cursor) (id index : String) : Cursor := fun store => do
  let rows ← rows (← cursor store)
  return .arr (rows.filter fun row => row.find? index = some (.str id))

def count (cursor : Cursor) : Cursor := fun store => do
  match ← cursor store with
  | .arr elements => return .num elements.length
  | .obj members => return .num members.length
  | .str text => return .num text.length
  | other => .error ⟨"Cannot convert " ++ other.typeName ++ " to SEQUENCE"⟩

/-- The elements from `first` on, up to `first + limit`, a sum of 64-bit
numbers. -/
def slice (cursor : Cursor) (first limit : Nat) : Cursor := fun store => do
  let elements ← rows (← cursor store)
  return .arr ((elements.drop first).take ((first + limit) % 2 ^ 64 - first))

/-- The place of an element among those without the field, which come first,
and those with it, by its value. -/
def fieldRank (name : String) (element : Json) : Lex (Nat × Lex (Nat × Lex (Rat × String))) :=
  match element.find? name with
  | none => toLex (0, Json.null.sortKey)
  | some value => toLex (1, value.sortKey)

/-- The elements by the value of a field, those without it first. -/
def sortField (cursor : Cursor) (name : String) : Cursor := fun store => do
  let elements ← rows (← cursor store)
  return .arr (elements.insertionSort fun first second =>
    fieldRank name first ≤ fieldRank name second)

def filter (cursor : Cursor) (name : String) (value : Json) : Cursor := fun store => do
  let rows ← rows (← cursor store)
  return .arr (rows.filter fun row => row.find? name = some value)

end Cursor

theorem getDataOf_eq_document {answer : Except DbError Json} {document value : Json}
    {key : String} (found : document.find? key = some value) :
    getDataOf answer = document ↔ answer = .ok document := by
  have notEmpty : Json.arr [] ≠ document := by
    rintro rfl
    simp [Json.find?] at found
  have notNull : Json.null ≠ document := by
    rintro rfl
    simp [Json.find?] at found
  cases answer with
  | error error => simpa [getDataOf] using notEmpty
  | ok data => cases data <;> simp [getDataOf, notEmpty, notNull]

namespace Db

def networkState : Cursor := (cursor .nodeStates).max "id"

def blockchainInfo : Cursor := (cursor .blockchainInfo).max "id"

def nodes (first limit : Nat) : Cursor := (networkState.field "nodes").slice first limit

def walletNode (publicKey : String) : Cursor := (cursor .nodeWallets).get publicKey

def blockHistoryState : Cursor := (cursor .blocks).max "block-id"

/-- The `count` of `get-block-history-state`, read from the last block. -/
def blockHistoryCount (state : Json) : Except Exn Nat := do
  let last ← (← state.index "block-id").getUInt64
  return (last + 1) % 2 ^ 64

def blockHistory (first limit : Nat) : Cursor := (cursor .blocks).between first limit "block-id"

def blockById (blockId : Nat) : Cursor := (cursor .blocks).get (toString blockId)

def wallet (publicKey : String) : Cursor := (cursor .wallets).get publicKey

/-- `get_wallet_history_state`.  Whatever goes wrong, the answer is two zeros. -/
def walletHistoryState (publicKey : String) (store : Store) : Nat × Nat :=
  let blocks := getDataOf ((((wallet publicKey).field "blocks").count) store)
  let transactions := getDataOf ((((wallet publicKey).field "transactions").count) store)
  match blocks.getUInt64, transactions.getUInt64 with
  | .ok blocks, .ok transactions => (blocks, transactions)
  | _, _ => (0, 0)

def walletHistoryBlocks (publicKey : String) (first limit : Nat) : Cursor :=
  (((((wallet publicKey).field "transactions").sortField "block-id").field "block-id").slice
    first limit)

def walletHistoryTransactions (publicKey : String) (first limit : Nat) : Cursor :=
  ((wallet publicKey).field "transactions").slice first limit

def transactionHistory (first limit : Nat) : Cursor :=
  (cursor .transactions).between first limit "serial"

def transactionById (id : String) : Cursor := (cursor .transactions).get id

def transactionByDigest (digest : String) : Cursor := (cursor .transactions).getAll digest "digest"

/-- `get_version` on tables that do not change meanwhile. -/
def versionOf (store : Store) : Nat :=
  toUInt32 (getNumberOf ((((cursor .metadata).max "id").field "version") store))

end Db

end MileExplorer
