import MileExplorer.Json
import MileExplorer.KeyedTable
import MileExplorer.QueryProgram

/-!
# The database and the queries against it

The tables of `names.hpp`, the cursors of `cursor.cpp` and the table
operations of `table.cpp`.  A cursor is what its query yields on a given
database; the operations that run a query are programs of one or two atomic
queries, so that threads can interleave and single queries can fail.
-/

namespace MileExplorer

inductive TableName where
  | metadata
  | blockchainInfo
  | nodeStates
  | nodeWallets
  | blocks
  | blocksProcessing
  | wallets
  | walletsState
  | transactions
  | transactionsState
  | transactionsProcessing
  | genesisTransactions
  | turnovers
  | transactionTurnover
  | walletsTop
  deriving DecidableEq, Repr

def docId (document : Json) : Json :=
  (document.find? "id").getD .null

theorem docId_of_find? {document id : Json} (member : document.find? "id" = some id) :
    docId document = id := by
  simp [docId, member]

abbrev Table := KeyedTable docId

abbrev Store := TableName → Table

def Store.empty : Store := fun _ => KeyedTable.empty

/-- `RethinkDB::Error`. -/
structure DbError where
  message : String
  deriving DecidableEq, Repr

abbrev Cursor := Store → Except DbError Json

/-- `Table::cursor`. -/
def cursor (table : TableName) : Cursor := fun store => .ok (.arr (store table).rows)

namespace Cursor

def rows : Json → Except DbError (List Json)
  | .arr rows => .ok rows
  | other => .error ⟨"Cannot convert " ++ other.typeName ++ " to SEQUENCE"⟩

/-- Rows that have the index field, by its value and then by primary key. -/
def ordered (index : String) (rows : List Json) : List Json :=
  (rows.filter fun row => (row.find? index).isSome).insertionSort fun first second =>
    toLex (((first.find? index).getD .null).sortKey, (docId first).sortKey) ≤
      toLex (((second.find? index).getD .null).sortKey, (docId second).sortKey)

def get (cursor : Cursor) (id : String) : Cursor := fun store => do
  let rows ← rows (← cursor store)
  return (rows.find? fun row => docId row = .str id).getD .null

def sort (cursor : Cursor) (index : String) : Cursor := fun store => do
  let rows ← rows (← cursor store)
  return .arr (ordered index rows)

def max (cursor : Cursor) (index : String) : Cursor := fun store => do
  let rows ← rows (← cursor store)
  match (ordered index rows).getLast? with
  | some row => return row
  | none => .error ⟨"Cannot take the max of an empty stream."⟩

def min (cursor : Cursor) (index : String) : Cursor := fun store => do
  let rows ← rows (← cursor store)
  match (ordered index rows).head? with
  | some row => return row
  | none => .error ⟨"Cannot take the min of an empty stream."⟩

/-- A member of an object, or that member of every element that has it. -/
def field (cursor : Cursor) (name : String) : Cursor := fun store => do
  match ← cursor store with
  | .arr rows => return .arr (rows.filterMap fun row => row.find? name)
  | document =>
      match document.find? name with
      | some value => return value
      | none => .error ⟨"No attribute " ++ name ++ " in object."⟩

/-- `static_cast<double>` of an unsigned 64-bit number: its leading 53 bits,
rounded to the nearest number and in a tie to the even one. -/
def toDouble (number : Nat) : Nat :=
  let unit := 2 ^ (number.log2 - 52)
  let below := number / unit * unit
  let rest := number % unit
  if 2 * rest < unit ∨ 2 * rest = unit ∧ number / unit % 2 = 0 then below else below + unit

/-- The rows whose index value is in the half-open range from `first` to
`first + limit`.  The second argument is a length, and the sum is one of
64-bit numbers.  The driver sends both ends as doubles. -/
def between (cursor : Cursor) (first limit : Nat) (index : String) : Cursor := fun store => do
  let rows ← rows (← cursor store)
  return .arr ((ordered index rows).filter fun row => inRange first limit index row)
where
  inRange (first limit : Nat) (index : String) (row : Json) : Bool :=
    match row.find? index with
    | some value =>
        (Json.num (toDouble first)).sortKey ≤ value.sortKey &&
          value.sortKey < (Json.num (toDouble ((first + limit) % 2 ^ 64))).sortKey
    | none => false

end Cursor

/-- `Cursor::get_data`: an error and a nil result both become an empty array. -/
def getDataOf : Except DbError Json → Json
  | .ok .null => .arr []
  | .ok value => value
  | .error _ => .arr []

/-- `Cursor::get_number`: anything but a number, and every error, becomes zero. -/
def getNumberOf : Except DbError Json → Rat
  | .ok (.num value) => value
  | .ok (.real value) => value
  | _ => 0

/-- Conversion of the `double` of `get_number` to an unsigned 64-bit number.
It is undefined for a negative number, which becomes 0 here. -/
def toUInt64 (number : Rat) : Nat := (Json.truncate number).toNat

@[simp]
theorem toUInt64_natCast (number : Nat) : toUInt64 (number : Rat) = number := by
  simp [toUInt64]

/-! ## Queries -/

/-- A function queued on `transactions_queue_`: the wallet or the stream half
of `add_transactions`, with the block's transactions, id and time. -/
inductive Job where
  | wallet (transactions : Json) (blockId : Nat) (time : Int)
  | stream (transactions : Json) (blockId : Nat) (time : Int)
  deriving DecidableEq

/-- Where in the program a query is made, and for which row. -/
inductive Site where
  | snapshot (table : TableName)
  | count
  | gate (row : String)
  | lookup (table : TableName) (row : String)
  | insert (table : TableName) (row : String)
  | remove (table : TableName) (row : String)
  | check (table : TableName) (row : String)
  | update (table : TableName) (row : String)
  | other
  deriving DecidableEq, Repr

/-- One atomic interaction of a thread with what it shares with the others:
a read or a write of the database, a job queued or completed, the fetcher
started, or the delivery of a block completed. -/
inductive Query where
  | read (site : Site) (cursor : Cursor)
  | write (site : Site) (effect : Store → Except DbError Store)
  | async (job : Job)
  | asyncState (publicKey : String)
  | finish (job : Job)
  | run (first : Nat)
  | delivered (blockId : Nat)

/-- The part of the fetcher that fetches blocks: where its next range begins
once it runs, whether it has asked for a range since, the blocks of the ranges
asked for that are still to be downloaded, and those that are being added to
`blocks_processing`. -/
structure Fetcher where
  first : Option Nat
  resumed : Bool
  fetching : List Nat
  delivering : List Nat

/-- What the threads of the indexer share: the database, the jobs waiting in
`transactions_queue_` and those taken by one of its workers, the wallets
waiting in `state_queue`, and the queues of the fetcher. -/
structure Process where
  store : Store
  waiting : List Job
  running : List Job
  stateQueue : List String
  fetcher : Fetcher

namespace Process

/-- A process with nothing queued and the fetcher not started. -/
def idle (store : Store) : Process := ⟨store, [], [], [], ⟨none, false, [], []⟩⟩

/-- Answer a query, the database failing at the sites `faults` names. -/
def execFaulty (faults : Site → Bool) (query : Query) (process : Process) :
    Except DbError Json × Process :=
  match query with
  | .read site cursor =>
      if faults site then (.error ⟨"connection lost"⟩, process)
      else (cursor process.store, process)
  | .write site effect =>
      if faults site then (.error ⟨"connection lost"⟩, process)
      else
        match effect process.store with
        | .ok store => (.ok .null, { process with store := store })
        | .error error => (.error error, process)
  | .async job => (.ok .null, { process with waiting := process.waiting ++ [job] })
  | .asyncState publicKey =>
      (.ok .null, { process with stateQueue := process.stateQueue ++ [publicKey] })
  | .finish job => (.ok .null, { process with running := process.running.erase job })
  | .run first =>
      (.ok .null, { process with
        fetcher := { process.fetcher with first := some first, resumed := false } })
  | .delivered blockId =>
      (.ok .null, { process with
        fetcher := { process.fetcher with
          delivering := process.fetcher.delivering.erase blockId } })

/-- Answer a query of a database that does not fail. -/
def exec : Query → Process → Except DbError Json × Process := execFaulty fun _ => false

end Process

abbrev Prog (Result : Type) := Program Query (Except DbError Json) Result

/-! ## Table operations -/

namespace Db

/-- Effect of an insert: a taken primary key leaves the stored row. -/
def insertEffect (table : TableName) (data : Json) (store : Store) : Except DbError Store :=
  match data with
  | .obj members => .ok (Function.update store table ((store table).insert (.obj members)))
  | .arr documents => .ok (Function.update store table ((store table).insertMany documents))
  | other => .error ⟨"Cannot insert " ++ other.typeName⟩

def updateEffect (table : TableName) (id : String) (data : Json) (store : Store) :
    Except DbError Store :=
  .ok (Function.update store table
    ((store table).modify (.str id) fun row => row.merge data))

def removeEffect (table : TableName) (id : String) (store : Store) : Except DbError Store :=
  .ok (Function.update store table ((store table).erase (.str id)))

/-- `Cursor::get_data`. -/
def getData (site : Site) (cursor : Cursor) : Prog Json :=
  .request (.read site cursor) getDataOf

/-- `Cursor::get_number`. -/
def getNumber (site : Site) (cursor : Cursor) : Prog Rat :=
  .request (.read site cursor) getNumberOf

/-- `Table::insert`, which reports a database error only to the log. -/
def insert (site : Site) (table : TableName) (data : Json) : Prog Unit :=
  .request (.write site (insertEffect table data)) fun _ => ()

/-- `Cursor::remove(id)`, which reports a database error only to the log. -/
def remove (site : Site) (table : TableName) (id : String) : Prog Unit :=
  .request (.write site (removeEffect table id)) fun _ => ()

/-- The text `Table::update` passes to `get_all` after the id.  The driver
takes it for a second key, not for the name of the index. -/
def indexText : String := "\x7b\"index\":\"id\"\x7d"

/-- `get_all(id, indexText).is_empty()`. -/
def isEmpty (table : TableName) (id : String) : Cursor := fun store =>
  .ok (.bool (!decide ((store table).Has (.str id)) &&
    !decide ((store table).Has (.str indexText))))

/-- `Table::update(data)`: insert the row or update the stored one.  `row`
tells apart the calls made for different rows. -/
def update (row : String) (table : TableName) (data : Json) : Prog (Except Exn Unit) :=
  match data.indexConst "id" >>= Json.getString with
  | .error exception => .done (.error exception)
  | .ok id =>
      .ask (.read (.check table row) (isEmpty table id)) fun status =>
        match status with
        | .ok (.bool true) =>
            .ask (.write (.update table row) (insertEffect table data)) fun _ => .done (.ok ())
        | .ok _ =>
            .ask (.write (.update table row) (updateEffect table id (data.erase id)))
              fun _ => .done (.ok ())
        | .error _ => .done (.ok ())

end Db

end MileExplorer
