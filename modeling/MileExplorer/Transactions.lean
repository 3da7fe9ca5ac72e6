import MileExplorer.FieldUpdate
import MileExplorer.TransactionsProcessing

/-!
# The transactions of a block

The stream and the wallet half of `add_transactions`.  For each address of a
transaction the stream half builds a row for `transactions_processing` and the
wallet half adds an entry to the wallet of the address.  Both halves are
queued as jobs; a block without a list of transactions is marked instead.
-/

namespace MileExplorer

/-- What the indexer takes from outside this repository: a constant of the
node's API, and the conversion of a time string, whose value for a string that
is not a time is left open by the C library. -/
structure Platform where
  /-- `milecsa::transaction::description_max_length`. -/
  descriptionMaxLength : Nat
  getEpochTime : String → Int

/-- `std::stoull` of the decimal text of a number. -/
def stoull (number : Nat) : Except Exn Nat :=
  if number < 2 ^ 64 then .ok number else .error (.standard "stoull")

def rowId (address blockId number : String) : String :=
  address ++ ":" ++ blockId ++ ":" ++ number

def addPublicKey (trx : Json) (blockId : String) (found : List (String × String))
    (name : String) : Except Exn (List (String × String)) :=
  if trx.count name = 0 then .ok found
  else do
    let address ← trx.constText name
    let number ← trx.constText "transaction-id"
    return Json.setMember address (rowId address blockId number) found

/-- `find_public_keys`: the addresses of a transaction with the ids of its
rows, in the order of the map. -/
def findPublicKeys (trx : Json) (blockId : String) : Except Exn (List (String × String)) :=
  ["from", "public-key"].foldlM (addPublicKey trx blockId) []

def replaceKeys (keyFrom keyTo : String) (trx : Json) : Json :=
  match trx.find? keyFrom with
  | none => trx
  | some value => (trx.set keyTo value).erase keyFrom

/-- The characters of the first `size` bytes of a text, if they end between
two characters. -/
def truncateBytes : Nat → List Char → Option (List Char)
  | _, [] => some []
  | 0, _ :: _ => some []
  | size, char :: rest =>
      if char.utf8Size ≤ size then (truncateBytes (size - char.utf8Size) rest).map (char :: ·)
      else none

/-- Truncation of the description.  A description cut inside a character makes
the `dump` that follows throw. -/
def truncateDescription (maxLength : Nat) (trx : Json) : Except Exn Json :=
  match trx.find? "description" with
  | none => .ok trx
  | some description => do
      let text ← description.getString
      match truncateBytes maxLength text.toList with
      | some kept => return trx.set "description" (.str (String.ofList kept))
      | none => .error (.typeError "invalid UTF-8 byte")

/-- The text of a transaction id that is a number. -/
def textualId (trx : Json) : Except Exn Json := do
  match ← trx.index "transaction-id" with
  | .num value => return trx.set "transaction-id" (.str (toString value))
  | .real value => return trx.set "transaction-id" (.str (toString value))
  | _ => return trx

/-- The row of `transactions_processing` for one address of a transaction. -/
def streamRow (platform : Platform) (blockId : Nat) (time : Int) (uniqId : String)
    (trx : Json) : Except Exn Json := do
  let trx := trx.set "id" (.str uniqId)
  let trx := trx.set "block-id" (.num (← stoull blockId))
  let trx := trx.set "timestamp" (.num time)
  let trx ← textualId trx
  let trx := replaceKeys "transaction-name" "transaction-type" trx
  truncateDescription platform.descriptionMaxLength trx

namespace Db

/-- The loop of `add_stream_transaction` over the addresses.  The transaction
is changed in place from one address to the next, and the check for a known
row asks for the block id. -/
def addStreamEntries (platform : Platform) (blockId : Nat) (time : Int) (trx : Json)
    (output : List Json) : List (String × String) → Prog (Except Exn (List Json))
  | [] => return .ok output
  | (_, uniqId) :: rest => do
      let row ← getData (.lookup .transactionsProcessing uniqId)
        ((cursor .transactionsProcessing).get (toString blockId))
      if row.count "id" > 0 then
        addStreamEntries platform blockId time trx output rest
      else
        match streamRow platform blockId time uniqId trx with
        | .error exception => return .error exception
        | .ok trx => addStreamEntries platform blockId time trx (output ++ [trx]) rest

def addStreamTransaction (platform : Platform) (blockId : Nat) (time : Int)
    (output : List Json) (trx : Json) : Prog (Except Exn (List Json)) :=
  match findPublicKeys trx (toString blockId) with
  | .error exception => return .error exception
  | .ok entries => addStreamEntries platform blockId time trx output entries

def addStreamTransactions (platform : Platform) (blockId : Nat) (time : Int)
    (output : List Json) : List Json → Prog (Except Exn (List Json))
  | [] => return .ok output
  | trx :: rest => do
      match ← addStreamTransaction platform blockId time output trx with
      | .error exception => return .error exception
      | .ok output => addStreamTransactions platform blockId time output rest

/-- The value of `stream`, null until a row is pushed. -/
def streamValue (rows : List Json) : Json :=
  if rows = [] then .null else .arr rows

def streamJob (platform : Platform) (transactions : Json) (blockId : Nat) (time : Int) :
    Prog Unit := do
  match ← addStreamTransactions platform blockId time [] transactions.elements with
  | .error _ => return ()
  | .ok stream =>
      insert (.insert .transactionsProcessing (toString blockId)) .transactionsProcessing
        (streamValue stream)

def walletEntry (trx : Json) (uniqId : String) (blockId : Nat) (time : Int) :
    Except Exn Json := do
  let digest ← trx.indexConst "digest"
  let type ← trx.indexConst "transaction-type"
  return .ofMembers [("id", .str uniqId), ("block-id", .num blockId), ("digest", digest),
    ("transaction-type", type), ("timestamp", .num time)]

def walletFields (blockId : Nat) (entry : Json) : List (String × Json) :=
  [("blocks", .arr [.num blockId]), ("transactions", .arr [entry])]

/-- The update of one wallet, followed by a request for its state. -/
def updateWallet (address uniqId : String) (fields : List (String × Json)) : Prog Unit := do
  updateFields uniqId .wallets address fields
  .request (.asyncState address) fun _ => ()

def addWalletEntries (trx : Json) (blockId : Nat) (time : Int) :
    List (String × String) → Prog (Except Exn Unit)
  | [] => return .ok ()
  | (address, uniqId) :: rest =>
      match walletEntry trx uniqId blockId time with
      | .error exception => return .error exception
      | .ok entry => do
          updateWallet address uniqId (walletFields blockId entry)
          match trx.find? "to" with
          | none => addWalletEntries trx blockId time rest
          | some receiver =>
              match receiver.getString with
              | .error exception => return .error exception
              | .ok receiver =>
                  updateWallet receiver uniqId (walletFields blockId entry)
                  addWalletEntries trx blockId time rest

def addWalletTransaction (trx : Json) (blockId : Nat) (time : Int) : Prog (Except Exn Unit) :=
  match stoull blockId, findPublicKeys trx (toString blockId) with
  | .ok number, .ok entries => addWalletEntries trx number time entries
  | .error exception, _ => return .error exception
  | _, .error exception => return .error exception

def walletJob (blockId : Nat) (time : Int) : List Json → Prog Unit
  | [] => return ()
  | trx :: rest => do
      match ← addWalletTransaction trx blockId time with
      | .error _ => return ()
      | .ok _ => walletJob blockId time rest

/-- The function queued as a job.  An exception ends it. -/
def jobBody (platform : Platform) : Job → Prog Unit
  | .wallet transactions blockId time => walletJob blockId time transactions.elements
  | .stream transactions blockId time => streamJob platform transactions blockId time

/-- A job taken from the queue by one of its workers. -/
def runJob (platform : Platform) (job : Job) : Prog Unit := do
  jobBody platform job
  .request (.finish job) fun _ => ()

/-- The row that stands for a block without a list of transactions. -/
def markerRow (blockId : Nat) (time : Int) : Json :=
  .ofMembers [("id", .str (toString blockId)), ("block-id", .num blockId),
    ("transaction-type", processingType), ("timestamp", .num time)]

/-- `add_transactions`, called with the 64-bit id of a stored block. -/
def addTransactions (transactions : Json) (blockId : Nat) (time : Int) : Prog Unit :=
  if transactions.isArray then
    .ask (.async (.wallet transactions blockId time)) fun _ =>
      .ask (.async (.stream transactions blockId time)) fun _ => return ()
  else
    insert (.insert .transactionsProcessing (toString blockId)) .transactionsProcessing
      (markerRow blockId time)

end Db

end MileExplorer
