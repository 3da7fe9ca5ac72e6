import MileExplorer.Getters
import MileExplorer.Message

/-!
# The methods of the API

The handlers of `backend/api` with their parameter checks.  A handler reads
the parameters and the database and does at most one thing to the response:
it sets an error or the result.  It never throws after that, so a handler is a
function to what it did or to the exception.
-/

namespace MileExplorer

/-- What the backend takes from the node's API: the conversion of a text to a
256-bit number, and the codes of the tokens. -/
structure NodeApi where
  stringToUInt256 : String → Option Nat
  tokenFromCode : Nat → Nat
  xdrCode : Nat
  mileCode : Nat

/-- What a handler has done to the response when it returns. -/
inductive Outcome where
  | silent
  | fails (message : String)
  | answers (result : Json)
  deriving DecidableEq

/-- `get<unsigned short>()`, which takes a boolean too. -/
def Json.getUInt16 : Json → Except Exn Nat
  | .num value => .ok (value % 2 ^ 16).toNat
  | .real value => .ok (truncate value % 2 ^ 16).toNat
  | .bool value => .ok (if value then 1 else 0)
  | other => .error (.typeError ("type must be number, but is " ++ other.typeName))

def Json.size : Json → Nat
  | .null => 0
  | .arr elements => elements.length
  | .obj members => members.length
  | _ => 1

/-- The characters that `std::isspace` accepts. -/
def isSpace (char : Char) : Bool :=
  char = ' ' || char = '\t' || char = '\n' || char = '\x0b' || char = '\x0c' || char = '\r'

/-- The sign in front of a number, and what follows it. -/
def splitSign : List Char → Bool × List Char
  | '-' :: rest => (true, rest)
  | '+' :: rest => (false, rest)
  | rest => (false, rest)

/-- `std::stoull` of a text: the digits after blanks and a sign, up to the
first character that is none.  A minus sign negates in the 64-bit numbers. -/
def stoullText (text : String) : Except Exn Nat :=
  let (negative, rest) := splitSign (text.toList.dropWhile isSpace)
  let digits := rest.takeWhile Char.isDigit
  let value := digits.foldl (fun value digit => 10 * value + (digit.toNat - 48)) 0
  if digits = [] then .error (.standard "stoull")
  else if value ≥ 2 ^ 64 then .error (.standard "stoull")
  else if negative then .ok ((2 ^ 64 - value) % 2 ^ 64)
  else .ok value

/-- Decimal texts of 256-bit numbers, and tokens with the codes 0 and 1. -/
def sampleApi : NodeApi where
  stringToUInt256 text :=
    let value := text.toList.foldl (fun value digit => 10 * value + (digit.toNat - 48)) 0
    if text ≠ "" ∧ text.toList.all Char.isDigit = true ∧ value < 2 ^ 256 then some value
    else none
  tokenFromCode code := code
  xdrCode := 0
  mileCode := 1

namespace Api

def missing (param : String) : String := "param " ++ param ++ " has not found"

/-- `check`, in front of what a handler does when the parameter is there. -/
def check (params : Json) (param : String) (rest : Except Exn Outcome) : Except Exn Outcome :=
  if params.count param = 0 then .ok (.fails (missing param)) else rest

def checkLimit (params : Json) (rest : Except Exn Outcome) : Except Exn Outcome :=
  check params "first" <| check params "limit" do
    let limit ← (← params.at? "limit").getUInt64
    if limit > 1000 then return .fails "limit params must be less then 1000" else rest

/-- `uint256_t(-1)`, by which `get_block_id` reports an error. -/
def reservedBlockId : Nat := 2 ^ 256 - 1

/-- `get_block_id`: the id, with what the function has done to the response. -/
def getBlockId (api : NodeApi) (params : Json) (param : String) : Except Exn (Nat × Outcome) :=
  if params.count param = 0 then .ok (reservedBlockId, .fails (missing param))
  else do
    let value ← params.at? param
    if value.isNumber then return (← value.getUInt64, .silent)
    else
      let id ← value.getString
      match api.stringToUInt256 id with
      | none => return (reservedBlockId, .fails "block couldn't be converted to uint256")
      | some blockId => return (blockId, .silent)

def getTransactionId (params : Json) (param : String) : Except Exn Nat := do
  let value ← params.at? param
  if value.isNumber then value.getUInt64 else value.getString >>= stoullText

def textOf (params : Json) (param : String) : Except Exn String :=
  params.at? param >>= Json.getString

def numberOf (params : Json) (param : String) : Except Exn Nat :=
  params.at? param >>= Json.getUInt64

section Handlers

variable (api : NodeApi) (params : Json) (store : Store)

def getBlock : Except Exn Outcome := do
  let (blockId, outcome) ← getBlockId api params "id"
  if blockId = reservedBlockId then return outcome
  else return .answers (getDataOf (Db.blockById blockId store))

def getBlockHistory : Except Exn Outcome :=
  checkLimit params do
    let limit ← numberOf params "limit"
    let (blockId, outcome) ← getBlockId api params "first"
    if blockId = reservedBlockId then return outcome
    else return .answers (getDataOf (Db.blockHistory (blockId % 2 ^ 64) limit store))

def getBlockHistoryState : Except Exn Outcome := do
  let state := getDataOf (Db.blockHistoryState store)
  let count ← Db.blockHistoryCount state
  let timestamp ← state.index "timestamp"
  return .answers (.ofMembers
    [("count", .num count), ("timestamp", timestamp), ("first", .num 0)])

def getBlockchainInfo : Except Exn Outcome :=
  .ok (.answers (getDataOf (Db.blockchainInfo store)))

def getNetworkState : Except Exn Outcome := do
  let nodes ← (getDataOf (Db.networkState store)).index "nodes"
  return .answers (.ofMembers
    [("nodes", .ofMembers [("count", .num nodes.size), ("first", .num 0)])])

def getNodes : Except Exn Outcome :=
  checkLimit params do
    let first ← numberOf params "first"
    let limit ← numberOf params "limit"
    return .answers (getDataOf (Db.nodes first limit store))

def getStatistics : Except Exn Outcome :=
  check params "name" do
    let name ← textOf params "name"
    if name = "turnover-24" then
      return .answers (getDataOf ((cursor .turnovers).get "turnovers-24" store))
    else if name = "transaction-turnover" then
      return .answers (getDataOf (cursor .transactionTurnover store))
    else if name = "wallets-top" then
      check params "asset-code" <| check params "limit" do
        let code ← params.at? "asset-code" >>= Json.getUInt16
        let limit ← numberOf params "limit"
        let asset := api.tokenFromCode code
        if asset ≠ api.xdrCode ∧ asset ≠ api.mileCode then return .fails "token not found"
        else return .answers (getDataOf
          ((((cursor .walletsTop).between 0 limit "position").filter "asset-code" (.num asset))
            store))
    else return .fails "statistics not found"

def getStatisticsList : Except Exn Outcome :=
  .ok (.answers (.ofMembers
    [("turnover-24", .ofMembers [("params", .ofMembers [])]),
      ("transaction-turnover", .ofMembers [("params", .ofMembers [])]),
      ("wallets-top", .ofMembers
        [("params", .ofMembers [("asset-code", .num 0), ("limit", .num 10)])])]))

def transactionBlockId : Except Exn (Option String) :=
  if params.count "block-id" = 0 then .ok none
  else do
    let value ← params.at? "block-id"
    if value.isNumber then return some (toString (← value.getUInt64))
    else return some (← value.getString)

def getTransaction : Except Exn Outcome :=
  if params.count "digest" > 0 then do
    let digest ← textOf params "digest"
    return .answers (getDataOf (Db.transactionByDigest digest store))
  else
    check params "id" do
      let param ← params.at? "id"
      if param.isNumber then
        check params "public-key" do
          let publicKey ← textOf params "public-key"
          match ← transactionBlockId params with
          | none => return .fails (missing "block-id")
          | some blockId =>
              let number ← param.getUInt64
              return .answers (getDataOf
                (Db.transactionById (rowId publicKey blockId (toString number)) store))
      else if params.count "public-key" > 0 then
        let publicKey ← textOf params "public-key"
        let front :=
          match ← transactionBlockId params with
          | none => publicKey ++ ":"
          | some blockId => publicKey ++ ":" ++ blockId ++ ":"
        let rest ← param.getString
        return .answers (getDataOf (Db.transactionById (front ++ rest) store))
      else
        let id ← param.getString
        return .answers (getDataOf (Db.transactionById id store))

def getTransactionHistory : Except Exn Outcome :=
  checkLimit params do
    let first ← getTransactionId params "first"
    let limit ← numberOf params "limit"
    return .answers (getDataOf (Db.transactionHistory first limit store))

def getTransactionHistoryState : Except Exn Outcome := do
  let state ← (getDataOf (Db.transactionHistoryState store)).getUInt64
  return .answers (.ofMembers [("count", .num state), ("first", .num 0)])

def getVersion : Except Exn Outcome := .ok (.answers (.num (Db.versionOf store)))

def getWalletHistoryBlocks : Except Exn Outcome :=
  check params "public-key" <| checkLimit params do
    let publicKey ← textOf params "public-key"
    let limit ← numberOf params "limit"
    let (blockId, outcome) ← getBlockId api params "first"
    if blockId = reservedBlockId then return outcome
    else
      let blocks := Db.walletHistoryBlocks publicKey (blockId % 2 ^ 64) limit store
      return .answers (getDataOf blocks)

def getWalletHistoryState : Except Exn Outcome :=
  check params "public-key" do
    let publicKey ← textOf params "public-key"
    let (blocks, transactions) := Db.walletHistoryState publicKey store
    return .answers (.ofMembers
      [("block", .ofMembers [("count", .num blocks), ("first", .num 0)]),
        ("transaction", .ofMembers [("count", .num transactions), ("first", .num 0)])])

def getWalletHistoryTransactions : Except Exn Outcome :=
  check params "public-key" <| checkLimit params do
    let publicKey ← textOf params "public-key"
    let limit ← numberOf params "limit"
    let first ← getTransactionId params "first"
    return .answers (getDataOf (Db.walletHistoryTransactions publicKey first limit store))

def getWalletNode : Except Exn Outcome :=
  check params "public-key" do
    let publicKey ← textOf params "public-key"
    return .answers (getDataOf (Db.walletNode publicKey store))

def ping : Except Exn Outcome := .ok (.answers (.bool true))

end Handlers

end Api

/-- The methods that `MILECSA_JSONRPC_REGESTRY_METHOD` can register. -/
inductive Method where
  | getBlock
  | getBlockHistory
  | getBlockHistoryState
  | getBlockchainInfo
  | getNetworkState
  | getNodes
  | getStatistics
  | getStatisticsList
  | getTransaction
  | getTransactionHistory
  | getTransactionHistoryState
  | getVersion
  | getWalletHistoryBlocks
  | getWalletHistoryState
  | getWalletHistoryTransactions
  | getWalletNode
  | help
  | ping
  deriving DecidableEq, Repr

namespace Method

def name : Method → String
  | .getBlock => "get-block"
  | .getBlockHistory => "get-block-history"
  | .getBlockHistoryState => "get-block-history-state"
  | .getBlockchainInfo => "get-blockchain-info"
  | .getNetworkState => "get-network-state"
  | .getNodes => "get-nodes"
  | .getStatistics => "get-statistics"
  | .getStatisticsList => "get-statistics-list"
  | .getTransaction => "get-transaction"
  | .getTransactionHistory => "get-transaction-history"
  | .getTransactionHistoryState => "get-transaction-history-state"
  | .getVersion => "get-version"
  | .getWalletHistoryBlocks => "get-wallet-history-blocks"
  | .getWalletHistoryState => "get-wallet-history-state"
  | .getWalletHistoryTransactions => "get-wallet-history-transactions"
  | .getWalletNode => "get-wallet-node"
  | .help => "help"
  | .ping => "ping"

/-- The description of the parameters that `help` lists. -/
def paramsHelp : Method → String
  | .getBlock => "\x7bid:0\x7d or \x7bid:0\x7d"
  | .getBlockHistory => "\x7bfirst:0, limit:42\x7d"
  | .getNodes => "\x7bfirst: 0, limit:42\x7d"
  | .getStatistics => "\x7bname:<method-name>\x7d"
  | .getTransaction =>
      "\x7b'digest': <digest>\x7d or " ++
        "\x7bid: '<public-key>:<block-id>:<transaction-id>'\x7d or " ++
        "\x7bid:<transaction-id>, block-id:<block-id>, public-key: '<public-key>'\x7d  or " ++
        "\x7bid:'<block-id>:<transaction-id>', public-key: '<public-key>'\x7d"
  | .getTransactionHistory => "\x7bfirst:0, limit:42\x7d"
  | .getWalletHistoryBlocks => "\x7bpublic-key:'xxxxx0000xxxxx', first:0, limit:42\x7d"
  | .getWalletHistoryState => "\x7bpublic-key:'xxxxx0000xxxxx'\x7d"
  | .getWalletHistoryTransactions => "\x7bpublic-key:'xxxxx0000xxxxx', first:0, limit:42\x7d"
  | .getWalletNode => "\x7bpublic-key: 'xxxxxx'\x7d"
  | .getBlockHistoryState | .getBlockchainInfo | .getNetworkState | .getStatisticsList
  | .getTransactionHistoryState | .getVersion | .help | .ping => "\x7b\x7d"

/-- `get_help`: the registered methods with their parameters. -/
def helpOf (registered : List Method) : Json :=
  .ofMembers (registered.map fun method => (method.name, .str method.paramsHelp))

/-- The handler of a method, where `registered` are the methods that `help`
lists. -/
def call (api : NodeApi) (registered : List Method) (params : Json) (store : Store) :
    Method → Except Exn Outcome
  | .getBlock => Api.getBlock api params store
  | .getBlockHistory => Api.getBlockHistory api params store
  | .getBlockHistoryState => Api.getBlockHistoryState store
  | .getBlockchainInfo => Api.getBlockchainInfo store
  | .getNetworkState => Api.getNetworkState store
  | .getNodes => Api.getNodes params store
  | .getStatistics => Api.getStatistics api params store
  | .getStatisticsList => Api.getStatisticsList
  | .getTransaction => Api.getTransaction params store
  | .getTransactionHistory => Api.getTransactionHistory params store
  | .getTransactionHistoryState => Api.getTransactionHistoryState store
  | .getVersion => Api.getVersion store
  | .getWalletHistoryBlocks => Api.getWalletHistoryBlocks api params store
  | .getWalletHistoryState => Api.getWalletHistoryState params store
  | .getWalletHistoryTransactions => Api.getWalletHistoryTransactions params store
  | .getWalletNode => Api.getWalletNode params store
  | .help => .ok (.answers (helpOf registered))
  | .ping => Api.ping

end Method

end MileExplorer
