import MileExplorer.Migration
import MileExplorer.Transactions

/-!
# Blocks

`add_block`, which puts a downloaded block into `blocks_processing`, and the
`blocks_processing` loop, which moves blocks from there to `blocks` as far as
they follow on the last stored one and queues the work on their transactions.
-/

namespace MileExplorer

/-- The time of a block: its own, or the time of its arrival. -/
def blockTime (platform : Platform) (block : Json) (now : Int) : Except Exn Int :=
  match block.find? "timestamp" with
  | some timestamp => do
      let text ← timestamp.getString
      return platform.getEpochTime text
  | none => .ok now

def blockRow (platform : Platform) (block : Json) (blockId : Nat) (now : Int) :
    Except Exn Json := do
  let number ← stoull blockId
  match block with
  | .obj _ =>
      let time ← blockTime platform block now
      return ((block.set "block-id" (.num number)).set "timestamp" (.num time)).set
        "index-timestamp" (.num now)
  | .null =>
      return .ofMembers [("block-id", .num number), ("timestamp", .num now),
        ("index-timestamp", .num now)]
  | other => .error (.typeError ("cannot use operator[] with " ++ other.typeName))

namespace Db

def addBlock (platform : Platform) (block : Json) (blockId : Nat) (now : Int) : Prog Unit := do
  let row ← getData (.lookup .blocksProcessing (toString blockId))
    ((cursor .blocksProcessing).get (toString blockId))
  if row.count "id" > 0 then return ()
  else
    match blockRow platform block blockId now with
    | .error _ => return ()
    | .ok row =>
        insert (.insert .blocksProcessing (toString blockId)) .blocksProcessing row

/-- The gate of the loop: the block is not the one after the last stored one,
nor an older one.  A last id of zero lets every block through. -/
def isForward (prevBid bid : Nat) : Prop :=
  prevBid > 0 ∧ sub64 bid prevBid > 1 ∧ bid > prevBid

instance (prevBid bid : Nat) : Decidable (isForward prevBid bid) :=
  inferInstanceAs (Decidable (prevBid > 0 ∧ sub64 bid prevBid > 1 ∧ bid > prevBid))

/-- The second half of an iteration, once the work on the transactions is
queued: insert the block unless it was found, then remove the pending row. -/
def storeBlock (item : Json) (id : String) (found : Bool) : Prog Unit :=
  if found then
    remove (.remove .blocksProcessing id) .blocksProcessing id
  else do
    insert (.insert .blocks id) .blocks item
    remove (.remove .blocksProcessing id) .blocksProcessing id

/-- The members of an item that the second half of an iteration reads: its
time and its transactions. -/
def itemWork (item : Json) : Except Exn (Int × Json) := do
  let time ← (← item.index "timestamp").getTime
  let transactions ← item.at? "transactions"
  return (time, transactions)

/-- One iteration of the item loop; its result tells whether the loop goes
on.  It ends at a forward block and at an exception. -/
def processBlock (item : Json) (bid : Nat) : Prog Bool := do
  let prevBid ← getNumber (.gate (toString bid)) lastBlockId
  if isForward (toUInt64 prevBid) bid then return false
  else
    let row ← getData (.lookup .blocks (toString bid)) ((cursor .blocks).get (toString bid))
    match itemWork item with
    | .error _ => return false
    | .ok (time, transactions) =>
        addTransactions transactions bid time
        storeBlock item (toString bid) (decide (row.count "id" > 0))
        return true

/-- The item loop. -/
def processBlocks : List Json → Prog Unit
  | [] => return ()
  | item :: rest =>
      match item.index "block-id" >>= Json.getUInt64 with
      | .error _ => return ()
      | .ok bid => do
          let goesOn ← processBlock item bid
          if goesOn then processBlocks rest else return ()

def blocksProcessing : Prog Unit := do
  let items ← getData (.snapshot .blocksProcessing)
    ((cursor .blocksProcessing).sort "block-id")
  processBlocks items.elements

end Db

end MileExplorer
