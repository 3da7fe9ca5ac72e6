import MileExplorer.NetworkStates

/-!
# The loop of the network states

`fetch_states` asks the nodes for the blockchain info until it has stored one,
and for the height of the chain and the nodes of the network.  An exception
anywhere in an iteration ends the iteration: as long as the info it gets cannot
be stored, the loop stores no snapshot either.
-/

namespace MileExplorer

namespace Db

/-- An asset with the name of its ticker, if its code is one of the two that
have a name. -/
def namedAsset (asset : Json) : Except Exn Json :=
  match asset.find? "code" with
  | none => .ok asset
  | some code => do
      let code ← code.getString
      if code = "0" then return asset.set "ticker-name" (.str "XDR")
      else if code = "1" then return asset.set "ticker-name" (.str "MILE")
      else return asset

def namedInfo (info : Json) : Except Exn Json := do
  match ← info.at? "supported-assets" with
  | .arr assets => return info.set "supported-assets" (.arr (← assets.mapM namedAsset))
  | _ => return info

/-- The row of a blockchain info.  Its id is the version, null without one. -/
def infoRow (info : Json) : Except Exn Json := do
  let info ← namedInfo info
  return .ofMembers [("info", info), ("id", ← info.index "version")]

def updateInfo (info : Json) : Prog (Except Exn Unit) :=
  match infoRow info with
  | .error exception => return .error exception
  | .ok row => update "" .blockchainInfo row

end Db

/-- What one iteration of `fetch_states` gets: whether a node answers at all,
the blockchain info if it is asked for, the height and the nodes. -/
structure NodeAnswer where
  connected : Bool
  info : Option Json
  network : NetworkAnswer

structure StatesLoop where
  blockId : Nat
  bchInfoGot : Bool

namespace StatesLoop

def start : StatesLoop := ⟨0, false⟩

/-- The part of an iteration about the blockchain info: the value of
`bch_info_got` after it, or the exception. -/
def updateInfo (loop : StatesLoop) (answer : NodeAnswer) : Prog (Except Exn Bool) :=
  if loop.bchInfoGot then return .ok true
  else
    match answer.info with
    | none => return .ok false
    | some info => do
        match ← Db.updateInfo info with
        | .error exception => return .error exception
        | .ok _ => return .ok true

/-- The part of an iteration about the nodes. -/
def addStates (loop : StatesLoop) (answer : NetworkAnswer) : Prog StatesLoop :=
  match answer.blockId, answer.nodes with
  | some next, some nodes =>
      if next ≤ loop.blockId then return loop
      else if nodes.isEmpty then return { loop with blockId := next }
      else do
        let _ ← Db.addNodeStates nodes next answer.now
        return { loop with blockId := next }
  | _, _ => return loop

def iteration (loop : StatesLoop) (answer : NodeAnswer) : Prog StatesLoop :=
  if answer.connected then do
    match ← loop.updateInfo answer with
    | .error _ => return loop
    | .ok got => addStates { loop with bchInfoGot := got } answer.network
  else return loop

def run (loop : StatesLoop) : List NodeAnswer → Prog StatesLoop
  | [] => return loop
  | answer :: rest => do
      let loop ← loop.iteration answer
      loop.run rest

end StatesLoop

end MileExplorer
