import MileExplorer.DriverConnection

/-!
# The cursor over a query's answer

`RethinkDB::Cursor` gathers the batches of an answer: it asks for the next one
as soon as it has a batch that is not the last.  `Cursor::get_data` and
`Cursor::get_number` of the explorer open a connection for one query, read the
whole answer and close the connection again.
-/

namespace MileExplorer.Driver

structure CursorPrivate where
  single : Bool
  noMore : Bool
  index : Nat
  buffer : List Json
  token : Nat

namespace CursorPrivate

def ofToken (token : Nat) : CursorPrivate := ⟨false, false, 0, [], token⟩

def ofDatum (token : Nat) (datum : Json) : CursorPrivate := ⟨true, true, 0, [datum], token⟩

def addResults (results : List Json) (cursor : CursorPrivate) : CursorPrivate :=
  if cursor.buffer.length ≤ cursor.index then { cursor with buffer := results, index := 0 }
  else { cursor with buffer := cursor.buffer ++ results }

variable (text : JsonText)

def addResponse (response : Response) (cursor : CursorPrivate) : Wire CursorPrivate :=
  match response.type with
  | .successSequence =>
      return { cursor.addResults response.result with noMore := true }
  | .successPartial => do
      continueQuery text cursor.token
      return cursor.addResults response.result
  | .successAtom | .serverInfo =>
      return { cursor.addResults response.result with single := true, noMore := true }
  | .waitComplete | .clientError | .compileError | .runtimeError =>
      .stop (.error (response.asError text))

def convertSingle (cursor : CursorPrivate) : Except DbError CursorPrivate :=
  if cursor.index ≠ 0 then .error ⟨"Cursor: already consumed"⟩
  else
    match cursor.buffer with
    | [.arr elements] => .ok { cursor with buffer := elements, single := false }
    | [_] => .error ⟨"Cursor: not an array"⟩
    | _ => .error ⟨"Cursor: invalid response from server"⟩

def readAll : (rounds : Nat) → (cursor : CursorPrivate) → Wire CursorPrivate
  | 0, cursor => if cursor.noMore then pure cursor else .stop .never
  | rounds + 1, cursor =>
      if cursor.noMore then pure cursor
      else do
        let response ← waitForResponse text (rounds + 1) cursor.token
        readAll rounds (← cursor.addResponse text response)

def clearAndReadAll (rounds : Nat) (cursor : CursorPrivate) : Wire CursorPrivate := do
  let cursor ← if cursor.single then .ofExcept cursor.convertSingle else pure cursor
  readAll text rounds { cursor with buffer := cursor.buffer.drop cursor.index, index := 0 }

/-- `Cursor::to_array`. -/
def toArray (rounds : Nat) (cursor : CursorPrivate) : Wire (List Json) := do
  return (← cursor.clearAndReadAll text rounds).buffer

/-- `Cursor::to_datum`. -/
def toDatum (rounds : Nat) (cursor : CursorPrivate) : Wire Json :=
  if cursor.single then
    if cursor.index ≠ 0 then .stop (.error ⟨"to_datum: already consumed"⟩)
    else
      match cursor.buffer with
      | datum :: _ => pure datum
      | [] => .stop .undefined
  else return .arr (← cursor.toArray text rounds)

/-- `Cursor::close`, which the destructor calls. -/
def close (cursor : CursorPrivate) : Wire Unit := stopQuery text cursor.token

end CursorPrivate

section Queries

variable (text : JsonText) (rounds : Nat)

/-- `Connection::start_query`.  The option `noreply` is read as a boolean
without a test. -/
def startQuery (term : Json) (opts : List (String × Json)) : Wire CursorPrivate := do
  let noReply ←
    match Json.member? "noreply" opts with
    | some (.bool value) => pure value
    | some _ => .stop .undefined
    | none => pure false
  let token ← newToken
  .modify (.put token ⟨false, []⟩)
  runQuery text ⟨.start, token, some term, opts⟩
  if noReply then return .ofDatum token .null
  else
    let cursor := CursorPrivate.ofToken token
    .returning (do cursor.addResponse text (← waitForResponse text rounds token))
      (cursor.close text)

/-- A connection of its own for one query: `use` gets the whole answer, and the
destructors of the cursor and of the connection run in this order. -/
def withAnswer {Value : Type} (term : Json) (use : Json → Except Stop Value) : Wire Value := do
  connect []
  .withDestructor
    (do
      let result ← startQuery text rounds term []
      .withDestructor (do .ending (use (← result.toDatum text rounds))) (result.close text))
    (close text)

/-- What `db::Cursor::get_data` makes of the datum. -/
def dataOf : Json → Except Stop Json
  | .null => .ok (.arr [])
  | object => (text.parse (text.write object)).mapError .exception

/-- What `db::Cursor::get_number` makes of the datum. -/
def numberOf : Json → Except Stop Rat
  | .num value => .ok value
  | .real value => .ok value
  | _ => .ok 0

/-- `db::Cursor::get_data`. -/
def getData (term : Json) : Wire Json :=
  .catching (withAnswer text rounds term (dataOf text)) (.arr [])

/-- `db::Cursor::get_number`. -/
def getNumber (term : Json) : Wire Rat :=
  .catching (withAnswer text rounds term numberOf) 0

end Queries

end MileExplorer.Driver
