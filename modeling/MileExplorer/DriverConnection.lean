import MileExplorer.Store
import MileExplorer.StreamExchange

/-!
# The connection to the database server

The client driver's connection: the calls that move bytes over the socket, the
frames of the protocol, the greeting, and the cache of responses by token.  A
function of the driver is a program over socket calls that carries the state of
the connection and may be left by an exception.
-/

namespace MileExplorer.Driver

/-- The conversions between a datum and its text. -/
structure JsonText where
  /-- `write_datum` and `Datum::as_json` -/
  write : Json → String
  /-- the parser of `read_loop` with `read_datum`; a text that does not parse is nil -/
  read : List UInt8 → Json
  /-- `db::Data::parse` -/
  parse : String → Except Exn Json

/-! ## Responses -/

/-- `Protocol::Response::ResponseType`. -/
inductive ResponseType where
  | successAtom
  | successSequence
  | successPartial
  | waitComplete
  | serverInfo
  | clientError
  | compileError
  | runtimeError
  deriving DecidableEq, Repr

/-- `Protocol::Response::ErrorType`. -/
inductive ErrorType where
  | none
  | internal
  | resourceLimit
  | queryLogic
  | nonExistence
  | opFailed
  | opIndeterminate
  | user
  | permissionError
  deriving DecidableEq, Repr

/-- `response_type`.  The number of `SERVER_INFO` is not among its cases. -/
def responseType (t : Rat) : Except DbError ResponseType :=
  match Json.truncate t with
  | 1 => .ok .successAtom
  | 2 => .ok .successSequence
  | 3 => .ok .successPartial
  | 4 => .ok .waitComplete
  | 16 => .ok .clientError
  | 17 => .ok .compileError
  | 18 => .ok .runtimeError
  | _ => .error ⟨"Unknown response type"⟩

/-- `runtime_error_type`.  The number of `PERMISSION_ERROR` is not among its
cases. -/
def runtimeErrorType (t : Rat) : Except DbError ErrorType :=
  match Json.truncate t with
  | 1000000 => .ok .internal
  | 2000000 => .ok .resourceLimit
  | 3000000 => .ok .queryLogic
  | 3100000 => .ok .nonExistence
  | 4100000 => .ok .opFailed
  | 4200000 => .ok .opIndeterminate
  | 5000000 => .ok .user
  | _ => .error ⟨"Unknown error type"⟩

structure Response where
  type : ResponseType
  errorType : ErrorType
  result : List Json
  deriving DecidableEq

/-- `Datum::extract_field`. -/
def extractField (datum : Json) (key : String) : Except DbError Json :=
  match datum with
  | .obj members =>
      match Json.member? key members with
      | some value => .ok value
      | none => .error ⟨"extract_field: No such key in object"⟩
  | _ => .error ⟨"extract_field: Not an object"⟩

/-- `Datum::extract_number`. -/
def extractNumber (text : JsonText) : Json → Except DbError Rat
  | .num value => .ok value
  | .real value => .ok value
  | datum => .error ⟨"extract_number: Not a number: " ++ text.write datum⟩

/-- `Datum::extract_array`. -/
def extractArray : Json → Except DbError (List Json)
  | .arr elements => .ok elements
  | _ => .error ⟨"get_array: Not an array"⟩

def Response.ofDatum (text : JsonText) (datum : Json) : Except DbError Response := do
  let type ← responseType (← extractNumber text (← extractField datum "t"))
  let errorType ←
    match datum.find? "e" with
    | some _ => runtimeErrorType (← extractNumber text (← extractField datum "e"))
    | none => .ok .none
  let result ← extractArray (← extractField datum "r")
  return ⟨type, errorType, result⟩

/-- `Response::as_error`. -/
def Response.asError (text : JsonText) (response : Response) : DbError :=
  let repr :=
    match response.result with
    | [.str value] => value
    | [datum] => text.write datum
    | result => text.write (.arr result)
  let err :=
    match response.type with
    | .successSequence => "unexpected response: SUCCESS_SEQUENCE"
    | .successPartial => "unexpected response: SUCCESS_PARTIAL"
    | .successAtom => "unexpected response: SUCCESS_ATOM"
    | .waitComplete => "unexpected response: WAIT_COMPLETE"
    | .serverInfo => "unexpected response: SERVER_INFO"
    | .clientError => "ReqlDriverError"
    | .compileError => "ReqlCompileError"
    | .runtimeError =>
        match response.errorType with
        | .internal => "ReqlInternalError"
        | .resourceLimit => "ReqlResourceLimitError"
        | .queryLogic => "ReqlQueryLogicError"
        | .nonExistence => "ReqlNonExistenceError"
        | .opFailed => "ReqlOpFailedError"
        | .opIndeterminate => "ReqlOpIndeterminateError"
        | .user => "ReqlUserError"
        | .permissionError => "ReqlPermissionError"
        | .none => "ReqlRuntimeError"
  ⟨err ++ ": " ++ repr⟩

/-! ## Frames -/

/-- The bytes of a number as it stands in memory, lowest first. -/
def littleEndian : Nat → Nat → List UInt8
  | 0, _ => []
  | width + 1, value => UInt8.ofNat value :: littleEndian width (value / 256)

def ofLittleEndian : List UInt8 → Nat
  | [] => 0
  | byte :: bytes => byte.toNat + 256 * ofLittleEndian bytes

@[simp]
theorem length_littleEndian (width value : Nat) : (littleEndian width value).length = width := by
  induction width generalizing value with
  | zero => rfl
  | succ width ih => simp [littleEndian, ih]

theorem ofLittleEndian_littleEndian {width value : Nat} (fits : value < 256 ^ width) :
    ofLittleEndian (littleEndian width value) = value := by
  induction width generalizing value with
  | zero =>
      have zero : value = 0 := by simpa using fits
      simp [littleEndian, ofLittleEndian, zero]
  | succ width ih =>
      have smaller : value / 256 < 256 ^ width :=
        Nat.div_lt_of_lt_mul (by rwa [pow_succ, Nat.mul_comm] at fits)
      simp only [littleEndian, ofLittleEndian, ih smaller, UInt8.toNat_ofNat']
      omega

def utf8 (text : String) : List UInt8 := text.toUTF8.data.toList

/-- A token and a length, and then so many bytes. -/
def frame (token : Nat) (body : List UInt8) : List UInt8 :=
  littleEndian 8 token ++ littleEndian 4 body.length ++ body

/-- `Protocol::Query::QueryType`, those that the driver sends. -/
inductive QueryType where
  | start
  | continue
  | stop
  deriving DecidableEq, Repr

def QueryType.number : QueryType → Int
  | .start => 1
  | .continue => 2
  | .stop => 3

structure Query where
  type : QueryType
  token : Nat
  term : Option Json
  optArgs : List (String × Json)

/-- `Query::serialize`. -/
def Query.serialize (text : JsonText) (query : Query) : List UInt8 :=
  let queryArr := [Json.num query.type.number] ++ query.term.toList ++
    (if query.optArgs.isEmpty then [] else [.obj query.optArgs])
  frame query.token (utf8 (text.write (.arr queryArr)))

/-! ## The state of a connection -/

structure TokenCache where
  closed : Bool
  responses : List Response

/-- `ConnectionPrivate`.  The cache is a map and its entries stand in the order
of their tokens. -/
structure Connection where
  cache : List (Nat × TokenCache)
  nextToken : Nat
  loopActive : Bool

namespace Connection

/-- The constructor of `ConnectionPrivate`. -/
def fresh : Connection := ⟨[], 1, false⟩

def entry (connection : Connection) (token : Nat) : Option TokenCache :=
  connection.cache.lookup token

def putEntry (token : Nat) (entry : TokenCache) :
    List (Nat × TokenCache) → List (Nat × TokenCache)
  | [] => [(token, entry)]
  | (other, old) :: rest =>
      if other = token then (token, entry) :: rest
      else if token < other then (token, entry) :: (other, old) :: rest
      else (other, old) :: putEntry token entry rest

def put (token : Nat) (entry : TokenCache) (connection : Connection) : Connection :=
  { connection with cache := putEntry token entry connection.cache }

def erase (token : Nat) (connection : Connection) : Connection :=
  { connection with cache := connection.cache.filter fun cached => cached.1 ≠ token }

def setLoopActive (active : Bool) (connection : Connection) : Connection :=
  { connection with loopActive := active }

end Connection

/-! ## Functions of the driver -/

/-- Why a function of the driver does not return. -/
inductive Stop where
  /-- a `RethinkDB::Error` is thrown -/
  | error (error : DbError)
  /-- another exception is thrown -/
  | exception (exception : Exn)
  /-- an exception leaves a destructor -/
  | terminate
  /-- a loop or a wait has no end -/
  | never
  /-- the behaviour is undefined -/
  | undefined

/-- A function of the driver: a program over socket calls on the state of the
connection. -/
def Wire (Value : Type) := Connection → Endpoint UInt8 (Except Stop Value × Connection)

namespace Wire

variable {Value Other : Type}

/-- An exception passes over the rest of the function. -/
def resume (next : Value → Wire Other) :
    Except Stop Value × Connection → Endpoint UInt8 (Except Stop Other × Connection)
  | (.ok value, connection) => next value connection
  | (.error stop, connection) => .done (.error stop, connection)

instance : Monad Wire where
  pure value connection := .done (.ok value, connection)
  bind action next connection := (action connection).bind (resume next)

def stop (reason : Stop) : Wire Value := fun connection => .done (.error reason, connection)

def ending (outcome : Except Stop Value) : Wire Value :=
  fun connection => .done (outcome, connection)

def ofExcept (value : Except DbError Value) : Wire Value := ending (value.mapError .error)

def connection : Wire Connection := fun connection => .done (.ok connection, connection)

def modify (change : Connection → Connection) : Wire Unit :=
  fun connection => .done (.ok (), change connection)

def socket (call : StreamCall UInt8) : Wire (StreamAnswer UInt8) :=
  fun connection => .ask call fun answer => .done (.ok answer, connection)

/-- Whether an end of a scope runs the destructors of its variables. -/
def unwinds : Except Stop Value → Bool
  | .ok _ | .error (.error _) | .error (.exception _) => true
  | .error .terminate | .error .never | .error .undefined => false

/-- Whether a scope is left by an exception. -/
def throws : Except Stop Value → Bool
  | .ok _ => false
  | outcome => unwinds outcome

/-- The end of a scope after a destructor has run: an exception that leaves a
destructor ends the process. -/
def afterDestructor (outcome : Except Stop Value) :
    Except Stop Unit × Connection → Endpoint UInt8 (Except Stop Value × Connection)
  | (.ok (), connection) => .done (outcome, connection)
  | (.error stop, connection) =>
      .done (.error (match stop with
        | .error _ | .exception _ => .terminate
        | other => other), connection)

def destroying (when : Except Stop Value → Bool) (body : Wire Value) (destroy : Wire Unit) :
    Wire Value := fun connection =>
  (body connection).bind fun (outcome, after) =>
    if when outcome then (destroy after).bind (afterDestructor outcome)
    else .done (outcome, after)

/-- The rest of a scope after the construction of an object with a destructor. -/
def withDestructor (body : Wire Value) (destroy : Wire Unit) : Wire Value :=
  destroying unwinds body destroy

def returning (body : Wire Value) (destroy : Wire Unit) : Wire Value :=
  destroying throws body destroy

/-- `try { return body; } catch (db::Error &e) {} return handled;` -/
def catching (body : Wire Value) (handled : Value) : Wire Value := fun connection =>
  (body connection).bind fun
    | (.error (.error _), after) => .done (.ok handled, after)
    | (outcome, after) => .done (outcome, after)

end Wire

/-! ## The socket -/

/-- `ReadLock::recv` without a time limit.  `::recv` returns zero once the
server has closed the connection, and the loop then asks for ever. -/
def recvLoop : (fuel size : Nat) → (buffer : List UInt8) → Wire (List UInt8)
  | _, 0, buffer => pure buffer
  | 0, _ + 1, _ => .stop .never
  | fuel + 1, size + 1, buffer => do
      match ← .socket (.read (size + 1)) with
      | .got piece =>
          if piece = [] then .stop .never
          else recvLoop fuel (size + 1 - piece.length) (buffer ++ piece)
      | .failed reason => .stop (.error ⟨"recv: " ++ reason⟩)
      | .wrote _ => .stop .undefined

/-- Every pass that goes on reads at least one byte. -/
def recv (size : Nat) : Wire (List UInt8) := recvLoop size size []

/-- `WriteLock::send`. -/
def sendLoop : (fuel : Nat) → (data : List UInt8) → Wire Unit
  | _, [] => pure ()
  | 0, _ :: _ => .stop .never
  | fuel + 1, byte :: data => do
      match ← .socket (.write (byte :: data)) with
      | .wrote count => sendLoop fuel ((byte :: data).drop count)
      | .failed reason => .stop (.error ⟨"write: " ++ reason⟩)
      | .got _ => .stop .undefined

def send (data : List UInt8) : Wire Unit := sendLoop data.length data

/-- `ReadLock::recv_cstring`: the bytes before the first zero, at most
`maxSize`. -/
def recvCString : (maxSize : Nat) → Wire (List UInt8)
  | 0 => pure []
  | maxSize + 1 => do
      let byte ← recv 1
      if byte = [0] then return []
      else return byte ++ (← recvCString maxSize)

def versionMagic : Nat := 0x400c2d20

def jsonMagic : Nat := 0x7e6970c7

def maxResponseLength : Nat := 1024

/-- What `connect` sends first. -/
def greeting (authKey : List UInt8) : List UInt8 :=
  littleEndian 4 versionMagic ++ littleEndian 4 authKey.length ++ authKey ++
    littleEndian 4 jsonMagic

/-- `connect`, from the connected socket on. -/
def connect (authKey : List UInt8) : Wire Unit := do
  .modify fun _ => .fresh
  send (greeting authKey)
  let answer ← recvCString maxResponseLength
  if answer.length = maxResponseLength ∨ answer ≠ utf8 "SUCCESS" then
    .stop (.error ⟨"Server rejected connection with message: " ++
      String.ofList (answer.map fun byte => Char.ofNat byte.toNat)⟩)

/-! ## Queries -/

section Queries

variable (text : JsonText)

/-- `ConnectionPrivate::run_query`. -/
def runQuery (query : Query) : Wire Unit := send (query.serialize text)

/-- `ConnectionPrivate::new_token`. -/
def newToken : Wire Nat := do
  let connection ← .connection
  .modify fun connection => { connection with nextToken := connection.nextToken + 1 }
  return connection.nextToken

/-- `Connection::stop_query`. -/
def stopQuery (token : Nat) : Wire Unit := do
  match (← .connection).entry token with
  | some entry => if !entry.closed then runQuery text ⟨.stop, token, none, []⟩
  | none => pure ()

/-- `Connection::continue_query`. -/
def continueQuery (token : Nat) : Wire Unit := runQuery text ⟨.continue, token, none, []⟩

def stopQueries : List (Nat × TokenCache) → Wire Unit
  | [] => pure ()
  | (token, _) :: rest => do
      stopQuery text token
      stopQueries rest

/-- `Connection::close`, which the destructor calls. -/
def close : Wire Unit := do stopQueries text (← .connection).cache

/-- The body of a response of `read_loop`, in a buffer of one byte more.  That
size is a number of 32 bits. -/
def recvBody (length : Nat) : Wire (List UInt8) :=
  if length + 1 = 2 ^ 32 then .stop .undefined else recv length

/-- The loop of `ReadLock::read_loop`.  A response to another token goes into
the cache; one to a token without an entry dereferences the end of the map. -/
def readResponses : (rounds want : Nat) → Wire Response
  | 0, _ => .stop .never
  | rounds + 1, want => do
      let header ← recv 12
      let got := ofLittleEndian (header.take 8)
      let length := ofLittleEndian (header.drop 8)
      let buffer ← recvBody length
      let response ← .ofExcept (Response.ofDatum text (text.read buffer))
      let connection ← .connection
      if got = want then
        if response.type ≠ .successPartial then
          match connection.entry got with
          | some _ => .modify (.erase got)
          | none => .stop .undefined
        .modify (.setLoopActive false)
        return response
      else
        match connection.entry got with
        | some entry =>
            if !entry.closed then
              .modify (.put got
                ⟨response.type ≠ .successPartial, entry.responses ++ [response]⟩)
            readResponses rounds want
        | none => .stop .undefined

/-- `ReadLock::read_loop`. -/
def readLoop (rounds want : Nat) : Wire Response := do
  if (← .connection).loopActive then
    .stop (.error ⟨"Cannot run more than one read loop on the same connection"⟩)
  else
    .modify (.setLoopActive true)
    readResponses text rounds want

/-- `ConnectionPrivate::wait_for_response` in the only thread that uses the
connection: the wait for another thread's read loop has no end. -/
def waitForResponse (rounds want : Nat) : Wire Response := do
  let connection ← .connection
  let entry := (connection.entry want).getD ⟨false, []⟩
  .modify (.put want entry)
  match entry.responses with
  | response :: responses =>
      if entry.closed ∧ responses = [] then .modify (.erase want)
      else .modify (.put want { entry with responses := responses })
      return response
  | [] =>
      if entry.closed then .stop (.error ⟨"Trying to read from a closed token"⟩)
      else if connection.loopActive then .stop .never
      else readLoop text rounds want

end Queries

end MileExplorer.Driver
