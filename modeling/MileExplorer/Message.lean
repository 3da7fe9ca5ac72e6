import MileExplorer.Json

/-!
# JSON-RPC messages

The request and the response of `message.hpp`, what `context::from_string`
makes of the body of a request, and the text of a reply.  A body is a byte
string; the texts of the parser's errors quote some of its bytes, so an error
message is a byte string too.
-/

namespace MileExplorer

/-- A `parse_error` of the JSON library.  Its text quotes the bytes of the
input that were read last. -/
structure ParseError where
  before : String
  lastRead : ByteArray
  after : String

def ParseError.what (error : ParseError) : ByteArray :=
  error.before.toByteArray ++ error.lastRead ++ error.after.toByteArray

/-! ## UTF-8 -/

theorem isValidUTF8_toByteArray_append {text : String} {bytes : ByteArray} :
    (text.toByteArray ++ bytes).IsValidUTF8 ↔ bytes.IsValidUTF8 := by
  obtain ⟨chars, rfl⟩ : ∃ chars, text = String.ofList chars := ⟨text.toList, by simp⟩
  rw [String.toByteArray_ofList]
  induction chars with
  | nil => simp
  | cons char rest ih =>
      rw [← List.singleton_append, List.utf8Encode_append, ByteArray.append_assoc,
        ByteArray.isValidUTF8_utf8Encode_singleton_append_iff, ih]

/-- The text after the bytes begins a character, so it does not complete one
that the bytes leave open. -/
theorem isValidUTF8_append_toByteArray {text : String} {bytes : ByteArray} :
    (bytes ++ text.toByteArray).IsValidUTF8 ↔ bytes.IsValidUTF8 := by
  refine ⟨fun valid => ?_, fun valid => valid.append text.isValidUTF8⟩
  let whole : String := ⟨_, valid⟩
  have ends : (String.Pos.Raw.mk bytes.size).IsValid whole := by
    refine String.Pos.Raw.isValid_iff_isValidUTF8_extract_utf8ByteSize.mpr ⟨?_, ?_⟩
    · simp [String.Pos.Raw.le_iff, whole, ← String.size_toByteArray]
    · rw [show whole.toByteArray.extract bytes.size whole.utf8ByteSize = text.toByteArray from
        ByteArray.extract_append_eq_right rfl (by simp [whole, ← String.size_toByteArray])]
      exact text.isValidUTF8
  have start := ends.isValidUTF8_extract_zero
  rwa [show whole.toByteArray.extract 0 bytes.size = bytes from
    ByteArray.extract_append_eq_left rfl] at start

theorem ParseError.what_isValidUTF8 (error : ParseError) :
    error.what.IsValidUTF8 ↔ error.lastRead.IsValidUTF8 := by
  rw [what, isValidUTF8_append_toByteArray, isValidUTF8_toByteArray_append]

/-! ## Messages -/

/-- How the parser fails: at a syntax error, or with any other exception, such
as one for a number that is out of range. -/
inductive ParseFailure where
  | parseError (error : ParseError)
  | other

/-- What the backend takes from the JSON library beside the values. -/
structure JsonLibrary where
  parse : ByteArray → Except ParseFailure Json

structure RequestMessage where
  id : Json
  method : String
  params : Json

structure ResponseError where
  code : Int
  message : ByteArray

structure ResponseMessage where
  id : Json
  result : Json
  error : Option ResponseError

structure Context where
  request : RequestMessage
  response : ResponseMessage

namespace ErrorCode

def parseError : Int := -32700

def invalidRequest : Int := -32600

def methodNotFound : Int := -32601

end ErrorCode

namespace Message

def contains (message : Json) (key : String) : Bool := (message.find? key).isSome

def isNotify (message : Json) : Bool := message.isObject && !contains message "id"

def isJsonrpc (message : Json) : Bool := message.isObject && contains message "jsonrpc"

/-- A version that is not a text makes the conversion throw. -/
def isValidVersion (message : Json) : Except Exn Bool :=
  if message.isObject && contains message "jsonrpc" then do
    let version ← message.at? "jsonrpc"
    let text ← version.getString
    return text = "2.0"
  else .ok false

def isRequest (message : Json) : Bool :=
  message.isObject &&
    match message.find? "method" with
    | some method => method.isString
    | none => false

def paramsOf (message : Json) : Except Exn Json :=
  if contains message "param" then message.at? "param" else message.at? "params"

/-- `parse`, which fills the request member by member, so that an exception
leaves the members read before. -/
def parse (message : Json) (request : RequestMessage) : RequestMessage × Except Exn Bool :=
  match message.at? "id" with
  | .error exception => (request, .error exception)
  | .ok id =>
      let request := { request with id := id }
      if isRequest message then
        match message.at? "method" >>= Json.getString with
        | .error exception => (request, .error exception)
        | .ok method =>
            let request := { request with method := method }
            match paramsOf message with
            | .error exception => (request, .error exception)
            | .ok params => ({ request with params := params }, .ok true)
      else (request, .ok false)

def errorObject (code : Int) (text : String) : Json :=
  .ofMembers [("code", .real code), ("message", .str text)]

/-- The object of a reply.  A null result is left out. -/
def responseObject (response : ResponseMessage) (error : Option Json) : Json :=
  let object := Json.ofMembers [("jsonrpc", .str "2.0")]
  let object := if response.result.isNull then object else object.set "result" response.result
  let object :=
    match error with
    | none => object
    | some error => object.set "error" error
  object.set "id" response.id

/-- `serialize`.  The dump throws at an error message that is not UTF-8. -/
def serialize (response : ResponseMessage) : Except Exn Json :=
  match response.error with
  | none => .ok (responseObject response none)
  | some error =>
      match String.fromUTF8? error.message with
      | none => .error (.typeError "invalid UTF-8 byte")
      | some text => .ok (responseObject response (some (errorObject error.code text)))

end Message

namespace Context

def new : Context := ⟨⟨.null, "", .null⟩, ⟨.null, .null, none⟩⟩

def withError (context : Context) (code : Int) (message : ByteArray) : Context :=
  { context with response := { context.response with error := some ⟨code, message⟩ } }

def parseError (context : Context) (message : ByteArray) : Context :=
  context.withError ErrorCode.parseError
    (if message.size = 0 then "ParseError".toByteArray else message)

def invalidRequest (context : Context) : Context :=
  context.withError ErrorCode.invalidRequest "InvalidRequest".toByteArray

/-- `make_response_error_non_method`. -/
def nonMethod (context : Context) : Context :=
  context.withError ErrorCode.methodNotFound "MethodNotFound".toByteArray

def unknownParseError (context : Context) : Context :=
  context.parseError "json-rpc: unknown parse error".toByteArray

/-- The checks of `from_string` on a body that is JSON. -/
def fromJson (json : Json) : Context :=
  match Message.isValidVersion json with
  | .error _ => new.unknownParseError
  | .ok false =>
      match json.at? "id" with
      | .error _ => new.unknownParseError
      | .ok id =>
          { new with request := { new.request with id := id } }.parseError
            "WrongVersion".toByteArray
  | .ok true =>
      match Message.parse json new.request with
      | (request, .error _) => { new with request := request }.unknownParseError
      | (request, .ok false) => { new with request := request }.invalidRequest
      | (request, .ok true) =>
          let context : Context := ⟨request, { new.response with id := request.id }⟩
          if !Message.isJsonrpc json then context.invalidRequest
          else if Message.isNotify json then context.invalidRequest
          else context

def fromString (library : JsonLibrary) (body : ByteArray) : Context :=
  match library.parse body with
  | .error (.parseError error) => new.parseError error.what
  | .error .other => new.unknownParseError
  | .ok json => fromJson json

end Context

end MileExplorer
