import MileExplorer.Api

/-!
# Handling of a request

`RpcBase::apply`, which calls the method a context names and turns exceptions
into errors, and `request::handle`, which answers one HTTP request.  What a
call of `handle` does is recorded: the methods it invokes, the responses it
sends, and the exception that leaves it.
-/

namespace MileExplorer

/-- The text of an exception. -/
def Exn.what : Exn → String
  | .parseError what => what
  | .invalidIterator what => what
  | .typeError what => what
  | .outOfRange what => what
  | .otherError what => what
  | .standard what => what

/-- The HTTP methods that `handle` tells apart. -/
inductive Verb where
  | post
  | options
  | other
  deriving DecidableEq, Repr

/-- The parts of a request that `handle` reads.  The version is eleven for
HTTP/1.1 and ten for HTTP/1.0. -/
structure HttpRequest where
  method : Verb
  target : String
  version : Nat
  body : ByteArray

/-- A response: `body` is the JSON text in it, and `payload` says whether
`prepare_payload` has set the fields that frame the body. -/
structure HttpResponse where
  status : Nat
  version : Nat
  body : Option Json
  payload : Bool
  deriving DecidableEq

/-- `RpcBase`: the path it answers and the registered methods. -/
structure Router where
  version : String
  target : String
  storage : List Method

def Router.path (router : Router) : String := "/" ++ router.version ++ "/" ++ router.target

structure Handled where
  invoked : List Method
  sent : List HttpResponse
  escaped : Option Exn

namespace Context

/-- The context after a handler has returned. -/
def leave (context : Context) : Outcome → Context
  | .silent => context
  | .fails message => context.parseError message.toByteArray
  | .answers result => { context with response := { context.response with result := result } }

/-- The context after a handler has thrown.  What is not an exception of the
JSON library leaves an empty array as the result. -/
def caught (context : Context) : Exn → Context
  | .standard _ => { context with response := { context.response with result := .arr [] } }
  | exception => context.parseError exception.what.toByteArray

end Context

/-- What a call of `apply` did: whether it returned true, the context it left,
and the methods it invoked. -/
structure Applied where
  success : Bool
  context : Context
  invoked : List Method

section Handling

variable (library : JsonLibrary) (api : NodeApi) (router : Router) (store : Store)

/-- The registered method of a name. -/
def Router.find (name : String) : Option Method :=
  router.storage.find? fun method => method.name = name

/-- `apply`, with the method name of the context. -/
def Router.apply (context : Context) : Applied :=
  match router.find context.request.method with
  | none => ⟨false, context, []⟩
  | some method =>
      match method.call api router.storage context.request.params store with
      | .ok outcome => ⟨true, context.leave outcome, [method]⟩
      | .error exception => ⟨false, context.caught exception, [method]⟩

/-- The path of a request, without one trailing slash. -/
def pathOf (target : String) : String :=
  if target.toList.getLast? = some '/' then String.ofList target.toList.dropLast else target

/-- The context that the reply is made of.  A method that was not found or
that threw without leaving an error is reported as not found. -/
def Applied.settled (applied : Applied) : Context :=
  if applied.success then applied.context
  else
    match applied.context.response.error with
    | some _ => applied.context
    | none => applied.context.nonMethod

/-- The end of the POST branch of `handle`.  The text of the reply is made
outside of any `try` block. -/
def Applied.reply (applied : Applied) (version : Nat) : Handled :=
  match Message.serialize applied.settled.response with
  | .error exception => ⟨applied.invoked, [], some exception⟩
  | .ok object =>
      ⟨applied.invoked,
        [⟨if applied.success then 200 else 404, version, some object, true⟩], none⟩

/-- `request::handle`. -/
def handle (request : HttpRequest) : Handled :=
  if request.target = "" ∨ pathOf request.target ≠ router.path then
    ⟨[], [⟨403, request.version, none, false⟩], none⟩
  else
    match request.method with
    | .post =>
        (router.apply api store (Context.fromString library request.body)).reply request.version
    | .options => ⟨[], [⟨200, request.version, none, false⟩], none⟩
    | .other => ⟨[], [⟨405, request.version, none, false⟩], none⟩

end Handling

end MileExplorer
