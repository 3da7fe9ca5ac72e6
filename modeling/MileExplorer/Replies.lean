import MileExplorer.Outcomes

/-!
# What a request is answered with

`from_string` accepts a body that is an envelope with parameters.  It rejects
every other body, but a body that lacks only the parameters leaves the name of
the method in the context, and `handle` dispatches on that name.  From this
and from what each handler can do follow the members of the reply, the methods
a rejected body invokes, the id of the reply, and which bodies make the text
of the reply fail.
-/

namespace MileExplorer

/-! ## What `from_string` leaves -/

/-- The body names a method under the right version and has an id. -/
structure Envelope (json : Json) (name : String) : Prop where
  version : json.find? "jsonrpc" = some (.str "2.0")
  id : ∃ id, json.find? "id" = some id
  method : json.find? "method" = some (.str name)

theorem Envelope.unique {json : Json} {name other : String} (first : Envelope json name)
    (second : Envelope json other) : name = other := by
  simpa [first.method] using second.method

/-- The parameters of a body, from the first of the two members it may have. -/
def paramsMember (json : Json) : Option Json :=
  (json.find? "param").or (json.find? "params")

namespace Message

theorem paramsOf_eq (json : Json) (isObject : json.isObject = true) :
    paramsOf json =
      match paramsMember json with
      | some params => .ok params
      | none => .error (.outOfRange "key 'params' not found") := by
  cases json with
  | obj members =>
      cases first : Json.member? "param" members with
      | some params => simp [paramsOf, contains, paramsMember, Json.find?, Json.at?, first]
      | none =>
          cases second : Json.member? "params" members with
          | some params =>
              simp [paramsOf, contains, paramsMember, Json.find?, Json.at?, first, second]
          | none => simp [paramsOf, contains, paramsMember, Json.find?, Json.at?, first, second]
  | _ => simp [Json.isObject] at isObject

theorem isValidVersion_eq_true {json : Json} :
    isValidVersion json = .ok true ↔ json.find? "jsonrpc" = some (.str "2.0") := by
  constructor
  · intro valid
    unfold isValidVersion at valid
    split at valid
    · obtain ⟨version, versionEq, valid⟩ := bind_eq_ok.mp valid
      obtain ⟨text, textEq, valid⟩ := bind_eq_ok.mp valid
      obtain rfl : text = "2.0" := by simpa [pure, Except.pure] using valid
      obtain rfl : version = .str "2.0" := by cases version <;> simp_all [Json.getString]
      exact Json.find?_of_at? versionEq
    · simp at valid
  · intro found
    have isObject := Json.isObject_of_find? found
    have read := Json.at?_of_find? found
    simp [isValidVersion, contains, isObject, found, read, Json.getString, bind, Except.bind,
      pure, Except.pure]

theorem isRequest_eq_true {json : Json} :
    isRequest json = true ↔ ∃ name, json.find? "method" = some (.str name) := by
  constructor
  · intro request
    unfold isRequest at request
    cases method : json.find? "method" with
    | none => simp [method] at request
    | some value => cases value <;> simp_all [Json.isString]
  · rintro ⟨name, found⟩
    simp [isRequest, Json.isObject_of_find? found, found, Json.isString]

end Message

/-- The parser rejects the body with a text that quotes bytes which are not
UTF-8. -/
def QuotesInvalidBytes (library : JsonLibrary) (body : ByteArray) : Prop :=
  ∃ error, library.parse body = .error (.parseError error) ∧ ¬ error.lastRead.IsValidUTF8

namespace Context

def accepted (id : Json) (name : String) (params : Json) : Context :=
  ⟨⟨id, name, params⟩, ⟨id, .null, none⟩⟩

def incomplete (id : Json) (name : String) : Context :=
  unknownParseError ⟨⟨id, name, .null⟩, new.response⟩

theorem fromJson_envelope {json id : Json} {name : String} (envelope : Envelope json name)
    (idEq : json.find? "id" = some id) :
    fromJson json =
      match paramsMember json with
      | some params => accepted id name params
      | none => incomplete id name := by
  have isObject := Json.isObject_of_find? idEq
  have isRequest := Message.isRequest_eq_true.mpr ⟨name, envelope.method⟩
  have parsed : Message.parse json new.request =
      match paramsMember json with
      | some params => (⟨id, name, params⟩, .ok true)
      | none => (⟨id, name, .null⟩, .error (.outOfRange "key 'params' not found")) := by
    simp only [Message.parse, Json.at?_of_find? idEq, isRequest, if_true,
      Json.at?_of_find? envelope.method, Message.paramsOf_eq json isObject]
    cases paramsMember json <;> rfl
  have notNotify : Message.isNotify json = false := by
    simp [Message.isNotify, Message.contains, idEq]
  have jsonrpc : Message.isJsonrpc json = true := by
    simp [Message.isJsonrpc, Message.contains, isObject, envelope.version]
  simp only [fromJson, Message.isValidVersion_eq_true.mpr envelope.version, parsed]
  cases paramsMember json with
  | none => rfl
  | some params => simp [notNotify, jsonrpc, new, accepted]

/-- A body that is no envelope is rejected without a method and without an id. -/
theorem fromJson_rejected {json : Json} (rejected : ∀ name, ¬ Envelope json name) :
    ∃ id code text, fromJson json =
      ⟨⟨id, "", .null⟩, ⟨.null, .null, some ⟨code, String.toByteArray text⟩⟩⟩ := by
  unfold fromJson
  split
  · exact ⟨_, _, _, rfl⟩
  · split <;> exact ⟨_, _, _, rfl⟩
  · rename_i valid
    have version := Message.isValidVersion_eq_true.mp valid
    -- the version is right, so the id or the name of a method is missing
    cases idEq : json.at? "id" with
    | error exception =>
        simp only [Message.parse, idEq]
        exact ⟨_, _, _, rfl⟩
    | ok id =>
        cases request : Message.isRequest json with
        | true =>
            obtain ⟨name, found⟩ := Message.isRequest_eq_true.mp request
            exact absurd ⟨version, ⟨id, Json.find?_of_at? idEq⟩, found⟩ (rejected name)
        | false =>
            simp only [Message.parse, idEq, request]
            exact ⟨_, _, _, rfl⟩

theorem parseText_isValidUTF8 (error : ParseError) :
    (if error.what.size = 0 then "ParseError".toByteArray else error.what).IsValidUTF8 ↔
      error.lastRead.IsValidUTF8 := by
  rw [← error.what_isValidUTF8]
  split
  · rename_i empty
    rw [ByteArray.size_eq_zero_iff.mp empty]
    exact iff_of_true (String.isValidUTF8 _) ByteArray.isValidUTF8_empty
  · rfl

/-- What `from_string` leaves: a rejected context without a method, or the
context of an envelope, with or without parameters. -/
theorem fromString_cases (library : JsonLibrary) (body : ByteArray) :
    (∃ id code message,
      (∀ json, library.parse body = .ok json → ∀ name, ¬ Envelope json name) ∧
      (message.IsValidUTF8 ↔ ¬ QuotesInvalidBytes library body) ∧
      fromString library body = ⟨⟨id, "", .null⟩, ⟨.null, .null, some ⟨code, message⟩⟩⟩) ∨
    ∃ json name id, library.parse body = .ok json ∧ Envelope json name ∧
      json.find? "id" = some id ∧
      ((paramsMember json = none ∧ fromString library body = incomplete id name) ∨
        ∃ params, paramsMember json = some params ∧
          fromString library body = accepted id name params) := by
  unfold fromString QuotesInvalidBytes
  cases parsed : library.parse body with
  | error failure =>
      refine .inl ?_
      cases failure with
      | other => exact ⟨_, _, _, nofun, iff_of_true (String.isValidUTF8 _) nofun, rfl⟩
      | parseError error =>
          refine ⟨_, _, _, nofun, (parseText_isValidUTF8 error).trans ?_, rfl⟩
          simp
  | ok json =>
      by_cases named : ∃ name, Envelope json name
      · obtain ⟨name, envelope⟩ := named
        obtain ⟨id, idEq⟩ := envelope.id
        refine .inr ⟨json, name, id, rfl, envelope, idEq, ?_⟩
        have context := fromJson_envelope envelope idEq
        cases member : paramsMember json with
        | none => exact .inl ⟨rfl, by simpa [member] using context⟩
        | some params => exact .inr ⟨params, rfl, by simpa [member] using context⟩
      · have rejected : ∀ name, ¬ Envelope json name := fun name envelope =>
          named ⟨name, envelope⟩
        obtain ⟨id, code, text, context⟩ := fromJson_rejected rejected
        refine .inl ⟨id, code, _, ?_, iff_of_true text.isValidUTF8 nofun, context⟩
        intro other same
        obtain rfl := Except.ok.inj same
        exact rejected

end Context

/-! ## Dispatch -/

structure Router.Accepts (router : Router) (request : HttpRequest) : Prop where
  post : request.method = .post
  named : request.target ≠ ""
  path : pathOf request.target = router.path

section Replies

variable {library : JsonLibrary} {api : NodeApi} {router : Router} {store : Store}
  {request : HttpRequest}

theorem handle_of_accepts (accepts : router.Accepts request) :
    handle library api router store request =
      (router.apply api store (Context.fromString library request.body)).reply
        request.version := by
  simp [handle, accepts.named, accepts.path, accepts.post]

theorem Method.name_ne_empty (method : Method) : method.name ≠ "" := by
  cases method <;> decide

/-- No method is registered under the empty name that a rejected body leaves. -/
theorem Router.find_empty (router : Router) : router.find "" = none := by
  refine List.find?_eq_none.mpr fun method _ => ?_
  simpa using method.name_ne_empty

theorem Router.apply_invoked (router : Router) (context : Context) :
    (router.apply api store context).invoked = (router.find context.request.method).toList := by
  unfold Router.apply
  split
  · simp [*]
  · split <;> simp [*]

theorem Applied.reply_invoked (applied : Applied) (version : Nat) :
    (applied.reply version).invoked = applied.invoked := by
  unfold Applied.reply
  split <;> rfl

/-! Values for concrete requests. -/

def sampleRouter : Router where
  version := "v1"
  target := "api"
  storage := [.getBlock, .getBlockHistory, .getBlockHistoryState, .getBlockchainInfo,
    .getNetworkState, .getNodes, .getStatistics, .getStatisticsList, .getTransaction,
    .getTransactionHistory, .getTransactionHistoryState, .getVersion, .getWalletHistoryBlocks,
    .getWalletHistoryState, .getWalletHistoryTransactions, .getWalletNode, .help, .ping]

/-- A parser that knows some documents and takes the first byte of every other
body for an invalid literal. -/
def sampleLibrary (documents : List (String × Json)) : JsonLibrary where
  parse body :=
    match documents.find? fun document => document.1.toByteArray.data = body.data with
    | some document => .ok document.2
    | none => .error (.parseError
        ⟨"[json.exception.parse_error.101] parse error at 1: syntax error - " ++
          "invalid literal; last read: '", body.extract 0 1, "'"⟩)

def samplePost (body : ByteArray) : HttpRequest := ⟨.post, "/v1/api", 11, body⟩

theorem sampleRouter_accepts (body : ByteArray) : sampleRouter.Accepts (samplePost body) :=
  ⟨rfl, show "/v1/api" ≠ "" by decide, show pathOf "/v1/api" = sampleRouter.path by
    decide +kernel⟩

/-- A request for the version of the database, in a version of the protocol. -/
def versionText (protocol : String) : String :=
  "\x7b\"jsonrpc\":\"" ++ protocol ++
    "\",\"method\":\"get-version\",\"params\":\x7b\x7d,\"id\":\"1\"\x7d"

def versionJson (protocol : String) : Json :=
  .ofMembers [("jsonrpc", .str protocol), ("method", .str "get-version"),
    ("params", .ofMembers []), ("id", .str "1")]

def versionLibrary (protocol : String) : JsonLibrary :=
  sampleLibrary [(versionText protocol, versionJson protocol)]

theorem versionLibrary_parse (protocol : String) :
    (versionLibrary protocol).parse (versionText protocol).toByteArray =
      .ok (versionJson protocol) := by
  simp [versionLibrary, sampleLibrary]

theorem versionJson_envelope : Envelope (versionJson "2.0") "get-version" :=
  ⟨by decide +kernel, ⟨.str "1", by decide +kernel⟩, by decide +kernel⟩

theorem paramsMember_versionJson :
    paramsMember (versionJson "2.0") = some (.ofMembers []) := by
  decide +kernel

def bareText : String := "\x7b\"jsonrpc\":\"2.0\",\"method\":\"ping\",\"id\":\"1\"\x7d"

def bareJson : Json :=
  .ofMembers [("jsonrpc", .str "2.0"), ("method", .str "ping"), ("id", .str "1")]

/-- A rejected body invokes no method, unless it is an envelope of a
registered method that lacks only the parameters. -/
theorem rejected_not_executed_iff (accepts : router.Accepts request) :
    ((Context.fromString library request.body).response.error.isSome = true →
        (handle library api router store request).invoked = []) ↔
      ¬ ∃ json name, library.parse request.body = .ok json ∧ Envelope json name ∧
        paramsMember json = none ∧ (router.find name).isSome = true := by
  rw [handle_of_accepts accepts, Applied.reply_invoked, Router.apply_invoked]
  rcases Context.fromString_cases library request.body with
    ⟨id, code, message, unnamed, -, context⟩ | ⟨json, name, id, parsed, envelope, -, outcome⟩
  · rw [context]
    refine iff_of_true (fun _ => by simp [router.find_empty]) ?_
    rintro ⟨json, name, parsed, envelope, -⟩
    exact unnamed json parsed name envelope
  · rcases outcome with ⟨member, context⟩ | ⟨params, member, context⟩
    · rw [context]
      have rejects : (Context.incomplete id name).response.error.isSome = true := rfl
      have keepsName : (Context.incomplete id name).request.method = name := rfl
      simp only [rejects, keepsName, forall_const]
      constructor
      · rintro nothing ⟨other, otherName, otherParsed, otherEnvelope, -, registered⟩
        obtain rfl : json = other := Except.ok.inj (parsed.symm.trans otherParsed)
        obtain rfl := envelope.unique otherEnvelope
        simp [Option.toList_eq_nil_iff.mp nothing] at registered
      · intro unregistered
        rw [Option.toList_eq_nil_iff, ← Option.not_isSome_iff_eq_none]
        exact fun registered => unregistered ⟨json, name, parsed, envelope, member, registered⟩
    · rw [context]
      refine iff_of_true (fun rejected => by simp [Context.accepted] at rejected) ?_
      rintro ⟨other, -, otherParsed, -, absent, -⟩
      obtain rfl : json = other := Except.ok.inj (parsed.symm.trans otherParsed)
      simp [member] at absent

theorem rejected_not_executed_iff_version :
    sampleRouter.Accepts (samplePost (versionText "1.0").toByteArray) ∧
    (Context.fromString (versionLibrary "1.0")
      (versionText "1.0").toByteArray).response.error.isSome = true ∧
    (handle (versionLibrary "1.0") sampleApi sampleRouter Store.empty
      (samplePost (versionText "1.0").toByteArray)).invoked = [] := by
  have rejected : (Context.fromString (versionLibrary "1.0")
      (versionText "1.0").toByteArray).response.error.isSome = true := by decide +kernel
  have accepts := sampleRouter_accepts (versionText "1.0").toByteArray
  refine ⟨accepts, rejected, (rejected_not_executed_iff accepts).mpr ?_ rejected⟩
  rintro ⟨json, name, parsed, envelope, -⟩
  obtain rfl : versionJson "1.0" = json :=
    Except.ok.inj ((versionLibrary_parse "1.0").symm.trans parsed)
  exact absurd envelope.version (by decide +kernel)

/-- A ping without parameters is rejected, and executed all the same. -/
theorem rejected_executed :
    ¬ ∀ (library : JsonLibrary) (api : NodeApi) (router : Router) (store : Store)
      (request : HttpRequest), router.Accepts request →
        (Context.fromString library request.body).response.error.isSome = true →
          (handle library api router store request).invoked = [] := by
  intro never
  have none := never (sampleLibrary [(bareText, bareJson)]) sampleApi sampleRouter Store.empty
    (samplePost bareText.toByteArray) (sampleRouter_accepts _) (by decide +kernel)
  exact absurd none (by decide +kernel)

/-! ## The members of a reply -/

def ResponseMessage.Printable (response : ResponseMessage) : Prop :=
  ∀ error, response.error = some error → error.message.IsValidUTF8

theorem Message.serialize_eq_ok {response : ResponseMessage}
    (printable : response.Printable) : ∃ object, serialize response = .ok object := by
  unfold serialize
  split
  · exact ⟨_, rfl⟩
  · rename_i error errorEq
    simp [String.fromUTF8?, printable error errorEq]

theorem Message.serialize_eq_error {response : ResponseMessage}
    (unprintable : ¬ response.Printable) : ∃ exception, serialize response = .error exception := by
  obtain ⟨error, errorEq, invalid⟩ : ∃ error, response.error = some error ∧
      ¬ error.message.IsValidUTF8 := by
    simpa [ResponseMessage.Printable] using unprintable
  simp [serialize, errorEq, String.fromUTF8?, invalid]

theorem Message.find?_responseObject (response : ResponseMessage) (error : Option Json) :
    contains (responseObject response error) "result" = !response.result.isNull ∧
    contains (responseObject response error) "error" = error.isSome ∧
    (responseObject response error).find? "id" = some response.id := by
  have empty : ∀ key, (Json.ofMembers [("jsonrpc", .str "2.0")]).find? key =
      if "jsonrpc" = key then some (.str "2.0") else none := fun key => rfl
  have isObject : (Json.ofMembers [("jsonrpc", .str "2.0")]).isObject = true := rfl
  cases nothing : response.result.isNull <;> cases error <;>
    simp [responseObject, contains, nothing, isObject, empty]

theorem Message.find?_serialize {response : ResponseMessage} {object : Json}
    (serialized : serialize response = .ok object) :
    contains object "result" = !response.result.isNull ∧
    contains object "error" = response.error.isSome ∧
    object.find? "id" = some response.id := by
  unfold serialize at serialized
  split at serialized
  · rename_i noError
    rw [← Except.ok.inj serialized, noError]
    exact find?_responseObject response none
  · rename_i error someError
    split at serialized
    · simp at serialized
    · rw [← Except.ok.inj serialized, someError]
      exact find?_responseObject response _

/-- The reply has exactly one of the members `result` and `error`. -/
def OneOfResultAndError (object : Json) : Prop :=
  Xor (Message.contains object "result" = true) (Message.contains object "error" = true)

/-- Every reply that was sent has exactly one of the two members. -/
def Handled.RepliesExclusively (handled : Handled) : Prop :=
  ∀ response ∈ handled.sent, ∀ object, response.body = some object → OneOfResultAndError object

theorem Applied.repliesExclusively_iff {applied : Applied} {version : Nat}
    (printable : applied.settled.response.Printable) :
    (applied.reply version).RepliesExclusively ↔
      Xor (applied.settled.response.result ≠ .null)
        (applied.settled.response.error.isSome = true) := by
  obtain ⟨object, objectEq⟩ := Message.serialize_eq_ok printable
  obtain ⟨hasResult, hasError, -⟩ := Message.find?_serialize objectEq
  have notNull : (!applied.settled.response.result.isNull) = true ↔
      applied.settled.response.result ≠ .null := by
    cases applied.settled.response.result <;> simp [Json.isNull]
  simp [Handled.RepliesExclusively, Applied.reply, objectEq, OneOfResultAndError, hasResult,
    hasError, notNull]

theorem Applied.reply_of_unprintable {applied : Applied} {version : Nat}
    (unprintable : ¬ applied.settled.response.Printable) :
    (applied.reply version).sent = [] ∧ (applied.reply version).escaped.isSome = true := by
  obtain ⟨exception, failed⟩ := Message.serialize_eq_error unprintable
  simp [Applied.reply, failed]

theorem Applied.repliesExclusively_of {applied : Applied} (version : Nat)
    (one : Xor (applied.settled.response.result ≠ .null)
      (applied.settled.response.error.isSome = true)) :
    (applied.reply version).RepliesExclusively := by
  by_cases printable : applied.settled.response.Printable
  · exact (repliesExclusively_iff printable).mpr one
  · intro response sent
    rw [(reply_of_unprintable printable).1] at sent
    simp at sent

theorem printable_withText (context : Context) (code : Int) (text : String) :
    (context.withError code text.toByteArray).response.Printable := by
  rintro error ⟨⟩
  exact text.isValidUTF8

theorem printable_parseError (context : Context) (text : String) :
    (context.parseError text.toByteArray).response.Printable := by
  unfold Context.parseError
  split
  · exact printable_withText context _ _
  · exact printable_withText context _ _

theorem printable_accepted {id params : Json} {name : String} :
    (Context.accepted id name params).response.Printable := by
  intro error noError
  simp [Context.accepted] at noError

theorem printable_incomplete {id : Json} {name : String} :
    (Context.incomplete id name).response.Printable :=
  printable_parseError _ _

/-- The texts of errors other than the parser's are UTF-8. -/
theorem Router.apply_printable {context : Context} (printable : context.response.Printable) :
    (router.apply api store context).settled.response.Printable := by
  have kept : (router.apply api store context).context.response.Printable := by
    unfold Router.apply
    split
    · exact printable
    · split
      · rename_i outcome _
        cases outcome with
        | silent => exact printable
        | fails message => exact printable_parseError _ _
        | answers result => exact printable
      · rename_i exception _
        cases exception with
        | standard what => exact printable
        | _ => exact printable_parseError _ _
  unfold Applied.settled
  split
  · exact kept
  · split
    · exact kept
    · exact printable_withText _ _ _

/-- A name that is not registered is answered by an error. -/
theorem exclusive_of_unregistered {context : Context} (version : Nat)
    (unregistered : router.find context.request.method = none)
    (noResult : context.response.result = .null) :
    ((router.apply api store context).reply version).RepliesExclusively := by
  refine Applied.repliesExclusively_of version (.inr ?_)
  simp only [Router.apply, unregistered, Applied.settled]
  cases errorEq : context.response.error with
  | none => exact ⟨rfl, by simpa using! noResult⟩
  | some error => exact ⟨by simp [errorEq], by simpa using! noResult⟩

theorem settled_of_accepted {id params : Json} {method : Method}
    (registered : router.find method.name = some method) :
    Xor
      ((router.apply api store
        (.accepted id method.name params)).settled.response.result ≠ .null)
      ((router.apply api store
        (.accepted id method.name params)).settled.response.error.isSome = true) ↔
      Decides (method.call api router.storage params store) := by
  simp only [Router.apply, Context.accepted, registered]
  cases method.call api router.storage params store with
  | ok outcome =>
      cases outcome <;>
        simp [Applied.settled, Context.leave, Context.parseError, Context.withError, Decides, Xor]
  | error exception =>
      cases exception <;>
        simp [Applied.settled, Context.caught, Context.parseError, Context.withError,
          Context.nonMethod, Decides, Xor]

theorem Router.name_of_find {name : String} {method : Method}
    (registered : router.find name = some method) : method.name = name := by
  simpa using List.find?_some registered

/-- Without parameters no handler returns silently or throws an exception of
its own. -/
theorem Method.call_null_decides (method : Method) (registered : List Method) :
    Decides (method.call api registered .null store) := by
  rw [call_decides_iff]
  have noLimit : ¬ Api.LimitPasses .null := fun passes => absurd passes.1 (by decide)
  have noKey : ¬ HasPublicKey .null := by
    rintro ⟨key, keyEq⟩
    exact absurd keyEq nofun
  have noId : ¬ Api.ReadsReserved api .null "id" := by
    simp [Api.ReadsReserved, Api.getBlockId, Json.count, Json.find?]
  cases method <;> simp [Overlooks, Throws, noLimit, noKey, noId]

/-- The result of an envelope without parameters. -/
theorem settled_of_incomplete {id : Json} {method : Method}
    (registered : router.find method.name = some method) :
    Xor
      ((router.apply api store
        (.incomplete id method.name)).settled.response.result ≠ .null)
      ((router.apply api store
        (.incomplete id method.name)).settled.response.error.isSome = true) ↔
      ¬ method.Unconditional store := by
  rw [← method.call_null_answers_iff api router.storage store]
  have decided : Decides (method.call api router.storage .null store) :=
    method.call_null_decides router.storage
  have found : router.find (Context.incomplete id method.name).request.method = some method :=
    registered
  have noParams : (Context.incomplete id method.name).request.params = .null := rfl
  simp only [Router.apply, found, noParams]
  generalize method.call api router.storage .null store = called at decided ⊢
  cases called with
  | ok outcome =>
      cases outcome with
      | silent => exact decided.elim
      | fails message =>
          simp [Applied.settled, Context.leave, Context.incomplete,
            Context.unknownParseError, Context.parseError, Context.withError, Context.new, Xor]
      | answers result =>
          simpa [Applied.settled, Context.leave, Context.incomplete,
            Context.unknownParseError, Context.parseError, Context.withError, Context.new, Xor]
            using! decided
  | error exception =>
      cases exception with
      | standard what => exact decided.elim
      | _ =>
          simp [Applied.settled, Context.caught, Context.incomplete,
            Context.unknownParseError, Context.parseError, Context.withError, Context.new, Xor]

/-- The requests whose reply has exactly one of the two members: a request
without parameters names no method that answers without them, and a request
with parameters is not one its handler overlooks or throws at. -/
def RepliesClearly (library : JsonLibrary) (api : NodeApi) (router : Router) (store : Store)
    (body : ByteArray) : Prop :=
  ∀ json name method, library.parse body = .ok json → Envelope json name →
    router.find name = some method →
      (paramsMember json = none → ¬ method.Unconditional store) ∧
      ∀ params, paramsMember json = some params →
        ¬ method.Overlooks api params ∧ ¬ method.Throws params

/-- A reply is a result or an error, and never both, exactly for the requests
that are replied to clearly. -/
theorem reply_exclusive_iff (accepts : router.Accepts request) :
    (handle library api router store request).RepliesExclusively ↔
      RepliesClearly library api router store request.body := by
  rw [handle_of_accepts accepts]
  rcases Context.fromString_cases library request.body with
    ⟨id, code, message, unnamed, -, context⟩ | ⟨json, name, id, parsed, envelope, -, outcome⟩
  · refine iff_of_true ?_ fun json name _ parsed envelope =>
      absurd envelope (unnamed json parsed name)
    rw [context]
    exact exclusive_of_unregistered _ router.find_empty rfl
  · have only : ∀ other name' method, library.parse request.body = .ok other →
        Envelope other name' → router.find name' = some method →
        other = json ∧ router.find name = some method := by
      intro other otherName method otherParsed otherEnvelope registered
      obtain rfl : json = other := Except.ok.inj (parsed.symm.trans otherParsed)
      exact ⟨rfl, envelope.unique otherEnvelope ▸ registered⟩
    have clear : RepliesClearly library api router store request.body ↔
        ∀ method, router.find name = some method →
          (paramsMember json = none → ¬ method.Unconditional store) ∧
          ∀ params, paramsMember json = some params →
            ¬ method.Overlooks api params ∧ ¬ method.Throws params := by
      refine ⟨fun clear method => clear json name method parsed envelope, ?_⟩
      intro clear other name' method otherParsed otherEnvelope registered
      obtain ⟨rfl, found⟩ := only other name' method otherParsed otherEnvelope registered
      exact clear method found
    rw [clear]
    cases registered : router.find name with
    | none =>
        refine iff_of_true ?_ nofun
        rcases outcome with ⟨-, context⟩ | ⟨params, -, context⟩
        · rw [context]
          exact exclusive_of_unregistered _ registered rfl
        · rw [context]
          exact exclusive_of_unregistered _ registered rfl
    | some method =>
        obtain rfl := Router.name_of_find registered
        rcases outcome with ⟨member, context⟩ | ⟨params, member, context⟩
        · rw [context, Applied.repliesExclusively_iff (Router.apply_printable printable_incomplete),
            settled_of_incomplete registered]
          simp [member]
        · rw [context, Applied.repliesExclusively_iff (Router.apply_printable printable_accepted),
            settled_of_accepted registered, Method.call_decides_iff]
          simp [member]

theorem reply_exclusive_iff_version :
    sampleRouter.Accepts (samplePost (versionText "2.0").toByteArray) ∧
    (handle (versionLibrary "2.0") sampleApi sampleRouter Store.empty
      (samplePost (versionText "2.0").toByteArray)).RepliesExclusively := by
  have accepts := sampleRouter_accepts (versionText "2.0").toByteArray
  refine ⟨accepts, (reply_exclusive_iff accepts).mpr ?_⟩
  intro json name method parsed envelope registered
  obtain rfl : versionJson "2.0" = json :=
    Except.ok.inj ((versionLibrary_parse "2.0").symm.trans parsed)
  obtain rfl := versionJson_envelope.unique envelope
  obtain rfl : Method.getVersion = method :=
    Option.some.inj ((show sampleRouter.find "get-version" = some .getVersion by
      decide +kernel).symm.trans registered)
  refine ⟨fun absent => ?_, fun params _ => ⟨id, id⟩⟩
  simp [paramsMember_versionJson] at absent

/-- A page of the transactions from a text that is no number. -/
def lettersText : String :=
  "\x7b\"jsonrpc\":\"2.0\",\"method\":\"get-transaction-history\",\"params\":" ++
    "\x7b\"first\":\"abc\",\"limit\":10\x7d,\"id\":\"1\"\x7d"

def lettersJson : Json :=
  .ofMembers [("jsonrpc", .str "2.0"), ("method", .str "get-transaction-history"),
    ("params", .ofMembers [("first", .str "abc"), ("limit", .num 10)]), ("id", .str "1")]

def lettersReply : Json :=
  .ofMembers [("jsonrpc", .str "2.0"), ("result", .arr []),
    ("error", Message.errorObject ErrorCode.methodNotFound "MethodNotFound"), ("id", .str "1")]

theorem reply_with_both :
    ¬ ∀ (library : JsonLibrary) (api : NodeApi) (router : Router) (store : Store)
      (request : HttpRequest), router.Accepts request →
        (handle library api router store request).RepliesExclusively := by
  intro always
  have sent : ⟨404, 11, some lettersReply, true⟩ ∈
      (handle (sampleLibrary [(lettersText, lettersJson)]) sampleApi sampleRouter Store.empty
        (samplePost lettersText.toByteArray)).sent := by decide +kernel
  have one : OneOfResultAndError lettersReply :=
    always _ _ _ _ _ (sampleRouter_accepts _) _ sent _ rfl
  have both : Message.contains lettersReply "result" = true ∧
      Message.contains lettersReply "error" = true := by decide +kernel
  simp [OneOfResultAndError, both] at one

/-! ## The id of a reply -/

theorem Router.apply_id (context : Context) :
    (router.apply api store context).settled.response.id = context.response.id := by
  have kept : (router.apply api store context).context.response.id = context.response.id := by
    unfold Router.apply
    split
    · rfl
    · split
      · rename_i outcome _
        cases outcome <;> rfl
      · rename_i exception _
        cases exception <;> rfl
  unfold Applied.settled
  split
  · exact kept
  · split <;> exact kept

def Handled.RepliesTo (handled : Handled) (id : Json) : Prop :=
  ∃ response object, handled.sent = [response] ∧ response.body = some object ∧
    object.find? "id" = some id

theorem repliesTo_iff {context : Context} {version : Nat} {id : Json}
    (printable : context.response.Printable) :
    ((router.apply api store context).reply version).RepliesTo id ↔ context.response.id = id := by
  have settled : (router.apply api store context).settled.response.Printable :=
    Router.apply_printable printable
  obtain ⟨object, objectEq⟩ := Message.serialize_eq_ok settled
  have idEq := (Message.find?_serialize objectEq).2.2
  rw [Router.apply_id] at idEq
  simp [Handled.RepliesTo, Applied.reply, objectEq, idEq]

/-- The reply carries the id of a request exactly when the request is accepted
or the id is null. -/
theorem reply_id_iff {json id : Json} (accepts : router.Accepts request)
    (parsed : library.parse request.body = .ok json) (idEq : json.find? "id" = some id) :
    (handle library api router store request).RepliesTo id ↔
      ((∃ name, Envelope json name) ∧ (paramsMember json).isSome = true) ∨ id = .null := by
  rw [handle_of_accepts accepts]
  rcases Context.fromString_cases library request.body with
    ⟨other, code, message, unnamed, valid, context⟩ |
      ⟨same, name, other, sameParsed, envelope, otherEq, outcome⟩
  · have printable : message.IsValidUTF8 := valid.mpr fun ⟨error, failed, _⟩ => by
      simp [parsed] at failed
    rw [context, repliesTo_iff (by rintro _ ⟨⟩; exact printable)]
    refine ⟨fun null => .inr null.symm, ?_⟩
    rintro (⟨⟨name, envelope⟩, -⟩ | null)
    · exact absurd envelope (unnamed json parsed name)
    · exact null.symm
  · obtain rfl : same = json := Except.ok.inj (sameParsed.symm.trans parsed)
    obtain rfl : other = id := Option.some.inj (otherEq.symm.trans idEq)
    rcases outcome with ⟨member, context⟩ | ⟨params, member, context⟩
    · rw [context, repliesTo_iff printable_incomplete, member]
      refine ⟨fun null => .inr null.symm, ?_⟩
      rintro (⟨-, present⟩ | null)
      · simp at present
      · exact null.symm
    · rw [context, repliesTo_iff printable_accepted, member]
      exact iff_of_true rfl (.inl ⟨⟨name, envelope⟩, rfl⟩)

theorem reply_id_iff_version :
    (versionJson "2.0").find? "id" = some (.str "1") ∧
    (handle (versionLibrary "2.0") sampleApi sampleRouter Store.empty
      (samplePost (versionText "2.0").toByteArray)).RepliesTo (.str "1") := by
  have idEq : (versionJson "2.0").find? "id" = some (.str "1") := by decide +kernel
  refine ⟨idEq,
    (reply_id_iff (sampleRouter_accepts _) (versionLibrary_parse "2.0") idEq).mpr (.inl ?_)⟩
  exact ⟨⟨_, versionJson_envelope⟩, by simp [paramsMember_versionJson]⟩

/-- A request in the old protocol has an id, and its reply has none. -/
theorem reply_without_id :
    ¬ ∀ (library : JsonLibrary) (api : NodeApi) (router : Router) (store : Store)
      (request : HttpRequest) (json id : Json), router.Accepts request →
        library.parse request.body = .ok json → json.find? "id" = some id →
          (handle library api router store request).RepliesTo id := by
  intro always
  obtain ⟨response, object, sentEq, bodyEq, idEq⟩ := always (versionLibrary "1.0") sampleApi
    sampleRouter Store.empty (samplePost (versionText "1.0").toByteArray) (versionJson "1.0")
    (.str "1") (sampleRouter_accepts _) (versionLibrary_parse "1.0") (by decide +kernel)
  have nulls : (handle (versionLibrary "1.0") sampleApi sampleRouter Store.empty
      (samplePost (versionText "1.0").toByteArray)).sent.map
        (fun response => response.body.map fun object => object.find? "id") =
          [some (some .null)] := by decide +kernel
  simp [sentEq, bodyEq, idEq] at nulls

/-! ## Requests that take the server down -/

theorem Applied.answers_iff {applied : Applied} {version : Nat} :
    ((applied.reply version).sent.length = 1 ∧ (applied.reply version).escaped = none) ↔
      applied.settled.response.Printable := by
  by_cases printable : applied.settled.response.Printable
  · obtain ⟨object, objectEq⟩ := Message.serialize_eq_ok printable
    simp [Applied.reply, objectEq, printable]
  · obtain ⟨exception, failed⟩ := Message.serialize_eq_error printable
    simp [Applied.reply, failed, printable]

/-- A request is answered once and without an exception, unless the parser
quotes bytes of the body that are not UTF-8. -/
theorem answered_once_iff (accepts : router.Accepts request) :
    ((handle library api router store request).sent.length = 1 ∧
        (handle library api router store request).escaped = none) ↔
      ¬ QuotesInvalidBytes library request.body := by
  rw [handle_of_accepts accepts, Applied.answers_iff]
  rcases Context.fromString_cases library request.body with
    ⟨id, code, message, -, valid, context⟩ | ⟨json, name, id, parsed, -, -, outcome⟩
  · rw [context, ← valid]
    have unchanged : (router.apply api store ⟨⟨id, "", .null⟩,
        ⟨.null, .null, some ⟨code, message⟩⟩⟩).settled.response.error =
          some ⟨code, message⟩ := by
      simp [Router.apply, router.find_empty, Applied.settled]
    simp [ResponseMessage.Printable, unchanged]
  · refine iff_of_true ?_ ?_
    · rcases outcome with ⟨-, context⟩ | ⟨params, -, context⟩
      · rw [context]
        exact Router.apply_printable printable_incomplete
      · rw [context]
        exact Router.apply_printable printable_accepted
    · rintro ⟨error, failed, -⟩
      simp [parsed] at failed

/-- A body of one letter is no JSON, and is answered. -/
theorem answered_once_iff_letter :
    sampleRouter.Accepts (samplePost "x".toByteArray) ∧
    (handle (sampleLibrary []) sampleApi sampleRouter Store.empty
      (samplePost "x".toByteArray)).sent.length = 1 := by
  have accepts := sampleRouter_accepts "x".toByteArray
  refine ⟨accepts, ((answered_once_iff accepts).mpr ?_).1⟩
  rintro ⟨error, failed, invalid⟩
  obtain rfl : _ = error := ParseFailure.parseError.inj (Except.error.inj failed)
  exact absurd invalid (by decide +kernel)

/-- The byte 255 begins no character. -/
theorem server_taken_down :
    ¬ ∀ (library : JsonLibrary) (api : NodeApi) (router : Router) (store : Store)
      (request : HttpRequest), router.Accepts request →
        (handle library api router store request).sent.length = 1 ∧
          (handle library api router store request).escaped = none := by
  intro always
  have answered := always (sampleLibrary []) sampleApi sampleRouter Store.empty
    (samplePost ⟨#[255]⟩) (sampleRouter_accepts _)
  exact absurd answered (by decide +kernel)

end Replies

end MileExplorer
