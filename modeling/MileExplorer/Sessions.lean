import MileExplorer.Replies
import MileExplorer.TransitionSystem

/-!
# Connections

The read, handle and write cycle of `http::Session` and `https::Session`.  The
two classes differ in `do_read`: the one for TLS empties `req_` before it reads
a request into it, the plain one does not.  Reading a request sets the start
line of the message and appends the body to the one the message has, so a
plain session handles the second request of a connection with the body of the
first in front.
-/

namespace MileExplorer

inductive SessionKind where
  | http
  | https
  deriving DecidableEq, Repr

namespace HttpRequest

def empty : HttpRequest := ⟨.other, "", 11, ByteArray.empty⟩

def readInto (received message : HttpRequest) : HttpRequest :=
  { received with body := message.body ++ received.body }

end HttpRequest

/-- `need_eof`: the end of the response is marked by the end of the
connection.  Of the statuses that are sent none excludes a body. -/
def HttpResponse.needEof (response : HttpResponse) : Bool :=
  !(response.payload && decide (11 ≤ response.version))

/-- What a session waits for: the handshake, a request, the end of the write of
a response, or nothing any more.  `down` is the state in which an exception has
left `on_read`. -/
inductive Phase where
  | handshaking
  | reading
  | writing (response : HttpResponse)
  | closed
  | down
  deriving DecidableEq

/-- A request on a connection: as it was sent, the database it met, the message
that was handled, and what `handle` did. -/
structure Exchange where
  request : HttpRequest
  store : Store
  message : HttpRequest
  handled : Handled

/-- A session, with the messages it has given to `async_read` and the requests
it has handled. -/
structure Session where
  phase : Phase
  req : HttpRequest
  reads : List HttpRequest
  exchanges : List Exchange

inductive SessionMove where
  | handshaken
  | arrive (request : HttpRequest) (store : Store)
  | written
  | broken

namespace Session

variable (library : JsonLibrary) (api : NodeApi) (router : Router) (kind : SessionKind)

def doRead (session : Session) : Session :=
  let req :=
    match kind with
    | .http => session.req
    | .https => HttpRequest.empty
  { session with phase := .reading, req := req, reads := session.reads ++ [req] }

/-- The handling of a request that was read into a message. -/
def exchange (message request : HttpRequest) (store : Store) : Exchange :=
  ⟨request, store, request.readInto message,
    handle library api router store (request.readInto message)⟩

/-- `on_read` without an error: `handle` sends one response or throws. -/
def onRead (session : Session) (request : HttpRequest) (store : Store) : Session :=
  let done := exchange library api router session.req request store
  { session with
    phase :=
      match done.handled.sent with
      | response :: _ => .writing response
      | [] => .down
    req := done.message
    exchanges := session.exchanges ++ [done] }

def onWrite (session : Session) (response : HttpResponse) : Session :=
  if response.needEof then { session with phase := .closed } else doRead kind session

/-- `run`, on a new connection. -/
def start : Session :=
  match kind with
  | .http => doRead .http ⟨.closed, HttpRequest.empty, [], []⟩
  | .https => ⟨.handshaking, HttpRequest.empty, [], []⟩

def step (session : Session) : SessionMove → Option Session
  | .handshaken =>
      match session.phase with
      | .handshaking => some (doRead kind session)
      | _ => none
  | .arrive request store =>
      match session.phase with
      | .reading => some (onRead library api router session request store)
      | _ => none
  | .written =>
      match session.phase with
      | .writing response => some (onWrite kind session response)
      | _ => none
  | .broken =>
      match session.phase with
      | .closed | .down => none
      | _ => some { session with phase := .closed }

/-- The exchange of a request that is the only one of its connection. -/
def alone (request : HttpRequest) (store : Store) : Exchange :=
  exchange library api router HttpRequest.empty request store

/-- The requests of a connection do not influence each other: every read
starts with an empty message, the body that is handled is the one that was
sent, and a request is handled as if it were alone. -/
def Isolated (session : Session) : Prop :=
  (∀ message ∈ session.reads, message = HttpRequest.empty) ∧
  ∀ exchange ∈ session.exchanges,
    exchange.message.body = exchange.request.body ∧
    exchange = alone library api router exchange.request exchange.store

/-- Steps after which a plain session does not read a second time: a response
that was written ends the connection. -/
def readsOnce (kind : SessionKind) (session : Session) : SessionMove → Prop
  | .written => ∀ response, kind = .http → session.phase = .writing response →
      response.needEof = true
  | _ => True

section Runs

variable {library api router kind}

@[simp]
theorem HttpRequest.readInto_empty (request : HttpRequest) :
    request.readInto HttpRequest.empty = request := by
  simp [HttpRequest.readInto, HttpRequest.empty]

abbrev ReachesBy (library : JsonLibrary) (api : NodeApi) (router : Router) (kind : SessionKind)
    (allowed : Session → SessionMove → Prop) : Session → Prop :=
  Reaches (step library api router kind) allowed (start kind)

/-- What a session does next, move by move. -/
theorem step_cases {session next : Session} {move : SessionMove}
    (moved : step library api router kind session move = some next) :
    (move = .handshaken ∧ session.phase = .handshaking ∧ next = doRead kind session) ∨
    (∃ request store, move = .arrive request store ∧ session.phase = .reading ∧
      next = onRead library api router session request store) ∨
    (∃ response, move = .written ∧ session.phase = .writing response ∧
      next = onWrite kind session response) ∨
    (move = .broken ∧ next = { session with phase := .closed }) := by
  cases move with
  | handshaken =>
      simp only [step] at moved
      split at moved
      · rename_i phase
        exact .inl ⟨rfl, phase, (Option.some.inj moved).symm⟩
      · simp at moved
  | arrive request store =>
      simp only [step] at moved
      split at moved
      · rename_i phase
        exact .inr (.inl ⟨request, store, rfl, phase, (Option.some.inj moved).symm⟩)
      · simp at moved
  | written =>
      simp only [step] at moved
      split at moved
      · rename_i response phase
        exact .inr (.inr (.inl ⟨response, rfl, phase, (Option.some.inj moved).symm⟩))
      · simp at moved
  | broken =>
      simp only [step] at moved
      split at moved
      · simp at moved
      · simp at moved
      · exact .inr (.inr (.inr ⟨rfl, (Option.some.inj moved).symm⟩))

/-- What a run that meets the condition keeps: the requests so far are
isolated, and a message that is about to be read into is empty. -/
structure Clean (library : JsonLibrary) (api : NodeApi) (router : Router) (session : Session) :
    Prop where
  isolated : Isolated library api router session
  handshaking : session.phase = .handshaking → session.req = HttpRequest.empty
  reading : session.phase = .reading → session.req = HttpRequest.empty

theorem isolated_new (phase : Phase) (req : HttpRequest) :
    Isolated library api router ⟨phase, req, [], []⟩ := by
  simp [Isolated]

theorem Isolated.doRead {session : Session} (isolated : Isolated library api router session)
    (ready : kind = .http → session.req = HttpRequest.empty) :
    Clean library api router (doRead kind session) := by
  have empty : (Session.doRead kind session).req = HttpRequest.empty := by
    cases kind with
    | http => exact ready rfl
    | https => rfl
  refine ⟨⟨fun message member => ?_, isolated.2⟩, nofun, fun _ => empty⟩
  rcases List.mem_append.mp member with old | new
  · exact isolated.1 message old
  · exact (List.mem_singleton.mp new).trans empty

theorem Clean.onRead {session : Session} (clean : Clean library api router session)
    (phase : session.phase = .reading) (request : HttpRequest) (store : Store) :
    Clean library api router (onRead library api router session request store) := by
  have notReading : ∀ sent : List HttpResponse,
      (match sent with | response :: _ => Phase.writing response | [] => .down) ≠ .reading ∧
      (match sent with | response :: _ => Phase.writing response | [] => .down) ≠
        .handshaking := by
    intro sent
    cases sent <;> simp
  refine ⟨⟨clean.isolated.1, fun exchange member => ?_⟩,
    fun same => absurd same (notReading _).2, fun same => absurd same (notReading _).1⟩
  rcases List.mem_append.mp member with old | new
  · exact clean.isolated.2 exchange old
  · obtain rfl := List.mem_singleton.mp new
    rw [clean.reading phase]
    exact ⟨by simp [Session.exchange], rfl⟩

theorem clean_of_reaches {session : Session}
    (reached : ReachesBy library api router kind (readsOnce kind) session) :
    Clean library api router session := by
  refine reached.invariant (Clean library api router) ?_ ?_
  · cases kind with
    | http =>
        exact (isolated_new .closed HttpRequest.empty).doRead
          fun _ : SessionKind.http = .http => rfl
    | https => exact ⟨isolated_new _ _, fun _ => rfl, nofun⟩
  · intro current move next clean permitted moved
    obtain ⟨rfl, phase, rfl⟩ | ⟨request, store, rfl, phase, rfl⟩ |
      ⟨response, rfl, phase, rfl⟩ | ⟨rfl, rfl⟩ := step_cases moved
    · exact clean.isolated.doRead fun _ => clean.handshaking phase
    · exact clean.onRead phase request store
    · unfold onWrite
      split
      · exact ⟨clean.isolated, nofun, nofun⟩
      · rename_i staysOpen
        refine clean.isolated.doRead fun plain => ?_
        exact absurd (permitted response plain phase) staysOpen
    · exact ⟨clean.isolated, nofun, nofun⟩

/-! ## What a plain session hands on -/

/-- A response that keeps the connection open answers a POST on the path of
the API, so the message it answers is not empty. -/
theorem named_of_keptOpen {request : HttpRequest} {store : Store} {response : HttpResponse}
    (sent : response ∈ (handle library api router store request).sent)
    (keptOpen : response.needEof = false) : request.target ≠ "" := by
  intro unnamed
  obtain rfl : response = ⟨403, request.version, none, false⟩ := by
    simpa [handle, unnamed] using sent
  simp [HttpResponse.needEof] at keptOpen

/-- The response that is being written answers the message in `req_`. -/
def AnswersMessage (library : JsonLibrary) (api : NodeApi) (router : Router)
    (session : Session) : Prop :=
  ∀ response, session.phase = .writing response →
    ∃ store, response ∈ (handle library api router store session.req).sent

theorem answersMessage_of_reaches {session : Session} {allowed : Session → SessionMove → Prop}
    (reached : ReachesBy library api router kind allowed session) :
    AnswersMessage library api router session := by
  refine reached.invariant (AnswersMessage library api router) ?_ ?_
  · cases kind <;> exact nofun
  · intro current move next _ _ moved
    obtain ⟨rfl, _, rfl⟩ | ⟨request, store, rfl, _, rfl⟩ | ⟨response, rfl, _, rfl⟩ | ⟨rfl, rfl⟩ :=
      step_cases moved
    · exact nofun
    · intro response phase
      refine ⟨store, ?_⟩
      simp only [onRead] at phase ⊢
      split at phase
      · rename_i first rest sentEq
        obtain rfl := Phase.writing.inj phase
        exact sentEq ▸ List.mem_cons_self
      · simp at phase
    · unfold onWrite
      split <;> exact nofun
    · exact nofun

/-- The bodies of the requests, one after the other. -/
def joined (exchanges : List Exchange) : ByteArray :=
  exchanges.foldl (fun body exchange => body ++ exchange.request.body) ByteArray.empty

/-- The body that a plain session handles as a request of the connection is
that of all its requests so far. -/
def Accumulates (session : Session) : Prop :=
  session.req.body = joined session.exchanges ∧
  ∀ before exchange after, session.exchanges = before ++ exchange :: after →
    exchange.message.body = joined (before ++ [exchange])

theorem accumulates_onRead {session : Session} (accumulates : Accumulates session)
    (request : HttpRequest) (store : Store) :
    Accumulates (onRead library api router session request store) := by
  have joins : (exchange library api router session.req request store).message.body =
      joined (session.exchanges ++ [exchange library api router session.req request store]) := by
    simp [joined, exchange, HttpRequest.readInto, accumulates.1]
  refine ⟨joins, fun before done after split => ?_⟩
  rcases List.eq_nil_or_concat after with rfl | ⟨rest, last, rfl⟩
  · obtain ⟨rfl, same⟩ := List.append_inj' split rfl
    obtain rfl := List.singleton_inj.mp same
    exact joins
  · have regrouped : session.exchanges ++ [exchange library api router session.req request store] =
        (before ++ done :: rest) ++ [last] := by simpa [onRead] using split
    exact accumulates.2 before done rest (List.append_inj' regrouped rfl).1

theorem accumulates_of_reaches {session : Session} {allowed : Session → SessionMove → Prop}
    (reached : ReachesBy library api router .http allowed session) : Accumulates session := by
  refine reached.invariant Accumulates ⟨rfl, by simp [start, Session.doRead]⟩ ?_
  intro current move next accumulates _ moved
  obtain ⟨rfl, _, rfl⟩ | ⟨request, store, rfl, _, rfl⟩ | ⟨response, rfl, _, rfl⟩ | ⟨rfl, rfl⟩ :=
    step_cases moved
  · exact accumulates
  · exact accumulates_onRead accumulates request store
  · unfold onWrite
    split <;> exact accumulates
  · exact accumulates

/-- On a connection with TLS, and on a plain connection on which every
response that is written ends it, the requests do not influence each other.
On a plain connection that goes on after a response they do. -/
theorem requests_isolated :
    (∀ kind session, ReachesBy library api router kind (readsOnce kind) session →
      Isolated library api router session) ∧
    ∀ session next response,
      ReachesBy library api router .http (fun _ _ => True) session →
      session.phase = .writing response → response.needEof = false →
      step library api router .http session .written = some next →
        ¬ Isolated library api router next := by
  refine ⟨fun kind session reached => (clean_of_reaches reached).isolated, ?_⟩
  intro session next response reached phase keptOpen moved isolated
  obtain ⟨store, sent⟩ := answersMessage_of_reaches reached response phase
  have nextEq : next = Session.doRead .http session := by
    simpa [step, phase, onWrite, keptOpen] using moved.symm
  have readAgain : session.req ∈ next.reads := by
    simp [nextEq, Session.doRead]
  have empty := isolated.1 session.req readAgain
  exact named_of_keptOpen sent keptOpen (by rw [empty]; rfl)

end Runs

def versionTwice : List SessionMove :=
  [.arrive (samplePost (versionText "2.0").toByteArray) Store.empty, .written,
    .arrive (samplePost (versionText "2.0").toByteArray) Store.empty]

theorem requests_isolated_tls :
    ∃ session, ReachesBy (versionLibrary "2.0") sampleApi sampleRouter .https
        (readsOnce .https) session ∧
      session.exchanges.length = 2 ∧
      Isolated (versionLibrary "2.0") sampleApi sampleRouter session := by
  obtain ⟨session, reached, two⟩ := Reaches.exists_of_runMoves
    (step (versionLibrary "2.0") sampleApi sampleRouter .https) (fun _ _ => True) (start .https)
    (.handshaken :: versionTwice) (fun session => session.exchanges.length = 2)
    (by decide +kernel)
  have allowed : ReachesBy (versionLibrary "2.0") sampleApi sampleRouter .https
      (readsOnce .https) session :=
    reached.mono fun current move _ => by cases move <;> simp [readsOnce]
  exact ⟨session, allowed, two, requests_isolated.1 .https session allowed⟩

/-- A plain connection handles the second request with both bodies. -/
theorem requests_joined :
    ¬ ∀ (library : JsonLibrary) (api : NodeApi) (router : Router) (kind : SessionKind)
      (session : Session), ReachesBy library api router kind (fun _ _ => True) session →
        Isolated library api router session := by
  intro always
  obtain ⟨session, reached, mixed⟩ := Reaches.exists_of_runMoves
    (step (versionLibrary "2.0") sampleApi sampleRouter .http) (fun _ _ => True) (start .http)
    versionTwice
    (fun session => session.exchanges.any (fun exchange =>
      decide (exchange.message.body ≠ exchange.request.body)) = true)
    (by decide +kernel)
  obtain ⟨exchange, member, differs⟩ := List.any_eq_true.mp mixed
  exact of_decide_eq_true differs ((always _ _ _ _ session reached).2 exchange member).1

end Session

end MileExplorer
