import MileExplorer.DriverCursor

/-!
# Queries over the wire

The explorer's model asks the database one query at a time and gets a value or
an error.  Here that view is derived from the protocol: the driver and a server
that delivers the value in batches, over streams that split the bytes anyhow.
-/

namespace MileExplorer.Driver

/-! ## Rules for functions of the driver -/

/-- An end without a value. -/
def Raised {Value : Type} (outcome : Except Stop Value × Connection) : Prop :=
  ∃ stop, outcome.1 = .error stop

namespace Wire

variable {Value Other : Type}

/-- The function sends and receives what the script says, however the streams
split it, and ends with the outcome; a failure of the socket ends it without a
value. -/
def Does (action : Wire Value) (before : Connection) (script : List (Turn UInt8))
    (outcome : Except Stop Value) (after : Connection) : Prop :=
  (action before).Follows Raised (outcome, after) script

theorem does_pure (value : Value) (connection : Connection) :
    (pure value : Wire Value).Does connection [] (.ok value) connection :=
  ⟨rfl, rfl⟩

theorem does_modify (change : Connection → Connection) (connection : Connection) :
    (modify change).Does connection [] (.ok ()) (change connection) :=
  ⟨rfl, rfl⟩

theorem does_connection (before : Connection) :
    connection.Does before [] (.ok before) before :=
  ⟨rfl, rfl⟩

theorem does_ending (outcome : Except Stop Value) (connection : Connection) :
    (ending outcome).Does connection [] outcome connection :=
  ⟨rfl, rfl⟩

theorem ends_resume {next : Value → Wire Other} {outcome : Except Stop Value × Connection}
    (raised : Raised outcome) : (resume next outcome).Ends Raised := by
  obtain ⟨outcome, connection⟩ := outcome
  obtain ⟨stop, rfl⟩ : ∃ stop, outcome = .error stop := raised
  exact ⟨stop, rfl⟩

section Sequence

variable {action : Wire Value} {next : Value → Wire Other} {before between after : Connection}
  {first second : List (Turn UInt8)}

theorem Does.bind {value : Value} {outcome : Except Stop Other}
    (does : action.Does before first (.ok value) between)
    (continues : (next value).Does between second outcome after) :
    (action >>= next).Does before (first ++ second) outcome after :=
  Endpoint.Follows.bind does (fun _ => ends_resume) continues

/-- A continuation that leaves the socket alone. -/
theorem Does.bind_silent {value : Value} {outcome : Except Stop Other}
    (does : action.Does before first (.ok value) between)
    (continues : (next value).Does between [] outcome after) :
    (action >>= next).Does before first outcome after := by
  simpa using does.bind continues

theorem Does.bind_error {reason : Stop} (does : action.Does before first (.error reason) after) :
    (action >>= next).Does before first (.error reason) after := by
  have rest : Endpoint.Follows Raised ((.error reason, after) : Except Stop Other × Connection) []
      (resume next (.error reason, after)) := ⟨rfl, rfl⟩
  rw [← List.append_nil first]
  exact Endpoint.Follows.bind does (fun _ => ends_resume) rest

end Sequence

section Destructors

variable {when : Except Stop Value → Bool} {body : Wire Value} {destroy : Wire Unit}
  {before between after : Connection} {first second : List (Turn UInt8)}
  {outcome : Except Stop Value}

theorem ends_destroying {failed : Except Stop Value × Connection} (raised : Raised failed) :
    Program.Ends Raised (match failed with
      | (outcome, after) =>
          if when outcome then (destroy after).bind (afterDestructor outcome)
          else .done (outcome, after)) := by
  obtain ⟨failure, connection⟩ := failed
  obtain ⟨reason, rfl⟩ : ∃ reason, failure = .error reason := raised
  dsimp only
  split
  · refine Program.Ends.of_bind _ fun destroyed => ?_
    obtain ⟨_ | _, _⟩ := destroyed <;> exact ⟨_, rfl⟩
  · exact ⟨reason, rfl⟩

theorem Does.destroying_skip (does : body.Does before first outcome after)
    (skips : when outcome = false) :
    (destroying when body destroy).Does before first outcome after := by
  have rest : Endpoint.Follows Raised (outcome, after) []
      (if when outcome then (destroy after).bind (afterDestructor outcome)
        else .done (outcome, after)) := by
    rw [skips]
    exact ⟨rfl, rfl⟩
  rw [← List.append_nil first]
  exact Endpoint.Follows.bind does (fun _ => ends_destroying) rest

theorem Does.destroying (does : body.Does before first outcome between)
    (runs : when outcome = true) (destroys : destroy.Does between second (.ok ()) after) :
    (destroying when body destroy).Does before (first ++ second) outcome after := by
  have rest : Endpoint.Follows Raised (outcome, after) second
      (if when outcome then (destroy between).bind (afterDestructor outcome)
        else .done (outcome, between)) := by
    rw [if_pos runs, ← List.append_nil second]
    refine Endpoint.Follows.bind destroys ?_ ⟨rfl, rfl⟩
    rintro ⟨destroyed, connection⟩ ⟨reason, rfl⟩
    exact ⟨_, rfl⟩
  exact Endpoint.Follows.bind does (fun _ => ends_destroying) rest

end Destructors

end Wire

theorem recvLoop_does (fuel : Nat) (data buffer : List UInt8) (connection : Connection)
    (enough : data.length ≤ fuel) :
    (recvLoop fuel data.length buffer).Does connection (data.map .receives)
      (.ok (buffer ++ data)) connection := by
  induction fuel generalizing data buffer with
  | zero =>
      obtain rfl : data = [] := List.length_eq_zero_iff.mp (by omega)
      simpa [recvLoop] using Wire.does_pure buffer connection
  | succ fuel ih =>
      cases data with
      | nil => simpa [recvLoop] using Wire.does_pure buffer connection
      | cons byte data =>
          have whole : byte :: data ≠ [] := List.cons_ne_nil _ _
          refine Endpoint.Follows.read whole List.prefix_rfl ?_ ⟨_, rfl⟩ fun reason => ⟨_, rfl⟩
          intro count positive fits
          have some : (byte :: data).take count ≠ [] := by
            simpa using Nat.ne_of_gt positive
          have left : data.length + 1 - ((byte :: data).take count).length =
              ((byte :: data).drop count).length := by
            simp only [List.length_take, List.length_drop, List.length_cons]
            omega
          have rest := ih ((byte :: data).drop count) (buffer ++ (byte :: data).take count)
            (by rw [List.length_drop]; omega)
          rw [List.append_assoc, List.take_append_drop, ← left, List.map_drop] at rest
          change ((if (byte :: data).take count = [] then Wire.stop .never
            else recvLoop fuel _ _) : Wire (List UInt8)).Does _ _ _ _
          rwa [if_neg some]

/-- Whatever the pieces, exactly the asked number of bytes is read. -/
theorem recv_does (data : List UInt8) (connection : Connection) :
    (recv data.length).Does connection (data.map .receives) (.ok data) connection := by
  simpa [recv] using recvLoop_does data.length data [] connection le_rfl

theorem sendLoop_does (fuel : Nat) (data : List UInt8) (connection : Connection)
    (enough : data.length ≤ fuel) :
    (sendLoop fuel data).Does connection (data.map .sends) (.ok ()) connection := by
  induction fuel generalizing data with
  | zero =>
      obtain rfl : data = [] := List.length_eq_zero_iff.mp (by omega)
      simpa [sendLoop] using Wire.does_pure () connection
  | succ fuel ih =>
      cases data with
      | nil => simpa [sendLoop] using Wire.does_pure () connection
      | cons byte data =>
          refine Endpoint.Follows.write (List.cons_ne_nil _ _) List.prefix_rfl ?_
            fun reason => ⟨_, rfl⟩
          intro count positive fits
          have rest := ih ((byte :: data).drop count) (by
            simp only [List.length_drop]
            omega)
          rwa [List.map_drop] at rest

/-- Whatever the pieces, all the bytes are written. -/
theorem send_does (data : List UInt8) (connection : Connection) :
    (send data).Does connection (data.map .sends) (.ok ()) connection :=
  sendLoop_does data.length data connection le_rfl

theorem recvCString_does (data : List UInt8) (connection : Connection) {maxSize : Nat}
    (fits : data.length < maxSize) (noZero : 0 ∉ data) :
    (recvCString maxSize).Does connection ((data ++ [0]).map .receives) (.ok data)
      connection := by
  induction data generalizing maxSize with
  | nil =>
      cases maxSize with
      | zero => simp at fits
      | succ maxSize => exact (recv_does [0] connection).bind (Wire.does_pure [] connection)
  | cons byte data ih =>
      cases maxSize with
      | zero => simp at fits
      | succ maxSize =>
          have nonzero : [byte] ≠ [0] := by
            rintro equal
            simp_all
          have rest : (recvCString maxSize).Does connection ((data ++ [0]).map .receives)
              (.ok data) connection :=
            ih (by simpa using fits) fun member => noZero (List.mem_cons_of_mem _ member)
          refine (recv_does [byte] connection).bind ?_
          rw [if_neg nonzero]
          exact rest.bind_silent (Wire.does_pure (byte :: data) connection)

theorem connect_does (before : Connection) :
    (connect []).Does before
      ((greeting []).map .sends ++ (utf8 "SUCCESS" ++ [0]).map .receives) (.ok ()) .fresh := by
  have short : (utf8 "SUCCESS").length < maxResponseLength := by decide
  refine (Wire.does_modify _ before).bind ((send_does _ _).bind
    ((recvCString_does (utf8 "SUCCESS") _ short (by decide)).bind_silent ?_))
  rw [if_neg (by decide)]
  exact Wire.does_pure () _

/-! ## One connection, one query -/

def opened : Connection := ⟨[(1, ⟨false, []⟩)], 2, false⟩

def settled : Connection := ⟨[], 2, false⟩

/-- The connection after a response that could not be read. -/
def broken : Connection := ⟨[(1, ⟨false, []⟩)], 2, true⟩

section Answers

variable (text : JsonText)

/-- The body of a frame that the driver reads as `response`. -/
structure ReadsAs (body : List UInt8) (response : Response) : Prop where
  fits : body.length + 1 < 2 ^ 32
  reads : Response.ofDatum text (text.read body) = .ok response

def ResponseType.isFailure : ResponseType → Bool
  | .waitComplete | .clientError | .compileError | .runtimeError => true
  | _ => false

/-- The bodies of the responses by which a server delivers a sequence: any
division into batches, the last of which may be an error or a response that the
driver cannot read.  The last argument is the connection afterwards. -/
inductive Streams : Except DbError (List Json) → List (List UInt8) → Connection → Prop where
  | last {body : List UInt8} {response : Response} (read : ReadsAs text body response)
      (type : response.type = .successSequence) : Streams (.ok response.result) [body] settled
  | fails {body : List UInt8} {response : Response} (read : ReadsAs text body response)
      (type : response.type.isFailure) : Streams (.error (response.asError text)) [body] settled
  | unreadable {body : List UInt8} {error : DbError} (fits : body.length + 1 < 2 ^ 32)
      (refused : Response.ofDatum text (text.read body) = .error error) :
      Streams (.error error) [body] broken
  | more {body : List UInt8} {response : Response} {outcome : Except DbError (List Json)}
      {bodies : List (List UInt8)} {after : Connection} (read : ReadsAs text body response)
      (type : response.type = .successPartial) (rest : Streams outcome bodies after) :
      Streams (outcome.map (response.result ++ ·)) (body :: bodies) after

/-- The bodies by which a server delivers an answer. -/
inductive Delivers : Except DbError Json → List (List UInt8) → Connection → Prop where
  | atom {body : List UInt8} {response : Response} {value : Json}
      (read : ReadsAs text body response) (type : response.type = .successAtom)
      (result : response.result = [value]) : Delivers (.ok value) [body] settled
  | stream {outcome : Except DbError (List Json)} {bodies : List (List UInt8)}
      {after : Connection} (streams : Streams text outcome bodies after) :
      Delivers (outcome.map .arr) bodies after

def asked (type : QueryType) (term : Option Json) : List (Turn UInt8) :=
  ((⟨type, 1, term, []⟩ : Query).serialize text).map .sends

/-- The responses, each but the last followed by the request for the next. -/
def answered : List (List UInt8) → List (Turn UInt8)
  | [] => []
  | [body] => (frame 1 body).map .receives
  | body :: bodies => (frame 1 body).map .receives ++ asked text .continue none ++ answered bodies

/-- What a destructor sends: a query that is still open is stopped. -/
def stopped (connection : Connection) : List (Turn UInt8) :=
  if connection.cache.isEmpty then [] else asked text .stop none

/-- All that passes over the socket for one query: the greeting, the query and
its answer, and what the destructors of the cursor and of the connection send. -/
def script (term : Json) (bodies : List (List UInt8)) (after : Connection) :
    List (Turn UInt8) :=
  (greeting []).map .sends ++ (utf8 "SUCCESS" ++ [0]).map .receives ++
    (asked text .start (some term) ++ answered text bodies ++ stopped text after ++ stopped text after)

variable {text}

theorem frame_does {Value : Type} {next : List UInt8 → List UInt8 → Wire Value}
    {body : List UInt8} (fits : body.length + 1 < 2 ^ 32) {before after : Connection}
    {script : List (Turn UInt8)} {outcome : Except Stop Value}
    (continues : (next (littleEndian 8 1 ++ littleEndian 4 body.length) body).Does before script
      outcome after) :
    (recv 12 >>= fun header => recvBody (ofLittleEndian (header.drop 8)) >>= next header).Does before
      ((frame 1 body).map .receives ++ script) outcome after := by
  have header := recv_does (littleEndian 8 1 ++ littleEndian 4 body.length) before
  have size : ofLittleEndian ((littleEndian 8 1 ++ littleEndian 4 body.length).drop 8) =
      body.length := by
    rw [List.drop_left' (length_littleEndian 8 1)]
    exact ofLittleEndian_littleEndian (by omega)
  rw [List.length_append, length_littleEndian, length_littleEndian] at header
  rw [frame, List.map_append, List.append_assoc]
  refine header.bind ?_
  rw [size, recvBody, if_neg fits.ne]
  exact (recv_does body before).bind continues

theorem token_of_header (length : Nat) :
    ofLittleEndian ((littleEndian 8 1 ++ littleEndian 4 length).take 8) = 1 := by
  rw [List.take_left' (length_littleEndian 8 1)]
  exact ofLittleEndian_littleEndian (by decide)

theorem waitForResponse_of_readResponses {rounds : Nat} {script : List (Turn UInt8)}
    {outcome : Except Stop Response} {after : Connection}
    (received : (readResponses text rounds 1).Does broken script outcome after) :
    (waitForResponse text rounds 1).Does opened script outcome after :=
  (Wire.does_connection opened).bind ((Wire.does_modify _ opened).bind received)

theorem waitForResponse_does {body : List UInt8} {response : Response}
    (read : ReadsAs text body response) (rounds : Nat) :
    (waitForResponse text (rounds + 1) 1).Does opened ((frame 1 body).map .receives)
      (.ok response) (if response.type = .successPartial then opened else settled) := by
  apply waitForResponse_of_readResponses
  rw [← List.append_nil ((frame 1 body).map _)]
  refine frame_does read.fits ?_
  rw [token_of_header, read.reads]
  refine (Wire.does_pure response broken).bind ((Wire.does_connection broken).bind ?_)
  by_cases part : response.type = .successPartial
  · rw [if_pos part, if_pos rfl, if_neg (not_not_intro part)]
    exact ⟨rfl, rfl⟩
  · rw [if_neg part, if_pos rfl, if_pos part]
    exact ⟨rfl, rfl⟩

theorem waitForResponse_refused {body : List UInt8} {error : DbError}
    (fits : body.length + 1 < 2 ^ 32)
    (refused : Response.ofDatum text (text.read body) = .error error) (rounds : Nat) :
    (waitForResponse text (rounds + 1) 1).Does opened ((frame 1 body).map .receives)
      (.error (.error error)) broken := by
  apply waitForResponse_of_readResponses
  rw [← List.append_nil ((frame 1 body).map _)]
  refine frame_does fits ?_
  rw [refused]
  exact ⟨rfl, rfl⟩

theorem Streams.bodies_ne_nil {outcome : Except DbError (List Json)} {bodies : List (List UInt8)}
    {after : Connection} (streams : Streams text outcome bodies after) : bodies ≠ [] := by
  cases streams <;> exact List.cons_ne_nil _ _

theorem Streams.after_eq {outcome : Except DbError (List Json)} {bodies : List (List UInt8)}
    {after : Connection} (streams : Streams text outcome bodies after) :
    after = settled ∨ after = broken := by
  induction streams with
  | last => exact .inl rfl
  | fails => exact .inl rfl
  | unreadable => exact .inr rfl
  | more _ _ _ ih => exact ih

theorem Delivers.after_eq {answer : Except DbError Json} {bodies : List (List UInt8)}
    {after : Connection} (delivers : Delivers text answer bodies after) :
    after = settled ∨ after = broken := by
  cases delivers with
  | atom => exact .inl rfl
  | stream streams => exact streams.after_eq

theorem answered_cons (body : List UInt8) {bodies : List (List UInt8)} (more : bodies ≠ []) :
    answered text (body :: bodies) =
      (frame 1 body).map .receives ++ (asked text .continue none ++ answered text bodies) := by
  cases bodies with
  | nil => exact absurd rfl more
  | cons next bodies => rw [answered, List.append_assoc]; simp

/-! ## The cursor -/

/-- The cursor with so many rows and none handed out. -/
def gathered (noMore : Bool) (rows : List Json) : CursorPrivate := ⟨false, noMore, 0, rows, 1⟩

theorem addResults_gathered (noMore : Bool) (rows results : List Json) :
    (gathered noMore rows).addResults results = gathered noMore (rows ++ results) := by
  cases rows <;> rfl

theorem addResponse_failure {response : Response} (failure : response.type.isFailure)
    (cursor : CursorPrivate) (connection : Connection) :
    (cursor.addResponse text response).Does connection [] (.error (.error (response.asError text)))
      connection := by
  unfold CursorPrivate.addResponse
  cases type : response.type <;> simp [type, ResponseType.isFailure] at failure
  all_goals exact ⟨rfl, rfl⟩

theorem addResponse_batch {response : Response} (part : response.type = .successPartial)
    (rows : List Json) (connection : Connection) :
    ((gathered false rows).addResponse text response).Does connection (asked text .continue none)
      (.ok (gathered false (rows ++ response.result))) connection := by
  rw [← addResults_gathered]
  unfold CursorPrivate.addResponse
  rw [part]
  exact (send_does _ connection).bind_silent (Wire.does_pure _ connection)

theorem addResponse_sequence {response : Response} (last : response.type = .successSequence)
    (rows : List Json) (connection : Connection) :
    ((gathered false rows).addResponse text response).Does connection []
      (.ok (gathered true (rows ++ response.result))) connection := by
  have added := addResults_gathered false rows response.result
  unfold CursorPrivate.addResponse
  rw [last, added]
  exact Wire.does_pure _ connection

theorem addResponse_atom {response : Response} (atom : response.type = .successAtom)
    {value : Json} (result : response.result = [value]) (connection : Connection) :
    ((gathered false []).addResponse text response).Does connection []
      (.ok ⟨true, true, 0, [value], 1⟩) connection := by
  unfold CursorPrivate.addResponse
  rw [atom, result]
  exact Wire.does_pure _ connection

theorem readAll_done (rounds : Nat) (rows : List Json) :
    (gathered true rows).readAll text rounds = pure (gathered true rows) := by
  cases rounds <;> rfl

/-- The batches are gathered in order until the last; an error among them takes
the place of the whole. -/
theorem readAll_does {outcome : Except DbError (List Json)} {bodies : List (List UInt8)}
    {after : Connection} (streams : Streams text outcome bodies after) {rounds : Nat}
    (enough : bodies.length ≤ rounds) (rows : List Json) :
    ((gathered false rows).readAll text rounds).Does opened (answered text bodies)
      ((outcome.map fun more => gathered true (rows ++ more)).mapError .error) after := by
  obtain ⟨rounds, rfl⟩ : ∃ fewer, rounds = fewer + 1 :=
    Nat.exists_eq_add_one.mpr
      (Nat.lt_of_lt_of_le (List.length_pos_iff.mpr streams.bodies_ne_nil) enough)
  induction streams generalizing rounds rows with
  | last read type =>
      have received := waitForResponse_does read rounds
      rw [if_neg (by simp [type])] at received
      refine received.bind_silent ((addResponse_sequence type rows settled).bind_silent ?_)
      rw [readAll_done]
      exact Wire.does_pure _ settled
  | fails read type =>
      have received := waitForResponse_does read rounds
      rw [if_neg (by intro part; simp [part, ResponseType.isFailure] at type)] at received
      exact received.bind_silent (addResponse_failure type _ settled).bind_error
  | unreadable fits refused => exact (waitForResponse_refused fits refused rounds).bind_error
  | @more body response outcome bodies after read type rest ih =>
      have received := waitForResponse_does read rounds
      rw [if_pos type] at received
      obtain ⟨fewer, rfl⟩ : ∃ fewer, rounds = fewer + 1 :=
        Nat.exists_eq_add_one.mpr
          (Nat.lt_of_lt_of_le (List.length_pos_iff.mpr rest.bodies_ne_nil)
            (Nat.le_of_succ_le_succ enough))
      have gathers := ih (rows ++ response.result) fewer (Nat.le_of_succ_le_succ enough)
      have same : (outcome.map (response.result ++ ·)).map (fun more => gathered true (rows ++ more)) =
          outcome.map fun more => gathered true (rows ++ response.result ++ more) := by
        cases outcome <;> simp [Except.map]
      rw [answered_cons body rest.bodies_ne_nil, same]
      exact received.bind ((addResponse_batch type rows opened).bind gathers)

theorem toDatum_does {outcome : Except DbError (List Json)} {bodies : List (List UInt8)}
    {after : Connection} (streams : Streams text outcome bodies after) {rounds : Nat}
    (enough : bodies.length ≤ rounds) (rows : List Json) :
    ((gathered false rows).toDatum text rounds).Does opened (answered text bodies)
      ((outcome.map fun more => .arr (rows ++ more)).mapError .error) after := by
  have gathers : ((gathered false rows).clearAndReadAll text rounds).Does opened
      (answered text bodies)
      ((outcome.map fun more => gathered true (rows ++ more)).mapError .error) after :=
    (Wire.does_pure (gathered false rows) opened).bind (readAll_does streams enough rows)
  cases outcome with
  | ok more =>
      have array : ((gathered false rows).toArray text rounds).Does opened (answered text bodies)
          (.ok (rows ++ more)) after :=
        gathers.bind_silent (Wire.does_pure (rows ++ more) after)
      exact array.bind_silent (Wire.does_pure (Json.arr (rows ++ more)) after)
  | error error => exact gathers.bind_error.bind_error

/-! ## Destructors -/

theorem stopQuery_does {connection : Connection}
    (left : connection = settled ∨ connection = broken) :
    (stopQuery text 1).Does connection (stopped text connection) (.ok ()) connection := by
  obtain rfl | rfl := left
  · exact ⟨rfl, rfl⟩
  · exact (Wire.does_connection broken).bind (send_does _ broken)

theorem close_does {connection : Connection}
    (left : connection = settled ∨ connection = broken) :
    (close text).Does connection (stopped text connection) (.ok ()) connection := by
  have stops : (stopQuery text 1).Does connection (stopped text connection) (.ok ()) connection :=
    stopQuery_does left
  obtain rfl | rfl := left
  · exact ⟨rfl, rfl⟩
  · exact (Wire.does_connection broken).bind (stops.bind_silent (Wire.does_pure () broken))

/-! ## One query -/

section StartQuery

variable {rounds : Nat} (term : Json) {script : List (Turn UInt8)} {after : Connection}

/-- The query is sent, and the first response is made the start of a cursor. -/
theorem startQuery_ok {cursor : CursorPrivate}
    (answers : (do (gathered false []).addResponse text (← waitForResponse text rounds 1)).Does
      opened script (.ok cursor) after) :
    (startQuery text rounds term []).Does .fresh (asked text .start (some term) ++ script)
      (.ok cursor) after :=
  (Wire.does_pure false _).bind ((Wire.does_pure 1 _).bind ((Wire.does_modify _ _).bind
    ((send_does _ _).bind (answers.destroying_skip rfl))))

/-- When the first response is an error, the cursor is destroyed at once. -/
theorem startQuery_error {error : DbError}
    (answers : (do (gathered false []).addResponse text (← waitForResponse text rounds 1)).Does
      opened script (.error (.error error)) after) (left : after = settled ∨ after = broken) :
    (startQuery text rounds term []).Does .fresh
      (asked text .start (some term) ++ (script ++ stopped text after))
      (.error (.error error)) after :=
  (Wire.does_pure false _).bind ((Wire.does_pure 1 _).bind ((Wire.does_modify _ _).bind
    ((send_does _ _).bind (answers.destroying rfl (stopQuery_does left)))))

end StartQuery

/-- What a function that only computes makes of an answer. -/
def fromAnswer {Value : Type} (use : Json → Except Stop Value) :
    Except DbError Json → Except Stop Value
  | .ok value => use value
  | .error error => .error (.error error)

section Query

variable {Value : Type} {use : Json → Except Stop Value}

/-- A query whose first response is an error has no cursor. -/
theorem query_of_failed {rounds : Nat} {term : Json} {script : List (Turn UInt8)}
    {after : Connection} {error : DbError} {next : CursorPrivate → Wire Value}
    (answers : (do (gathered false []).addResponse text (← waitForResponse text rounds 1)).Does
      opened script (.error (.error error)) after) (left : after = settled ∨ after = broken) :
    (startQuery text rounds term [] >>= next).Does .fresh
      (asked text .start (some term) ++ (script ++ stopped text after))
      (fromAnswer use (.error error)) after :=
  (startQuery_error term answers left).bind_error

variable (unwinds : ∀ value, Wire.unwinds (use value) = true)

include unwinds

theorem query_of_started
    {rounds : Nat} {term : Json} {cursor : CursorPrivate} {first rest : List (Turn UInt8)}
    {between after : Connection} {answer : Except DbError Json} (token : cursor.token = 1)
    (started : (startQuery text rounds term []).Does .fresh first (.ok cursor) between)
    (reads : (cursor.toDatum text rounds).Does between rest (answer.mapError .error) after)
    (left : after = settled ∨ after = broken) :
    (startQuery text rounds term [] >>= fun result =>
      .withDestructor (do .ending (use (← result.toDatum text rounds))) (result.close text)).Does .fresh
      (first ++ (rest ++ stopped text after)) (fromAnswer use answer) after := by
  have destroys : (cursor.close text).Does after (stopped text after) (.ok ()) after := by
    unfold CursorPrivate.close
    rw [token]
    exact stopQuery_does left
  refine started.bind (Wire.Does.destroying ?_ ?_ destroys)
  · cases answer with
    | ok value => exact reads.bind_silent (Wire.does_ending (use value) after)
    | error error => exact reads.bind_error
  · cases answer with
    | ok value => exact unwinds value
    | error error => rfl

theorem query_does
    {answer : Except DbError Json} {bodies : List (List UInt8)} {after : Connection}
    (delivers : Delivers text answer bodies after) {rounds : Nat}
    (enough : bodies.length ≤ rounds) (term : Json) :
    (startQuery text rounds term [] >>= fun result =>
      .withDestructor (do .ending (use (← result.toDatum text rounds))) (result.close text)).Does .fresh
      (asked text .start (some term) ++ (answered text bodies ++ stopped text after))
      (fromAnswer use answer) after := by
  -- the first response starts the cursor, and the rest of the answer is read through it
  cases delivers with
  | @atom body response value read type result =>
      obtain ⟨rounds, rfl⟩ : ∃ fewer, rounds = fewer + 1 := Nat.exists_eq_add_one.mpr enough
      have received := waitForResponse_does read rounds
      rw [if_neg (by simp [type])] at received
      have started := startQuery_ok term
        (received.bind_silent (addResponse_atom type result settled))
      have reads : (CursorPrivate.toDatum text (rounds + 1) ⟨true, true, 0, [value], 1⟩).Does
          settled [] ((Except.ok value : Except DbError Json).mapError Stop.error) settled :=
        Wire.does_pure value settled
      have whole := query_of_started unwinds rfl started reads (.inl rfl)
      rwa [List.nil_append, List.append_assoc] at whole
  | stream streams =>
      obtain ⟨rounds, rfl⟩ : ∃ fewer, rounds = fewer + 1 :=
        Nat.exists_eq_add_one.mpr
          (Nat.lt_of_lt_of_le (List.length_pos_iff.mpr streams.bodies_ne_nil) enough)
      cases streams with
      | @last body response read type =>
          have received := waitForResponse_does read rounds
          rw [if_neg (by simp [type])] at received
          have started := startQuery_ok term
            (received.bind_silent (addResponse_sequence type [] settled))
          have reads : ((gathered true response.result).toDatum text (rounds + 1)).Does settled []
              ((Except.ok (Json.arr response.result) : Except DbError Json).mapError Stop.error)
              settled := ⟨rfl, rfl⟩
          have whole := query_of_started unwinds rfl started reads (.inl rfl)
          rwa [List.nil_append, List.append_assoc] at whole
      | fails read type =>
          have received := waitForResponse_does read rounds
          rw [if_neg (by intro part; simp [part, ResponseType.isFailure] at type)] at received
          exact query_of_failed (received.bind_silent (addResponse_failure type _ settled))
            (.inl rfl)
      | unreadable fits refused =>
          exact query_of_failed (waitForResponse_refused fits refused rounds).bind_error (.inr rfl)
      | @more body response outcome bodies _ read type rest =>
          have received := waitForResponse_does read rounds
          rw [if_pos type] at received
          have started := startQuery_ok term (received.bind (addResponse_batch type [] opened))
          have reads := toDatum_does rest (Nat.le_of_succ_le enough) response.result
          have same : (outcome.map (response.result ++ ·)).map Json.arr =
              outcome.map fun more => .arr (response.result ++ more) := by
            cases outcome <;> rfl
          have whole := query_of_started unwinds rfl started reads rest.after_eq
          rw [answered_cons body rest.bodies_ne_nil, same]
          simpa only [List.append_assoc] using whole

theorem withAnswer_does
    {answer : Except DbError Json} {bodies : List (List UInt8)} {after : Connection}
    (delivers : Delivers text answer bodies after) {rounds : Nat}
    (enough : bodies.length ≤ rounds) (term : Json) (before : Connection) :
    (withAnswer text rounds term use).Does before (script text term bodies after)
      (fromAnswer use answer) after := by
  have queried := query_does unwinds delivers enough term
  have unwound : Wire.unwinds (fromAnswer use answer) = true := by
    cases answer with
    | ok value => exact unwinds value
    | error error => rfl
  have whole : (withAnswer text rounds term use).Does before
      (((greeting []).map .sends ++ (utf8 "SUCCESS" ++ [0]).map .receives) ++
        (asked text .start (some term) ++ (answered text bodies ++ stopped text after) ++
          stopped text after)) (fromAnswer use answer) after :=
    (connect_does before).bind (queried.destroying unwound (close_does delivers.after_eq))
  simpa only [script, List.append_assoc] using whole

end Query

/-- What `get_data` and `get_number` make of an end of their `try` block. -/
def caught {Value : Type} (handled : Value) : Except Stop Value → Except Stop Value
  | .error (.error _) => .ok handled
  | outcome => outcome

/-- An end without the answer: the handled error, or none at all. -/
def Unanswered {Value : Type} (handled : Value) (ended : Except Stop Value × Connection) : Prop :=
  ∀ value, ended.1 = .ok value → value = handled

theorem catching_follows {Value : Type} {body : Wire Value} {before after : Connection}
    {script : List (Turn UInt8)} {outcome : Except Stop Value}
    (does : body.Does before script outcome after) (handled : Value) :
    ((Wire.catching body handled) before).Follows (Unanswered handled)
      (caught handled outcome, after) script := by
  rw [← List.append_nil script]
  refine Endpoint.Follows.bind does ?_ ?_
  · rintro ⟨ended, connection⟩ ⟨reason, rfl⟩
    cases reason <;> intro value equal <;> cases equal
    rfl
  · cases outcome with
    | ok value => exact ⟨rfl, rfl⟩
    | error reason => cases reason <;> exact ⟨rfl, rfl⟩

/-! ## The explorer's queries -/

section Data

variable {answer : Except DbError Json} {bodies : List (List UInt8)} {after : Connection}
  (delivers : Delivers text answer bodies after) {rounds : Nat} (enough : bodies.length ≤ rounds)
  (term : Json) (before : Connection)

include delivers enough

theorem getData_follows
    (parses : ∀ value, answer = .ok value → text.parse (text.write value) = .ok value) :
    (getData text rounds term before).Follows (Unanswered (.arr []))
      (.ok (getDataOf answer), after) (script text term bodies after) := by
  have unwinds : ∀ value, Wire.unwinds (dataOf text value) = true := by
    intro value
    unfold dataOf
    split
    · rfl
    · cases text.parse _ <;> rfl
  have does := withAnswer_does unwinds delivers enough term before
  have answers : caught (.arr []) (fromAnswer (dataOf text) answer) = .ok (getDataOf answer) := by
    cases answer with
    | error error => rfl
    | ok value =>
        have parsed := parses value rfl
        cases value with
        | null => rfl
        | _ =>
            simp only [fromAnswer, dataOf, parsed]
            rfl
  rw [← answers]
  exact catching_follows does (.arr [])

theorem getNumber_follows :
    (getNumber text rounds term before).Follows (Unanswered 0)
      (.ok (getNumberOf answer), after) (script text term bodies after) := by
  have unwinds : ∀ value, Wire.unwinds (numberOf value) = true := by
    intro value
    cases value <;> rfl
  have does := withAnswer_does unwinds delivers enough term before
  have answers : caught 0 (fromAnswer numberOf answer) = .ok (getNumberOf answer) := by
    cases answer with
    | error error => rfl
    | ok value => cases value <;> rfl
  rw [← answers]
  exact catching_follows does 0

end Data

end Answers

end MileExplorer.Driver
