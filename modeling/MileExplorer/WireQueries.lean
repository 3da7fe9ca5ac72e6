import MileExplorer.DriverAnswers

/-!
# A query of the model is a query over the wire

The model answers `get_data` and `get_number` in one step, or with an error at a
site that fails.  The driver and a server that delivers the same answer come to
the same result, however the answer is divided into batches and the bytes into
pieces and in whatever order the two ends take their steps; and where the
connection fails, the result is the one of a failing site.
-/

namespace MileExplorer.Driver

theorem getDataOf_eq {first second : Except DbError Json}
    (same : first.toOption = second.toOption) : getDataOf first = getDataOf second := by
  cases first <;> cases second <;> simp_all [Except.toOption, getDataOf]

theorem getNumberOf_eq {first second : Except DbError Json}
    (same : first.toOption = second.toOption) : getNumberOf first = getNumberOf second := by
  cases first <;> cases second <;> simp_all [Except.toOption, getNumberOf]

section Wire

variable {text : JsonText} {answer : Except DbError Json} {bodies : List (List UInt8)}
  {after : Connection} {rounds : Nat} {Other : Type} {other : Other}
  {server : Endpoint UInt8 Other}

/-- `get_data` over an undisturbed connection ends, and with what the model's
query gives. -/
theorem get_data_over_the_wire (term : Json) (site : Site) (cursor : Cursor) (process : Process)
    (delivers : Delivers text answer bodies after)
    (agrees : answer.toOption = (cursor process.store).toOption)
    (parses : ∀ value, answer = .ok value → text.parse (text.write value) = .ok value)
    (enough : bodies.length ≤ rounds)
    (served : server.Follows (fun _ => True) other ((script text term bodies after).map .dual))
    {moves : List LinkMove} {link : Link UInt8 (Except Stop Json × Connection) Other}
    (ran : runMoves Link.step Link.Undisturbed
      (Link.start (getData text rounds term .fresh) server) moves = some link) :
    moves.length ≤ 2 * (script text term bodies after).length ∧
      (link.Finished (.ok ((Db.getData site cursor).run Process.exec process).1, after) other ∨
        ∃ move, link.Undisturbed move ∧ (link.step move).isSome) := by
  have follows := getData_follows delivers enough term .fresh parses
  rw [getDataOf_eq agrees] at follows
  exact Link.completes follows served ran

def sampleRow (id : Int) : Json := .obj [("id", .num id)]

def sampleBody (type : String) (id : String) : List UInt8 :=
  utf8 ("\x7b\"t\":" ++ type ++ ",\"r\":[\x7b\"id\":" ++ id ++ "\x7d]\x7d")

def sampleTerm : Json :=
  .arr [.num 15, .arr [.arr [.num 14, .arr [.str "explorer"]], .str "meta"]]

def sampleText : JsonText where
  write datum :=
    if datum = .arr [.num 1, sampleTerm] then "[1,[15,[[14,[\"explorer\"]],\"meta\"]]]"
    else if datum = .arr [.num 2] then "[2]"
    else "[\x7b\"id\":0\x7d,\x7b\"id\":1\x7d]"
  read body :=
    if body = sampleBody "3" "0" then .obj [("r", .arr [sampleRow 0]), ("t", .num 3)]
    else if body = sampleBody "2" "1" then .obj [("r", .arr [sampleRow 1]), ("t", .num 2)]
    else .null
  parse written :=
    if written = "[\x7b\"id\":0\x7d,\x7b\"id\":1\x7d]" then .ok (.arr [sampleRow 0, sampleRow 1])
    else .error (.parseError "")

def sampleStore : Store :=
  Function.update Store.empty .metadata (KeyedTable.empty.insertMany [sampleRow 0, sampleRow 1])

theorem sample_delivers :
    Delivers sampleText (.ok (.arr [sampleRow 0, sampleRow 1]))
      [sampleBody "3" "0", sampleBody "2" "1"] settled := by
  have first : ReadsAs sampleText (sampleBody "3" "0") ⟨.successPartial, .none, [sampleRow 0]⟩ :=
    ⟨by decide, by decide⟩
  have second : ReadsAs sampleText (sampleBody "2" "1") ⟨.successSequence, .none, [sampleRow 1]⟩ :=
    ⟨by decide, by decide⟩
  exact .stream (.more first rfl (.last second rfl))

/-- The driver with the sample query and a server that answers it. -/
def sampleLink : Link UInt8 (Except Stop Json × Connection) Unit :=
  .start (getData sampleText 2 sampleTerm .fresh)
    (.ofScript () ((script sampleText sampleTerm
      [sampleBody "3" "0", sampleBody "2" "1"] settled).map .dual))

/-- The driver has sent its greeting, and the server has read two bytes of it. -/
theorem get_data_over_the_wire_greeting :
    ∃ link, runMoves Link.step Link.Undisturbed sampleLink
        [.client 7, .server 1, .client 5, .server 1] = some link ∧
      (link.Finished (.ok (.arr [sampleRow 0, sampleRow 1]), settled) () ∨
        ∃ move, link.Undisturbed move ∧ (link.step move).isSome) := by
  obtain ⟨link, ran⟩ : ∃ link, runMoves Link.step Link.Undisturbed sampleLink
      [.client 7, .server 1, .client 5, .server 1] = some link := ⟨_, rfl⟩
  exact ⟨link, ran, (get_data_over_the_wire sampleTerm .other (MileExplorer.cursor .metadata)
    (.idle sampleStore) sample_delivers rfl (fun value equal => by cases equal; rfl) le_rfl
    (Endpoint.ofScript_follows () _) ran).2⟩

/-- `get_data` over a connection that may fail at any call, if it returns at
all, returns what the model's query gives with the site working or failing:
never a part of the rows. -/
theorem failed_connection_is_a_failed_site (term : Json) (site : Site) (cursor : Cursor)
    (process : Process) (delivers : Delivers text answer bodies after)
    (agrees : answer.toOption = (cursor process.store).toOption)
    (parses : ∀ value, answer = .ok value → text.parse (text.write value) = .ok value)
    (enough : bodies.length ≤ rounds)
    (served : server.Follows (fun _ => True) other ((script text term bodies after).map .dual))
    {link : Link UInt8 (Except Stop Json × Connection) Other}
    (reached : Reaches Link.step (fun _ _ => True)
      (Link.start (getData text rounds term .fresh) server) link)
    {data : Json} {connection : Connection} (returned : link.client = .done (.ok data, connection)) :
    ∃ faults, data = ((Db.getData site cursor).run (Process.execFaulty faults) process).1 := by
  have follows := getData_follows delivers enough term .fresh parses
  rw [getDataOf_eq agrees] at follows
  obtain whole | unanswered := Link.result_of_reaches follows served reached returned
  · obtain ⟨rfl, -⟩ : data = _ ∧ connection = after := by simpa using whole
    exact ⟨fun _ => false, rfl⟩
  · exact ⟨fun _ => true, unanswered data rfl⟩

/-- A write fails after seven bytes of the greeting: the caller gets no rows. -/
theorem failed_connection_is_a_failed_site_greeting :
    ∃ link, runMoves Link.step (fun _ _ => True) sampleLink
        [.client 7, .server 1, .clientFails "Broken pipe"] = some link ∧
      link.client = .done (.ok (.arr []), .fresh) ∧
      ∃ faults, Json.arr [] = ((Db.getData .other (MileExplorer.cursor .metadata)).run
        (Process.execFaulty faults) (.idle sampleStore)).1 := by
  obtain ⟨link, ran, ended⟩ : ∃ link, runMoves Link.step (fun _ _ => True) sampleLink
      [.client 7, .server 1, .clientFails "Broken pipe"] = some link ∧
      link.client = .done (.ok (.arr []), .fresh) := ⟨_, rfl, rfl⟩
  exact ⟨link, ran, ended, failed_connection_is_a_failed_site sampleTerm .other
    (MileExplorer.cursor .metadata) (.idle sampleStore) sample_delivers rfl
    (fun value equal => by cases equal; rfl) le_rfl (Endpoint.ofScript_follows () _)
    (.of_runMoves ran) ended⟩

theorem get_number_over_the_wire (term : Json) (site : Site) (cursor : Cursor) (process : Process)
    (delivers : Delivers text answer bodies after)
    (agrees : answer.toOption = (cursor process.store).toOption)
    (enough : bodies.length ≤ rounds)
    (served : server.Follows (fun _ => True) other ((script text term bodies after).map .dual))
    {moves : List LinkMove} {link : Link UInt8 (Except Stop Rat × Connection) Other}
    (ran : runMoves Link.step Link.Undisturbed
      (Link.start (getNumber text rounds term .fresh) server) moves = some link) :
    moves.length ≤ 2 * (script text term bodies after).length ∧
      (link.Finished (.ok ((Db.getNumber site cursor).run Process.exec process).1, after) other ∨
        ∃ move, link.Undisturbed move ∧ (link.step move).isSome) := by
  have follows := getNumber_follows delivers enough term .fresh
  rw [getNumberOf_eq agrees] at follows
  exact Link.completes follows served ran

end Wire

end MileExplorer.Driver
