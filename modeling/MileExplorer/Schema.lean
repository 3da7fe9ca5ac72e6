import MileExplorer.SharedInvariant
import MileExplorer.Store

/-!
# The tables and indices of the database

An indexer that starts opens the database, creates it if there is none, and
creates the tables and the secondary indices that are missing.  Nothing keeps two
indexers from starting at the same time, and each of the queries may fail, before
or after it was done.
-/

namespace MileExplorer.Schema

/-! ## The database as its administrator sees it -/

/-- The databases of the server, and the tables and indices of the program's
own. -/
structure Catalog where
  databases : List String
  tables : List String
  indices : List (String × String)

inductive CatalogQuery where
  | dbList
  | dbCreate (name : String)
  | tableList (database : String)
  | tableCreate (database table : String)
  | indexWait (database table index : String)
  | indexCreate (database table index : String)

def missing (database : String) : DbError := ⟨"Database `" ++ database ++ "` does not exist."⟩

def missingTable (table : String) : DbError := ⟨"Table `" ++ table ++ "` does not exist."⟩

/-- Answer a query.  That of `indexWait` is the one of `index_wait(..).is_empty()`. -/
def exec : CatalogQuery → Catalog → Except DbError Json × Catalog
  | .dbList, catalog => (.ok (.arr (catalog.databases.map .str)), catalog)
  | .dbCreate name, catalog =>
      if name ∈ catalog.databases then (.error ⟨"Database `" ++ name ++ "` already exists."⟩, catalog)
      else (.ok .null, { catalog with databases := catalog.databases ++ [name] })
  | .tableList database, catalog =>
      if database ∈ catalog.databases then (.ok (.arr (catalog.tables.map .str)), catalog)
      else (.error (missing database), catalog)
  | .tableCreate database table, catalog =>
      if database ∉ catalog.databases then (.error (missing database), catalog)
      else if table ∈ catalog.tables then
        (.error ⟨"Table `" ++ table ++ "` already exists."⟩, catalog)
      else (.ok .null, { catalog with tables := catalog.tables ++ [table] })
  | .indexWait database table index, catalog =>
      if database ∉ catalog.databases then (.error (missing database), catalog)
      else if table ∉ catalog.tables then (.error (missingTable table), catalog)
      else if (table, index) ∈ catalog.indices then (.ok (.bool false), catalog)
      else (.error ⟨"Index `" ++ index ++ "` was not found."⟩, catalog)
  | .indexCreate database table index, catalog =>
      if database ∉ catalog.databases then (.error (missing database), catalog)
      else if table ∉ catalog.tables then (.error (missingTable table), catalog)
      else if (table, index) ∈ catalog.indices then
        (.error ⟨"Index `" ++ index ++ "` already exists."⟩, catalog)
      else (.ok .null, { catalog with indices := catalog.indices ++ [(table, index)] })

/-! ## The start of the indexer -/

/-- `table::get_names`. -/
def getNames : List String :=
  ["meta", "blockchain_info", "node_states", "node_wallets", "blocks", "blocks_processing",
    "wallets", "wallets_state", "transactions", "transactions_state", "transactions_processing",
    "genesis_transactions", "turnovers", "transaction_turnover"]

/-- `table::get_indices`. -/
def getIndices : List (String × String) :=
  [("blocks", "block-id"), ("blocks", "timestamp"), ("blocks_processing", "block-id"),
    ("node_states", "block-id"), ("transactions", "block-id"), ("transactions", "digest"),
    ("transactions", "serial"), ("transactions", "timestamp"),
    ("transactions_processing", "block-id"), ("genesis_transactions", "serial"),
    ("genesis_transactions", "block-id"), ("genesis_transactions", "digest")]

abbrev Setup := Program CatalogQuery (Except DbError Json)

section Database

variable (dbName : String)

/-- `Db::Open`: whether the database exists; an error opens nothing. -/
def openDb : Setup (Option Bool) :=
  .request .dbList fun
    | .ok (.arr databases) => some (databases.any (· = .str dbName))
    | _ => none

/-- `Db::has_table`; an error counts as no table. -/
def hasTable (name : String) : Setup Bool :=
  .request (.tableList dbName) fun
    | .ok (.arr tables) => tables.any (· = .str name)
    | _ => false

/-- `Db::create_table`, which ignores an error. -/
def createTable (name : String) : Setup Unit :=
  .request (.tableCreate dbName name) fun _ => ()

/-- `Table::has_index`.  The result is the pointer to the boolean of the answer
and not the boolean, so that every boolean answer counts as an index. -/
def hasIndex (desc : String × String) : Setup Bool :=
  .request (.indexWait dbName desc.1 desc.2) fun
    | .ok (.bool _) => true
    | _ => false

/-- `Table::create_index`, which ignores an error. -/
def createIndex (desc : String × String) : Setup Unit :=
  .request (.indexCreate dbName desc.1 desc.2) fun _ => ()

/-- The body of the two loops of `Db::init`. -/
def ensure {Item : Type} (has : Item → Setup Bool) (create : Item → Setup Unit) (item : Item) :
    Setup Unit := do
  if !(← has item) then create item

def ensureEach {Item : Type} (has : Item → Setup Bool) (create : Item → Setup Unit) :
    List Item → Setup Unit
  | [] => pure ()
  | item :: items => do
      ensure has create item
      ensureEach has create items

/-- The part of `Db::init` that sets the database up.  The error of `db_create`
is caught at the end of the function. -/
def init (isExist : Bool) : Setup (Except DbError Unit) := do
  let created ←
    if isExist then pure (.ok ())
    else .request (.dbCreate dbName) fun answer => answer.map fun _ => ()
  match created with
  | .error error => return .error error
  | .ok () => do
      ensureEach (hasTable dbName) (createTable dbName) getNames
      ensureEach (hasIndex dbName) (createIndex dbName) getIndices
      return .ok ()

/-- `main` up to the end of the setting up: nothing where the database cannot be
opened. -/
def start : Setup (Option (Except DbError Unit)) := do
  match ← openDb dbName with
  | none => return none
  | some isExist => return some (← init dbName isExist)

end Database

/-! ## What the queries do -/

/-- Nothing is removed, and what is new belongs to the program. -/
structure Grows (dbName : String) (before after : Catalog) : Prop where
  databases : before.databases ⊆ after.databases
  tables : before.tables ⊆ after.tables
  indices : before.indices ⊆ after.indices
  newDatabases : ∀ name ∈ after.databases, name ∈ before.databases ∨ name = dbName
  newTables : ∀ name ∈ after.tables, name ∈ before.tables ∨ name ∈ getNames
  newIndices : ∀ index ∈ after.indices, index ∈ before.indices ∨ index ∈ getIndices

/-- Every table and every index of the program is there. -/
structure Complete (dbName : String) (catalog : Catalog) : Prop where
  database : dbName ∈ catalog.databases
  tables : ∀ name ∈ getNames, name ∈ catalog.tables
  indices : ∀ index ∈ getIndices, index ∈ catalog.indices

section Growth

variable {dbName : String} {before between after : Catalog}

theorem Grows.refl (catalog : Catalog) : Grows dbName catalog catalog :=
  ⟨List.Subset.refl _, List.Subset.refl _, List.Subset.refl _, fun _ => .inl, fun _ => .inl,
    fun _ => .inl⟩

theorem Grows.trans (first : Grows dbName before between) (second : Grows dbName between after) :
    Grows dbName before after where
  databases := List.Subset.trans first.databases second.databases
  tables := List.Subset.trans first.tables second.tables
  indices := List.Subset.trans first.indices second.indices
  newDatabases name member :=
    (second.newDatabases name member).elim (first.newDatabases name) .inr
  newTables name member := (second.newTables name member).elim (first.newTables name) .inr
  newIndices index member := (second.newIndices index member).elim (first.newIndices index) .inr

theorem Complete.grows (complete : Complete dbName before) (grows : Grows dbName before after) :
    Complete dbName after where
  database := grows.databases complete.database
  tables name member := grows.tables (complete.tables name member)
  indices index member := grows.indices (complete.indices index member)

/-- A query that the program may make for one of its own names. -/
def CatalogQuery.Own (dbName : String) : CatalogQuery → Prop
  | .dbList | .tableList _ | .indexWait _ _ _ => True
  | .dbCreate name => name = dbName
  | .tableCreate _ table => table ∈ getNames
  | .indexCreate _ table index => (table, index) ∈ getIndices

theorem exec_grows {query : CatalogQuery} (own : query.Own dbName) (catalog : Catalog) :
    Grows dbName catalog (exec query catalog).2 := by
  have same : Grows dbName catalog catalog := .refl catalog
  cases query with
  | dbList => exact same
  | dbCreate name =>
      obtain rfl : name = dbName := own
      simp only [exec]
      split
      · exact same
      · exact { same with
          databases := List.subset_append_left _ _
          newDatabases := fun other member => by simpa using member }
  | tableList database =>
      simp only [exec]
      split <;> exact same
  | tableCreate database table =>
      simp only [exec]
      split_ifs
      · exact same
      · exact { same with
          tables := List.subset_append_left _ _
          newTables := fun name member => by
            obtain old | rfl : name ∈ catalog.tables ∨ name = table := by simpa using member
            · exact .inl old
            · exact .inr own }
      · exact same
  | indexWait database table index =>
      simp only [exec]
      split_ifs <;> exact same
  | indexCreate database table index =>
      simp only [exec]
      split_ifs
      · exact same
      · exact { same with
          indices := List.subset_append_left _ _
          newIndices := fun described member => by
            obtain old | rfl : described ∈ catalog.indices ∨ described = (table, index) := by
              simpa using member
            · exact .inl old
            · exact .inr own }
      all_goals exact same

theorem steps_request {Result : Type} {query : CatalogQuery} (own : query.Own dbName)
    (read : Except DbError Json → Result) :
    (Program.request query read : Setup Result).Steps exec (Grows dbName) :=
  ⟨exec_grows own, fun _ => trivial⟩

theorem ensureEach_steps {Item : Type} {has : Item → Setup Bool} {create : Item → Setup Unit}
    {items : List Item} (asks : ∀ item ∈ items, (has item).Steps exec (Grows dbName))
    (creates : ∀ item ∈ items, (create item).Steps exec (Grows dbName)) :
    (ensureEach has create items).Steps exec (Grows dbName) := by
  induction items with
  | nil => trivial
  | cons item items ih =>
      obtain ⟨asksItem, asksRest⟩ := List.forall_mem_cons.mp asks
      obtain ⟨createsItem, createsRest⟩ := List.forall_mem_cons.mp creates
      refine (asksItem.bind fun found => ?_).bind fun _ => ih asksRest createsRest
      cases found
      · exact createsItem
      · trivial

variable (dbName) in
/-- Whatever its queries are answered, the start of an indexer only adds to the
database. -/
theorem start_steps : (start dbName).Steps exec (Grows dbName) := by
  refine (steps_request (by trivial) _).bind fun opened => ?_
  cases opened with
  | none => trivial
  | some isExist =>
      have creates : (ensureEach (hasTable dbName) (createTable dbName) getNames >>= fun _ =>
          ensureEach (hasIndex dbName) (createIndex dbName) getIndices >>= fun _ =>
            (pure (.ok ()) : Setup (Except DbError Unit))).Steps exec (Grows dbName) :=
        (ensureEach_steps (fun _ _ => steps_request (by trivial) _)
          fun _ member => steps_request member _).bind fun _ =>
          (ensureEach_steps (fun _ _ => steps_request (by trivial) _)
            fun _ member => steps_request member _).bind fun _ => trivial
      have inits : (init dbName isExist).Steps exec (Grows dbName) := by
        cases isExist
        · have own : CatalogQuery.Own dbName (.dbCreate dbName) := rfl
          refine (steps_request own _).bind fun created => ?_
          cases created with
          | error error => trivial
          | ok _ => exact creates
        · exact creates
      exact inits.bind fun _ => trivial

end Growth

/-! ## A start whose queries are answered -/

section Answered

variable {dbName : String} {first : Catalog}

variable (dbName first) in
/-- The database only grows, by this start and by others. -/
def setup : Contract CatalogQuery Catalog where
  valid := Grows dbName first
  rely := Grows dbName
  guarantee := Grows dbName
  admits _ _ := True
  relyRefl := .refl
  relyTrans _ _ _ := .trans
  guaranteeRefl := .refl

/-- One query of the program and what is known after it. -/
theorem request_holds {Result : Type} {query : CatalogQuery} (own : query.Own dbName)
    {read : Except DbError Json → Result} {post : Result → Catalog → Prop} {state : Catalog}
    (ends : ∀ current, Grows dbName state current → Grows dbName first current →
      post (read (exec query current).1) (exec query current).2) :
    (Program.request query read : Setup Result).Holds exec (setup dbName first) post state := by
  intro current moved valid _
  have grows := exec_grows own current
  exact ⟨valid.trans grows, grows, ends current moved valid⟩

/-- A loop keeps what growth keeps, and makes every item. -/
theorem ensureEach_holds {Item : Type} {has : Item → Setup Bool} {create : Item → Setup Unit}
    {made : Item → Catalog → Prop}
    (stable : ∀ item before after, Grows dbName before after → made item before → made item after)
    (items : List Item) (kept : Catalog → Prop)
    (ensures : ∀ item ∈ items, ∀ state, kept state →
      (ensure has create item).Holds exec (setup dbName first)
        (fun _ after => Grows dbName state after ∧ made item after) state)
    (keptStable : ∀ before after, Grows dbName before after → kept before → kept after)
    {state : Catalog} (initially : kept state) :
    (ensureEach has create items).Holds exec (setup dbName first)
      (fun _ after => kept after ∧ ∀ item ∈ items, made item after) state := by
  induction items generalizing kept state with
  | nil => exact ⟨initially, fun _ => nofun⟩
  | cons item items ih =>
      obtain ⟨ensuresItem, ensuresRest⟩ := List.forall_mem_cons.mp ensures
      refine (ensuresItem state initially).bind fun _ middle ⟨grows, madeItem⟩ => ?_
      have rest := ih (fun catalog => kept catalog ∧ made item catalog)
        (fun other member catalog holds => ensuresRest other member catalog holds.1)
        (fun before after grows holds =>
          ⟨keptStable before after grows holds.1, stable item before after grows holds.2⟩)
        ⟨keptStable _ _ grows initially, madeItem⟩
      refine rest.mono fun _ after ⟨⟨keeps, head⟩, tail⟩ => ⟨keeps, ?_⟩
      exact List.forall_mem_cons.mpr ⟨head, tail⟩

/-- Asking and then making what is missing, when both are told apart by the
state. -/
theorem ensure_holds {Item : Type} {has : Item → Setup Bool} {create : Item → Setup Unit}
    {made : Catalog → Prop} {item : Item} {state : Catalog}
    (asks : (has item).Holds exec (setup dbName first)
      (fun found after => Grows dbName state after ∧ (found = true → made after)) state)
    (creates : ∀ middle, Grows dbName state middle → (create item).Holds exec (setup dbName first)
      (fun _ after => Grows dbName state after ∧ made after) middle) :
    (ensure has create item).Holds exec (setup dbName first)
      (fun _ after => Grows dbName state after ∧ made after) state := by
  refine asks.bind fun found middle ⟨grows, known⟩ => ?_
  cases found with
  | false => exact creates middle grows
  | true => exact ⟨grows, known rfl⟩

theorem ensureTable_holds {name : String} (own : name ∈ getNames) {state : Catalog}
    (database : dbName ∈ state.databases) :
    (ensure (hasTable dbName) (createTable dbName) name).Holds exec (setup dbName first)
      (fun _ after => Grows dbName state after ∧ name ∈ after.tables) state := by
  have asks : (CatalogQuery.tableList dbName).Own dbName := trivial
  have creates : (CatalogQuery.tableCreate dbName name).Own dbName := own
  refine ensure_holds (request_holds asks fun current grows valid => ?_) fun middle grows =>
    request_holds creates fun current moved valid => ?_
  · have there := grows.databases database
    simp only [exec, if_pos there]
    exact ⟨grows, by simp⟩
  · have there := moved.databases (grows.databases database)
    refine ⟨grows.trans (moved.trans (exec_grows creates current)), ?_⟩
    simp only [exec, if_neg (not_not_intro there)]
    split_ifs with made
    · exact made
    · simp

theorem ensureIndex_holds {desc : String × String} (own : desc ∈ getIndices) {state : Catalog}
    (database : dbName ∈ state.databases) (table : desc.1 ∈ state.tables) :
    (ensure (hasIndex dbName) (createIndex dbName) desc).Holds exec (setup dbName first)
      (fun _ after => Grows dbName state after ∧ desc ∈ after.indices) state := by
  have asks : (CatalogQuery.indexWait dbName desc.1 desc.2).Own dbName := trivial
  have creates : (CatalogQuery.indexCreate dbName desc.1 desc.2).Own dbName := own
  refine ensure_holds (request_holds asks fun current grows valid => ?_) fun middle grows =>
    request_holds creates fun current moved valid => ?_
  · have there := grows.databases database
    have holds := grows.tables table
    simp only [exec, if_neg (not_not_intro there), if_neg (not_not_intro holds)]
    split_ifs with made
    · exact ⟨grows, fun _ => made⟩
    · exact ⟨grows, fun found => by simp at found⟩
  · have there := moved.databases (grows.databases database)
    have holds := moved.tables (grows.tables table)
    refine ⟨grows.trans (moved.trans (exec_grows creates current)), ?_⟩
    simp only [exec, if_neg (not_not_intro there), if_neg (not_not_intro holds)]
    split_ifs with made
    · exact made
    · simp

theorem getNames_of_getIndices : ∀ desc ∈ getIndices, desc.1 ∈ getNames := by decide

theorem loops_hold {state : Catalog} (database : dbName ∈ state.databases) :
    (ensureEach (hasTable dbName) (createTable dbName) getNames >>= fun _ =>
      ensureEach (hasIndex dbName) (createIndex dbName) getIndices >>= fun _ =>
        (pure (.ok ()) : Setup (Except DbError Unit))).Holds exec (setup dbName first)
      (fun result after => result = .ok () ∧ Complete dbName after) state := by
  have tablesStay : ∀ (name : String) (before after : Catalog), Grows dbName before after →
      name ∈ before.tables → name ∈ after.tables :=
    fun _ _ _ grows member => grows.tables member
  have indicesStay : ∀ (desc : String × String) (before after : Catalog),
      Grows dbName before after → desc ∈ before.indices → desc ∈ after.indices :=
    fun _ _ _ grows member => grows.indices member
  have tables : (ensureEach (hasTable dbName) (createTable dbName) getNames).Holds exec
      (setup dbName first) (fun _ after => dbName ∈ after.databases ∧
        ∀ name ∈ getNames, name ∈ after.tables) state :=
    ensureEach_holds tablesStay getNames
      (fun catalog => dbName ∈ catalog.databases)
      (fun name own catalog there => ensureTable_holds own there)
      (fun _ _ grows member => grows.databases member) database
  refine tables.bind fun _ middle made => ?_
  have indices : (ensureEach (hasIndex dbName) (createIndex dbName) getIndices).Holds exec
      (setup dbName first) (fun _ after =>
        (dbName ∈ after.databases ∧ ∀ name ∈ getNames, name ∈ after.tables) ∧
          ∀ desc ∈ getIndices, desc ∈ after.indices) middle :=
    ensureEach_holds indicesStay getIndices
      (fun catalog => dbName ∈ catalog.databases ∧ ∀ name ∈ getNames, name ∈ catalog.tables)
      (fun desc own catalog holds =>
        ensureIndex_holds own holds.1 (holds.2 _ (getNames_of_getIndices desc own)))
      (fun _ _ grows holds =>
        ⟨grows.databases holds.1, fun name own => grows.tables (holds.2 name own)⟩) made
  refine indices.bind fun _ after ⟨⟨there, named⟩, described⟩ => ?_
  exact ⟨rfl, there, named, described⟩

/-- `Db::init` completes the database unless another start has created it since
it was opened. -/
theorem init_holds {isExist : Bool} {state : Catalog}
    (found : isExist = true → dbName ∈ state.databases) :
    (init dbName isExist).Holds exec (setup dbName first)
      (fun result after => (result = .ok () → Complete dbName after) ∧
        (isExist = true → result = .ok ())) state := by
  cases isExist with
  | true =>
      exact (loops_hold (found rfl)).mono fun result after ⟨ended, complete⟩ =>
        ⟨fun _ => complete, fun _ => ended⟩
  | false =>
      have own : (CatalogQuery.dbCreate dbName).Own dbName := rfl
      have creates : (Program.request (.dbCreate dbName) fun answer => answer.map fun _ => () :
          Setup (Except DbError Unit)).Holds exec (setup dbName first)
          (fun created after => created = .ok () → dbName ∈ after.databases) state := by
        refine request_holds own fun current _ _ => ?_
        simp only [exec]
        split_ifs with there
        · exact fun _ => there
        · simp
      refine creates.bind fun created middle there => ?_
      cases created with
      | error error => exact ⟨nofun, nofun⟩
      | ok done =>
          exact (loops_hold (there rfl)).mono fun result after ⟨ended, complete⟩ =>
            ⟨fun _ => complete, fun _ => ended⟩

variable (dbName first) in
/-- A start that is not refused the database leaves it complete, and where the
database was there from the first it is not refused. -/
theorem start_holds :
    (start dbName).Holds exec (setup dbName first)
      (fun ended after => (ended = some (.ok ()) → Complete dbName after) ∧
        (dbName ∈ first.databases → ended = some (.ok ()))) first := by
  have own : CatalogQuery.dbList.Own dbName := trivial
  have opens : (openDb dbName).Holds exec (setup dbName first)
      (fun opened middle => ∃ isExist, opened = some isExist ∧
        (isExist = true → dbName ∈ middle.databases) ∧
        (dbName ∈ first.databases → isExist = true)) first := by
    refine request_holds own fun current grows _ => ⟨_, rfl, fun found => ?_, fun there => ?_⟩
    · change dbName ∈ current.databases
      simpa using found
    · simpa using grows.databases there
  refine opens.bind fun opened middle ⟨isExist, isSome, found, known⟩ => ?_
  subst isSome
  refine (init_holds found).bind fun result after ⟨completes, ends⟩ => ?_
  exact ⟨fun ended => completes (Option.some.inj ended), fun there => congrArg some (ends (known there))⟩

end Answered

/-! ## Any number of starts -/

section Starts

variable (dbName : String)

def connectionLost : Except DbError Json := .error ⟨"connection lost"⟩

def starting (faults : List Fault) :
    Thread (List Fault) (Fault × CatalogQuery) (Except DbError Json)
      (Option (Except DbError Unit)) :=
  ⟨faults, (start dbName).withFaults faults⟩

/-- The databases and starts that starts at one server reach, in any order of
their queries. -/
abbrev Started (before after : Pool (List Fault) (Fault × CatalogQuery) (Except DbError Json)
    Catalog (Option (Except DbError Unit))) : Prop :=
  Pool.Schedules (Program.execFault exec connectionLost) (fun _ => []) before after

variable (first : Catalog)

def discipline : Discipline (List Fault) (Fault × CatalogQuery) Catalog where
  valid := Grows dbName first
  rely _ := Grows dbName
  guarantee _ := Grows dbName
  admits _ _ := True
  relyRefl _ := .refl
  relyTrans _ _ _ _ := .trans
  guaranteeRefl _ := .refl

/-- What a start without faults promises. -/
def Promised (faults : List Fault) (ended : Option (Except DbError Unit)) (state : Catalog) :
    Prop :=
  (∀ fault ∈ faults, fault = .none) →
    (ended = some (.ok ()) → Complete dbName state) ∧
      (dbName ∈ first.databases → ended = some (.ok ()))

theorem starting_holds (faults : List Fault) :
    (starting dbName faults).program.Holds (Program.execFault exec connectionLost)
      ((discipline dbName first).contract faults) (Promised dbName first faults) first := by
  by_cases clean : ∀ fault ∈ faults, fault = .none
  · exact ((start_holds dbName first).withFaults clean).mono fun ended after promised _ => promised
  · have steps : (starting dbName faults).program.Steps (Program.execFault exec connectionLost)
        (Grows dbName) := (start_steps dbName).withFaults .refl faults
    have holds : (starting dbName faults).program.Holds (Program.execFault exec connectionLost)
        ((discipline dbName first).contract faults) (fun _ _ => True) first :=
      steps.holds (fun before after grows valid => ⟨valid.trans grows, grows⟩)
        (fun _ _ _ _ => trivial) (fun _ _ _ _ => trivial) trivial
    exact holds.mono fun ended after _ cleanly => absurd cleanly clean

variable {dbName first}

theorem promised_stable (faults : List Fault) (ended : Option (Except DbError Unit))
    (before after : Catalog) (grows : Grows dbName before after)
    (promised : Promised dbName first faults ended before) :
    Promised dbName first faults ended after := fun clean =>
  ⟨fun result => ((promised clean).1 result).grows grows, (promised clean).2⟩

theorem safe_of_started {before after : Pool (List Fault)
    (Fault × CatalogQuery) (Except DbError Json) Catalog (Option (Except DbError Unit))}
    (safe : before.Safe (Program.execFault exec connectionLost) (discipline dbName first)
      (Promised dbName first)) (reached : Started before after) :
    after.Safe (Program.execFault exec connectionLost) (discipline dbName first)
      (Promised dbName first) ∧ Grows dbName before.shared after.shared := by
  refine reached.invariant
    (fun pool => pool.Safe (Program.execFault exec connectionLost) (discipline dbName first)
      (Promised dbName first) ∧ Grows dbName before.shared pool.shared) ⟨safe, .refl _⟩ ?_
  intro current position next ⟨currentSafe, grown⟩ _ moved
  obtain ⟨thread, _, _, _, found, _⟩ := Pool.advance_cases moved
  obtain ⟨nextSafe, guaranteed⟩ := currentSafe.advance (promised_stable)
    (List.pairwise_of_forall fun _ _ _ _ _ _ => ⟨id, id⟩) (fun _ _ _ _ _ => trivial)
    (fun _ _ _ _ resumed => absurd resumed List.not_mem_nil) moved
  exact ⟨nextSafe, grown.trans (guaranteed thread found)⟩

/-- Indexers that start in any number and in any order of their queries, each of
which may fail or stay undone from some point on, never remove anything from the
database nor add what is not the program's; and once a start without faults has
set the database up, it is complete for good. -/
theorem schema_of_starts (starts : List (List Fault))
    {pool later : Pool (List Fault) (Fault × CatalogQuery) (Except DbError Json) Catalog
      (Option (Except DbError Unit))}
    (reached : Started ⟨first, starts.map (starting dbName)⟩ pool) (after : Started pool later) :
    Grows dbName pool.shared later.shared ∧
      ∀ thread ∈ pool.threads, ∀ ended, (∀ fault ∈ thread.role, fault = .none) →
        thread.program = .done ended →
        (ended = some (.ok ()) → Complete dbName later.shared) ∧
          (dbName ∈ first.databases → ended = some (.ok ())) := by
  have initially : Pool.Safe (Program.execFault exec connectionLost) (discipline dbName first)
      (Promised dbName first) ⟨first, starts.map (starting dbName)⟩ := by
    refine ⟨.refl first, fun thread member => ?_⟩
    obtain ⟨faults, -, rfl⟩ := List.mem_map.mp member
    exact starting_holds dbName first faults
  obtain ⟨safe, -⟩ := safe_of_started initially reached
  obtain ⟨-, grows⟩ := safe_of_started safe after
  refine ⟨grows, fun thread member ended clean done => ?_⟩
  have promised := safe.holds thread member
  rw [done] at promised
  obtain ⟨completes, ends⟩ := promised clean
  exact ⟨fun result => (completes result).grows grows, ends⟩

/-- Two indexers start at a server without the database.  The query of the second
fails, and the first sets the database up. -/
theorem schema_of_starts_two :
    ∃ pool, Started ⟨⟨["test"], [], []⟩, [[], [.lost]].map (starting "explorer")⟩ pool ∧
      Complete "explorer" pool.shared := by
  have empty : ∀ fault ∈ ([] : List Fault), fault = .none := nofun
  obtain ⟨pool, ran, threads⟩ : ∃ pool,
      runMoves (fun pool position => Pool.advance (Program.execFault exec connectionLost)
          (fun _ => []) pool position) (fun _ _ => True)
        ⟨⟨["test"], [], []⟩, [[], [.lost]].map (starting "explorer")⟩
        (1 :: List.replicate 54 0) = some pool ∧
      pool.threads = [⟨[], .done (some (.ok ()))⟩, ⟨[.lost], .done none⟩] := ⟨_, rfl, rfl⟩
  have reached := Reaches.of_runMoves ran
  have grown := schema_of_starts [[], [.lost]] reached .refl
  exact ⟨pool, reached, (grown.2 ⟨[], .done (some (.ok ()))⟩ (by simp [threads]) _ empty rfl).1 rfl⟩

end Starts

end MileExplorer.Schema
