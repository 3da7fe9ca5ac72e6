import MileExplorer.StoreRules
import MileExplorer.ThreadPool
import MileExplorer.Transactions

/-!
# Concurrent updates of a wallet

The calls of `Table::update(id, {blocks, transactions})` that the wallet jobs
make for one wallet, their queries interleaved in any way.  A call that finds
the wallet adds to its lists and loses nothing.  A call that does not find it
inserts a row, and the insert changes nothing if another call was faster.
-/

namespace MileExplorer

/-- What one call adds: the id of a block and an entry for a transaction. -/
structure WalletCall where
  blockId : Nat
  entry : Json
  deriving DecidableEq

def WalletCall.fields (call : WalletCall) : List (String × Json) :=
  Db.walletFields call.blockId call.entry

def walletList (id field : String) (store : Store) : List Json :=
  match (store .wallets).get? (.str id) with
  | none => []
  | some row =>
      match row.find? field with
      | some (.arr elements) => elements
      | _ => []

/-- The wallet has the block id and the entry of the call. -/
def HoldsCall (id : String) (store : Store) (call : WalletCall) : Prop :=
  .num call.blockId ∈ walletList id "blocks" store ∧
    call.entry ∈ walletList id "transactions" store

def WalletGrows (id : String) (before after : Store) : Prop :=
  ((before .wallets).Has (.str id) → (after .wallets).Has (.str id)) ∧
    ∀ field, walletList id field before ⊆ walletList id field after

theorem WalletGrows.refl (id : String) (store : Store) : WalletGrows id store store :=
  ⟨fun has => has, fun _ _ member => member⟩

theorem WalletGrows.trans {id : String} {first second third : Store}
    (earlier : WalletGrows id first second) (later : WalletGrows id second third) :
    WalletGrows id first third :=
  ⟨fun has => later.1 (earlier.1 has), fun field _ member => later.2 field (earlier.2 field member)⟩

theorem HoldsCall.mono {id : String} {before after : Store} {call : WalletCall}
    (holds : HoldsCall id before call) (grows : WalletGrows id before after) :
    HoldsCall id after call :=
  ⟨grows.2 _ holds.1, grows.2 _ holds.2⟩

/-- A row with both lists, as `Table::update` inserts it. -/
def IsWallet (row : Json) : Prop :=
  ∃ blocks transactions, row.find? "blocks" = some (.arr blocks) ∧
    row.find? "transactions" = some (.arr transactions)

def WalletFormed (id : String) (store : Store) : Prop :=
  ∀ row, (store .wallets).get? (.str id) = some row → IsWallet row

/-! ## Single queries -/

theorem walletList_of_get? {id field : String} {store : Store} {row : Json} {elements : List Json}
    (found : (store .wallets).get? (.str id) = some row)
    (listed : row.find? field = some (.arr elements)) : walletList id field store = elements := by
  simp [walletList, found, listed]

theorem walletList_of_absent {id field : String} {store : Store}
    (absent : ¬ (store .wallets).Has (.str id)) : walletList id field store = [] := by
  simp [walletList, KeyedTable.get?_eq_none.mpr absent]

theorem fieldRow_members (id : String) (call : WalletCall) :
    let row := Db.fieldRow id call.fields
    row.find? "id" = some (.str id) ∧ row.find? "blocks" = some (.arr [.num call.blockId]) ∧
      row.find? "transactions" = some (.arr [call.entry]) := by
  simp [Db.fieldRow, WalletCall.fields, Db.walletFields, Json.find?_ofMembers,
    Json.member?_setMember]

theorem get?_insert_wallet {id : String} {table : Table} (call : WalletCall)
    (absent : ¬ table.Has (.str id)) :
    (table.insert (Db.fieldRow id call.fields)).get? (.str id) =
      some (Db.fieldRow id call.fields) := by
  have idEq := docId_of_find? (fieldRow_members id call).1
  rw [← idEq] at absent ⊢
  exact KeyedTable.get?_insert_self absent

/-- One field is extended, all other fields of the row stay. -/
theorem unionEffect_of_formed {id field : String} {value : Json} {store : Store} {row : Json}
    {elements : List Json} (found : (store .wallets).get? (.str id) = some row)
    (listed : row.find? field = some (.arr elements)) :
    Db.unionEffect .wallets id field (.arr [value]) store =
      .ok (Function.update store .wallets ((store .wallets).modify (.str id) fun _ =>
        row.set field (.arr (Json.setUnion elements [value])))) := by
  simp only [Db.unionEffect, found, Db.unionField, listed, Json.coerceToArray]
  rfl

theorem get?_union {id field : String} {value : Json} {table : Table} {row : Json}
    {elements : List Json} (found : table.get? (.str id) = some row) (notId : field ≠ "id") :
    (table.modify (.str id) fun _ =>
      row.set field (.arr (Json.setUnion elements [value]))).get? (.str id) =
        some (row.set field (.arr (Json.setUnion elements [value]))) := by
  have idEq := find?_id_of_docId (KeyedTable.get?_eq_some.mp found).2
  refine KeyedTable.get?_modify_self found (docId_of_find? ?_)
  rw [Json.find?_set _ (Json.isObject_of_find? idEq), if_neg notId, idEq]

/-! ## The discipline of the calls -/

/-- What every state satisfies.  `existed` tells that the wallet was there
before the calls; else it holds what all of them carry once it is there. -/
structure WalletValid (id : String) (calls : List WalletCall) (existed : Prop)
    (process : Process) : Prop where
  formed : WalletFormed id process.store
  exists_of_existed : existed → (process.store .wallets).Has (.str id)
  exists_of_index : (process.store .wallets).Has (.str Db.indexText) →
    (process.store .wallets).Has (.str id)
  fresh : ¬ existed → (process.store .wallets).Has (.str id) →
    ∀ call ∈ calls, HoldsCall id process.store call

def updating (id : String) (calls : List WalletCall) (existed : Prop) :
    Discipline WalletCall Query Process where
  valid := WalletValid id calls existed
  rely _ before after := WalletGrows id before.store after.store
  guarantee _ before after := WalletGrows id before.store after.store
  admits _ _ := True
  relyRefl _ process := .refl id process.store
  relyTrans _ _ _ _ := .trans
  guaranteeRefl _ process := .refl id process.store

variable {id : String} {calls : List WalletCall} {existed : Prop} {process : Process}
  {Result : Type} {post : Result → Process → Prop}

theorem WalletGrows.of_rows {before after : Store} {row new : Json}
    (found : (before .wallets).get? (.str id) = some row)
    (foundAfter : (after .wallets).get? (.str id) = some new)
    (grown : ∀ field elements, row.find? field = some (.arr elements) →
      ∃ more, new.find? field = some (.arr more) ∧ elements ⊆ more) :
    WalletGrows id before after := by
  refine ⟨fun _ => KeyedTable.has_iff_get?.mpr ⟨new, foundAfter⟩, fun field value member => ?_⟩
  simp only [walletList, found] at member
  split at member
  · rename_i elements listed
    obtain ⟨more, moreListed, included⟩ := grown field elements listed
    rw [walletList_of_get? foundAfter moreListed]
    exact included member
  · simp at member

/-- The query that adds to one of the lists. -/
theorem union_holds {role : WalletCall} {site : Site} {field : String} {value : Json}
    {next : Except DbError Json → Prog Result}
    (isList : field = "blocks" ∨ field = "transactions")
    (present : (process.store .wallets).Has (.str id))
    (continues : ∀ final, WalletGrows id process.store final.store →
      value ∈ walletList id field final.store →
      (next (.ok .null)).Holds Process.exec ((updating id calls existed).contract role) post
        final) :
    (Program.ask (.write site (Db.unionEffect .wallets id field (.arr [value]))) next).Holds
      Process.exec ((updating id calls existed).contract role) post process := by
  intro current (moved : WalletGrows id process.store current.store)
    (valid : WalletValid id calls existed current) _
  obtain ⟨row, found⟩ := KeyedTable.has_iff_get?.mp (moved.1 present)
  obtain ⟨blocks, transactions, blocksEq, transactionsEq⟩ := valid.formed row found
  have isObj := Json.isObject_of_find? blocksEq
  have notId : field ≠ "id" := by rcases isList with rfl | rfl <;> decide
  obtain ⟨elements, listed⟩ : ∃ elements, row.find? field = some (.arr elements) := by
    rcases isList with rfl | rfl
    · exact ⟨blocks, blocksEq⟩
    · exact ⟨transactions, transactionsEq⟩
  rw [Process.exec_write_of_ok (unionEffect_of_formed found listed)]
  let new := row.set field (.arr (Json.setUnion elements [value]))
  let after := current.withTable .wallets ((current.store .wallets).modify (.str id) fun _ => new)
  have foundAfter : (after.store .wallets).get? (.str id) = some new := by
    simpa [after] using get?_union found notId
  have members (other : String) : new.find? other =
      if field = other then some (.arr (Json.setUnion elements [value])) else row.find? other :=
    Json.find?_set row isObj field other _
  have grows : WalletGrows id current.store after.store := by
    refine .of_rows found foundAfter fun other old oldListed => ?_
    rw [members]
    split_ifs with same
    · obtain rfl : elements = old := by simpa [← same, listed] using oldListed
      exact ⟨_, rfl, fun _ member => Json.mem_setUnion.mpr (.inl member)⟩
    · exact ⟨old, oldListed, fun _ member => member⟩
  have has (other : Json) :
      (after.store .wallets).Has other ↔ (current.store .wallets).Has other := by
    simp [after]
  have afterValid : WalletValid id calls existed after := by
    refine ⟨fun other otherFound => ?_, ?_, ?_, fun isFresh present call member => ?_⟩
    · obtain rfl : new = other := Option.some.inj (foundAfter.symm.trans otherFound)
      simp only [IsWallet, members]
      rcases isList with rfl | rfl
      · exact ⟨_, transactions, if_pos rfl, (if_neg (by decide)).trans transactionsEq⟩
      · exact ⟨blocks, _, (if_neg (by decide)).trans blocksEq, if_pos rfl⟩
    · rw [has]
      exact valid.exists_of_existed
    · rw [has, has]
      exact valid.exists_of_index
    · exact (valid.fresh isFresh ((has _).mp present) call member).mono grows
  refine ⟨afterValid, grows, continues after (moved.trans grows) ?_⟩
  rw [walletList_of_get? foundAfter (by rw [members, if_pos rfl])]
  exact Json.mem_setUnion.mpr (.inr (List.mem_singleton_self _))

theorem insertWallet_holds {role call : WalletCall} {site : Site}
    {next : Except DbError Json → Prog Result} (isFresh : ¬ existed)
    (same : ∀ other ∈ calls, other = call)
    (continues : ∀ final, (∀ other ∈ calls, HoldsCall id final.store other) →
      (next (.ok .null)).Holds Process.exec ((updating id calls existed).contract role) post
        final) :
    (Program.ask (.write site (Db.insertEffect .wallets (Db.fieldRow id call.fields))) next).Holds
      Process.exec ((updating id calls existed).contract role) post process := by
  obtain ⟨idEq, blocksEq, transactionsEq⟩ := fieldRow_members id call
  intro current _ (valid : WalletValid id calls existed current) _
  rw [Process.exec_write_of_ok (Db.insertEffect_of_isObject (Json.isObject_of_find? idEq))]
  let after := current.withTable .wallets
    ((current.store .wallets).insert (Db.fieldRow id call.fields))
  by_cases present : (current.store .wallets).Has (.str id)
  · have unchanged : after.store = current.store := by
      have taken : (current.store .wallets).insert (Db.fieldRow id call.fields) =
          current.store .wallets :=
        KeyedTable.insert_of_has (by rwa [docId_of_find? idEq])
      simp [after, taken]
    have afterValid : WalletValid id calls existed after := by
      obtain ⟨formed, existedHas, indexHas, fresh⟩ := valid
      rw [← unchanged] at formed existedHas indexHas fresh
      exact ⟨formed, existedHas, indexHas, fresh⟩
    refine ⟨afterValid, ?_, continues after ?_⟩
    · change WalletGrows id current.store after.store
      rw [unchanged]
      exact .refl id _
    · rw [unchanged]
      exact valid.fresh isFresh present
  · have foundAfter :
        (after.store .wallets).get? (.str id) = some (Db.fieldRow id call.fields) := by
      simpa [after] using get?_insert_wallet call present
    have has : (after.store .wallets).Has (.str id) :=
      KeyedTable.has_iff_get?.mpr ⟨_, foundAfter⟩
    have holdsAll : ∀ other ∈ calls, HoldsCall id after.store other := by
      intro other member
      rw [same other member, HoldsCall, walletList_of_get? foundAfter blocksEq,
        walletList_of_get? foundAfter transactionsEq]
      simp
    refine ⟨⟨fun row found => ?_, fun _ => has, fun _ => has, fun _ _ => holdsAll⟩, ⟨?_, ?_⟩,
      continues after holdsAll⟩
    · obtain rfl : Db.fieldRow id call.fields = row :=
        Option.some.inj (foundAfter.symm.trans found)
      exact ⟨_, _, blocksEq, transactionsEq⟩
    · exact fun _ => has
    · intro field value member
      simp [walletList_of_absent present] at member

/-- A call, if the wallet was there or all calls carry the same. -/
theorem updateFields_holds {call : WalletCall} (row : String) (member : call ∈ calls)
    (same : ¬ existed → ∀ other ∈ calls, other = call) :
    (Db.updateFields row .wallets id call.fields).Holds Process.exec
      ((updating id calls existed).contract call)
      (fun _ final => HoldsCall id final.store call) process := by
  intro checked _ (valid : WalletValid id calls existed checked) _
  refine ⟨valid, .refl id _, ?_⟩
  rw [Process.exec_read]
  dsimp only [Db.isEmpty]
  cases absent : (!decide ((checked.store .wallets).Has (.str id)) &&
      !decide ((checked.store .wallets).Has (.str Db.indexText))) with
  | true =>
      have isAbsent : ¬ (checked.store .wallets).Has (.str id) := by
        simp only [Bool.and_eq_true, Bool.not_eq_true', decide_eq_false_iff_not] at absent
        exact absent.1
      have isFresh : ¬ existed := fun was => isAbsent (valid.exists_of_existed was)
      exact insertWallet_holds isFresh (same isFresh) fun final holdsAll => holdsAll call member
  | false =>
      have present : (checked.store .wallets).Has (.str id) := by
        by_contra isAbsent
        simp only [isAbsent, decide_false, Bool.not_false, Bool.true_and, Bool.not_eq_false',
          decide_eq_true_eq] at absent
        exact isAbsent (valid.exists_of_index absent)
      refine union_holds (.inl rfl) present fun middle grows blockHeld => ?_
      refine union_holds (.inr rfl) (grows.1 present) fun final later entryHeld => ?_
      exact ⟨later.2 _ blockHeld, entryHeld⟩

/-! ## All calls -/

abbrev CallThread := Thread WalletCall Query (Except DbError Json) Unit

abbrev CallPool := Pool WalletCall Query (Except DbError Json) Process Unit

def callPool (id : String) (calls : List WalletCall) (process : Process) :
    CallPool :=
  ⟨process, calls.map fun call => ⟨call, Db.updateFields "" .wallets id call.fields⟩⟩

def AllReturned (pool : CallPool) : Prop :=
  ∀ thread ∈ pool.threads, thread.program.isDone = true

instance : DecidablePred AllReturned := fun pool =>
  inferInstanceAs (Decidable (∀ thread ∈ pool.threads, thread.program.isDone = true))

/-- Whenever all calls have returned, the wallet holds what each of them
carries and what it held before. -/
def LosesNoUpdate (id : String) (calls : List WalletCall) (process : Process) : Prop :=
  ∀ pool, Pool.Schedules Process.exec (fun _ => []) (callPool id calls process) pool →
    AllReturned pool →
    (∀ call ∈ calls, HoldsCall id pool.shared.store call) ∧
      ∀ field, walletList id field process.store ⊆ walletList id field pool.shared.store

/-- What every schedule keeps: the calls that are not under way any more are
held, and the wallet has grown. -/
structure CallsSafe (id : String) (calls : List WalletCall) (existed : Prop) (start : Process)
    (pool : CallPool) : Prop where
  safe : pool.Safe Process.exec (updating id calls existed) fun call _ process =>
    HoldsCall id process.store call
  covered : ∀ call ∈ calls, HoldsCall id pool.shared.store call ∨
    ∃ thread ∈ pool.threads, thread.role = call
  grows : WalletGrows id start.store pool.shared.store

theorem CallsSafe.advance {start : Process}
    {pool next : CallPool} {position : Nat}
    (calm : CallsSafe id calls existed start pool)
    (moved : pool.advance Process.exec (fun _ => []) position = some next) :
    CallsSafe id calls existed start next := by
  obtain ⟨nextSafe, guarantees⟩ := calm.safe.advance
    (fun _ _ _ _ interference holds => holds.mono interference)
    (List.pairwise_of_forall fun _ _ _ _ _ _ => ⟨fun grows => grows, fun grows => grows⟩)
    (fun _ _ _ _ _ => trivial) (fun _ _ _ _ member => absurd member List.not_mem_nil) moved
  obtain ⟨thread, before, after, threadsEq, found, sharedEq, nextEq⟩ := Pool.advance_cases moved
  have grows : WalletGrows id pool.shared.store next.shared.store := guarantees thread found
  refine ⟨nextSafe, fun call member => ?_, calm.grows.trans grows⟩
  rcases calm.covered call member with held | ⟨other, otherMem, roleEq⟩
  · exact .inl (held.mono grows)
  · rw [threadsEq, List.mem_append, List.mem_cons] at otherMem
    rcases otherMem with left | rfl | right
    · exact .inr ⟨other, by simp [nextEq, left], roleEq⟩
    · have holds := calm.safe.holds other (by simp [threadsEq])
      obtain ⟨role, program⟩ := other
      cases program with
      | done exit =>
          obtain rfl : role = call := roleEq
          exact .inl (HoldsCall.mono holds grows)
      | ask query following =>
          exact .inr ⟨⟨role, following (Process.exec query pool.shared).1⟩,
            by rw [nextEq]; simp [Pool.stepThread], roleEq⟩
    · exact .inr ⟨other, by simp [nextEq, right], roleEq⟩

/-- Calls on a wallet that exists, or that all carry the same. -/
theorem losesNoUpdate_of_same (formed : WalletFormed id process.store)
    (index : (process.store .wallets).Has (.str Db.indexText) →
      (process.store .wallets).Has (.str id))
    (same : ¬ (process.store .wallets).Has (.str id) →
      ∀ first ∈ calls, ∀ second ∈ calls, first = second) :
    LosesNoUpdate id calls process := by
  intro pool reached returned
  have initially : CallsSafe id calls ((process.store .wallets).Has (.str id)) process
      (callPool id calls process) := by
    refine ⟨⟨⟨formed, fun has => has, index, fun absent present => absurd present absent⟩, ?_⟩,
      fun call member => .inr ⟨⟨call, _⟩, List.mem_map_of_mem member, rfl⟩, .refl id _⟩
    intro thread member
    obtain ⟨call, callMem, rfl⟩ := List.mem_map.mp member
    exact updateFields_holds "" callMem fun absent other otherMem =>
      same absent other otherMem call callMem
  have calm := reached.invariant (CallsSafe id calls ((process.store .wallets).Has (.str id))
    process) initially fun _ _ _ calm _ moved => calm.advance moved
  refine ⟨fun call member => ?_, calm.grows.2⟩
  rcases calm.covered call member with held | ⟨thread, threadMem, roleEq⟩
  · exact held
  · have holds := calm.safe.holds thread threadMem
    obtain ⟨result, isDone⟩ := Program.isDone_iff.mp (returned thread threadMem)
    rw [isDone, roleEq] at holds
    exact holds

theorem losesNoUpdate_nil : LosesNoUpdate id [] process := by
  intro pool reached _
  obtain rfl : pool = callPool id [] process := by
    refine reached.invariant (fun pool => pool = callPool id [] process) rfl ?_
    rintro current position next rfl - moved
    simp [Pool.advance, callPool] at moved
  exact ⟨fun call member => absurd member List.not_mem_nil, fun _ _ member => member⟩

/-! ## Schedules that lose an update -/

/-- The rest of a call that has not found the wallet. -/
def insertingCall (id : String) (call : WalletCall) :
    CallThread :=
  ⟨call, .ask (.write (.update .wallets "") (Db.insertEffect .wallets
    (Db.fieldRow id call.fields))) fun _ => .done ()⟩

theorem foldl_keeps_wallets {table : Table}
    {threads : List CallThread}
    (keeps : ∀ thread ∈ threads, ∀ state : Process, state.store .wallets = table →
      (thread.program.run Process.exec state).2.store .wallets = table)
    (start : process.store .wallets = table) :
    (threads.foldl (fun state thread => (thread.program.run Process.exec state).2)
      process).store .wallets = table := by
  induction threads generalizing process with
  | nil => exact start
  | cons thread rest ih =>
      exact ih (fun other member => keeps other (by simp [member])) (keeps thread (by simp) _ start)

theorem shared_looks (absent : ¬ (process.store .wallets).Has (.str id))
    (noIndex : ¬ (process.store .wallets).Has (.str Db.indexText)) :
    ∀ thread ∈ (callPool id calls process).threads,
      Pool.stepThread Process.exec (fun _ => []) thread process =
        (process, [insertingCall id thread.role]) := by
  intro thread member
  obtain ⟨call, -, rfl⟩ := List.mem_map.mp member
  simp only [Pool.stepThread, Db.updateFields, Process.exec_read, Db.isEmpty, absent, noIndex,
    decide_false, Bool.not_false, Bool.and_self]
  rfl

/-- All calls look before the first of them inserts: only what that one carries
is kept. -/
theorem exists_lossy_schedule {winner : WalletCall} (member : winner ∈ calls)
    (absent : ¬ (process.store .wallets).Has (.str id))
    (noIndex : ¬ (process.store .wallets).Has (.str Db.indexText)) :
    ∃ pool, Pool.Schedules Process.exec (fun _ => []) (callPool id calls process) pool ∧
      AllReturned pool ∧ (pool.shared.store .wallets).get? (.str id) =
        some (Db.fieldRow id winner.fields) := by
  have looked : Pool.Schedules Process.exec (fun _ => []) (callPool id calls process)
      ⟨process, calls.map (insertingCall id)⟩ := by
    have each := Pool.schedules_each Process.exec (fun _ => []) []
      (callPool id calls process).threads (fun thread => insertingCall id thread.role)
      (shared_looks absent noIndex)
    simpa [callPool, Function.comp_def] using each
  obtain ⟨before, after, rfl⟩ := List.append_of_mem member
  rw [List.map_append, List.map_cons] at looked
  let inserted := (process.store .wallets).insert (Db.fieldRow id winner.fields)
  have idEq (call : WalletCall) := docId_of_find? (fieldRow_members id call).1
  have taken : inserted.Has (.str id) := KeyedTable.has_insert.mpr (.inr (idEq winner))
  have inserts (call : WalletCall) (state : Process) :
      (Process.exec (.write (.update .wallets "") (Db.insertEffect .wallets
        (Db.fieldRow id call.fields))) state).2.store .wallets =
          (state.store .wallets).insert (Db.fieldRow id call.fields) := by
    rw [Process.exec_write_of_ok (Db.insertEffect_of_isObject
      (Json.isObject_of_find? (fieldRow_members id call).1))]
    simp
  have wins := Pool.schedules_step Process.exec (fun _ => []) (before.map (insertingCall id))
    (after.map (insertingCall id)) (insertingCall id winner) process
  refine ⟨_, (looked.trans wins).trans (Pool.schedules_drain _ _), nofun, ?_⟩
  have late (call : WalletCall) (state : Process) (same : state.store .wallets = inserted) :
      ((insertingCall id call).program.run Process.exec state).2.store .wallets = inserted := by
    refine (inserts call state).trans ?_
    rw [same]
    exact KeyedTable.insert_of_has (by rwa [idEq call])
  have kept : ((before.map (insertingCall id) ++ [Thread.mk winner (.done ())] ++
      after.map (insertingCall id)).foldl
        (fun (state : Process) (thread : CallThread) =>
          (thread.program.run Process.exec state).2)
        (Process.exec (.write (.update .wallets "") (Db.insertEffect .wallets
          (Db.fieldRow id winner.fields))) process).2).store .wallets = inserted := by
    refine foldl_keeps_wallets (fun thread threadMem state same => ?_) (inserts winner process)
    simp only [List.mem_append, List.mem_map, List.mem_singleton] at threadMem
    rcases threadMem with (⟨call, -, rfl⟩ | rfl) | ⟨call, -, rfl⟩
    · exact late call state same
    · exact same
    · exact late call state same
  exact (congrArg (fun table : Table => table.get? (.str id)) kept).trans
    (get?_insert_wallet winner absent)

/-- A row whose key is the text of the index option makes every call believe
that the wallet is there. -/
theorem exists_idle_schedule (absent : ¬ (process.store .wallets).Has (.str id))
    (index : (process.store .wallets).Has (.str Db.indexText)) :
    ∃ pool, Pool.Schedules Process.exec (fun _ => []) (callPool id calls process) pool ∧
      AllReturned pool ∧ pool.shared.store .wallets = process.store .wallets := by
  refine ⟨_, Pool.schedules_drain _ _, nofun,
    foldl_keeps_wallets (fun thread member state same => ?_) rfl⟩
  obtain ⟨call, -, rfl⟩ := List.mem_map.mp member
  have skips (field : String) (value : Json) :
      Process.exec (.write (.update .wallets "") (Db.unionEffect .wallets id field value)) state =
        (.ok .null, state) := by
    have none : (state.store .wallets).get? (.str id) = none := by
      rw [same]
      exact KeyedTable.get?_eq_none.mpr absent
    simp [Process.exec, Process.execFaulty, Db.unionEffect, none]
  simp only [Db.updateFields, Program.run_ask, Process.exec_read, Db.isEmpty, same, index,
    decide_true, Bool.not_true, Bool.and_false]
  simp only [WalletCall.fields, Db.walletFields, Db.unionFields, Program.run_ask, skips]
  exact same

/-- No schedule of the calls loses an update exactly if the wallet exists
before them, or every call finds out that it does not and all of them carry the
same. -/
theorem wallet_updates_kept_iff (formed : WalletFormed id process.store) :
    LosesNoUpdate id calls process ↔
      (process.store .wallets).Has (.str id) ∨
        ∀ first ∈ calls, ¬ (process.store .wallets).Has (.str Db.indexText) ∧
          ∀ second ∈ calls, first = second := by
  constructor
  · intro loses
    by_cases present : (process.store .wallets).Has (.str id)
    · exact .inl present
    · refine .inr fun first firstMem => ?_
      have noIndex : ¬ (process.store .wallets).Has (.str Db.indexText) := by
        intro index
        obtain ⟨pool, reached, returned, same⟩ := exists_idle_schedule present index
        have held := ((loses pool reached returned).1 first firstMem).1
        have stillAbsent : ¬ (pool.shared.store .wallets).Has (.str id) := by rwa [same]
        simp [walletList_of_absent stillAbsent] at held
      refine ⟨noIndex, fun second secondMem => ?_⟩
      obtain ⟨pool, reached, returned, found⟩ := exists_lossy_schedule secondMem present noIndex
      obtain ⟨-, blocksEq, transactionsEq⟩ := fieldRow_members id second
      obtain ⟨blockHeld, entryHeld⟩ := (loses pool reached returned).1 first firstMem
      rw [walletList_of_get? found blocksEq] at blockHeld
      rw [walletList_of_get? found transactionsEq] at entryHeld
      obtain ⟨blockId, entry⟩ := first
      obtain ⟨otherId, otherEntry⟩ := second
      simp_all
  · rintro (present | same)
    · exact losesNoUpdate_of_same formed (fun _ => present) fun absent => absurd present absent
    · cases calls with
      | nil => exact losesNoUpdate_nil
      | cons call rest =>
          refine losesNoUpdate_of_same formed ?_ fun _ first firstMem => (same first firstMem).2
          exact fun index => absurd index (same call (by simp)).1

/-- Two calls on a wallet that exists. -/
theorem wallet_updates_kept_iff_existing :
    let wallet : Json := Db.fieldRow "alice" (WalletCall.fields ⟨0, .str "genesis"⟩)
    let process : Process :=
      Process.idle (Function.update Store.empty .wallets (KeyedTable.empty.insert wallet))
    WalletFormed "alice" process.store ∧
      LosesNoUpdate "alice" [⟨1, .str "first"⟩, ⟨2, .str "second"⟩] process := by
  intro wallet process
  have formed : WalletFormed "alice" process.store := by
    intro row found
    obtain rfl : wallet = row := by
      have single : (process.store .wallets).get? (.str "alice") = some wallet := by
        decide +kernel
      exact Option.some.inj (single.symm.trans found)
    exact ⟨_, _, (fieldRow_members "alice" ⟨0, .str "genesis"⟩).2⟩
  exact ⟨formed, (wallet_updates_kept_iff formed).mpr (.inl (by decide +kernel))⟩

/-- Both calls look before the first of them inserts: the entry of the second
is lost. -/
theorem wallet_update_lost :
    ¬ LosesNoUpdate "alice" [⟨1, .str "first"⟩, ⟨2, .str "second"⟩]
      (Process.idle Store.empty) := by
  intro loses
  obtain ⟨pool, reached, returned, lost⟩ :=
    Reaches.exists_of_runMoves (fun pool position => Pool.advance Process.exec (fun _ => []) pool
      position) (fun _ _ => True)
      (callPool "alice" [⟨1, .str "first"⟩, ⟨2, .str "second"⟩] (Process.idle Store.empty))
      [0, 1, 0, 1] (fun pool => AllReturned pool ∧
        Json.str "second" ∉ walletList "alice" "transactions" pool.shared.store) (by decide +kernel)
  exact lost ((loses pool reached returned).1 ⟨2, .str "second"⟩ (by simp)).2

end MileExplorer
