import MileExplorer.Footprints
import MileExplorer.NumberedRows

/-!
# Hand-over between tables when the database fails

Both loops move rows from one table to another by an insert and a remove.  The
insert reports a failure only to the log, so the remove follows in any case: a
pass loses a row exactly when it comes to the row, its insert fails and its
remove does not.
-/

namespace MileExplorer

/-- A row with the key is in one of the two tables. -/
def Held (source target : TableName) (process : Process) (key : Json) : Prop :=
  (process.store target).Has key ∨ (process.store source).Has key

/-- The state in which a program ends that is run alone, the database failing
at the sites `faults` names. -/
def runFaulty {Result : Type} (faults : Site → Bool) (program : Prog Result)
    (process : Process) : Process :=
  (program.run (Process.execFaulty faults) process).2

namespace Db

variable {faults : Site → Bool} {source target : TableName} {process : Process} {key : Json}
  {Result Other : Type}

theorem runFaulty_bind (program : Prog Result) (rest : Result → Prog Other) :
    runFaulty faults (program >>= rest) process =
      runFaulty faults (rest (program.run (Process.execFaulty faults) process).1)
        (runFaulty faults program process) := by
  rw [runFaulty, Program.run_bind]
  rfl

/-! ## One row -/

theorem remove_store (site : Site) (table : TableName) (id : String) :
    (runFaulty faults (remove site table id) process).store =
      if faults site then process.store
      else Function.update process.store table ((process.store table).erase (.str id)) := by
  simp only [runFaulty, remove, Program.request, Program.run_ask, Program.run_done,
    Process.execFaulty, removeEffect]
  split_ifs <;> rfl

theorem insert_store (site : Site) (table : TableName) {data : Json}
    (isObj : data.isObject = true) :
    (runFaulty faults (insert site table data) process).store =
      if faults site then process.store
      else Function.update process.store table ((process.store table).insert data) := by
  simp only [runFaulty, insert, Program.request, Program.run_ask, Program.run_done,
    Process.execFaulty, insertEffect_of_isObject isObj]
  split_ifs <;> rfl

theorem has_remove {site : Site} {id : String} :
    ((runFaulty faults (remove site source id) process).store source).Has key ↔
      (process.store source).Has key ∧ (key = .str id → faults site = true) := by
  rw [remove_store]
  cases fails : faults site with
  | true => simp
  | false => simp [KeyedTable.has_erase]

theorem has_insert {site : Site} {data : Json} (isObj : data.isObject = true) :
    ((runFaulty faults (insert site target data) process).store target).Has key ↔
      (process.store target).Has key ∨ docId data = key ∧ faults site = false := by
  rw [insert_store site target isObj]
  cases fails : faults site with
  | true => simp
  | false => simp [KeyedTable.has_insert]

theorem remove_store_of_ne {site : Site} {table : TableName} {id : String}
    (other : target ≠ table) :
    (runFaulty faults (remove site table id) process).store target = process.store target := by
  rw [remove_store]
  split_ifs
  · rfl
  · exact Function.update_of_ne other _ _

theorem insert_store_of_ne {site : Site} {table : TableName} {data : Json}
    (isObj : data.isObject = true) (other : target ≠ table) :
    (runFaulty faults (insert site table data) process).store target = process.store target := by
  rw [insert_store site table isObj]
  split_ifs
  · rfl
  · exact Function.update_of_ne other _ _

/-! ## Reads -/

/-- What `get_data` returns, at a site that may fail. -/
def dataAt (faults : Site → Bool) (site : Site) (cursor : Cursor) (process : Process) : Json :=
  if faults site then .arr [] else getDataOf (cursor process.store)

/-- What `get_number` returns, at a site that may fail. -/
def numberAt (faults : Site → Bool) (site : Site) (cursor : Cursor) (process : Process) : Rat :=
  if faults site then 0 else getNumberOf (cursor process.store)

theorem run_getNumber_faulty (site : Site) (cursor : Cursor) (process : Process) :
    (getNumber site cursor).run (Process.execFaulty faults) process =
      (numberAt faults site cursor process, process) := by
  simp only [getNumber, Program.request, Program.run_ask, Process.execFaulty, numberAt]
  split_ifs <;> rfl

theorem run_getData_faulty (site : Site) (cursor : Cursor) (process : Process) :
    (getData site cursor).run (Process.execFaulty faults) process =
      (dataAt faults site cursor process, process) := by
  simp only [getData, Program.request, Program.run_ask, Process.execFaulty, dataAt]
  split_ifs <;> rfl

theorem runFaulty_getData_bind (site : Site) (cursor : Cursor) (rest : Json → Prog Result) :
    runFaulty faults (getData site cursor >>= rest) process =
      runFaulty faults (rest (dataAt faults site cursor process)) process := by
  rw [runFaulty, Program.run_bind, run_getData_faulty]
  rfl

/-- A lookup finds a row if it is answered and the table has the key. -/
theorem lookup_iff {site : Site} {table : TableName} {id : String} :
    (dataAt faults site ((cursor table).get id) process).count "id" > 0 ↔
      faults site = false ∧ (process.store table).Has (.str id) := by
  unfold dataAt
  split_ifs with fails
  · simp [fails, Json.count, Json.find?]
  · simp [fails, Cursor.count_get]

theorem has_of_lookup {site : Site} {table : TableName} {id : String}
    (found : (dataAt faults site ((cursor table).get id) process).count "id" > 0) :
    (process.store table).Has (.str id) :=
  (lookup_iff.mp found).2

/-- The items of a pass, none if their query fails. -/
def snapshot (faults : Site → Bool) (table : TableName) (store : Store) : List Json :=
  if faults (.snapshot table) then [] else Cursor.ordered "block-id" (store table).rows

theorem elements_snapshot (table : TableName) (process : Process) :
    (dataAt faults (.snapshot table) ((cursor table).sort "block-id") process).elements =
      snapshot faults table process.store := by
  unfold dataAt snapshot
  split_ifs <;> rfl

theorem mem_rows_of_mem_snapshot {table : TableName} {store : Store} {item : Json}
    (listed : item ∈ snapshot faults table store) : item ∈ (store table).rows := by
  unfold snapshot at listed
  split_ifs at listed
  · simp at listed
  · exact (Cursor.mem_ordered.mp listed).1

/-! ## The `blocks_processing` loop -/

def gateNumber (store : Store) : Nat := toUInt64 (getNumberOf (lastBlockId store))

theorem isForward_numberAt (site : Site) (bid : Nat) (process : Process) :
    isForward (toUInt64 (numberAt faults site lastBlockId process)) bid ↔
      faults site = false ∧ isForward (gateNumber process.store) bid := by
  unfold numberAt
  split_ifs with fails
  · simp [fails, isForward, toUInt64, Json.truncate]
  · simp [fails, gateNumber]

def gateOf (blocks : Table) : Nat := gateNumber (Function.update Store.empty .blocks blocks)

theorem gateNumber_eq (store : Store) : gateNumber store = gateOf (store .blocks) := by
  simp [gateNumber, gateOf, lastBlockId, cursor, Cursor.max, Cursor.field]

/-- The block is looked up in vain, and its insert works. -/
def Inserts (faults : Site → Bool) (blocks : Table) (number : Nat) : Prop :=
  (faults (.lookup .blocks (toString number)) = true ∨ ¬ blocks.Has (.str (toString number))) ∧
    faults (.insert .blocks (toString number)) = false

instance (blocks : Table) (number : Nat) : Decidable (Inserts faults blocks number) :=
  inferInstanceAs (Decidable (_ ∧ _))

/-- An iteration that comes to its writes: the item, its number, and whether it
is inserted. -/
structure Visit where
  item : Json
  number : Nat
  inserts : Bool

/-- The iterations of a pass, up to the first item that throws or that the gate
holds back.  The table is the one of blocks that an iteration finds. -/
def visits (faults : Site → Bool) : List Json → Table → List Visit
  | [], _ => []
  | item :: rest, blocks =>
      match item.index "block-id" >>= Json.getUInt64, itemWork item with
      | .ok number, .ok _ =>
          if faults (.gate (toString number)) = false ∧ isForward (gateOf blocks) number then []
          else
            ⟨item, number, Inserts faults blocks number⟩ ::
              visits faults rest (if Inserts faults blocks number then blocks.insert item else blocks)
      | _, _ => []

theorem isObject_of_blockId {item : Json} {number : Nat}
    (read : item.index "block-id" >>= Json.getUInt64 = .ok number) : item.isObject = true := by
  cases item with
  | obj members => rfl
  | _ => simp [Json.index, Json.getUInt64, bind, Except.bind] at read

theorem store_storeBlock {item : Json} {id : String} {found : Bool}
    (isObj : item.isObject = true) :
    (runFaulty faults (storeBlock item id found) process).store .blocks =
        (if found = false ∧ faults (.insert .blocks id) = false then
          (process.store .blocks).insert item else process.store .blocks) ∧
      (runFaulty faults (storeBlock item id found) process).store .blocksProcessing =
        if faults (.remove .blocksProcessing id) then process.store .blocksProcessing
        else (process.store .blocksProcessing).erase (.str id) := by
  unfold storeBlock
  cases found with
  | true =>
      simp only [if_true, reduceCtorEq, false_and, if_false]
      refine ⟨remove_store_of_ne (by decide), ?_⟩
      rw [remove_store]
      split_ifs <;> simp
  | false =>
      have kept : (runFaulty faults (insert (.insert .blocks id) .blocks item) process).store
          .blocksProcessing = process.store .blocksProcessing := insert_store_of_ne isObj (by decide)
      simp only [Bool.false_eq_true, if_false, runFaulty_bind, true_and]
      constructor
      · rw [remove_store_of_ne (by decide), insert_store _ _ isObj]
        cases faults (.insert .blocks id) <;> simp
      · rw [remove_store]
        split_ifs
        · exact kept
        · rw [Function.update_self, kept]

/-- An iteration that the gate holds back or that throws changes nothing. -/
theorem run_processBlock_stopped {item : Json} {number : Nat}
    (stops : (faults (.gate (toString number)) = false ∧
      isForward (gateOf (process.store .blocks)) number) ∨
        ∃ exception, itemWork item = .error exception) :
    (processBlock item number).run (Process.execFaulty faults) process = (false, process) := by
  rw [processBlock, Program.run_bind, run_getNumber_faulty]
  simp only [isForward_numberAt, gateNumber_eq]
  split_ifs with forward
  · rfl
  · obtain ⟨exception, fails⟩ := stops.resolve_left forward
    rw [Program.run_bind, run_getData_faulty, fails]
    rfl

/-- An iteration that comes to its writes. -/
theorem run_processBlock {item transactions : Json} {number : Nat} {time : Int}
    (isObj : item.isObject = true) (work : itemWork item = .ok (time, transactions))
    (passes : ¬ (faults (.gate (toString number)) = false ∧
      isForward (gateOf (process.store .blocks)) number)) :
    ∃ final, (processBlock item number).run (Process.execFaulty faults) process = (true, final) ∧
      final.store .blocks = (if Inserts faults (process.store .blocks) number then
        (process.store .blocks).insert item else process.store .blocks) ∧
      final.store .blocksProcessing =
        if faults (.remove .blocksProcessing (toString number)) then
          process.store .blocksProcessing
        else (process.store .blocksProcessing).erase (.str (toString number)) := by
  let found := decide ((dataAt faults (.lookup .blocks (toString number))
    ((cursor .blocks).get (toString number)) process).count "id" > 0)
  let queued := runFaulty faults (addTransactions transactions number time) process
  refine ⟨runFaulty faults (storeBlock item (toString number) found) queued, ?_, ?_⟩
  · rw [processBlock, Program.run_bind, run_getNumber_faulty]
    simp only [isForward_numberAt, gateNumber_eq]
    rw [if_neg passes, Program.run_bind, run_getData_faulty]
    simp only [work, Program.run_bind]
    rfl
  · have steps : (addTransactions transactions number time).Steps (Process.execFaulty faults)
        (Writes [.transactionsProcessing]) := addTransactions_steps _ _ _ (by decide)
    have kept : ∀ table ∉ [TableName.transactionsProcessing],
        queued.store table = process.store table := Writes.run steps process
    have unfound : found = false ∧ faults (.insert .blocks (toString number)) = false ↔
        Inserts faults (process.store .blocks) number := by
      simp only [found, decide_eq_false_iff_not, lookup_iff, Inserts, not_and_or,
        Bool.not_eq_false]
    obtain ⟨blocksEq, pendingEq⟩ := store_storeBlock isObj
    rw [blocksEq, pendingEq, kept _ (by decide), kept _ (by decide)]
    simp only [unfound, and_self]

def Visit.blocks (blocks : Table) (visit : Visit) : Table :=
  if visit.inserts then blocks.insert visit.item else blocks

def Visit.pending (faults : Site → Bool) (pending : Table) (visit : Visit) : Table :=
  if faults (.remove .blocksProcessing (toString visit.number)) then pending
  else pending.erase (.str (toString visit.number))

theorem tables_processBlocks (items : List Json) (process : Process) :
    let visited := visits faults items (process.store .blocks)
    let final := runFaulty faults (processBlocks items) process
    final.store .blocks = visited.foldl Visit.blocks (process.store .blocks) ∧
      final.store .blocksProcessing =
        visited.foldl (Visit.pending faults) (process.store .blocksProcessing) := by
  induction items generalizing process with
  | nil => exact ⟨rfl, rfl⟩
  | cons item rest ih =>
      unfold processBlocks visits
      cases bidEq : item.index "block-id" >>= Json.getUInt64 with
      | error exception => simp [runFaulty]
      | ok number =>
          have isObj := isObject_of_blockId bidEq
          dsimp only
          rw [runFaulty_bind]
          cases work : itemWork item with
          | error exception =>
              have stopped : (processBlock item number).run (Process.execFaulty faults) process =
                  (false, process) := run_processBlock_stopped (.inr ⟨exception, work⟩)
              simp [runFaulty, stopped]
          | ok found =>
              dsimp only
              by_cases forward : faults (.gate (toString number)) = false ∧
                  isForward (gateOf (process.store .blocks)) number
              · have stopped : (processBlock item number).run (Process.execFaulty faults) process =
                    (false, process) := run_processBlock_stopped (.inl forward)
                rw [if_pos forward]
                simp [runFaulty, stopped]
              · obtain ⟨final, ran, blocksEq, pendingEq⟩ := run_processBlock isObj work forward
                have same : runFaulty faults (processBlock item number) process = final := by
                  rw [runFaulty, ran]
                rw [same, ran, if_pos rfl, if_neg forward, ← blocksEq, List.foldl_cons,
                  List.foldl_cons]
                simp only [Visit.blocks, Visit.pending, decide_eq_true_eq]
                rw [← blocksEq, ← pendingEq]
                exact ih final

theorem has_foldl_blocks {blocks : Table} {visited : List Visit} {key : Json} :
    (visited.foldl Visit.blocks blocks).Has key ↔
      blocks.Has key ∨ ∃ visit ∈ visited, visit.inserts = true ∧ docId visit.item = key := by
  induction visited generalizing blocks with
  | nil => simp
  | cons visit rest ih =>
      have one : (visit.blocks blocks).Has key ↔
          blocks.Has key ∨ visit.inserts = true ∧ docId visit.item = key := by
        unfold Visit.blocks
        split_ifs with inserts <;> simp [inserts, KeyedTable.has_insert]
      rw [List.foldl_cons, ih, one, or_assoc]
      simp only [List.mem_cons, exists_eq_or_imp]

theorem mem_foldl_pending {pending : Table} {visited : List Visit} {row : Json} :
    row ∈ (visited.foldl (Visit.pending faults) pending).rows ↔
      row ∈ pending.rows ∧ ∀ visit ∈ visited, docId row = .str (toString visit.number) →
        faults (.remove .blocksProcessing (toString visit.number)) = true := by
  induction visited generalizing pending with
  | nil => simp
  | cons visit rest ih =>
      have one : row ∈ (visit.pending faults pending).rows ↔ row ∈ pending.rows ∧
          (docId row = .str (toString visit.number) →
            faults (.remove .blocksProcessing (toString visit.number)) = true) := by
        unfold Visit.pending
        split_ifs with fails
        · exact ⟨fun member => ⟨member, fun _ => fails⟩, And.left⟩
        · rw [KeyedTable.mem_erase]
          exact and_congr_right fun _ =>
            ⟨fun other same => absurd same other, fun kept same => fails (kept same)⟩
      rw [List.foldl_cons, ih, one, and_assoc, List.forall_mem_cons]

theorem has_foldl_pending {pending : Table} {visited : List Visit} {key : Json} :
    (visited.foldl (Visit.pending faults) pending).Has key ↔
      pending.Has key ∧ ∀ visit ∈ visited, key = .str (toString visit.number) →
        faults (.remove .blocksProcessing (toString visit.number)) = true := by
  constructor
  · rintro ⟨row, member, rfl⟩
    obtain ⟨old, kept⟩ := mem_foldl_pending.mp member
    exact ⟨KeyedTable.has_of_mem old, kept⟩
  · rintro ⟨⟨row, member, rfl⟩, kept⟩
    exact KeyedTable.has_of_mem (mem_foldl_pending.mpr ⟨member, kept⟩)

/-- Each row of which the pass removes the key is in `blocks` before, or the
pass inserts a block with the key. -/
def BlocksSpared (faults : Site → Bool) (store : Store) : Prop :=
  let visited := visits faults (snapshot faults .blocksProcessing store) (store .blocks)
  ∀ visit ∈ visited, faults (.remove .blocksProcessing (toString visit.number)) = false →
    (store .blocksProcessing).Has (.str (toString visit.number)) →
      (store .blocks).Has (.str (toString visit.number)) ∨
        ∃ other ∈ visited, other.inserts = true ∧ docId other.item = .str (toString visit.number)

/-- A pass of `blocks_processing` loses no pending row exactly if each key that
it removes is stored. -/
theorem blocksProcessing_lossless_iff :
    (∀ row ∈ (process.store .blocksProcessing).rows, Held .blocksProcessing .blocks
      (runFaulty faults blocksProcessing process) (docId row)) ↔
        BlocksSpared faults process.store := by
  have pass : runFaulty faults blocksProcessing process =
      runFaulty faults (processBlocks (snapshot faults .blocksProcessing process.store))
        process := by
    rw [blocksProcessing, runFaulty_getData_bind, elements_snapshot]
  obtain ⟨stored, pending⟩ := @tables_processBlocks faults
    (snapshot faults .blocksProcessing process.store) process
  simp only [Held, pass, stored, pending, has_foldl_blocks, has_foldl_pending, BlocksSpared]
  constructor
  · rintro held visit visited works ⟨row, member, keyed⟩
    rcases held row member with stored | ⟨-, kept⟩
    · rwa [keyed] at stored
    · have fails := kept visit visited keyed
      rw [works] at fails
      cases fails
  · intro spared row member
    by_cases removed : ∃ visit ∈ visits faults (snapshot faults .blocksProcessing process.store)
        (process.store .blocks), docId row = .str (toString visit.number) ∧
          faults (.remove .blocksProcessing (toString visit.number)) = false
    · obtain ⟨visit, visited, keyed, works⟩ := removed
      rw [keyed]
      exact .inl (spared visit visited works ⟨row, member, keyed⟩)
    · refine .inr ⟨KeyedTable.has_of_mem member, fun visit visited keyed => ?_⟩
      by_contra works
      exact removed ⟨visit, visited, keyed, by simpa using works⟩

def pendingBlock (number : Nat) : Json :=
  .ofMembers [("id", .str (toString number)), ("block-id", .num number), ("timestamp", .num 0),
    ("transactions", .arr [])]

theorem pendingBlock_numbered {number : Nat} (small : number < 2 ^ 64) :
    IsNumbered (pendingBlock number) number := by
  refine ⟨small, ?_, ?_⟩ <;> simp [pendingBlock, Json.find?_ofMembers, Json.member?_setMember]

/-! ## The `transactions_processing` loop -/

/-- The ids that a pass takes for new transactions or stored ones, up to the
first item that throws or that is of a forward block. -/
def taken : Nat → List Json → List String
  | _, [] => []
  | prevBid, item :: rest =>
      match itemHead item with
      | .error _ => []
      | .ok (bid, trxid, type) =>
          match disposition prevBid bid type with
          | .marker => taken bid rest
          | .forward => []
          | .take => trxid :: taken bid rest

theorem mem_taken {prevBid : Nat} {items : List Json} {id : String}
    (isTaken : id ∈ taken prevBid items) :
    ∃ item ∈ items, docId item = .str id ∧ item.find? "transaction-type" ≠ some processingType := by
  induction items generalizing prevBid with
  | nil => simp [taken] at isTaken
  | cons item rest ih =>
      have later {bid : Nat} (isTaken : id ∈ taken bid rest) : ∃ other ∈ item :: rest,
          docId other = .str id ∧ other.find? "transaction-type" ≠ some processingType := by
        obtain ⟨other, listed, found⟩ := ih isTaken
        exact ⟨other, List.mem_cons_of_mem _ listed, found⟩
      unfold taken at isTaken
      split at isTaken
      · simp at isTaken
      · rename_i bid trxid type head
        obtain ⟨idEq, typeEq⟩ := find?_of_itemHead head
        split at isTaken
        · exact later isTaken
        · simp at isTaken
        · rename_i takes
          rcases List.mem_cons.mp isTaken with rfl | isTaken
          · refine ⟨item, by simp, docId_of_find? idEq, ?_⟩
            rw [typeEq]
            exact fun isMarker => disposition_take takes (Option.some.inj isMarker)
          · exact later isTaken

/-- The keys of both tables after the writes for a new transaction. -/
theorem has_storeTransaction {data : Json} {id : String} {count bid : Nat}
    (isObj : data.isObject = true) (idEq : docId data = .str id) :
    let final := runFaulty faults
      (remove (.remove .transactionsProcessing id) .transactionsProcessing id)
        (runFaulty faults (updateState id count bid)
          (runFaulty faults (insert (.insert .transactions id) .transactions data) process))
    ((final.store .transactions).Has key ↔ (process.store .transactions).Has key ∨
      key = .str id ∧ faults (.insert .transactions id) = false) ∧
    ((final.store .transactionsProcessing).Has key ↔
      (process.store .transactionsProcessing).Has key ∧
        (key = .str id → faults (.remove .transactionsProcessing id) = true)) := by
  have steps : (updateState id count bid).Steps (Process.execFaulty faults)
      (Writes [.transactionsState]) :=
    (updateState_steps _ _ _ (by decide)).mono fun _ _ => And.left
  let inserted := runFaulty faults (insert (.insert .transactions id) .transactions data) process
  have kept : ∀ table ∉ [TableName.transactionsState],
      (runFaulty faults (updateState id count bid) inserted).store table = inserted.store table :=
    Writes.run steps inserted
  have pending : inserted.store .transactionsProcessing = process.store .transactionsProcessing :=
    insert_store_of_ne isObj (by decide)
  constructor
  · rw [remove_store_of_ne (by decide), kept _ (by decide), has_insert isObj, idEq,
      eq_comm (a := Json.str id)]
  · rw [has_remove, kept _ (by decide), pending]

/-- The keys of both tables after the item loop, where markers may go. -/
theorem has_processTransactions {items : List Json} (prevBid lastCount : Nat)
    (unmarked : ∀ item ∈ items, docId item = key →
      item.find? "transaction-type" ≠ some processingType) (process : Process) :
    let final := runFaulty faults (processTransactions prevBid lastCount items) process
    ((final.store .transactions).Has key ↔ (process.store .transactions).Has key ∨
      ∃ id ∈ taken prevBid items, key = .str id ∧ faults (.insert .transactions id) = false) ∧
    ((final.store .transactionsProcessing).Has key ↔
      (process.store .transactionsProcessing).Has key ∧
        ∀ id ∈ taken prevBid items, key = .str id →
          faults (.remove .transactionsProcessing id) = true) := by
  induction items generalizing prevBid lastCount process with
  | nil => simp [taken, processTransactions, runFaulty]
  | cons item rest ih =>
      have restUnmarked : ∀ other ∈ rest, docId other = key →
          other.find? "transaction-type" ≠ some processingType :=
        fun other member => unmarked other (by simp [member])
      unfold processTransactions taken
      cases head : itemHead item with
      | error exception => simp [runFaulty]
      | ok read =>
          obtain ⟨bid, trxid, type⟩ := read
          obtain ⟨idEq, typeEq⟩ := find?_of_itemHead head
          have isObj := Json.isObject_of_find? idEq
          dsimp only
          cases decided : disposition prevBid bid type with
          | marker =>
              have other : key ≠ .str trxid := by
                rintro rfl
                refine unmarked item (by simp) (docId_of_find? idEq) ?_
                rw [typeEq, disposition_marker decided]
              dsimp only
              rw [runFaulty_bind]
              obtain ⟨stored, pending⟩ := ih bid lastCount restUnmarked (runFaulty faults
                (remove (.remove .transactionsProcessing trxid) .transactionsProcessing trxid)
                process)
              rw [stored, pending, remove_store_of_ne (by decide), has_remove]
              simp [other]
          | forward => simp [runFaulty]
          | take =>
              dsimp only
              rw [runFaulty_getData_bind]
              simp only [List.mem_cons, exists_eq_or_imp, forall_eq_or_imp]
              split_ifs with found
              · rw [runFaulty_bind]
                obtain ⟨stored, pending⟩ := ih bid lastCount restUnmarked (runFaulty faults
                  (remove (.remove .transactionsProcessing trxid) .transactionsProcessing trxid)
                  process)
                rw [stored, pending, remove_store_of_ne (by decide), has_remove, and_assoc]
                refine ⟨?_, Iff.rfl⟩
                have has : key = .str trxid → (process.store .transactions).Has key := by
                  rintro rfl
                  exact has_of_lookup found
                rw [← or_assoc]
                exact or_congr_left ⟨.inl, fun either => either.elim id fun own => has own.1⟩
              · rw [runFaulty_bind, runFaulty_bind, runFaulty_bind]
                obtain ⟨stored, pending⟩ := ih bid (lastCount + 1) restUnmarked _
                have setObj : (item.set "serial" (.num lastCount)).isObject = true := by simp [isObj]
                have setId : docId (item.set "serial" (.num lastCount)) = .str trxid :=
                  docId_of_find? (by simp [isObj, idEq])
                rw [stored, pending, (has_storeTransaction setObj setId).1,
                  (has_storeTransaction setObj setId).2, or_assoc, and_assoc]
                exact ⟨Iff.rfl, Iff.rfl⟩

/-- The state after the counter is read, which leaves the rows alone. -/
theorem runFaulty_transactionsProcessing (faults : Site → Bool) (process : Process)
    (prevBid : Nat) :
    ∃ (lastCount : Nat) (started : Process), Writes [.transactionsState] process started ∧
      runFaulty faults (transactionsProcessing prevBid) process =
        runFaulty faults (processTransactions prevBid lastCount
          (snapshot faults .transactionsProcessing process.store)) started := by
  have steps : readLastCount.Steps (Process.execFaulty faults) (Writes [.transactionsState]) :=
    (readLastCount_steps (by decide)).mono fun _ _ => And.left
  refine ⟨(readLastCount.run (Process.execFaulty faults) process).1,
    (readLastCount.run (Process.execFaulty faults) process).2, Writes.run steps process, ?_⟩
  rw [transactionsProcessing, runFaulty_getData_bind, runFaulty_bind, elements_snapshot]
  rfl

/-- Each transaction that the pass takes is stored before, its insert works or
its remove fails. -/
def TransactionsSpared (faults : Site → Bool) (prevBid : Nat) (store : Store) : Prop :=
  ∀ id ∈ taken prevBid (snapshot faults .transactionsProcessing store),
    faults (.insert .transactions id) = true →
      faults (.remove .transactionsProcessing id) = false → (store .transactions).Has (.str id)

/-- A pass of `transactions_processing` loses no pending transaction exactly if
each one that it takes and removes is stored. -/
theorem transactionsProcessing_lossless_iff (prevBid : Nat) :
    (∀ row ∈ (process.store .transactionsProcessing).rows,
      row.find? "transaction-type" ≠ some processingType →
        Held .transactionsProcessing .transactions
          (runFaulty faults (transactionsProcessing prevBid) process) (docId row)) ↔
      TransactionsSpared faults prevBid process.store := by
  obtain ⟨lastCount, started, writes, pass⟩ :=
    runFaulty_transactionsProcessing faults process prevBid
  have after {row : Json} (member : row ∈ (process.store .transactionsProcessing).rows)
      (notMarker : row.find? "transaction-type" ≠ some processingType) :=
    @has_processTransactions faults (docId row)
      (snapshot faults .transactionsProcessing process.store) prevBid lastCount
      (fun item listed same => by
        rwa [KeyedTable.eq_of_key_eq (mem_rows_of_mem_snapshot listed) member same]) started
  have stored : started.store .transactions = process.store .transactions := writes _ (by decide)
  have pending : started.store .transactionsProcessing = process.store .transactionsProcessing :=
    writes _ (by decide)
  rw [pass]
  constructor
  · intro held id isTaken fails works
    obtain ⟨row, listed, keyed, notMarker⟩ := mem_taken isTaken
    have member := mem_rows_of_mem_snapshot listed
    obtain ⟨storedAfter, pendingAfter⟩ := after member notMarker
    have kept := held row member notMarker
    rw [Held, storedAfter, pendingAfter, stored, keyed] at kept
    rcases kept with (has | ⟨other, -, same, inserted⟩) | ⟨-, removed⟩
    · exact has
    · obtain rfl := Json.str.inj same
      rw [fails] at inserted
      cases inserted
    · have unremoved := removed id isTaken rfl
      rw [works] at unremoved
      cases unremoved
  · intro spared row member notMarker
    obtain ⟨storedAfter, pendingAfter⟩ := after member notMarker
    rw [Held, storedAfter, pendingAfter, stored, pending]
    by_cases removed : ∃ id ∈ taken prevBid (snapshot faults .transactionsProcessing process.store),
        docId row = .str id ∧ faults (.remove .transactionsProcessing id) = false
    · obtain ⟨id, isTaken, keyed, works⟩ := removed
      left
      by_cases fails : faults (.insert .transactions id) = true
      · left
        rw [keyed]
        exact spared id isTaken fails works
      · exact .inr ⟨id, isTaken, keyed, by simpa using fails⟩
    · refine .inr ⟨KeyedTable.has_of_mem member, fun id isTaken keyed => ?_⟩
      by_contra works
      exact removed ⟨id, isTaken, keyed, by simpa using works⟩

end Db

/-- In every state and under every pattern of failures: a pass of either loop
loses no pending row exactly if each row that it comes to and removes is stored,
be it before the pass or by an insert that works. -/
theorem handover_lossless_iff (faults : Site → Bool) (process : Process) (prevBid : Nat) :
    ((∀ row ∈ (process.store .blocksProcessing).rows, Held .blocksProcessing .blocks
        (runFaulty faults Db.blocksProcessing process) (docId row)) ↔
      Db.BlocksSpared faults process.store) ∧
    ((∀ row ∈ (process.store .transactionsProcessing).rows,
      row.find? "transaction-type" ≠ some processingType →
        Held .transactionsProcessing .transactions
          (runFaulty faults (Db.transactionsProcessing prevBid) process) (docId row)) ↔
      Db.TransactionsSpared faults prevBid process.store) :=
  ⟨Db.blocksProcessing_lossless_iff, Db.transactionsProcessing_lossless_iff prevBid⟩

/-- Block 1 is pending and stored already, and so is transaction 7 of block 1.
The inserts would fail and the removes work: nothing is lost. -/
theorem handover_lossless_iff_stored :
    let block := Db.pendingBlock 1
    let transaction := Json.ofMembers [("id", .str "alice:1:7"), ("block-id", .num 1),
      ("transaction-type", .str "TransferAssetsTransaction")]
    let stored (row : Json) : Table := KeyedTable.empty.insert row
    let process := Process.idle (Function.update (Function.update (Function.update
      (Function.update Store.empty .blocks (stored block)) .blocksProcessing (stored block))
      .transactions (stored transaction)) .transactionsProcessing (stored transaction))
    let faults (site : Site) : Bool :=
      site = .insert .blocks "1" ∨ site = .insert .transactions "alice:1:7"
    (∀ row ∈ (process.store .blocksProcessing).rows, Held .blocksProcessing .blocks
      (runFaulty faults Db.blocksProcessing process) (docId row)) ∧
    ∀ row ∈ (process.store .transactionsProcessing).rows,
      row.find? "transaction-type" ≠ some processingType →
        Held .transactionsProcessing .transactions
          (runFaulty faults (Db.transactionsProcessing 0) process) (docId row) := by
  intro block transaction stored process faults
  constructor
  · apply (handover_lossless_iff faults process 0).1.mpr
    unfold Db.BlocksSpared
    decide +kernel
  · apply (handover_lossless_iff faults process 0).2.mpr
    unfold Db.TransactionsSpared
    decide +kernel

/-- The insert of block 1 fails and the remove that follows works: the block
is in neither table afterwards. -/
theorem block_lost_by_failed_insert :
    ∃ row ∈ ((Db.lonely .blocksProcessing (Db.pendingBlock 1)).store .blocksProcessing).rows,
      Db.IsNumbered row 1 ∧
      ¬ Held .blocksProcessing .blocks (runFaulty (fun site => site = .insert .blocks "1")
        Db.blocksProcessing (Db.lonely .blocksProcessing (Db.pendingBlock 1))) (docId row) := by
  have numbered := Db.pendingBlock_numbered (show 1 < 2 ^ 64 by decide)
  refine ⟨Db.pendingBlock 1, by simp [Db.rows_lonely], numbered, ?_⟩
  rw [docId_of_find? numbered.2.1, Held]
  decide +kernel

end MileExplorer
