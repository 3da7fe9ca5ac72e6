import MileExplorer.Getters
import MileExplorer.TransitionSystem
import MileExplorer.WalletRecords

/-!
# Wallet rows under concurrent updates

Any number of calls of `Table::update(id, {blocks, transactions})` are begun at
any time and their queries interleave in any order.  A call that finds its
wallet adds to the two lists by two queries, and a row is out of balance only
between them.  The exception is a wallet whose absence is hidden by the row
under the text of the index option: a call may then miss the row with its first
query and find it with its second.
-/

namespace MileExplorer

/-! ## A call under way -/

inductive CallPhase where
  | checking
  | inserting
  | addingBlock
  | addingEntry
  deriving DecidableEq

structure RunningCall where
  update : WalletUpdate
  phase : CallPhase
  deriving DecidableEq

namespace RunningCall

def query (running : RunningCall) : Query :=
  match running.phase with
  | .checking => .read (.check .wallets "") (Db.isEmpty .wallets running.update.address)
  | .inserting => .write (.update .wallets "")
      (Db.insertEffect .wallets (Db.fieldRow running.update.address running.update.call.fields))
  | .addingBlock => .write (.update .wallets "") (Db.unionEffect .wallets running.update.address
      "blocks" (.arr [.num running.update.call.blockId]))
  | .addingEntry => .write (.update .wallets "") (Db.unionEffect .wallets running.update.address
      "transactions" (.arr [running.update.call.entry]))

/-- The phase after the answer to the query, if the call goes on. -/
def next (phase : CallPhase) (answer : Except DbError Json) : Option CallPhase :=
  match phase, answer with
  | .checking, .ok (.bool true) => some .inserting
  | .checking, .ok _ => some .addingBlock
  | .addingBlock, .ok _ => some .addingEntry
  | _, _ => none

/-- What is left of `Table::update` in each phase. -/
def program : RunningCall → Prog Unit
  | ⟨update, .checking⟩ => Db.updateFields "" .wallets update.address update.call.fields
  | ⟨update, .inserting⟩ => .ask (query ⟨update, .inserting⟩) fun _ => .done ()
  | ⟨update, .addingBlock⟩ => Db.unionFields "" .wallets update.address update.call.fields
  | ⟨update, .addingEntry⟩ =>
      Db.unionFields "" .wallets update.address [("transactions", .arr [update.call.entry])]

/-- The program goes on as the next phase. -/
def continuation (update : WalletUpdate) : Option CallPhase → Prog Unit
  | some phase => program ⟨update, phase⟩
  | none => .done ()

theorem program_eq (running : RunningCall) :
    running.program = .ask running.query fun answer =>
      continuation running.update (next running.phase answer) := by
  obtain ⟨update, phase⟩ := running
  cases phase with
  | checking =>
      apply congrArg (Program.ask _)
      funext answer
      cases answer with
      | error error => rfl
      | ok value =>
          cases value with
          | bool found => cases found <;> rfl
          | _ => rfl
  | inserting => rfl
  | addingBlock =>
      apply congrArg (Program.ask _)
      funext answer
      cases answer <;> rfl
  | addingEntry =>
      apply congrArg (Program.ask _)
      funext answer
      cases answer <;> rfl

end RunningCall

/-! ## What a step does to the table -/

/-- The row with a value added to one of its lists. -/
def unionRow (field : String) (value row : Json) : Json :=
  row.set field (.arr (Json.setUnion (rowList row field) [value]))

/-- The table and the phase after a query of a call. -/
inductive CallStep (table : Table) (update : WalletUpdate) :
    CallPhase → Table → Option CallPhase → Prop where
  | missing (absent : ¬ table.Has (.str update.address))
      (noIndex : ¬ table.Has (.str Db.indexText)) :
      CallStep table update .checking table (some .inserting)
  | seen (found : table.Has (.str update.address) ∨ table.Has (.str Db.indexText)) :
      CallStep table update .checking table (some .addingBlock)
  | insert : CallStep table update .inserting
      (table.insert (Db.fieldRow update.address update.call.fields)) none
  | block : CallStep table update .addingBlock
      (table.modify (.str update.address) (unionRow "blocks" (.num update.call.blockId)))
      (some .addingEntry)
  | entry : CallStep table update .addingEntry
      (table.modify (.str update.address) (unionRow "transactions" update.call.entry)) none

theorem IsWalletRow.find?_list {row : Json} (formed : IsWalletRow row) {field : String}
    (isList : field = "blocks" ∨ field = "transactions") :
    row.find? field = some (.arr (rowList row field)) := by
  rcases isList with rfl | rfl
  · exact formed.blocks
  · exact formed.transactions

/-- A query that adds to a list changes the row if it is there. -/
theorem exec_union {process : Process} (formed : process.Formed) (site : Site) (id : String)
    {field : String} (isList : field = "blocks" ∨ field = "transactions") (value : Json) :
    Process.exec (.write site (Db.unionEffect .wallets id field (.arr [value]))) process =
      (.ok .null, process.withTable .wallets
        ((process.store .wallets).modify (.str id) (unionRow field value))) := by
  cases found : (process.store .wallets).get? (.str id) with
  | none =>
      have skips : Db.unionEffect .wallets id field (.arr [value]) process.store =
          .ok process.store := by
        simp [Db.unionEffect, found]
      have same : (process.store .wallets).modify (.str id) (unionRow field value) =
          process.store .wallets := by
        apply KeyedTable.modify_eq_self
        intro row present
        rw [found] at present
        cases present
      rw [Process.exec_write_of_ok skips, same, Process.withTable, Function.update_eq_self]
  | some row =>
      have constant : (process.store .wallets).modify (.str id) (unionRow field value) =
          (process.store .wallets).modify (.str id) fun _ => unionRow field value row := by
        apply KeyedTable.modify_congr
        intro other present
        rw [Option.some.inj (present.symm.trans found)]
      rw [Process.exec_write_of_ok
        (unionEffect_of_formed found ((formed.get? found).find?_list isList)), constant]
      rfl

theorem exec_callStep {process : Process} (formed : process.Formed) (running : RunningCall) :
    let answered := Process.exec running.query process
    CallStep (process.store .wallets) running.update running.phase (answered.2.store .wallets)
      (RunningCall.next running.phase answered.1) := by
  obtain ⟨update, phase⟩ := running
  cases phase with
  | checking =>
      dsimp only [RunningCall.query]
      rw [Process.exec_read]
      by_cases found : (process.store .wallets).Has (.str update.address) ∨
          (process.store .wallets).Has (.str Db.indexText)
      · have status : Db.isEmpty .wallets update.address process.store = .ok (.bool false) := by
          simp only [Db.isEmpty, Except.ok.injEq, Json.bool.injEq, Bool.and_eq_false_iff,
            Bool.not_eq_false', decide_eq_true_eq]
          exact found
        rw [status]
        exact .seen found
      · have status : Db.isEmpty .wallets update.address process.store = .ok (.bool true) := by
          simpa [Db.isEmpty] using found
        rw [not_or] at found
        rw [status]
        exact .missing found.1 found.2
  | inserting =>
      have isObj := Json.isObject_of_find? (fieldRow_members update.address update.call).1
      dsimp only [RunningCall.query]
      rw [Process.exec_write_of_ok (Db.insertEffect_of_isObject isObj)]
      dsimp only
      rw [Function.update_self]
      exact .insert
  | addingBlock =>
      dsimp only [RunningCall.query]
      rw [exec_union formed _ _ (.inl rfl)]
      dsimp only
      rw [Process.store_withTable, Function.update_self]
      exact .block
  | addingEntry =>
      dsimp only [RunningCall.query]
      rw [exec_union formed _ _ (.inr rfl)]
      dsimp only
      rw [Process.store_withTable, Function.update_self]
      exact .entry

section Union

variable {table : Table} {id field : String} {value row : Json}

theorem IsWalletRow.union (formed : IsWalletRow row)
    (isList : field = "blocks" ∨ field = "transactions") (value : Json) :
    IsWalletRow (unionRow field value row) ∧ docId (unionRow field value row) = docId row ∧
      ∀ other, rowList (unionRow field value row) other =
        if field = other then Json.setUnion (rowList row field) [value] else rowList row other := by
  have members (other : String) : (unionRow field value row).find? other =
      if field = other then some (.arr (Json.setUnion (rowList row field) [value]))
      else row.find? other :=
    Json.find?_set row formed.isObject field other _
  have lists (other : String) : rowList (unionRow field value row) other =
      if field = other then Json.setUnion (rowList row field) [value]
      else rowList row other := by
    unfold rowList
    rw [members]
    split_ifs <;> rfl
  have distinct (other : String) (nodup : (rowList row other).Nodup) :
      (rowList (unionRow field value row) other).Nodup := by
    rw [lists]
    split_ifs
    · exact Json.setUnion_nodup _ _
    · exact nodup
  have listed (other : String) (old : row.find? other = some (.arr (rowList row other))) :
      (unionRow field value row).find? other =
        some (.arr (rowList (unionRow field value row) other)) := by
    rw [members, lists]
    split_ifs
    · rfl
    · exact old
  have notId : field ≠ "id" := by rcases isList with rfl | rfl <;> decide
  refine ⟨⟨?_, listed _ formed.blocks, listed _ formed.transactions,
    distinct _ formed.blocksNodup, distinct _ formed.transactionsNodup⟩, ?_, lists⟩
  · obtain ⟨old, rfl, ordered⟩ := formed.ordered
    exact ⟨_, rfl, ordered.setMember _ _⟩
  · rw [docId, members, if_neg notId, docId]

theorem prefix_setUnion {values : List Json} (nodup : values.Nodup) (value : Json) :
    values <+: Json.setUnion values [value] := by
  rw [Json.setUnion_singleton nodup]
  split_ifs
  · exact List.prefix_rfl
  · exact List.prefix_append _ _

theorem get?_modify_union (formed : WalletsFormed table)
    (isList : field = "blocks" ∨ field = "transactions")
    (found : table.get? (.str id) = some row) :
    (table.modify (.str id) (unionRow field value)).get? (.str id) =
      some (unionRow field value row) := by
  apply KeyedTable.get?_modify_self found
  rw [((formed.get? found).union isList value).2.1]
  exact (KeyedTable.get?_eq_some.mp found).2

theorem listIn_modify_of_ne {other : String} (differ : other ≠ id) (name : String) :
    listIn (table.modify (.str id) (unionRow field value)) other name =
      listIn table other name := by
  have keys : Json.str other ≠ .str id := fun same => differ (Json.str.inj same)
  rw [listIn, KeyedTable.get?_modify_of_ne keys, listIn]

theorem listIn_modify_union (formed : WalletsFormed table)
    (isList : field = "blocks" ∨ field = "transactions") (present : table.Has (.str id))
    (name : String) :
    listIn (table.modify (.str id) (unionRow field value)) id name =
      if field = name then Json.setUnion (listIn table id field) [value]
      else listIn table id name := by
  obtain ⟨row, found⟩ := KeyedTable.has_iff_get?.mp present
  rw [listIn_of_found (get?_modify_union formed isList found), listIn_of_found found,
    listIn_of_found found, ((formed.get? found).union isList value).2.2]

end Union

/-! ## Rows only grow -/

/-- Every row is still there, and its lists have only been added to. -/
def WalletsExtend (before after : Table) : Prop :=
  ∀ key row, before.get? key = some row → ∃ new, after.get? key = some new ∧
    rowList row "blocks" <+: rowList new "blocks" ∧
    rowList row "transactions" <+: rowList new "transactions"

theorem WalletsExtend.refl (table : Table) : WalletsExtend table table :=
  fun _ row found => ⟨row, found, List.prefix_rfl, List.prefix_rfl⟩

theorem WalletsExtend.trans {first second third : Table} (earlier : WalletsExtend first second)
    (later : WalletsExtend second third) : WalletsExtend first third := by
  intro key row found
  obtain ⟨middle, middleFound, blocks, transactions⟩ := earlier key row found
  obtain ⟨new, newFound, moreBlocks, moreTransactions⟩ := later key middle middleFound
  exact ⟨new, newFound, blocks.trans moreBlocks, transactions.trans moreTransactions⟩

theorem WalletsExtend.has {before after : Table} (extend : WalletsExtend before after) {key : Json}
    (has : before.Has key) : after.Has key := by
  obtain ⟨row, found⟩ := KeyedTable.has_iff_get?.mp has
  obtain ⟨new, newFound, -⟩ := extend key row found
  exact KeyedTable.has_iff_get?.mpr ⟨new, newFound⟩

theorem extend_of_union {table : Table} (formed : WalletsFormed table) {id field : String}
    (isList : field = "blocks" ∨ field = "transactions") (value : Json) :
    WalletsExtend table (table.modify (.str id) (unionRow field value)) := by
  intro key row found
  by_cases own : key = .str id
  · subst own
    have rowFormed := formed.get? found
    obtain ⟨-, -, lists⟩ := rowFormed.union isList value
    have grows (name : String) (nodup : (rowList row name).Nodup) :
        rowList row name <+: rowList (unionRow field value row) name := by
      rw [lists]
      split_ifs with same
      · subst same
        exact prefix_setUnion nodup value
      · exact List.prefix_rfl
    exact ⟨_, get?_modify_union formed isList found, grows _ rowFormed.blocksNodup,
      grows _ rowFormed.transactionsNodup⟩
  · exact ⟨row, by rw [KeyedTable.get?_modify_of_ne own, found], List.prefix_rfl,
      List.prefix_rfl⟩

section CallStep

variable {table after : Table} {update : WalletUpdate} {phase : CallPhase}
  {going : Option CallPhase}

theorem CallStep.formed (step : CallStep table update phase after going)
    (formed : WalletsFormed table) : WalletsFormed after := by
  have union {field : String} (isList : field = "blocks" ∨ field = "transactions") (value : Json) :
      WalletsFormed (table.modify (.str update.address) (unionRow field value)) := by
    intro row member
    obtain ⟨old, oldMem, rfl⟩ := List.mem_map.mp member
    split_ifs
    · exact ((formed old oldMem).union isList value).1
    · exact formed old oldMem
  cases step with
  | missing absent noIndex => exact formed
  | seen found => exact formed
  | insert =>
      intro row member
      rcases KeyedTable.mem_insert.mp member with old | ⟨rfl, -⟩
      · exact formed row old
      · exact (isWalletRow_fieldRow _ _).1
  | block => exact union (.inl rfl) _
  | entry => exact union (.inr rfl) _

theorem CallStep.extend (step : CallStep table update phase after going)
    (formed : WalletsFormed table) : WalletsExtend table after := by
  cases step with
  | missing absent noIndex => exact .refl table
  | seen found => exact .refl table
  | insert =>
      intro key row found
      refine ⟨row, ?_, List.prefix_rfl, List.prefix_rfl⟩
      obtain ⟨member, rowKey⟩ := KeyedTable.get?_eq_some.mp found
      exact KeyedTable.get?_eq_some.mpr ⟨KeyedTable.mem_insert.mpr (.inl member), rowKey⟩
  | block => exact extend_of_union formed (.inl rfl) _
  | entry => exact extend_of_union formed (.inr rfl) _

end CallStep

/-! ## Rows are in balance but for the calls under way -/

def EntryMatches (update : WalletUpdate) : Prop :=
  update.call.entry.find? "block-id" = some (.num update.call.blockId)

instance (update : WalletUpdate) : Decidable (EntryMatches update) :=
  inferInstanceAs (Decidable (_ = _))

/-- A call still has to add the entry for the block. -/
def Owed (running : List RunningCall) (id : String) (block : Json) : Prop :=
  ∃ call ∈ running, call.phase = .addingEntry ∧ call.update.address = id ∧
    block = .num call.update.call.blockId

def NoneInserts (running : List RunningCall) (id : String) : Prop :=
  ∀ call ∈ running, call.phase = .inserting → call.update.address ≠ id

instance (running : List RunningCall) (id : String) : Decidable (NoneInserts running id) :=
  inferInstanceAs (Decidable (∀ call ∈ running, _))

/-- The wallet is missing and will stay so. -/
structure Stranded (table : Table) (running : List RunningCall) (id : String) : Prop where
  absent : ¬ table.Has (.str id)
  index : table.Has (.str Db.indexText)
  noneInserts : NoneInserts running id

/-- Every entry has its block, and every block has an entry or is owed one. -/
structure RowsAccounted (table : Table) (running : List RunningCall) : Prop where
  formed : WalletsFormed table
  entries : ∀ id, ∀ entry ∈ listIn table id "transactions", ∀ block,
    entry.find? "block-id" = some block → block ∈ listIn table id "blocks"
  blocks : ∀ id, ∀ block ∈ listIn table id "blocks",
    (∃ entry ∈ listIn table id "transactions", entry.find? "block-id" = some block) ∨
      Owed running id block
  matching : ∀ call ∈ running, EntryMatches call.update
  based : ∀ call ∈ running, call.phase = .addingBlock ∨ call.phase = .addingEntry →
    table.Has (.str call.update.address) ∨ Stranded table running call.update.address
  noted : ∀ call ∈ running, call.phase = .addingEntry → table.Has (.str call.update.address) →
    .num call.update.call.blockId ∈ listIn table call.update.address "blocks"

section Advance

variable {table next : Table} {update : WalletUpdate} {phase : CallPhase}
  {going : Option CallPhase} {before after : List RunningCall} {id : String}

def stepped (before : List RunningCall) (update : WalletUpdate) (going : Option CallPhase)
    (after : List RunningCall) : List RunningCall :=
  before ++ (going.map fun phase => ⟨update, phase⟩).toList ++ after

theorem mem_stepped {call : RunningCall} :
    call ∈ stepped before update going after ↔
      (call ∈ before ∨ call ∈ after) ∨ call.update = update ∧ going = some call.phase := by
  obtain ⟨callUpdate, callPhase⟩ := call
  cases going with
  | none => simp [stepped]
  | some phase =>
      simp only [stepped, Option.map_some, Option.toList_some, List.mem_append, List.mem_singleton,
        RunningCall.mk.injEq, Option.some.injEq, @eq_comm _ phase]
      exact or_right_comm

theorem mem_running {call : RunningCall} :
    call ∈ before ++ ⟨update, phase⟩ :: after ↔
      (call ∈ before ∨ call ∈ after) ∨ call = ⟨update, phase⟩ := by
  simp only [List.mem_append, List.mem_cons]
  exact or_left_comm.trans or_comm

theorem listIn_mono (extend : WalletsExtend table next) {name : String}
    (isList : name = "blocks" ∨ name = "transactions") {value : Json}
    (member : value ∈ listIn table id name) : value ∈ listIn next id name := by
  cases found : table.get? (.str id) with
  | none => simp [listIn, found] at member
  | some row =>
      obtain ⟨new, newFound, blocks, transactions⟩ := extend _ row found
      rw [listIn_of_found found] at member
      rw [listIn_of_found newFound]
      rcases isList with rfl | rfl
      · exact blocks.subset member
      · exact transactions.subset member

theorem listIn_insert (table : Table) (update : WalletUpdate) (id : String) :
    (∀ name, listIn (table.insert (Db.fieldRow update.address update.call.fields)) id name =
        listIn table id name) ∨
      update.address = id ∧
        listIn (table.insert (Db.fieldRow update.address update.call.fields)) id "blocks" =
          [.num update.call.blockId] ∧
        listIn (table.insert (Db.fieldRow update.address update.call.fields)) id "transactions" =
          [update.call.entry] := by
  have key := docId_of_find? (fieldRow_members update.address update.call).1
  by_cases present : table.Has (.str update.address)
  · refine .inl fun name => ?_
    rw [KeyedTable.insert_of_has (by rw [key]; exact present)]
  · by_cases own : update.address = id
    · subst own
      have found := get?_insert_wallet update.call present
      obtain ⟨-, blocks, transactions⟩ := isWalletRow_fieldRow update.address update.call
      refine .inr ⟨rfl, ?_, ?_⟩
      · rw [listIn_of_found found, blocks]
      · rw [listIn_of_found found, transactions]
    · refine .inl fun name => ?_
      have keys : docId (Db.fieldRow update.address update.call.fields) ≠ .str id := by
        rw [key]
        exact fun same => own (Json.str.inj same)
      rw [listIn, KeyedTable.get?_insert_of_ne keys, listIn]

/-- An added element changes the lists of a wallet only if it is there. -/
theorem listIn_union (formed : WalletsFormed table) {field : String}
    (isList : field = "blocks" ∨ field = "transactions") (address : String) (value : Json)
    (id : String) :
    (∀ name, listIn (table.modify (.str address) (unionRow field value)) id name =
        listIn table id name) ∨
      address = id ∧ table.Has (.str id) ∧
        ∀ name, listIn (table.modify (.str address) (unionRow field value)) id name =
          if field = name then Json.setUnion (listIn table id field) [value]
          else listIn table id name := by
  by_cases own : address = id
  · subst own
    by_cases present : table.Has (.str address)
    · exact .inr ⟨rfl, present, listIn_modify_union formed isList present⟩
    · refine .inl fun name => ?_
      rw [listIn_of_absent (mt KeyedTable.has_modify.mp present), listIn_of_absent present]
  · exact .inl (listIn_modify_of_ne (Ne.symm own))

theorem Owed.step {block : Json} (owed : Owed (before ++ ⟨update, phase⟩ :: after) id block) :
    Owed (stepped before update going after) id block ∨
      phase = .addingEntry ∧ update.address = id ∧ block = .num update.call.blockId := by
  obtain ⟨call, member, adding, own, blockEq⟩ := owed
  rcases mem_running.mp member with other | rfl
  · exact .inl ⟨call, mem_stepped.mpr (.inl other), adding, own, blockEq⟩
  · exact .inr ⟨adding, own, blockEq⟩

/-- Only an insert adds a row. -/
theorem CallStep.has (step : CallStep table update phase next going) {key : Json}
    (has : next.Has key) :
    table.Has key ∨ phase = .inserting ∧ key = .str update.address := by
  cases step with
  | missing absent noIndex => exact .inl has
  | seen found => exact .inl has
  | insert =>
      rw [KeyedTable.has_insert,
        docId_of_find? (fieldRow_members update.address update.call).1] at has
      exact has.imp_right fun same => ⟨rfl, same.symm⟩
  | block => exact .inl (KeyedTable.has_modify.mp has)
  | entry => exact .inl (KeyedTable.has_modify.mp has)

/-- A missing wallet that no call is about to insert stays missing. -/
theorem Stranded.step (stranded : Stranded table (before ++ ⟨update, phase⟩ :: after) id)
    (step : CallStep table update phase next going) (formed : WalletsFormed table) :
    Stranded next (stepped before update going after) id := by
  have insertsNone : phase = .inserting → update.address ≠ id := by
    intro inserting
    exact stranded.noneInserts ⟨update, phase⟩ (mem_running.mpr (.inr rfl)) inserting
  refine ⟨?_, (step.extend formed).has stranded.index, ?_⟩
  · intro has
    rcases step.has has with old | ⟨inserting, same⟩
    · exact stranded.absent old
    · exact insertsNone inserting (Json.str.inj same).symm
  · intro call member inserting
    rcases mem_stepped.mp member with other | ⟨-, goes⟩
    · exact stranded.noneInserts call (mem_running.mpr (.inl other)) inserting
    · rw [inserting] at goes
      subst goes
      cases step with
      | missing absent noIndex => exact absurd stranded.index noIndex

/-- A block in a list after a step is an old one, or the call is for the block
and goes on to add the entry or has added it. -/
theorem CallStep.mem_blocks (step : CallStep table update phase next going)
    (formed : WalletsFormed table) {block : Json} (member : block ∈ listIn next id "blocks") :
    block ∈ listIn table id "blocks" ∨
      (update.address = id ∧ block = .num update.call.blockId ∧
        (going = some .addingEntry ∨ update.call.entry ∈ listIn next id "transactions")) := by
  cases step with
  | missing absent noIndex => exact .inl member
  | seen found => exact .inl member
  | insert =>
      rcases listIn_insert table update id with same | ⟨own, blocks, transactions⟩
      · rw [same] at member
        exact .inl member
      · rw [blocks, List.mem_singleton] at member
        exact .inr ⟨own, member, .inr (by simp [transactions])⟩
  | block =>
      rcases listIn_union formed (.inl rfl) update.address _ id with same | ⟨own, -, lists⟩
      · rw [same] at member
        exact .inl member
      · rw [lists, if_pos rfl, Json.mem_setUnion, List.mem_singleton] at member
        exact member.imp_right fun fresh => ⟨own, fresh, .inl rfl⟩
  | entry =>
      rcases listIn_union formed (.inr rfl) update.address _ id with same | ⟨-, -, lists⟩
      · rw [same] at member
        exact .inl member
      · rw [lists, if_neg (by decide)] at member
        exact .inl member

/-- An entry in a list after a step is an old one, or the call adds it to a
wallet that is there or inserts the wallet. -/
theorem CallStep.mem_entries (step : CallStep table update phase next going)
    (formed : WalletsFormed table) {entry : Json}
    (member : entry ∈ listIn next id "transactions") :
    entry ∈ listIn table id "transactions" ∨
      (update.address = id ∧ entry = update.call.entry ∧
        (phase = .addingEntry ∧ table.Has (.str id) ∨
          .num update.call.blockId ∈ listIn next id "blocks")) := by
  cases step with
  | missing absent noIndex => exact .inl member
  | seen found => exact .inl member
  | insert =>
      rcases listIn_insert table update id with same | ⟨own, blocks, transactions⟩
      · rw [same] at member
        exact .inl member
      · rw [transactions, List.mem_singleton] at member
        exact .inr ⟨own, member, .inr (by simp [blocks])⟩
  | block =>
      rcases listIn_union formed (.inl rfl) update.address _ id with same | ⟨-, -, lists⟩
      · rw [same] at member
        exact .inl member
      · rw [lists, if_neg (by decide)] at member
        exact .inl member
  | entry =>
      rcases listIn_union formed (.inr rfl) update.address _ id with same | ⟨own, present, lists⟩
      · rw [same] at member
        exact .inl member
      · rw [lists, if_pos rfl, Json.mem_setUnion, List.mem_singleton] at member
        exact member.imp_right fun fresh => ⟨own, fresh, .inl ⟨rfl, present⟩⟩

theorem CallStep.adds_block (step : CallStep table update .addingBlock next going)
    (formed : WalletsFormed table) (present : table.Has (.str update.address)) :
    .num update.call.blockId ∈ listIn next update.address "blocks" := by
  cases step with
  | block => simp [listIn_modify_union formed (.inl rfl) present, Json.mem_setUnion]

theorem CallStep.adds_entry (step : CallStep table update .addingEntry next going)
    (formed : WalletsFormed table) (present : table.Has (.str update.address)) :
    update.call.entry ∈ listIn next update.address "transactions" := by
  cases step with
  | entry => simp [listIn_modify_union formed (.inr rfl) present, Json.mem_setUnion]

theorem CallStep.goes_on {later : CallPhase}
    (step : CallStep table update phase next (some later)) :
    phase = .checking ∧ next = table ∧
        (later = .inserting ∨ later = .addingBlock ∧
          (table.Has (.str update.address) ∨ table.Has (.str Db.indexText))) ∨
      phase = .addingBlock ∧ later = .addingEntry := by
  cases step with
  | missing absent noIndex => exact .inl ⟨rfl, rfl, .inl rfl⟩
  | seen found => exact .inl ⟨rfl, rfl, .inr ⟨rfl, found⟩⟩
  | block => exact .inr ⟨rfl, rfl⟩

end Advance

section Account

variable {table next : Table} {update : WalletUpdate} {phase : CallPhase}
  {going : Option CallPhase} {before after : List RunningCall}
  (accounted : RowsAccounted table (before ++ ⟨update, phase⟩ :: after))
  (step : CallStep table update phase next going)

include accounted step

theorem RowsAccounted.entries_step :
    ∀ id, ∀ entry ∈ listIn next id "transactions", ∀ block,
      entry.find? "block-id" = some block → block ∈ listIn next id "blocks" := by
  have extend := step.extend accounted.formed
  have own : (⟨update, phase⟩ : RunningCall) ∈ before ++ ⟨update, phase⟩ :: after :=
    mem_running.mpr (.inr rfl)
  have matching : EntryMatches update := accounted.matching _ own
  intro id entry member block named
  rcases step.mem_entries accounted.formed member with
    old | ⟨rfl, rfl, ⟨rfl, present⟩ | added⟩
  · exact listIn_mono extend (.inl rfl) (accounted.entries id entry old block named)
  · obtain rfl := Option.some.inj (named.symm.trans matching)
    exact listIn_mono extend (.inl rfl) (accounted.noted _ own rfl present)
  · obtain rfl := Option.some.inj (named.symm.trans matching)
    exact added

theorem RowsAccounted.blocks_step :
    ∀ id, ∀ block ∈ listIn next id "blocks",
      (∃ entry ∈ listIn next id "transactions", entry.find? "block-id" = some block) ∨
        Owed (stepped before update going after) id block := by
  have extend := step.extend accounted.formed
  have matching : EntryMatches update := accounted.matching _ (mem_running.mpr (.inr rfl))
  intro id block member
  rcases step.mem_blocks accounted.formed member with old | ⟨rfl, rfl, goes | added⟩
  · rcases accounted.blocks id block old with ⟨entry, entryMem, named⟩ | owed
    · exact .inl ⟨entry, listIn_mono extend (.inr rfl) entryMem, named⟩
    · rcases owed.step with later | ⟨rfl, rfl, rfl⟩
      · exact .inr later
      · -- the call that owes the entry adds it now
        have present : table.Has (.str update.address) := by
          by_contra absent
          rw [listIn_of_absent absent] at old
          cases old
        exact .inl ⟨_, step.adds_entry accounted.formed present, matching⟩
  · exact .inr ⟨⟨update, .addingEntry⟩, mem_stepped.mpr (.inr ⟨rfl, goes⟩), rfl, rfl, rfl⟩
  · exact .inl ⟨_, added, matching⟩

/-- A call that found its wallet still finds it, or never will. -/
theorem RowsAccounted.based_step
    (visible : phase = .checking → ¬ table.Has (.str update.address) →
      table.Has (.str Db.indexText) →
      NoneInserts (before ++ ⟨update, phase⟩ :: after) update.address) :
    ∀ call ∈ stepped before update going after,
      call.phase = .addingBlock ∨ call.phase = .addingEntry →
      next.Has (.str call.update.address) ∨
        Stranded next (stepped before update going after) call.update.address := by
  have still {id : String}
      (old : table.Has (.str id) ∨ Stranded table (before ++ ⟨update, phase⟩ :: after) id) :
      next.Has (.str id) ∨ Stranded next (stepped before update going after) id :=
    old.imp (step.extend accounted.formed).has fun stranded =>
      stranded.step step accounted.formed
  intro call member adding
  rcases mem_stepped.mp member with other | ⟨same, goes⟩
  · exact still (accounted.based call (mem_running.mpr (.inl other)) adding)
  · subst goes
    rw [same]
    rcases step.goes_on with ⟨rfl, rfl, inserting | ⟨-, found⟩⟩ | ⟨rfl, -⟩
    · rw [inserting] at adding
      rcases adding with impossible | impossible <;> cases impossible
    · -- the check found the wallet or the row under the text of the index
      by_cases present : next.Has (.str update.address)
      · exact .inl present
      · have index := found.resolve_left present
        exact still (.inr ⟨present, index, visible rfl present index⟩)
    · exact still (accounted.based _ (mem_running.mpr (.inr rfl)) (.inl rfl))

theorem RowsAccounted.noted_step :
    ∀ call ∈ stepped before update going after, call.phase = .addingEntry →
      next.Has (.str call.update.address) →
      .num call.update.call.blockId ∈ listIn next call.update.address "blocks" := by
  have formed := accounted.formed
  intro call member adding present
  rcases mem_stepped.mp member with other | ⟨same, goes⟩
  · have old : call ∈ before ++ ⟨update, phase⟩ :: after := mem_running.mpr (.inl other)
    rcases accounted.based call old (.inr adding) with was | stranded
    · exact listIn_mono (step.extend formed) (.inl rfl) (accounted.noted call old adding was)
    · exact absurd present (stranded.step step formed).absent
  · rw [same] at present ⊢
    rw [adding] at goes
    subst goes
    rcases step.goes_on with ⟨-, -, wrong | ⟨wrong, -⟩⟩ | ⟨rfl, -⟩
    · cases wrong
    · cases wrong
    · rcases accounted.based _ (mem_running.mpr (.inr rfl)) (.inl rfl) with was | stranded
      · exact step.adds_block formed was
      · exact absurd present (stranded.step step formed).absent

/-- One query of one call keeps the account, unless the call misses the wallet
while another is about to insert it. -/
theorem RowsAccounted.advance
    (visible : phase = .checking → ¬ table.Has (.str update.address) →
      table.Has (.str Db.indexText) →
      NoneInserts (before ++ ⟨update, phase⟩ :: after) update.address) :
    RowsAccounted next (stepped before update going after) where
  formed := step.formed accounted.formed
  entries := accounted.entries_step step
  blocks := accounted.blocks_step step
  matching := by
    intro call member
    rcases mem_stepped.mp member with other | ⟨same, -⟩
    · exact accounted.matching call (mem_running.mpr (.inl other))
    · rw [same]
      exact accounted.matching _ (mem_running.mpr (.inr rfl))
  based := accounted.based_step step visible
  noted := accounted.noted_step step

end Account

/-! ## Runs of interleaved calls -/

structure WalletRun where
  process : Process
  running : List RunningCall

abbrev WalletRun.table (run : WalletRun) : Table := run.process.store .wallets

/-- Begin a call, or make the next query of a call under way. -/
inductive WalletMove where
  | call (update : WalletUpdate)
  | advance (position : Nat)
  deriving DecidableEq

def WalletRun.ask (run : WalletRun) (position : Nat) (call : RunningCall) : WalletRun :=
  let answered := Process.exec call.query run.process
  ⟨answered.2, stepped (run.running.take position) call.update
    (RunningCall.next call.phase answered.1) (run.running.drop (position + 1))⟩

def walletStep (run : WalletRun) : WalletMove → Option WalletRun
  | .call update => some ⟨run.process, run.running ++ [⟨update, .checking⟩]⟩
  | .advance position => run.running[position]?.map (run.ask position)

/-- The calls of wallet jobs: the entry of a call is one of its block. -/
def JobCall (_ : WalletRun) : WalletMove → Prop
  | .call update => EntryMatches update
  | .advance _ => True

instance (run : WalletRun) (move : WalletMove) : Decidable (JobCall run move) :=
  match move with
  | .call update => inferInstanceAs (Decidable (EntryMatches update))
  | .advance _ => isTrue trivial

/-- The row under the text of the index option does not stand for the wallet
while another call is about to insert it. -/
def ChecksPlainly (run : WalletRun) (call : RunningCall) : Prop :=
  call.phase = .checking → ¬ run.table.Has (.str call.update.address) →
    run.table.Has (.str Db.indexText) → NoneInserts run.running call.update.address

instance (run : WalletRun) (call : RunningCall) : Decidable (ChecksPlainly run call) :=
  inferInstanceAs (Decidable (_ → _ → _ → _))

/-- The calls of wallet jobs whose checks are not misled. -/
def PlainCall (run : WalletRun) : WalletMove → Prop
  | .call update => EntryMatches update
  | .advance position => ∀ call ∈ run.running[position]?, ChecksPlainly run call

instance (run : WalletRun) (move : WalletMove) : Decidable (PlainCall run move) :=
  match move with
  | .call update => inferInstanceAs (Decidable (EntryMatches update))
  | .advance position => inferInstanceAs (Decidable (∀ call ∈ run.running[position]?, _))

theorem split_running {running : List RunningCall} {position : Nat} {call : RunningCall}
    (found : running[position]? = some call) :
    running = running.take position ++ call :: running.drop (position + 1) := by
  obtain ⟨bound, rfl⟩ := List.getElem?_eq_some_iff.mp found
  rw [List.getElem_cons_drop, List.take_append_drop]

theorem WalletRun.ask_callStep {run : WalletRun} (formed : run.process.Formed) (position : Nat)
    (call : RunningCall) :
    ∃ going, CallStep run.table call.update call.phase (run.ask position call).table going ∧
      (run.ask position call).running =
        stepped (run.running.take position) call.update going
          (run.running.drop (position + 1)) :=
  ⟨_, exec_callStep formed call, rfl⟩

/-- A call that has just been begun does not touch the account. -/
theorem RowsAccounted.begin {table : Table} {running : List RunningCall}
    (accounted : RowsAccounted table running) {update : WalletUpdate}
    (matching : EntryMatches update) :
    RowsAccounted table (running ++ [⟨update, .checking⟩]) := by
  have cases_of {call : RunningCall} (member : call ∈ running ++ [⟨update, .checking⟩]) :
      call ∈ running ∨ call = ⟨update, .checking⟩ := by
    simpa using member
  refine ⟨accounted.formed, accounted.entries, ?_, ?_, ?_, ?_⟩
  · intro id block member
    refine (accounted.blocks id block member).imp_right ?_
    rintro ⟨call, callMem, owes⟩
    exact ⟨call, List.mem_append_left _ callMem, owes⟩
  · intro call member
    rcases cases_of member with old | rfl
    · exact accounted.matching call old
    · exact matching
  · intro call member adding
    rcases cases_of member with old | rfl
    · refine (accounted.based call old adding).imp_right fun stranded => ?_
      refine ⟨stranded.absent, stranded.index, ?_⟩
      intro other otherMem inserting
      rcases cases_of otherMem with oldOther | rfl
      · exact stranded.noneInserts other oldOther inserting
      · cases inserting
    · rcases adding with impossible | impossible <;> cases impossible
  · intro call member adding
    rcases cases_of member with old | rfl
    · exact accounted.noted call old adding
    · cases adding

theorem RowsAccounted.move {run next : WalletRun} {move : WalletMove}
    (accounted : RowsAccounted run.table run.running) (plain : PlainCall run move)
    (moved : walletStep run move = some next) : RowsAccounted next.table next.running := by
  cases move with
  | call update =>
      obtain rfl := Option.some.inj moved
      exact accounted.begin plain
  | advance position =>
      obtain ⟨call, found, rfl⟩ := Option.map_eq_some_iff.mp moved
      have split := split_running found
      obtain ⟨going, step, running⟩ := WalletRun.ask_callStep accounted.formed position call
      have checks : ChecksPlainly run call := plain call found
      rw [ChecksPlainly, split] at checks
      rw [split] at accounted
      rw [running]
      exact accounted.advance step checks

theorem extend_move {run next : WalletRun} {move : WalletMove} (formed : run.process.Formed)
    (moved : walletStep run move = some next) : WalletsExtend run.table next.table := by
  cases move with
  | call update =>
      obtain rfl := Option.some.inj moved
      exact .refl _
  | advance position =>
      obtain ⟨call, -, rfl⟩ := Option.map_eq_some_iff.mp moved
      obtain ⟨going, step, -⟩ := WalletRun.ask_callStep formed position call
      exact step.extend formed

/-! ## Rows between calls -/

/-- A row under a text whose lists name the same blocks. -/
structure RowBalanced (row : Json) : Prop where
  keyed : ∃ id, docId row = .str id
  formed : IsWalletRow row
  balanced : ∀ block, block ∈ rowList row "blocks" ↔
    ∃ entry ∈ rowList row "transactions", entry.find? "block-id" = some block

def RowsBalanced (table : Table) : Prop := ∀ row ∈ table.rows, RowBalanced row

def TextKeys (table : Table) : Prop := ∀ key, table.Has key → ∃ id, key = .str id

theorem RowsBalanced.textKeys {table : Table} (balanced : RowsBalanced table) :
    TextKeys table := by
  rintro key ⟨row, member, rfl⟩
  exact (balanced row member).keyed

theorem RowsBalanced.accounted {table : Table} (balanced : RowsBalanced table) :
    RowsAccounted table [] := by
  have rowOf {id field : String} {value : Json} (member : value ∈ listIn table id field) :
      ∃ row ∈ table.rows, ∀ name, listIn table id name = rowList row name := by
    cases found : table.get? (.str id) with
    | none => simp [listIn, found] at member
    | some row =>
        exact ⟨row, (KeyedTable.get?_eq_some.mp found).1, fun name => listIn_of_found found⟩
  refine ⟨fun row member => (balanced row member).formed, ?_, ?_, ?_, ?_, ?_⟩
  · intro id entry member block named
    obtain ⟨row, rowMem, lists⟩ := rowOf member
    rw [lists] at member ⊢
    exact ((balanced row rowMem).balanced block).mpr ⟨entry, member, named⟩
  · intro id block member
    obtain ⟨row, rowMem, lists⟩ := rowOf member
    rw [lists] at member ⊢
    exact .inl (((balanced row rowMem).balanced block).mp member)
  · simp
  · simp
  · simp

theorem RowsAccounted.balanced {table : Table} (accounted : RowsAccounted table [])
    (keys : TextKeys table) : RowsBalanced table := by
  intro row member
  obtain ⟨id, key⟩ := keys _ (KeyedTable.has_of_mem member)
  have found : table.get? (.str id) = some row := KeyedTable.get?_eq_some.mpr ⟨member, key⟩
  have lists (name : String) : listIn table id name = rowList row name := listIn_of_found found
  refine ⟨⟨id, key⟩, accounted.formed row member, fun block => ⟨?_, ?_⟩⟩
  · intro blockMem
    rw [← lists] at blockMem ⊢
    rcases accounted.blocks id block blockMem with entry | ⟨call, impossible, -⟩
    · exact entry
    · cases impossible
  · rintro ⟨entry, entryMem, named⟩
    rw [← lists] at entryMem ⊢
    exact accounted.entries id entry entryMem block named

theorem TextKeys.move {run next : WalletRun} {move : WalletMove} (keys : TextKeys run.table)
    (formed : run.process.Formed) (moved : walletStep run move = some next) :
    TextKeys next.table := by
  cases move with
  | call update =>
      obtain rfl := Option.some.inj moved
      exact keys
  | advance position =>
      obtain ⟨call, -, rfl⟩ := Option.map_eq_some_iff.mp moved
      obtain ⟨going, step, -⟩ := WalletRun.ask_callStep formed position call
      intro key has
      rcases step.has has with old | ⟨-, same⟩
      · exact keys key old
      · exact ⟨_, same⟩

/-- Between two states of a run the rows are kept and only grow. -/
theorem Reaches.walletRows {first last : WalletRun}
    (reached : Reaches walletStep PlainCall first last) (keys : TextKeys first.table)
    (accounted : RowsAccounted first.table first.running) :
    TextKeys last.table ∧ RowsAccounted last.table last.running ∧
      WalletsExtend first.table last.table := by
  refine reached.invariant (fun run => TextKeys run.table ∧ RowsAccounted run.table run.running ∧
    WalletsExtend first.table run.table) ⟨keys, accounted, .refl _⟩ ?_
  rintro current move next ⟨textKeys, account, extend⟩ plain moved
  exact ⟨textKeys.move account.formed moved, account.move plain moved,
    extend.trans (extend_move account.formed moved)⟩

/-! ## Pages of the history -/

theorem walletHistoryTransactions_eq {store : Store} (formed : WalletsFormed (store .wallets))
    (publicKey : String) (first limit : Nat) :
    getDataOf (Db.walletHistoryTransactions publicKey first limit store) =
      .arr (pageOf (listIn (store .wallets) publicKey "transactions") first
        ((first + limit) % 2 ^ 64 - first)) := by
  have yields := wallet_eq publicKey store
  cases found : (store .wallets).get? (.str publicKey) with
  | none =>
      rw [found] at yields
      have absent : listIn (store .wallets) publicKey "transactions" = [] := by
        simp [listIn, found]
      have noPage : pageOf ([] : List Json) first ((first + limit) % 2 ^ 64 - first) = [] := by
        simp [pageOf]
      rw [Db.walletHistoryTransactions, Cursor.slice, Cursor.field, yields, absent, noPage]
      rfl
  | some row =>
      rw [found] at yields
      have entries := Cursor.field_of_find? yields (formed.get? found).transactions
      rw [Db.walletHistoryTransactions, Cursor.slice, entries, listIn_of_found found]
      rfl

/-- A full page of a list stays as it is when the list grows. -/
theorem pageOf_of_prefix {Row : Type} {rows more : List Row} (grows : rows <+: more)
    {first width : Nat} (full : width ≤ (pageOf rows first width).length) :
    pageOf more first width = pageOf rows first width := by
  obtain ⟨rest, rfl⟩ := grows
  have enough : width ≤ rows.length - first := by
    simpa [pageOf] using full
  simp only [pageOf]
  by_cases none : width = 0
  · simp [none]
  · rw [List.drop_append_of_le_length (by omega),
      List.take_append_of_le_length (by simpa using enough)]

theorem prefix_listIn {table next : Table} (extend : WalletsExtend table next) (id : String) :
    listIn table id "transactions" <+: listIn next id "transactions" := by
  cases found : table.get? (.str id) with
  | none => simp [listIn, found]
  | some row =>
      obtain ⟨new, newFound, -, transactions⟩ := extend _ row found
      rw [listIn_of_found found, listIn_of_found newFound]
      exact transactions

/-- Any number of calls are begun and their queries interleave in any order, and
no check is misled by the row under the text of the index option.  Whenever no
call is under way every row is in balance and its lists are duplicate-free, and
the lists of any earlier time are prefixes of those, so full pages of entries
do not change. -/
theorem wallet_rows_kept {start middle final : WalletRun}
    (idle : start.running = []) (balanced : RowsBalanced start.table)
    (earlier : Reaches walletStep PlainCall start middle)
    (later : Reaches walletStep PlainCall middle final)
    (finalIdle : final.running = []) :
    (∀ row ∈ final.table.rows,
      (∀ block, block ∈ rowList row "blocks" ↔
        ∃ entry ∈ rowList row "transactions", entry.find? "block-id" = some block) ∧
      (rowList row "blocks").Nodup ∧ (rowList row "transactions").Nodup) ∧
    (∀ key row, middle.table.get? key = some row → ∃ new, final.table.get? key = some new ∧
      rowList row "blocks" <+: rowList new "blocks" ∧
      rowList row "transactions" <+: rowList new "transactions") ∧
    ∀ publicKey first limit,
      let page (run : WalletRun) :=
        getDataOf (Db.walletHistoryTransactions publicKey first limit run.process.store)
      (page middle).elements.length = limit → page final = page middle := by
  have initial : RowsAccounted start.table start.running := by
    rw [idle]
    exact balanced.accounted
  obtain ⟨middleKeys, middleAccount, -⟩ := earlier.walletRows balanced.textKeys initial
  obtain ⟨finalKeys, finalAccount, extend⟩ := later.walletRows middleKeys middleAccount
  refine ⟨?_, extend, ?_⟩
  · rw [finalIdle] at finalAccount
    intro row member
    have rowBalanced := finalAccount.balanced finalKeys row member
    exact ⟨rowBalanced.balanced, rowBalanced.formed.blocksNodup,
      rowBalanced.formed.transactionsNodup⟩
  · intro publicKey first limit page full
    have width : (first + limit) % 2 ^ 64 - first ≤ limit := by
      have := Nat.mod_le (first + limit) (2 ^ 64)
      omega
    dsimp only [page] at full ⊢
    rw [walletHistoryTransactions_eq middleAccount.formed] at full ⊢
    rw [walletHistoryTransactions_eq finalAccount.formed,
      pageOf_of_prefix (prefix_listIn extend publicKey) (width.trans_eq full.symm)]

def transferCall (address : String) (blockId : Nat) : WalletUpdate :=
  ⟨address, blockId, .ofMembers [("block-id", .num blockId), ("digest", .str "0x")]⟩

def quietRun : WalletRun := ⟨.idle .empty, []⟩

def interleavedMoves : List WalletMove :=
  [.call (transferCall "alice" 2), .call (transferCall "alice" 3),
    .advance 0, .advance 1, .advance 1, .advance 0, .advance 1, .advance 0]

/-- The wallet is created by a call that is alone. -/
theorem wallet_rows_kept_interleaved :
    ∃ middle final : WalletRun, Reaches walletStep PlainCall middle final ∧
      final.running = [] ∧ listIn final.table "alice" "blocks" = [.num 1, .num 3, .num 2] ∧
      getDataOf (Db.walletHistoryTransactions "alice" 0 1 final.process.store) =
        getDataOf (Db.walletHistoryTransactions "alice" 0 1 middle.process.store) := by
  obtain ⟨middle, earlier, full, found⟩ := Reaches.exists_of_runMoves walletStep PlainCall quietRun
    [.call (transferCall "alice" 1), .advance 0, .advance 0]
    (fun run =>
      (getDataOf (Db.walletHistoryTransactions "alice" 0 1 run.process.store)).elements.length =
        1 ∧
      (runMoves walletStep PlainCall run interleavedMoves).any (fun last =>
        decide (last.running = [] ∧
          listIn last.table "alice" "blocks" = [.num 1, .num 3, .num 2])) = true)
    (by decide +kernel)
  obtain ⟨final, later, finalIdle, blocks⟩ :=
    Reaches.exists_of_runMoves walletStep PlainCall middle interleavedMoves _ found
  have balanced : RowsBalanced quietRun.table := by
    intro row member
    cases member
  obtain ⟨-, -, pages⟩ := wallet_rows_kept rfl balanced earlier later finalIdle
  exact ⟨middle, final, later, finalIdle, blocks, pages "alice" 0 1 full⟩

/-- A call is about to insert a wallet when the row under the text of the index
option is inserted.  A second call for the wallet takes that row for the
wallet: its block finds no row to be added to, and its entry does. -/
theorem wallet_rows_unbalanced :
    ¬ ∀ run, Reaches walletStep JobCall quietRun run → run.running = [] →
      ∀ row ∈ run.table.rows, ∀ block, block ∈ rowList row "blocks" ↔
        ∃ entry ∈ rowList row "transactions", entry.find? "block-id" = some block := by
  intro always
  obtain ⟨run, reached, idle, row, member, ⟨entry, listed, named⟩, missing⟩ :=
    Reaches.exists_of_runMoves walletStep JobCall quietRun
      [.call (transferCall "alice" 1), .advance 0,
        .call (transferCall Db.indexText 1), .advance 1, .advance 1,
        .call (transferCall "alice" 2), .advance 1, .advance 1,
        .advance 0, .advance 0]
      (fun run => run.running = [] ∧ ∃ row ∈ run.table.rows,
        (∃ entry ∈ rowList row "transactions", entry.find? "block-id" = some (.num 2)) ∧
          .num 2 ∉ rowList row "blocks")
      (by decide +kernel)
  exact missing ((always run reached idle row member (.num 2)).mpr ⟨entry, listed, named⟩)

end MileExplorer
