import MileExplorer.BlocksThread
import MileExplorer.FaultyRuns
import MileExplorer.TransactionCopies
import MileExplorer.TransactionKeys

/-!
# What is stored comes from the chain

Whatever is in the tables of the blocks, the transactions and the wallets was
built from a block of the chain or from the genesis: a block row is the block
with its number and time, a transaction row is the copy that the stream half
makes of a transaction of the block, with a serial, and an entry of a wallet is
the one that the wallet half makes of a transaction in which the wallet takes
part.  No interleaving of the threads, no failing query and no restart brings
anything else there, and nothing is asked of the blocks.
-/

namespace MileExplorer

variable {platform : Platform} {around : Surroundings} {chain : Chain} {genesis : Json → Prop}

/-- The transactions of a block, none if they are not a list. -/
def Chain.transactions (chain : Chain) (number : Nat) : List Json :=
  match (chain number).json.find? "transactions" with
  | some (.arr transactions) => transactions
  | _ => []

/-- A time that the block gets when it is delivered. -/
def Chain.TimeOf (platform : Platform) (chain : Chain) (number : Nat) (time : Int) : Prop :=
  ∃ now, blockTime platform (chain number).json now = .ok time

/-- The row is a copy of a transaction of a block for one of its addresses. -/
def IsCopy (platform : Platform) (chain : Chain) (row : Json) : Prop :=
  ∃ (number : Nat) (trx : Json) (id : String) (time : Int),
    trx ∈ chain.transactions number ∧ id ∈ yields number trx ∧
      chain.TimeOf platform number time ∧ CopyOf platform number time id trx row

/-- The transaction is one of the block, or one of a genesis. -/
def IsRecorded (platform : Platform) (chain : Chain) (genesis : Json → Prop) (number : Nat)
    (time : Int) (trx : Json) : Prop :=
  (trx ∈ chain.transactions number ∧ chain.TimeOf platform number time) ∨
    (genesis trx ∧ number = 0 ∧ time = 0)

def HasParty (trx : Json) (address : String) : Prop :=
  trx.find? "from" = some (.str address) ∨ trx.find? "public-key" = some (.str address) ∨
    trx.find? "to" = some (.str address)

/-- The entry of a wallet's history is one that `add_wallet_transaction` makes
of a transaction in which the address takes part. -/
def IsEntry (platform : Platform) (chain : Chain) (genesis : Json → Prop) (address : String)
    (entry : Json) : Prop :=
  ∃ (number : Nat) (time : Int) (trx : Json) (id : String),
    IsRecorded platform chain genesis number time trx ∧ HasParty trx address ∧
      id ∈ yields number trx ∧ Db.walletEntry trx id number time = .ok entry

/-- The number is that of a block with such a transaction. -/
def IsHistoryBlock (platform : Platform) (chain : Chain) (genesis : Json → Prop)
    (address : String) (block : Json) : Prop :=
  ∃ (number : Nat) (time : Int) (trx : Json),
    IsRecorded platform chain genesis number time trx ∧ HasParty trx address ∧
      block = .num number

def HasItems (row : Json) (field : String) (property : Json → Prop) : Prop :=
  ∃ items, row.find? field = some (.arr items) ∧ ∀ item ∈ items, property item

def IsWalletHistory (platform : Platform) (chain : Chain) (genesis : Json → Prop) (row : Json) :
    Prop :=
  ∃ address, row.find? "id" = some (.str address) ∧
    HasItems row "blocks" (IsHistoryBlock platform chain genesis address) ∧
    HasItems row "transactions" (IsEntry platform chain genesis address)

def IsGenuine (platform : Platform) (chain : Chain) (genesis : Json → Prop) :
    TableName → Json → Prop
  | .blocks, row | .blocksProcessing, row => ∃ number, BlockRowOf platform chain number row
  | .transactionsProcessing, row =>
      row.find? "transaction-type" = some processingType ∨ IsCopy platform chain row
  | .transactions, row =>
      ∃ (copy : Json) (serial : Nat),
        IsCopy platform chain copy ∧ row = copy.set "serial" (.num serial)
  | .wallets, row => IsWalletHistory platform chain genesis row
  | _, _ => True

def Job.IsGenuine (platform : Platform) (chain : Chain) : Job → Prop
  | .wallet transactions number time | .stream transactions number time =>
      transactions = .arr (chain.transactions number) ∧ chain.TimeOf platform number time

/-- Every row and every queued job comes from the chain. -/
structure Genuine (platform : Platform) (chain : Chain) (genesis : Json → Prop)
    (process : Process) : Prop where
  rows : ∀ table, ∀ row ∈ (process.store table).rows, IsGenuine platform chain genesis table row
  jobs : ∀ job ∈ process.waiting ++ process.running, job.IsGenuine platform chain

/-- The program keeps this, and its results satisfy `post`. -/
abbrev KeepsGenuine {Result : Type} (platform : Platform) (chain : Chain)
    (genesis : Json → Prop) (post : Result → Prop) (program : Prog Result) : Prop :=
  program.Keeps Process.exec connectionLost (Genuine platform chain genesis) post

/-! ## The queries -/

namespace Genuine

variable {process : Process}

/-- Other queues of the fetcher. -/
theorem of_same {after : Process} (genuine : Genuine platform chain genesis process)
    (sameStore : after.store = process.store) (sameWaiting : after.waiting = process.waiting)
    (sameRunning : after.running = process.running) : Genuine platform chain genesis after := by
  constructor
  · rw [sameStore]
    exact genuine.rows
  · rw [sameWaiting, sameRunning]
    exact genuine.jobs

/-- A write to tables of which nothing is said. -/
theorem of_writesOnly {tables : List TableName} {after : Process}
    (free : ∀ table ∈ tables, ∀ row, IsGenuine platform chain genesis table row)
    (writes : WritesOnly tables process after) (genuine : Genuine platform chain genesis process) :
    Genuine platform chain genesis after := by
  constructor
  · intro table row member
    by_cases written : table ∈ tables
    · exact free table written row
    · rw [writes.1 table written] at member
      exact genuine.rows table row member
  · rw [writes.2.1, writes.2.2.1]
    exact genuine.jobs

theorem async (genuine : Genuine platform chain genesis process) {job : Job}
    (isGenuine : job.IsGenuine platform chain) :
    Genuine platform chain genesis { process with waiting := process.waiting ++ [job] } := by
  refine ⟨genuine.rows, fun other member => ?_⟩
  simp only [List.mem_append, List.mem_singleton] at member
  rcases member with (waiting | rfl) | running
  · exact genuine.jobs other (List.mem_append_left _ waiting)
  · exact isGenuine
  · exact genuine.jobs other (List.mem_append_right _ running)

/-- The table that a write leaves holds genuine rows. -/
theorem withTable (genuine : Genuine platform chain genesis process) {table : TableName} {rows : Table}
    (all : ∀ row ∈ rows.rows, IsGenuine platform chain genesis table row) :
    Genuine platform chain genesis
      { process with store := Function.update process.store table rows } := by
  refine ⟨fun another row member => ?_, genuine.jobs⟩
  by_cases same : another = table
  · subst same
    simp only [Function.update_self] at member
    exact all row member
  · simp only [Function.update_of_ne same] at member
    exact genuine.rows another row member

end Genuine

namespace Db

theorem insertEffect_keepsGenuine {table : TableName} {data : Json} {process : Process}
    {store : Store} (genuine : Genuine platform chain genesis process)
    (object : ∀ members, data = .obj members → IsGenuine platform chain genesis table data)
    (array : ∀ documents, data = .arr documents →
      ∀ document ∈ documents, IsGenuine platform chain genesis table document)
    (done : insertEffect table data process.store = .ok store) :
    Genuine platform chain genesis { process with store := store } := by
  cases data <;> simp only [insertEffect, Except.ok.injEq, reduceCtorEq] at done
  · rename_i documents
    subst done
    refine genuine.withTable fun row member => ?_
    rcases KeyedTable.mem_of_mem_insertMany member with old | new
    · exact genuine.rows table row old
    · exact array documents rfl row new
  · rename_i members
    subst done
    refine genuine.withTable fun row member => ?_
    rcases KeyedTable.mem_insert.mp member with old | ⟨rfl, -⟩
    · exact genuine.rows table row old
    · exact object members rfl

theorem insert_keepsGenuine {site : Site} {table : TableName} {data : Json}
    (object : ∀ members, data = .obj members → IsGenuine platform chain genesis table data)
    (array : ∀ documents, data = .arr documents →
      ∀ document ∈ documents, IsGenuine platform chain genesis table document) :
    KeepsGenuine platform chain genesis (fun _ => True) (insert site table data) :=
  write_keeps fun _ _ genuine done => insertEffect_keepsGenuine genuine object array done

theorem insertObject_keepsGenuine {site : Site} {table : TableName} {data : Json}
    (isGenuine : IsGenuine platform chain genesis table data) (isObj : data.isObject = true) :
    KeepsGenuine platform chain genesis (fun _ => True) (insert site table data) := by
  refine insert_keepsGenuine (fun _ _ => isGenuine) fun documents isArray => ?_
  simp [isArray, Json.isObject] at isObj

theorem remove_keepsGenuine {site : Site} {table : TableName} {id : String} :
    KeepsGenuine platform chain genesis (fun _ => True) (remove site table id) := by
  refine write_keeps fun process store genuine done => ?_
  obtain rfl := Except.ok.inj done
  exact genuine.withTable fun row member =>
    genuine.rows table row (KeyedTable.mem_erase.mp member).1

theorem keepsGenuine_of_writesOnly {Result : Type} (tables : List TableName)
    {program : Prog Result} (free : ∀ table ∈ tables, ∀ row, IsGenuine platform chain genesis table row)
    (steps : program.Steps Process.exec (WritesOnly tables)) :
    KeepsGenuine platform chain genesis (fun _ => True) program :=
  steps.keeps fun _ _ writes genuine => genuine.of_writesOnly free writes

/-- A queue operation that leaves the tables and the jobs. -/
theorem request_keepsGenuine {Result : Type} {query : Query}
    {read : Except DbError Json → Result}
    (kept : ∀ process, Genuine platform chain genesis process →
      Genuine platform chain genesis (Process.exec query process).2) :
    KeepsGenuine platform chain genesis (fun _ => True) (Program.request query read) :=
  .request trivial fun process genuine => ⟨kept process genuine, trivial⟩

/-- The rows that a pass works on were genuine when it read them. -/
theorem snapshot_keepsGenuine {site : Site} (table : TableName) (index : String) :
    KeepsGenuine platform chain genesis
      (fun items : Json => ∀ item ∈ items.elements, IsGenuine platform chain genesis table item)
      (getData site ((cursor table).sort index)) := by
  refine getData_keeps (by simp [Json.elements]) fun process genuine item member => ?_
  rw [Cursor.elements_sort] at member
  exact genuine.rows table item (Cursor.mem_ordered.mp member).1

/-! ## Blocks -/

theorem timeOf_itemWork {number : Nat} {item transactions : Json} {time : Int}
    (rowOf : BlockRowOf platform chain number item)
    (work : itemWork item = .ok (time, transactions)) :
    chain.TimeOf platform number time ∧
      (chain number).json.find? "transactions" = some transactions := by
  obtain ⟨now, built⟩ := rowOf.built
  have listed := rowOf.members.2.2.2.2.symm.trans (itemWork_transactions work)
  refine ⟨⟨now, ?_⟩, listed⟩
  obtain ⟨stored, -, rest⟩ := bind_eq_ok.mp built
  have isObj := Json.isObject_of_find? (chain number).idEq
  cases json : (chain number).json with
  | obj members =>
      rw [json] at rest
      obtain ⟨arrived, arrivedEq, done⟩ := bind_eq_ok.mp rest
      obtain ⟨stamp, stampEq, rest⟩ := bind_eq_ok.mp work
      obtain ⟨converted, convertedEq, rest⟩ := bind_eq_ok.mp rest
      obtain ⟨found, -, done'⟩ := bind_eq_ok.mp rest
      obtain ⟨rfl, -⟩ := Prod.mk.inj (Except.ok.inj done')
      have stampAt : item.find? "timestamp" = some (.num arrived) := by
        rw [← Except.ok.inj done]
        have asObject : (Json.obj members).isObject = true := rfl
        simp [asObject]
      rw [Json.index_of_find? stampAt] at stampEq
      obtain rfl := Except.ok.inj stampEq
      obtain rfl := Except.ok.inj convertedEq
      exact arrivedEq
  | _ => simp [json, Json.isObject] at isObj

theorem addTransactions_keepsGenuine {number : Nat} {transactions : Json} {time : Int}
    (timed : chain.TimeOf platform number time)
    (listed : (chain number).json.find? "transactions" = some transactions) :
    KeepsGenuine platform chain genesis (fun _ => True) (addTransactions transactions number time) := by
  unfold addTransactions
  split_ifs with isArray
  · have streamed : transactions = .arr (chain.transactions number) := by
      cases transactions <;> simp [Json.isArray] at isArray
      simp [Chain.transactions, listed]
    have queues (job : Job) (isGenuine : job.IsGenuine platform chain) :
        KeepsGenuine platform chain genesis (fun _ => True)
          (Program.request (.async job) fun _ => ()) :=
      request_keepsGenuine fun process genuine => genuine.async isGenuine
    exact (queues (.wallet transactions number time) ⟨streamed, timed⟩).bind fun _ _ =>
      queues (.stream transactions number time) ⟨streamed, timed⟩
  · exact insertObject_keepsGenuine
      (.inl (by simp [markerRow, Json.find?_ofMembers, Json.member?_setMember])) rfl

theorem processBlock_keepsGenuine {number : Nat} {item : Json}
    (rowOf : BlockRowOf platform chain number item) :
    KeepsGenuine platform chain genesis (fun _ => True) (processBlock item number) := by
  refine getNumber_keeps.bind fun prevBid _ => ?_
  split_ifs
  · trivial
  · refine getData_keeps_any.bind fun row _ => ?_
    cases work : itemWork item with
    | error exception => trivial
    | ok value =>
        obtain ⟨time, transactions⟩ := value
        obtain ⟨timed, listed⟩ := timeOf_itemWork rowOf work
        have stores (found : Bool) : KeepsGenuine platform chain genesis (fun _ => True)
            (storeBlock item (toString number) found) := by
          unfold storeBlock
          split_ifs
          · exact remove_keepsGenuine
          · refine (insertObject_keepsGenuine ?_ ?_).bind fun _ _ => remove_keepsGenuine
            · exact ⟨number, rowOf⟩
            · exact Json.isObject_of_find? rowOf.id
        exact (addTransactions_keepsGenuine timed listed).bind fun _ _ =>
          (stores _).bind fun _ _ => trivial

theorem processBlocks_keepsGenuine {items : List Json}
    (rowsOf : ∀ item ∈ items, ∃ number, BlockRowOf platform chain number item) :
    KeepsGenuine platform chain genesis (fun _ => True) (processBlocks items) := by
  induction items with
  | nil => trivial
  | cons item rest ih =>
      obtain ⟨number, rowOf⟩ := rowsOf item (by simp)
      rw [processBlocks, rowOf.index_blockId]
      refine (processBlock_keepsGenuine rowOf).bind fun goesOn _ => ?_
      split_ifs
      · exact ih fun other member => rowsOf other (by simp [member])
      · trivial

theorem blocksProcessing_keepsGenuine :
    KeepsGenuine platform chain genesis (fun _ => True) blocksProcessing := by
  exact (snapshot_keepsGenuine .blocksProcessing "block-id").bind fun items rowsOf =>
    processBlocks_keepsGenuine rowsOf

theorem addBlock_keepsGenuine (number : Nat) (now : Int) :
    KeepsGenuine platform chain genesis (fun _ => True)
      (addBlock platform (chain number).json number now) := by
  refine getData_keeps_any.bind fun row _ => ?_
  split_ifs
  · trivial
  · cases built : blockRow platform (chain number).json number now with
    | error exception => trivial
    | ok row =>
        have rowOf : BlockRowOf platform chain number row := ⟨now, built⟩
        exact insertObject_keepsGenuine ⟨number, rowOf⟩ (Json.isObject_of_find? rowOf.id)

/-! ## The stream half -/

/-- A transaction with an address has a textual id. -/
theorem numbered_of_findPublicKeys {trx : Json} {blockId : String}
    {entries : List (String × String)} (found : findPublicKeys trx blockId = .ok entries) :
    ∀ entry ∈ entries, ∃ text, trx.find? "transaction-id" = some (.str text) := by
  obtain ⟨senders, first, rest⟩ := bind_eq_ok.mp found
  obtain ⟨keys, second, done⟩ := bind_eq_ok.mp rest
  obtain rfl : keys = entries := Except.ok.inj done
  intro entry member
  rcases addPublicKey_cases second with ⟨-, rfl⟩ | ⟨_, text, -, numbered, -⟩
  · rcases addPublicKey_cases first with ⟨-, rfl⟩ | ⟨_, text, -, numbered, -⟩
    · simp at member
    · exact ⟨text, numbered⟩
  · exact ⟨text, numbered⟩

def Copies (platform : Platform) (chain : Chain) (result : Except Exn (List Json)) : Prop :=
  ∀ rows, result = .ok rows → ∀ row ∈ rows, IsCopy platform chain row

theorem addStreamEntries_keepsGenuine {number : Nat} {trx : Json} {time : Int}
    (timed : chain.TimeOf platform number time) (listed : trx ∈ chain.transactions number)
    {entries : List (String × String)}
    (numbered : ∀ entry ∈ entries, ∃ text, trx.find? "transaction-id" = some (.str text))
    (yielded : ∀ entry ∈ entries, entry.2 ∈ yields number trx) {current : Json}
    (alike : current = trx ∨ ∃ id, CopyOf platform number time id trx current)
    {output : List Json} (before : ∀ row ∈ output, IsCopy platform chain row) :
    KeepsGenuine platform chain genesis (Copies platform chain)
      (addStreamEntries platform number time current output entries) := by
  induction entries generalizing current output with
  | nil =>
      rintro rows rowsEq row member
      exact before row (Except.ok.inj rowsEq ▸ member)
  | cons entry rest ih =>
      have later := @ih (fun other member => numbered other (by simp [member]))
        (fun other member => yielded other (by simp [member]))
      refine getData_keeps_any.bind fun row _ => ?_
      split_ifs
      · exact later alike before
      · cases built : streamRow platform number time entry.2 current with
        | error exception =>
            rintro rows rowsEq
            cases rowsEq
        | ok copy =>
            obtain ⟨text, numberedText⟩ := numbered entry (by simp)
            have isCopy : CopyOf platform number time entry.2 trx copy := by
              rcases alike with rfl | ⟨id, already⟩
              · exact ⟨copy, built, fun _ => rfl⟩
              · exact already.again numberedText built
            refine later (.inr ⟨entry.2, isCopy⟩) fun other member => ?_
            rcases List.mem_append.mp member with old | new
            · exact before other old
            · rw [List.mem_singleton.mp new]
              exact ⟨number, trx, entry.2, time, listed, yielded entry (by simp), timed, isCopy⟩

theorem addStreamTransactions_keepsGenuine {number : Nat} {time : Int}
    (timed : chain.TimeOf platform number time) {transactions output : List Json}
    (listed : ∀ trx ∈ transactions, trx ∈ chain.transactions number)
    (before : ∀ row ∈ output, IsCopy platform chain row) :
    KeepsGenuine platform chain genesis (Copies platform chain)
      (addStreamTransactions platform number time output transactions) := by
  induction transactions generalizing output with
  | nil =>
      rintro rows rowsEq row member
      exact before row (Except.ok.inj rowsEq ▸ member)
  | cons trx rest ih =>
      have first : KeepsGenuine platform chain genesis (Copies platform chain)
          (addStreamTransaction platform number time output trx) := by
        unfold addStreamTransaction
        cases found : findPublicKeys trx (toString number) with
        | error exception =>
            rintro rows rowsEq
            cases rowsEq
        | ok entries =>
            refine addStreamEntries_keepsGenuine timed (listed trx (by simp))
              (numbered_of_findPublicKeys found) (fun entry member => ?_) (.inl rfl) before
            rw [yields, found]
            exact List.mem_map_of_mem member
      refine first.bind fun result copies => ?_
      cases result with
      | error exception =>
          rintro rows rowsEq
          cases rowsEq
      | ok output =>
          exact ih (fun other member => listed other (by simp [member])) (copies output rfl)

/-! ## The wallet half -/

structure AddsHistory (platform : Platform) (chain : Chain) (genesis : Json → Prop)
    (address : String) (number : Nat) (entry : Json) : Prop where
  block : IsHistoryBlock platform chain genesis address (.num number)
  entry : IsEntry platform chain genesis address entry

theorem HasItems.unionField {row new item : Json} {field : String} {property : Json → Prop}
    (isObj : row.isObject = true) (has : HasItems row field property) (isItem : property item)
    (added : unionField field (.arr [item]) row = .ok new) :
    HasItems new field property ∧ ∀ other ≠ field, new.find? other = row.find? other := by
  obtain ⟨items, itemsEq, all⟩ := has
  obtain rfl : row.set field (.arr (Json.setUnion items [item])) = new := by
    simpa [Db.unionField, itemsEq, Json.coerceToArray, bind, Except.bind, pure, Except.pure]
      using added
  refine ⟨⟨Json.setUnion items [item], by simp [isObj], fun other member => ?_⟩,
    fun other differs => by simp [isObj, Ne.symm differs]⟩
  rcases Json.mem_setUnion.mp member with old | new
  · exact all other old
  · rw [List.mem_singleton.mp new]
    exact isItem

/-- A write of one field of a wallet, on rows of which nothing else is known. -/
theorem unionEffect_keepsGenuine {address field : String} {item : Json} {process : Process}
    {store : Store} (genuine : Genuine platform chain genesis process)
    (adds : ∀ row new, IsWalletHistory platform chain genesis row →
      row.find? "id" = some (.str address) → unionField field (.arr [item]) row = .ok new →
        IsWalletHistory platform chain genesis new)
    (done : unionEffect .wallets address field (.arr [item]) process.store = .ok store) :
    Genuine platform chain genesis { process with store := store } := by
  unfold unionEffect at done
  split at done
  · obtain rfl := Except.ok.inj done
    exact genuine
  · rename_i row found
    obtain ⟨new, added, rest⟩ := bind_eq_ok.mp done
    obtain rfl := Except.ok.inj rest
    obtain ⟨member, keyed⟩ := KeyedTable.get?_eq_some.mp found
    have history : IsWalletHistory platform chain genesis row := genuine.rows .wallets row member
    have identified : row.find? "id" = some (.str address) := by
      obtain ⟨own, idEq, -⟩ := history
      rw [docId_of_find? idEq] at keyed
      rw [idEq, keyed]
    refine genuine.withTable fun other otherMem => ?_
    rw [KeyedTable.rows_modify] at otherMem
    obtain ⟨old, oldMem, rfl⟩ := List.mem_map.mp otherMem
    split_ifs
    · exact adds row new history identified added
    · exact genuine.rows .wallets old oldMem

theorem updateFields_keepsGenuine {row address : String} {number : Nat} {entry : Json}
    (adds : AddsHistory platform chain genesis address number entry) :
    KeepsGenuine platform chain genesis (fun _ => True)
      (updateFields row .wallets address (walletFields number entry)) := by
  have addsBlock (stored new : Json) (history : IsWalletHistory platform chain genesis stored)
      (identified : stored.find? "id" = some (.str address))
      (added : unionField "blocks" (.arr [.num number]) stored = .ok new) :
      IsWalletHistory platform chain genesis new := by
    obtain ⟨own, idEq, blocks, ⟨items, itemsEq, all⟩⟩ := history
    obtain rfl : own = address := by simpa [idEq] using identified
    obtain ⟨has, same⟩ :=
      HasItems.unionField (Json.isObject_of_find? idEq) blocks adds.block added
    exact ⟨own, by rw [same _ (by decide), idEq], has, items, by rw [same _ (by decide), itemsEq],
      all⟩
  have addsEntry (stored new : Json) (history : IsWalletHistory platform chain genesis stored)
      (identified : stored.find? "id" = some (.str address))
      (added : unionField "transactions" (.arr [entry]) stored = .ok new) :
      IsWalletHistory platform chain genesis new := by
    obtain ⟨own, idEq, ⟨items, itemsEq, all⟩, entries⟩ := history
    obtain rfl : own = address := by simpa [idEq] using identified
    obtain ⟨has, same⟩ :=
      HasItems.unionField (Json.isObject_of_find? idEq) entries adds.entry added
    exact ⟨own, by rw [same _ (by decide), idEq], ⟨items, by rw [same _ (by decide), itemsEq],
      all⟩, has⟩
  have fresh : IsWalletHistory platform chain genesis
      (fieldRow address (walletFields number entry)) := by
    refine ⟨address, ?_, ⟨[.num number], ?_, ?_⟩, ⟨[entry], ?_, ?_⟩⟩
    · simp [fieldRow, walletFields, Json.find?_ofMembers, Json.member?_setMember]
    · simp [fieldRow, walletFields, Json.find?_ofMembers, Json.member?_setMember]
    · simpa using adds.block
    · simp [fieldRow, walletFields, Json.find?_ofMembers, Json.member?_setMember]
    · simpa using adds.entry
  refine updateFields_keeps (fun process store genuine done => ?_)
    fun field member process store genuine done => ?_
  · have isGenuine : IsGenuine platform chain genesis .wallets
        (fieldRow address (walletFields number entry)) := fresh
    exact insertEffect_keepsGenuine genuine (fun _ _ => isGenuine)
      (fun _ isArray => by simp [fieldRow, Json.ofMembers] at isArray) done
  · rcases List.mem_pair.mp member with rfl | rfl
    · exact unionEffect_keepsGenuine genuine addsBlock done
    · exact unionEffect_keepsGenuine genuine addsEntry done

theorem addWalletEntries_keepsGenuine {trx : Json} {number : Nat} {time : Int}
    (recorded : IsRecorded platform chain genesis number time trx)
    {entries : List (String × String)}
    (yielded : ∀ entry ∈ entries, entry.2 ∈ yields number trx ∧ HasParty trx entry.1) :
    KeepsGenuine platform chain genesis (fun _ => True)
      (addWalletEntries trx number time entries) := by
  have updates {address id : String} {item : Json} (party : HasParty trx address)
      (listed : id ∈ yields number trx) (made : walletEntry trx id number time = .ok item) :
      KeepsGenuine platform chain genesis (fun _ => True)
        (updateWallet address id (walletFields number item)) := by
    refine (updateFields_keepsGenuine ⟨⟨number, time, trx, recorded, party, rfl⟩,
      ⟨number, time, trx, id, recorded, party, listed, made⟩⟩).bind fun _ _ => ?_
    exact request_keepsGenuine fun _ genuine => genuine.of_same rfl rfl rfl
  induction entries with
  | nil => trivial
  | cons entry rest ih =>
      obtain ⟨listed, party⟩ := yielded entry (by simp)
      have later := ih fun other member => yielded other (by simp [member])
      unfold addWalletEntries
      cases made : walletEntry trx entry.2 number time with
      | error exception => trivial
      | ok item =>
          refine (updates party listed made).bind fun _ _ => ?_
          cases receiverEq : trx.find? "to" with
          | none => exact later
          | some receiver =>
              cases textEq : receiver.getString with
              | error exception => simp [textEq]; trivial
              | ok text =>
                  have isText : receiver = .str text := by
                    cases receiver <;> simp_all [Json.getString]
                  simp only [textEq]
                  exact (updates (.inr (.inr (isText ▸ receiverEq))) listed made).bind
                    fun _ _ => later

theorem addWalletTransaction_keepsGenuine {trx : Json} {number : Nat} {time : Int}
    (recorded : IsRecorded platform chain genesis number time trx) :
    KeepsGenuine platform chain genesis (fun _ => True)
      (addWalletTransaction trx number time) := by
  unfold addWalletTransaction
  cases numbered : stoull number with
  | error exception => trivial
  | ok value =>
      obtain rfl : number = value := by
        unfold stoull at numbered
        split_ifs at numbered
        exact Except.ok.inj numbered
      cases found : findPublicKeys trx (toString number) with
      | error exception => trivial
      | ok entries =>
          refine addWalletEntries_keepsGenuine recorded fun entry member => ⟨?_, ?_⟩
          · rw [yields, found]
            exact List.mem_map_of_mem member
          · obtain ⟨text, numberedText⟩ := numbered_of_findPublicKeys found entry member
            exact ((mem_findPublicKeys numberedText found).mp member).1.imp_right .inl

theorem walletJob_keepsGenuine {number : Nat} {time : Int}
    (timed : chain.TimeOf platform number time) {transactions : List Json}
    (listed : ∀ trx ∈ transactions, trx ∈ chain.transactions number) :
    KeepsGenuine platform chain genesis (fun _ => True) (walletJob number time transactions) := by
  induction transactions with
  | nil => trivial
  | cons trx rest ih =>
      refine (addWalletTransaction_keepsGenuine (.inl ⟨listed trx (by simp), timed⟩)).bind
        fun result _ => ?_
      cases result with
      | error exception => trivial
      | ok _ => exact ih fun other member => listed other (by simp [member])

theorem jobBody_keepsGenuine {job : Job} (isGenuine : job.IsGenuine platform chain) :
    KeepsGenuine platform chain genesis (fun _ => True) (jobBody platform job) := by
  cases job with
  | wallet transactions number time =>
      obtain ⟨rfl, timed⟩ := isGenuine
      exact walletJob_keepsGenuine timed fun _ => id
  | stream transactions number time =>
      obtain ⟨rfl, timed⟩ := isGenuine
      refine (addStreamTransactions_keepsGenuine timed (fun _ => id)
        (by simp)).bind fun result copies => ?_
      cases result with
      | error exception => trivial
      | ok rows =>
          refine insert_keepsGenuine (fun members isObj => ?_) fun documents isArr row member => ?_
          · unfold streamValue at isObj
            split_ifs at isObj
          · unfold streamValue at isArr
            split_ifs at isArr
            obtain rfl := Json.arr.inj isArr
            exact .inr (copies rows rfl row member)

theorem runJob_keepsGenuine {job : Job} (isGenuine : job.IsGenuine platform chain) :
    KeepsGenuine platform chain genesis (fun _ => True) (runJob platform job) := by
  refine (jobBody_keepsGenuine isGenuine).bind fun _ _ =>
    request_keepsGenuine fun process genuine => ?_
  refine ⟨genuine.rows, fun other member => genuine.jobs other ?_⟩
  rcases List.mem_append.mp member with waiting | running
  · exact List.mem_append_left _ waiting
  · exact List.mem_append_right _ (List.mem_of_mem_erase running)

/-! ## The genesis -/

theorem updateGenesisRow_keepsGenuine (id : String) (serial : Nat) (element : Genesis.Element) :
    KeepsGenuine platform chain genesis (fun _ => True) (updateGenesisRow id serial element) := by
  refine keepsGenuine_of_writesOnly [.genesisTransactions] (by simp [IsGenuine]) ?_
  unfold updateGenesisRow
  split
  · exact (updateFields_steps _ _ _ (by decide)).bind fun _ => trivial
  · refine ⟨read_writesOnly _ _, fun status => ?_⟩
    dsimp only
    split <;> trivial

theorem addGenesisTransactions_keepsGenuine {elements : List Genesis.Element}
    (loads : ∀ element ∈ elements, genesis element.value) (serial : Nat) :
    KeepsGenuine platform chain genesis (fun _ => True)
      (addGenesisTransactions serial elements) := by
  induction elements generalizing serial with
  | nil => trivial
  | cons element rest ih =>
      have first : KeepsGenuine platform chain genesis (fun _ => True)
          (addGenesisTransaction serial element) := by
        refine (addWalletTransaction_keepsGenuine
          (.inr ⟨loads element (by simp), rfl, rfl⟩)).bind fun result _ => ?_
        cases result with
        | error exception => trivial
        | ok _ =>
            dsimp only
            split
            · trivial
            · exact updateGenesisRow_keepsGenuine _ _ _
      refine first.bind fun result _ => ?_
      cases result with
      | error exception => trivial
      | ok _ => exact ih (fun other member => loads other (by simp [member])) _

theorem updateGenesis_keepsGenuine {elements : List Genesis.Element}
    (loads : ∀ element ∈ elements, genesis element.value) :
    KeepsGenuine platform chain genesis (fun _ => True) (updateGenesis elements) := by
  have queues (items : List Json) : KeepsGenuine platform chain genesis (fun _ => True)
      (updateWalletsStateFor items) := by
    induction items with
    | nil => trivial
    | cons item rest ih =>
        unfold updateWalletsStateFor
        split
        · trivial
        · exact (request_keepsGenuine fun _ genuine => genuine.of_same rfl rfl rfl).bind
            fun _ _ => ih
  refine (addGenesisTransactions_keepsGenuine loads 0).bind fun result _ => ?_
  cases result with
  | error exception => trivial
  | ok _ => exact getData_keeps_any.bind fun items _ => queues _

/-! ## Transactions -/

theorem processTransactions_keepsGenuine {prevBid lastCount : Nat} {items : List Json}
    (genuine : ∀ item ∈ items, IsGenuine platform chain genesis .transactionsProcessing item) :
    KeepsGenuine platform chain genesis (fun _ => True)
      (processTransactions prevBid lastCount items) := by
  induction items generalizing prevBid lastCount with
  | nil => trivial
  | cons item rest ih =>
      have later {prevBid lastCount : Nat} : KeepsGenuine platform chain genesis (fun _ => True)
          (processTransactions prevBid lastCount rest) :=
        ih fun other member => genuine other (by simp [member])
      have counts (row : String) (count blockId : Nat) :
          KeepsGenuine platform chain genesis (fun _ => True) (updateState row count blockId) :=
        keepsGenuine_of_writesOnly _ (by simp [IsGenuine])
          (updateState_steps row count blockId (List.mem_singleton_self TableName.transactionsState))
      unfold processTransactions
      cases headEq : itemHead item with
      | error exception => trivial
      | ok head =>
          obtain ⟨bid, trxid, type⟩ := head
          dsimp only
          cases treated : disposition prevBid bid type with
          | marker => exact remove_keepsGenuine.bind fun _ _ => later
          | forward => trivial
          | take =>
              refine getData_keeps_any.bind fun row _ => ?_
              split_ifs
              · exact remove_keepsGenuine.bind fun _ _ => later
              · have isCopy : IsCopy platform chain item := by
                  refine (genuine item (by simp)).resolve_left fun isMarker => ?_
                  obtain ⟨-, typeEq⟩ := find?_of_itemHead headEq
                  exact disposition_take treated
                    (Option.some.inj (typeEq.symm.trans isMarker))
                have isObj : (item.set "serial" (.num lastCount)).isObject = true := by
                  simp [Json.isObject_of_find? (find?_of_itemHead headEq).1]
                have stored : IsGenuine platform chain genesis .transactions
                    (item.set "serial" (.num lastCount)) := ⟨item, lastCount, isCopy, rfl⟩
                exact (insertObject_keepsGenuine stored isObj).bind fun _ _ =>
                  (counts _ _ _).bind fun _ _ => remove_keepsGenuine.bind fun _ _ => later

theorem transactionsProcessing_keepsGenuine (prevBid : Nat) :
    KeepsGenuine platform chain genesis (fun _ => True) (transactionsProcessing prevBid) := by
  refine (snapshot_keepsGenuine .transactionsProcessing "block-id").bind fun items genuine => ?_
  have counts : KeepsGenuine platform chain genesis (fun _ => True) readLastCount :=
    keepsGenuine_of_writesOnly _ (by simp [IsGenuine])
      (readLastCount_steps (List.mem_singleton_self TableName.transactionsState))
  exact counts.bind fun lastCount _ => processTransactions_keepsGenuine genuine

theorem migration_keepsGenuine (indexerVersion : Nat) (now : Int) :
    KeepsGenuine platform chain genesis (fun _ => True) (migration indexerVersion now) := by
  have beside {Result : Type} {program : Prog Result}
      (steps : program.Steps Process.exec (WritesOnly [.metadata])) :
      KeepsGenuine platform chain genesis (fun _ => True) program :=
    keepsGenuine_of_writesOnly _ (by simp [IsGenuine]) steps
  have flushes : KeepsGenuine platform chain genesis (fun _ => True) flush := by
    refine getNumber_keeps.bind fun state _ => getNumber_keeps.bind fun processing _ => ?_
    dsimp only
    split_ifs
    · refine write_keeps fun process store genuine done => ?_
      obtain rfl := Except.ok.inj done
      exact genuine.withTable fun row member =>
        genuine.rows _ row (KeyedTable.mem_eraseWhere.mp member).1
    · trivial
  exact (beside getVersion_steps).bind fun _ _ => getNumber_keeps.bind fun old _ =>
    (beside (removeOldVersion_steps old (by decide))).bind fun _ _ =>
      (beside (upgrade_steps indexerVersion now (by decide))).bind fun _ _ => flushes

end Db

/-! ## Runs -/

theorem genuine_keeping : Faulty.Keeping platform around chain genesis (Genuine platform chain genesis) where
  migrating start := (Db.migration_keepsGenuine _ _).bind fun _ _ => trivial
  blocks := Db.blocksProcessing_keepsGenuine.bind fun _ _ => trivial
  transactions prevBid := (Db.transactionsProcessing_keepsGenuine prevBid).bind
    fun _ _ => trivial
  starter := Db.getNumber_keeps.bind fun _ _ =>
    Db.request_keepsGenuine fun _ genuine => genuine.of_same rfl rfl rfl
  worker process job genuine waiting :=
    (Db.runJob_keepsGenuine (genuine.jobs job (List.mem_append_left _ waiting))).bind
      fun _ _ => trivial
  delivery number now := (Db.addBlock_keepsGenuine number now).bind fun _ _ =>
    Db.request_keepsGenuine fun _ genuine => genuine.of_same rfl rfl rfl
  tasks task loads := by
    have writes := task.thread_writesOnly around
    cases task with
    | genesis elements =>
        have loaded : KeepsGenuine platform chain genesis (fun _ => True)
            ((SideTask.genesis elements).program around) :=
          (Db.updateGenesis_keepsGenuine loads).bind fun _ _ => trivial
        exact loaded.bind fun _ _ => trivial
    | _ => exact Db.keepsGenuine_of_writesOnly _ (by simp [SideTask.tables, IsGenuine]) writes
  fetcher _ _ genuine := genuine.of_same rfl rfl rfl
  take process position job found genuine := by
    refine ⟨genuine.rows, fun other member => ?_⟩
    simp only [Indexer.take, List.mem_append, List.mem_singleton] at member
    rcases member with waiting | running | rfl
    · exact genuine.jobs other (List.mem_append_left _ (List.mem_of_mem_eraseIdx waiting))
    · exact genuine.jobs other (List.mem_append_right _ running)
    · exact genuine.jobs other (List.mem_append_left _ (List.mem_of_getElem? found))
  restart _ genuine := ⟨genuine.rows, by simp [Process.idle]⟩

theorem genuine_of_reaches {start : Start} {world : World}
    (reached : Faulty.ReachesFrom platform around chain genesis (Indexer.firstBoot start) world) :
    Genuine platform chain genesis world.shared := by
  refine genuine_keeping.holds_of_reaches ⟨fun table row member => ?_, by simp [Process.idle]⟩
    reached
  simp [Process.idle, Store.empty] at member

end MileExplorer
