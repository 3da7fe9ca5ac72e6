import MileExplorer.WalletUpdates

/-!
# Wallets after one call and after many

Run alone, `add_wallet_transaction` is a sequence of calls of `Table::update`,
and each of them inserts a wallet, adds to its two lists, or does nothing
because the row of another wallet hides that this one is missing.
-/

namespace MileExplorer

/-- One call of `Table::update` on the wallets. -/
structure WalletUpdate where
  address : String
  call : WalletCall
  deriving DecidableEq

/-- The calls made for the addresses of a transaction, and how the loop of
`add_wallet_transaction` ends. -/
def entryUpdates (trx : Json) (blockId : Nat) (time : Int) :
    List (String × String) → List WalletUpdate × Except Exn Unit
  | [] => ([], .ok ())
  | (address, uniqId) :: rest =>
      match Db.walletEntry trx uniqId blockId time with
      | .error exception => ([], .error exception)
      | .ok entry =>
          match trx.find? "to" with
          | none =>
              let (later, result) := entryUpdates trx blockId time rest
              (⟨address, blockId, entry⟩ :: later, result)
          | some receiver =>
              match receiver.getString with
              | .error exception => ([⟨address, blockId, entry⟩], .error exception)
              | .ok receiver =>
                  let (later, result) := entryUpdates trx blockId time rest
                  (⟨address, blockId, entry⟩ :: ⟨receiver, blockId, entry⟩ :: later, result)

/-- The calls that `add_wallet_transaction` makes, and how it ends. -/
def walletUpdates (trx : Json) (blockId : Nat) (time : Int) :
    List WalletUpdate × Except Exn Unit :=
  match stoull blockId, findPublicKeys trx (toString blockId) with
  | .ok number, .ok entries => entryUpdates trx number time entries
  | .error exception, _ => ([], .error exception)
  | _, .error exception => ([], .error exception)

/-- The calls that the wallet job of a block makes. -/
def jobUpdates (blockId : Nat) (time : Int) : List Json → List WalletUpdate
  | [] => []
  | trx :: rest =>
      match walletUpdates trx blockId time with
      | (updates, .error _) => updates
      | (updates, .ok _) => updates ++ jobUpdates blockId time rest

/-! ## Rows of wallets -/

def rowList (row : Json) (field : String) : List Json :=
  match row.find? field with
  | some (.arr elements) => elements
  | _ => []

theorem rowList_of_find? {row : Json} {field : String} {elements : List Json}
    (listed : row.find? field = some (.arr elements)) : rowList row field = elements := by
  simp [rowList, listed]

theorem walletList_eq_rowList {id field : String} {store : Store} {row : Json}
    (found : (store .wallets).get? (.str id) = some row) :
    walletList id field store = rowList row field := by
  simp only [walletList, found]
  rfl

/-- A row as `Table::update` inserts and extends it: both lists are there and
hold no element twice. -/
structure IsWalletRow (row : Json) : Prop where
  ordered : ∃ members, row = .obj members ∧ Json.Ordered members
  blocks : row.find? "blocks" = some (.arr (rowList row "blocks"))
  transactions : row.find? "transactions" = some (.arr (rowList row "transactions"))
  blocksNodup : (rowList row "blocks").Nodup
  transactionsNodup : (rowList row "transactions").Nodup

theorem IsWalletRow.isObject {row : Json} (formed : IsWalletRow row) : row.isObject = true :=
  Json.isObject_of_find? formed.blocks

/-- The row with what a call carries added to its lists. -/
def WalletCall.extend (call : WalletCall) (row : Json) : Json :=
  (row.set "blocks" (.arr (Json.setUnion (rowList row "blocks") [.num call.blockId]))).set
    "transactions" (.arr (Json.setUnion (rowList row "transactions") [call.entry]))

theorem WalletCall.find?_extend (call : WalletCall) {row : Json} (isObj : row.isObject = true)
    (key : String) :
    (call.extend row).find? key =
      if "transactions" = key then
        some (.arr (Json.setUnion (rowList row "transactions") [call.entry]))
      else if "blocks" = key then
        some (.arr (Json.setUnion (rowList row "blocks") [.num call.blockId]))
      else row.find? key := by
  simp [extend, isObj]

theorem IsWalletRow.extend {row : Json} (formed : IsWalletRow row) (call : WalletCall) :
    IsWalletRow (call.extend row) ∧
      rowList (call.extend row) "blocks" =
        Json.setUnion (rowList row "blocks") [.num call.blockId] ∧
      rowList (call.extend row) "transactions" =
        Json.setUnion (rowList row "transactions") [call.entry] ∧
      docId (call.extend row) = docId row := by
  have members := call.find?_extend formed.isObject
  have blocksEq := members "blocks"
  have transactionsEq := members "transactions"
  simp only [reduceIte, String.reduceEq] at blocksEq transactionsEq
  have blocksList := rowList_of_find? blocksEq
  have transactionsList := rowList_of_find? transactionsEq
  refine ⟨⟨?_, ?_, ?_, ?_, ?_⟩, blocksList, transactionsList, ?_⟩
  · obtain ⟨old, rfl, ordered⟩ := formed.ordered
    exact ⟨_, rfl, (ordered.setMember _ _).setMember _ _⟩
  · rw [blocksEq, blocksList]
  · rw [transactionsEq, transactionsList]
  · rw [blocksList]
    exact Json.setUnion_nodup _ _
  · rw [transactionsList]
    exact Json.setUnion_nodup _ _
  · simp [docId, members]

theorem isWalletRow_fieldRow (id : String) (call : WalletCall) :
    IsWalletRow (Db.fieldRow id call.fields) ∧
      rowList (Db.fieldRow id call.fields) "blocks" = [.num call.blockId] ∧
      rowList (Db.fieldRow id call.fields) "transactions" = [call.entry] := by
  obtain ⟨-, blocksEq, transactionsEq⟩ := fieldRow_members id call
  have blocksList := rowList_of_find? blocksEq
  have transactionsList := rowList_of_find? transactionsEq
  refine ⟨⟨Json.ofMembers_ordered _, ?_, ?_, ?_, ?_⟩, blocksList, transactionsList⟩
  · rw [blocksEq, blocksList]
  · rw [transactionsEq, transactionsList]
  · rw [blocksList]
    exact List.nodup_singleton _
  · rw [transactionsList]
    exact List.nodup_singleton _

theorem IsWalletRow.extend_eq_self {row : Json} (formed : IsWalletRow row) {call : WalletCall}
    (block : .num call.blockId ∈ rowList row "blocks")
    (entry : call.entry ∈ rowList row "transactions") : call.extend row = row := by
  obtain ⟨members, rowEq, ordered⟩ := formed.ordered
  have blocksEq := formed.blocks
  have transactionsEq := formed.transactions
  rw [WalletCall.extend, Json.setUnion_singleton formed.blocksNodup, if_pos block,
    Json.setUnion_singleton formed.transactionsNodup, if_pos entry]
  generalize rowList row "blocks" = blocks at blocksEq ⊢
  generalize rowList row "transactions" = transactions at transactionsEq ⊢
  subst rowEq
  rw [Json.set_of_find? ordered blocksEq, Json.set_of_find? ordered transactionsEq]

/-! ## The table after a call -/

def WalletsFormed (table : Table) : Prop := ∀ row ∈ table.rows, IsWalletRow row

/-- The wallets after one call of `Table::update`.  The emptiness check also
finds the row whose key is the text of the index option, and then a wallet that
is missing stays so. -/
def updatedWallets (table : Table) (update : WalletUpdate) : Table :=
  if table.Has (.str update.address) ∨ table.Has (.str Db.indexText) then
    table.modify (.str update.address) update.call.extend
  else table.insert (Db.fieldRow update.address update.call.fields)

theorem WalletsFormed.get? {table : Table} (formed : WalletsFormed table) {key row : Json}
    (found : table.get? key = some row) : IsWalletRow row :=
  formed row (KeyedTable.get?_eq_some.mp found).1

theorem WalletsFormed.update {table : Table} (formed : WalletsFormed table)
    (update : WalletUpdate) : WalletsFormed (updatedWallets table update) := by
  intro row member
  unfold updatedWallets at member
  split_ifs at member with known
  · obtain ⟨old, oldMem, rfl⟩ := List.mem_map.mp member
    split_ifs with changed
    · exact ((formed old oldMem).extend update.call).1
    · exact formed old oldMem
  · rcases KeyedTable.mem_insert.mp member with old | ⟨rfl, _⟩
    · exact formed row old
    · exact (isWalletRow_fieldRow _ _).1

theorem get?_updatedWallets_of_key_ne {table : Table} {update : WalletUpdate} {key : Json}
    (other : key ≠ .str update.address) :
    (updatedWallets table update).get? key = table.get? key := by
  unfold updatedWallets
  split_ifs with known
  · exact KeyedTable.get?_modify_of_ne other
  · apply KeyedTable.get?_insert_of_ne
    rw [docId_of_find? (fieldRow_members update.address update.call).1]
    exact Ne.symm other

theorem get?_updatedWallets_of_ne {table : Table} {update : WalletUpdate} {id : String}
    (other : update.address ≠ id) :
    (updatedWallets table update).get? (.str id) = table.get? (.str id) :=
  get?_updatedWallets_of_key_ne fun same => other (Json.str.inj same).symm

theorem get?_updatedWallets {table : Table} (formed : WalletsFormed table) (update : WalletUpdate)
    {id : String} {row : Json} (found : table.get? (.str id) = some row) :
    ∃ new, (updatedWallets table update).get? (.str id) = some new ∧
      rowList row "transactions" ⊆ rowList new "transactions" ∧
      (update.address = id → update.call.entry ∈ rowList new "transactions") := by
  by_cases same : update.address = id
  · subst same
    obtain ⟨-, -, transactions, sameKey⟩ := (formed.get? found).extend update.call
    have present : table.Has (.str update.address) := KeyedTable.has_iff_get?.mpr ⟨row, found⟩
    have key := (KeyedTable.get?_eq_some.mp found).2
    refine ⟨update.call.extend row, ?_, ?_, fun _ => ?_⟩
    · rw [updatedWallets, if_pos (.inl present)]
      exact KeyedTable.get?_modify_self found (sameKey.trans key)
    · rw [transactions]
      exact fun entry member => Json.mem_setUnion.mpr (.inl member)
    · rw [transactions]
      exact Json.mem_setUnion.mpr (.inr (List.mem_singleton_self _))
  · exact ⟨row, (get?_updatedWallets_of_ne same).trans found, fun _ member => member,
      fun own => absurd own same⟩

theorem WalletsFormed.foldl {table : Table} (formed : WalletsFormed table)
    (updates : List WalletUpdate) : WalletsFormed (updates.foldl updatedWallets table) := by
  induction updates generalizing table with
  | nil => exact formed
  | cons update rest ih => exact ih (formed.update update)

theorem get?_foldl_updatedWallets {table : Table} (formed : WalletsFormed table)
    (updates : List WalletUpdate) {id : String} {row : Json}
    (found : table.get? (.str id) = some row) :
    ∃ new, (updates.foldl updatedWallets table).get? (.str id) = some new ∧
      rowList row "transactions" ⊆ rowList new "transactions" := by
  induction updates generalizing table row with
  | nil => exact ⟨row, found, fun _ member => member⟩
  | cons update rest ih =>
      obtain ⟨middle, middleFound, kept, -⟩ := get?_updatedWallets formed update found
      obtain ⟨new, newFound, later⟩ := ih (formed.update update) middleFound
      exact ⟨new, newFound, fun entry member => later (kept member)⟩

/-- A call whose block and entry the wallet has changes nothing. -/
theorem updatedWallets_eq_self {store : Store} (formed : WalletsFormed (store .wallets))
    {update : WalletUpdate} (held : HoldsCall update.address store update.call) :
    updatedWallets (store .wallets) update = store .wallets := by
  obtain ⟨block, entry⟩ := held
  cases found : (store .wallets).get? (.str update.address) with
  | none => simp [walletList, found] at block
  | some row =>
      rw [walletList_eq_rowList found] at block entry
      have present : (store .wallets).Has (.str update.address) :=
        KeyedTable.has_iff_get?.mpr ⟨row, found⟩
      rw [updatedWallets, if_pos (.inl present)]
      apply KeyedTable.modify_eq_self
      intro other otherFound
      obtain rfl : row = other := Option.some.inj (found.symm.trans otherFound)
      exact (formed.get? found).extend_eq_self block entry

theorem foldl_updatedWallets_eq_self {store : Store} (formed : WalletsFormed (store .wallets))
    {updates : List WalletUpdate}
    (held : ∀ update ∈ updates, HoldsCall update.address store update.call) :
    updates.foldl updatedWallets (store .wallets) = store .wallets := by
  induction updates with
  | nil => rfl
  | cons update rest ih =>
      rw [List.foldl_cons, updatedWallets_eq_self formed (held update (by simp))]
      exact ih fun other member => held other (by simp [member])

theorem unionFields_cons_run {site id field : String} {value : Json} {process : Process}
    {store : Store} (rest : List (String × Json))
    (succeeds : Db.unionEffect .wallets id field value process.store = .ok store) :
    (Db.unionFields site .wallets id ((field, value) :: rest)).run Process.exec process =
      (Db.unionFields site .wallets id rest).run Process.exec { process with store := store } := by
  rw [Db.unionFields, Program.run_ask, Process.exec_write_of_ok succeeds]

/-- The two queries that add to the lists of a wallet. -/
theorem unionFields_run (site : String) {process : Process} {update : WalletUpdate}
    (formed : WalletsFormed (process.store .wallets)) :
    (Db.unionFields site .wallets update.address update.call.fields).run Process.exec process =
      ((), process.withTable .wallets
        ((process.store .wallets).modify (.str update.address) update.call.extend)) := by
  rw [WalletCall.fields, Db.walletFields]
  cases found : (process.store .wallets).get? (.str update.address) with
  | none =>
      have skips (field : String) (value : Json) :
          Db.unionEffect .wallets update.address field value process.store = .ok process.store := by
        simp [Db.unionEffect, found]
      have same : (process.store .wallets).modify (.str update.address) update.call.extend =
          process.store .wallets := by
        apply KeyedTable.modify_eq_self
        intro row present
        simp [found] at present
      rw [unionFields_cons_run _ (skips _ _), unionFields_cons_run _ (skips _ _), same,
        Process.withTable, Function.update_eq_self]
      rfl
  | some row =>
      have rowFormed := formed.get? found
      have rowKey := (KeyedTable.get?_eq_some.mp found).2
      have isObj := rowFormed.isObject
      let middle := row.set "blocks"
        (.arr (Json.setUnion (rowList row "blocks") [.num update.call.blockId]))
      have middleKey : docId middle = .str update.address := by
        rw [← rowKey]
        simp [docId, middle, isObj]
      have middleList : middle.find? "transactions" =
          some (.arr (rowList row "transactions")) := by
        simpa [middle, isObj] using rowFormed.transactions
      have foundMiddle : (Function.update process.store .wallets
          ((process.store .wallets).modify (.str update.address) fun _ => middle) .wallets).get?
            (.str update.address) = some middle := by
        rw [Function.update_self]
        exact KeyedTable.get?_modify_self found middleKey
      have finalKey : docId (update.call.extend row) = .str update.address :=
        (rowFormed.extend update.call).2.2.2.trans rowKey
      have constant : (process.store .wallets).modify (.str update.address) update.call.extend =
          (process.store .wallets).modify (.str update.address)
            fun _ => update.call.extend row := by
        apply KeyedTable.modify_congr
        intro other present
        rw [Option.some.inj (present.symm.trans found)]
      rw [unionFields_cons_run _ (unionEffect_of_formed found rowFormed.blocks),
        unionFields_cons_run _ (unionEffect_of_formed foundMiddle middleList), constant,
        ← KeyedTable.modify_modify middleKey finalKey]
      dsimp only
      rw [Function.update_self, Function.update_idem]
      rfl

theorem updateFields_run (site : String) {process : Process} (update : WalletUpdate)
    (formed : WalletsFormed (process.store .wallets)) :
    (Db.updateFields site .wallets update.address update.call.fields).run Process.exec process =
      ((), process.withTable .wallets (updatedWallets (process.store .wallets) update)) := by
  rw [Db.updateFields, Program.run_ask, Process.exec_read]
  by_cases known : (process.store .wallets).Has (.str update.address) ∨
      (process.store .wallets).Has (.str Db.indexText)
  · have status : Db.isEmpty .wallets update.address process.store = .ok (.bool false) := by
      simp only [Db.isEmpty, Except.ok.injEq, Json.bool.injEq, Bool.and_eq_false_iff,
        Bool.not_eq_false', decide_eq_true_eq]
      exact known
    simp only [status, updatedWallets, if_pos known]
    exact unionFields_run site formed
  · have status : Db.isEmpty .wallets update.address process.store = .ok (.bool true) := by
      simpa [Db.isEmpty] using known
    have isObj := Json.isObject_of_find? (fieldRow_members update.address update.call).1
    simp only [status, updatedWallets, if_neg known, Program.run_ask]
    rw [Process.exec_write_of_ok (Db.insertEffect_of_isObject isObj)]
    rfl

/-! ## The process after the calls -/

/-- A call, followed by the request for the wallet's state. -/
def Process.updateWallet (process : Process) (update : WalletUpdate) : Process :=
  { process with
    store := Function.update process.store .wallets
      (updatedWallets (process.store .wallets) update)
    stateQueue := process.stateQueue ++ [update.address] }

/-- The wallets of a process are rows as the calls leave them. -/
abbrev Process.Formed (process : Process) : Prop := WalletsFormed (process.store .wallets)

theorem Process.Formed.updateWallet {process : Process} (formed : process.Formed)
    (update : WalletUpdate) : (process.updateWallet update).Formed := by
  simpa [Process.Formed, Process.updateWallet] using WalletsFormed.update formed update

theorem store_foldl_updateWallet (updates : List WalletUpdate) (process : Process) :
    (updates.foldl Process.updateWallet process).store =
      Function.update process.store .wallets
        (updates.foldl updatedWallets (process.store .wallets)) := by
  induction updates generalizing process with
  | nil => simp
  | cons update rest ih =>
      rw [List.foldl_cons, List.foldl_cons, ih]
      simp [Process.updateWallet]

theorem Process.Formed.foldl {process : Process} (formed : process.Formed)
    (updates : List WalletUpdate) : (updates.foldl Process.updateWallet process).Formed := by
  rw [Process.Formed, store_foldl_updateWallet, Function.update_self]
  exact WalletsFormed.foldl formed updates

theorem updateWallet_run (site : String) {process : Process} (formed : process.Formed)
    (update : WalletUpdate) :
    (Db.updateWallet update.address site update.call.fields).run Process.exec process =
      ((), process.updateWallet update) := by
  rw [Db.updateWallet, Program.run_bind, updateFields_run site update formed]
  rfl

theorem addWalletEntries_run (trx : Json) (blockId : Nat) (time : Int)
    (entries : List (String × String)) {process : Process} (formed : process.Formed) :
    (Db.addWalletEntries trx blockId time entries).run Process.exec process =
      ((entryUpdates trx blockId time entries).2,
        (entryUpdates trx blockId time entries).1.foldl Process.updateWallet process) := by
  induction entries generalizing process with
  | nil => rfl
  | cons head rest ih =>
      obtain ⟨address, uniqId⟩ := head
      unfold Db.addWalletEntries entryUpdates
      cases Db.walletEntry trx uniqId blockId time with
      | error exception => rfl
      | ok entry =>
          have sender := updateWallet_run uniqId formed ⟨address, blockId, entry⟩
          simp only [WalletCall.fields] at sender
          simp only [Program.run_bind, sender]
          cases trx.find? "to" with
          | none => exact ih (formed.updateWallet _)
          | some receiver =>
              simp only
              cases receiver.getString with
              | error exception => rfl
              | ok receiver =>
                  have second := updateWallet_run uniqId
                    (formed.updateWallet ⟨address, blockId, entry⟩) ⟨receiver, blockId, entry⟩
                  simp only [WalletCall.fields] at second
                  simp only [Program.run_bind, second]
                  exact ih ((formed.updateWallet _).updateWallet _)

theorem addWalletTransaction_run (trx : Json) (blockId : Nat) (time : Int) {process : Process}
    (formed : process.Formed) :
    (Db.addWalletTransaction trx blockId time).run Process.exec process =
      ((walletUpdates trx blockId time).2,
        (walletUpdates trx blockId time).1.foldl Process.updateWallet process) := by
  unfold Db.addWalletTransaction walletUpdates
  cases stoull blockId with
  | error exception => rfl
  | ok number =>
      cases findPublicKeys trx (toString blockId) with
      | error exception => rfl
      | ok entries => exact addWalletEntries_run trx number time entries formed

theorem walletJob_run (blockId : Nat) (time : Int) (transactions : List Json)
    {process : Process} (formed : process.Formed) :
    (Db.walletJob blockId time transactions).run Process.exec process =
      ((), (jobUpdates blockId time transactions).foldl Process.updateWallet process) := by
  induction transactions generalizing process with
  | nil => rfl
  | cons trx rest ih =>
      have first := addWalletTransaction_run trx blockId time formed
      simp only [Db.walletJob, jobUpdates, Program.run_bind, first]
      have stillFormed := formed.foldl (walletUpdates trx blockId time).1
      generalize walletUpdates trx blockId time = made at stillFormed ⊢
      obtain ⟨updates, result⟩ := made
      cases result with
      | error exception => rfl
      | ok done => simpa using ih stillFormed

theorem find?_walletEntry {trx entry : Json} {uniqId : String} {blockId : Nat} {time : Int}
    (built : Db.walletEntry trx uniqId blockId time = .ok entry) :
    entry.find? "block-id" = some (.num blockId) ∧
      entry.find? "timestamp" = some (.num time) := by
  obtain ⟨digest, -, rest⟩ := bind_eq_ok.mp built
  obtain ⟨type, -, done⟩ := bind_eq_ok.mp rest
  rw [← Except.ok.inj done]
  simp [Json.find?_ofMembers, Json.member?_setMember]

theorem mem_entryUpdates {trx : Json} {blockId : Nat} {time : Int}
    {entries : List (String × String)} {update : WalletUpdate}
    (member : update ∈ (entryUpdates trx blockId time entries).1) :
    update.call.blockId = blockId ∧
      ∃ uniqId, Db.walletEntry trx uniqId blockId time = .ok update.call.entry := by
  induction entries with
  | nil => simp [entryUpdates] at member
  | cons head rest ih =>
      obtain ⟨address, uniqId⟩ := head
      unfold entryUpdates at member
      split at member
      · simp at member
      · rename_i entry built
        split at member
        · rcases List.mem_cons.mp member with rfl | later
          · exact ⟨rfl, uniqId, built⟩
          · exact ih later
        · split at member
          · rw [List.mem_singleton.mp member]
            exact ⟨rfl, uniqId, built⟩
          · rcases List.mem_cons.mp member with rfl | later
            · exact ⟨rfl, uniqId, built⟩
            · rcases List.mem_cons.mp later with rfl | last
              · exact ⟨rfl, uniqId, built⟩
              · exact ih last

theorem find?_timestamp_of_jobUpdates {blockId : Nat} {time : Int} {transactions : List Json}
    {update : WalletUpdate} (member : update ∈ jobUpdates blockId time transactions) :
    update.call.entry.find? "timestamp" = some (.num time) := by
  have ofCall {trx : Json} (made : update ∈ (walletUpdates trx blockId time).1) :
      update.call.entry.find? "timestamp" = some (.num time) := by
    unfold walletUpdates at made
    split at made
    · obtain ⟨-, uniqId, built⟩ := mem_entryUpdates made
      exact (find?_walletEntry built).2
    · simp at made
    · simp at made
  induction transactions with
  | nil => simp [jobUpdates] at member
  | cons trx rest ih =>
      have first := @ofCall trx
      unfold jobUpdates at member
      generalize walletUpdates trx blockId time = made at first member
      obtain ⟨updates, result⟩ := made
      cases result with
      | error exception => exact first member
      | ok done => exact (List.mem_append.mp member).elim first ih

/-! ## The time of a call -/

theorem walletEntry_isOk (trx : Json) (uniqId : String) (blockId : Nat) (first second : Int) :
    (∃ exception, Db.walletEntry trx uniqId blockId first = .error exception ∧
      Db.walletEntry trx uniqId blockId second = .error exception) ∨
    ∃ entry other, Db.walletEntry trx uniqId blockId first = .ok entry ∧
      Db.walletEntry trx uniqId blockId second = .ok other := by
  unfold Db.walletEntry
  cases trx.indexConst "digest" with
  | error exception => exact .inl ⟨exception, rfl, rfl⟩
  | ok digest =>
      cases trx.indexConst "transaction-type" with
      | error exception => exact .inl ⟨exception, rfl, rfl⟩
      | ok type => exact .inr ⟨_, _, rfl, rfl⟩

/-- Which wallets are updated, and how the loop ends, does not depend on the
time. -/
theorem entryUpdates_addresses (trx : Json) (blockId : Nat) (first second : Int)
    (entries : List (String × String)) :
    (entryUpdates trx blockId first entries).1.map WalletUpdate.address =
        (entryUpdates trx blockId second entries).1.map WalletUpdate.address ∧
      (entryUpdates trx blockId first entries).2 =
        (entryUpdates trx blockId second entries).2 := by
  induction entries with
  | nil => exact ⟨rfl, rfl⟩
  | cons head rest ih =>
      obtain ⟨address, uniqId⟩ := head
      obtain ⟨addresses, results⟩ := ih
      unfold entryUpdates
      rcases walletEntry_isOk trx uniqId blockId first second with
        ⟨exception, firstEq, secondEq⟩ | ⟨entry, other, firstEq, secondEq⟩
      · simp only [firstEq, secondEq, and_self]
      · simp only [firstEq, secondEq]
        cases trx.find? "to" with
        | none => exact ⟨congrArg (address :: ·) addresses, results⟩
        | some receiver =>
            simp only
            cases receiver.getString with
            | error exception => exact ⟨rfl, rfl⟩
            | ok receiver => exact ⟨congrArg (address :: receiver :: ·) addresses, results⟩

theorem walletUpdates_addresses (trx : Json) (blockId : Nat) (first second : Int) :
    (walletUpdates trx blockId first).1.map WalletUpdate.address =
        (walletUpdates trx blockId second).1.map WalletUpdate.address ∧
      (walletUpdates trx blockId first).2 = (walletUpdates trx blockId second).2 := by
  unfold walletUpdates
  cases stoull blockId with
  | error exception => exact ⟨rfl, rfl⟩
  | ok number =>
      cases findPublicKeys trx (toString blockId) with
      | error exception => exact ⟨rfl, rfl⟩
      | ok entries => exact entryUpdates_addresses trx number first second entries

theorem jobUpdates_addresses (blockId : Nat) (first second : Int) (transactions : List Json) :
    (jobUpdates blockId first transactions).map WalletUpdate.address =
      (jobUpdates blockId second transactions).map WalletUpdate.address := by
  induction transactions with
  | nil => rfl
  | cons trx rest ih =>
      obtain ⟨addresses, results⟩ := walletUpdates_addresses trx blockId first second
      unfold jobUpdates
      generalize walletUpdates trx blockId first = made at addresses results ⊢
      generalize walletUpdates trx blockId second = other at addresses results ⊢
      obtain ⟨updates, result⟩ := made
      obtain ⟨others, otherResult⟩ := other
      obtain rfl : result = otherResult := results
      cases result with
      | error exception => exact addresses
      | ok done => simpa using congrArg₂ (· ++ ·) addresses ih

end MileExplorer
