import MileExplorer.Getters
import MileExplorer.Paging
import MileExplorer.WalletTable

/-!
# The block history of a wallet

`get_wallet_history_state` counts the blocks of a wallet, and
`get_wallet_history_blocks` lists the block ids of its entries.  A wallet with
one entry for each block has as many of the one as of the other.  With two
entries in a block the list repeats the block and is longer than the count.
-/

namespace MileExplorer

def callsFor (publicKey : String) (updates : List WalletUpdate) : List WalletCall :=
  (updates.filter fun update => update.address = publicKey).map WalletUpdate.call

theorem mem_callsFor {publicKey : String} {updates : List WalletUpdate} {call : WalletCall} :
    call ∈ callsFor publicKey updates ↔
      ∃ update ∈ updates, update.address = publicKey ∧ update.call = call := by
  simp [callsFor, and_assoc]

theorem callsFor_eq_nil {publicKey : String} {updates : List WalletUpdate}
    (absent : publicKey ∉ updates.map WalletUpdate.address) : callsFor publicKey updates = [] := by
  apply List.eq_nil_iff_forall_not_mem.mpr
  intro call member
  obtain ⟨update, listed, rfl, -⟩ := mem_callsFor.mp member
  exact absent (List.mem_map_of_mem listed)

/-- Before the first call for the wallet there is one for the wallet whose key
is the text of the index option. -/
def Hidden (publicKey : String) (updates : List WalletUpdate) : Prop :=
  Db.indexText ∈ (updates.takeWhile fun update => update.address ≠ publicKey).map
    WalletUpdate.address

instance (publicKey : String) (updates : List WalletUpdate) :
    Decidable (Hidden publicKey updates) :=
  inferInstanceAs (Decidable (_ ∈ _))

theorem hidden_cons {publicKey : String} {update : WalletUpdate} {rest : List WalletUpdate} :
    Hidden publicKey (update :: rest) ↔
      update.address ≠ publicKey ∧ (update.address = Db.indexText ∨ Hidden publicKey rest) := by
  by_cases own : update.address = publicKey
  · simp [Hidden, own]
  · simp [Hidden, own, @eq_comm _ Db.indexText]

theorem Hidden.index_mem {publicKey : String} {updates : List WalletUpdate}
    (hidden : Hidden publicKey updates) : Db.indexText ∈ updates.map WalletUpdate.address :=
  ((List.takeWhile_sublist _).map WalletUpdate.address).subset hidden

theorem not_hidden_index (updates : List WalletUpdate) : ¬ Hidden Db.indexText updates := by
  induction updates with
  | nil => simp [Hidden]
  | cons update rest ih =>
      rw [hidden_cons]
      rintro ⟨other, index | later⟩
      · exact other index
      · exact ih later

theorem hidden_iff_of_not_mem {publicKey : String} {updates : List WalletUpdate}
    (absent : publicKey ∉ updates.map WalletUpdate.address) :
    Hidden publicKey updates ↔ Db.indexText ∈ updates.map WalletUpdate.address := by
  induction updates with
  | nil => simp [Hidden]
  | cons update rest ih =>
      rw [List.map_cons, List.mem_cons, not_or] at absent
      rw [hidden_cons, ih absent.2, List.map_cons, List.mem_cons, eq_comm]
      exact ⟨And.right, fun index => ⟨Ne.symm absent.1, index⟩⟩

/-- A further call matters only if it comes before the first one for the
wallet. -/
theorem hidden_append {publicKey : String} {updates : List WalletUpdate} (update : WalletUpdate) :
    Hidden publicKey (updates ++ [update]) ↔
      Hidden publicKey updates ∨ publicKey ∉ updates.map WalletUpdate.address ∧
        update.address = Db.indexText ∧ update.address ≠ publicKey := by
  induction updates with
  | nil =>
      rw [List.nil_append, hidden_cons]
      simp [Hidden, and_comm]
  | cons first rest ih =>
      rw [List.cons_append, hidden_cons, hidden_cons, ih, List.map_cons, List.mem_cons]
      by_cases own : first.address = publicKey
      · simp [own]
      · simp [own, Ne.symm own, or_assoc]

/-! ## The wallets after the calls -/

/-- The wallets hold what the calls carry, as far as they are not hidden. -/
structure Recorded (updates : List WalletUpdate) (table : Table) : Prop where
  formed : WalletsFormed table
  has : ∀ id, table.Has (.str id) ↔ id ∈ updates.map WalletUpdate.address ∧ ¬ Hidden id updates
  lists : ∀ id row, table.get? (.str id) = some row →
    rowList row "blocks" =
      Json.setUnion [] ((callsFor id updates).map fun call => .num call.blockId) ∧
    rowList row "transactions" = Json.setUnion [] ((callsFor id updates).map WalletCall.entry)

theorem Recorded.empty : Recorded [] KeyedTable.empty where
  formed := by simp [WalletsFormed]
  has := by simp
  lists := by simp [KeyedTable.get?]

theorem Recorded.has_index {updates : List WalletUpdate} {table : Table}
    (recorded : Recorded updates table) :
    table.Has (.str Db.indexText) ↔ Db.indexText ∈ updates.map WalletUpdate.address := by
  rw [recorded.has]
  simp [not_hidden_index]

theorem has_updatedWallets {table : Table} {update : WalletUpdate} {id : String} :
    (updatedWallets table update).Has (.str id) ↔
      table.Has (.str id) ∨ update.address = id ∧ ¬ table.Has (.str Db.indexText) := by
  unfold updatedWallets
  split_ifs with known
  · rw [KeyedTable.has_modify]
    constructor
    · exact .inl
    · rintro (present | ⟨rfl, noIndex⟩)
      · exact present
      · exact known.resolve_right noIndex
  · rw [not_or] at known
    rw [KeyedTable.has_insert, docId_of_find? (fieldRow_members update.address update.call).1]
    simp [known.2]

/-- Adding one value more to values of which each is kept once. -/
theorem setUnion_gathered (values : List Json) (value : Json) :
    Json.setUnion (Json.setUnion [] values) [value] = Json.setUnion [] (values ++ [value]) := by
  rw [Json.setUnion_singleton (Json.setUnion_nodup _ _), Json.setUnion_append]

theorem Recorded.append {updates : List WalletUpdate} {table : Table}
    (recorded : Recorded updates table) (update : WalletUpdate) :
    Recorded (updates ++ [update]) (updatedWallets table update) where
  formed := recorded.formed.update update
  has := by
    intro id
    rw [has_updatedWallets, recorded.has, recorded.has_index, hidden_append, List.map_append,
      List.mem_append, List.map_singleton, List.mem_singleton]
    have fromIndex : Hidden id updates → Db.indexText ∈ updates.map WalletUpdate.address :=
      Hidden.index_mem
    by_cases listed : id ∈ updates.map WalletUpdate.address
    · simp only [listed, true_and, true_or, not_true, false_and, or_false]
      constructor
      · rintro (shown | ⟨-, noIndex⟩)
        · exact shown
        · exact fun hidden => noIndex (fromIndex hidden)
      · exact .inl
    · have early : Hidden id updates ↔ Db.indexText ∈ updates.map WalletUpdate.address :=
        hidden_iff_of_not_mem listed
      simp only [listed, false_and, false_or, not_false_eq_true, true_and, early]
      constructor
      · rintro ⟨rfl, noIndex⟩
        exact ⟨rfl, by simp [noIndex]⟩
      · rintro ⟨rfl, shown⟩
        exact ⟨rfl, fun index => shown (.inl index)⟩
  lists := by
    intro id row found
    by_cases same : update.address = id
    · subst same
      have calls : callsFor update.address (updates ++ [update]) =
          callsFor update.address updates ++ [update.call] := by
        simp [callsFor]
      rw [calls, List.map_append, List.map_append, List.map_singleton, List.map_singleton]
      cases before : table.get? (.str update.address) with
      | some old =>
          obtain ⟨blocksEq, transactionsEq⟩ := recorded.lists _ _ before
          obtain ⟨-, newBlocks, newTransactions, sameKey⟩ :=
            (recorded.formed.get? before).extend update.call
          have present : table.Has (.str update.address) :=
            KeyedTable.has_iff_get?.mpr ⟨old, before⟩
          have key := (KeyedTable.get?_eq_some.mp before).2
          rw [updatedWallets, if_pos (.inl present),
            KeyedTable.get?_modify_self before (sameKey.trans key)] at found
          rw [← Option.some.inj found, newBlocks, newTransactions, blocksEq, transactionsEq,
            setUnion_gathered, setUnion_gathered]
          exact ⟨rfl, rfl⟩
      | none =>
          have absent := KeyedTable.get?_eq_none.mp before
          have noIndex : ¬ table.Has (.str Db.indexText) := by
            have present := has_updatedWallets.mp (KeyedTable.has_iff_get?.mpr ⟨row, found⟩)
            exact (present.resolve_left absent).2
          have first : callsFor update.address updates = [] := by
            apply callsFor_eq_nil
            intro listed
            have hidden : Hidden update.address updates := by
              by_contra shown
              exact absent ((recorded.has _).mpr ⟨listed, shown⟩)
            exact noIndex (recorded.has_index.mpr hidden.index_mem)
          rw [updatedWallets, if_neg (not_or.mpr ⟨absent, noIndex⟩),
            get?_insert_wallet update.call absent] at found
          obtain ⟨-, blocksEq, transactionsEq⟩ :=
            isWalletRow_fieldRow update.address update.call
          rw [← Option.some.inj found, blocksEq, transactionsEq, first]
          exact ⟨rfl, rfl⟩
    · rw [get?_updatedWallets_of_ne same] at found
      have calls : callsFor id (updates ++ [update]) = callsFor id updates := by
        simp [callsFor, same]
      rw [calls]
      exact recorded.lists id row found

theorem recorded_foldl (updates : List WalletUpdate) :
    Recorded updates (updates.foldl updatedWallets KeyedTable.empty) := by
  induction updates using List.reverseRecOn with
  | nil => exact Recorded.empty
  | append_singleton updates update ih =>
      rw [List.foldl_append]
      exact ih.append update

/-! ## Calls of `add_wallet_transaction` -/

structure WalletTransaction where
  trx : Json
  blockId : Nat
  time : Int

/-- The process after the calls, one after the other, on an empty database. -/
def afterCalls (calls : List WalletTransaction) : Process :=
  calls.foldl (fun process call =>
    ((Db.addWalletTransaction call.trx call.blockId call.time).run Process.exec process).2)
    (Process.idle Store.empty)

def updatesOf (calls : List WalletTransaction) : List WalletUpdate :=
  calls.flatMap fun call => (walletUpdates call.trx call.blockId call.time).1

theorem wallets_afterCalls (calls : List WalletTransaction) :
    (afterCalls calls).Formed ∧ (afterCalls calls).store .wallets =
      (updatesOf calls).foldl updatedWallets KeyedTable.empty := by
  induction calls using List.reverseRecOn with
  | nil =>
      exact ⟨by simp [afterCalls, Process.Formed, WalletsFormed, Process.idle, Store.empty], rfl⟩
  | append_singleton calls call ih =>
      obtain ⟨formed, walletsEq⟩ := ih
      have last : afterCalls (calls ++ [call]) =
          (walletUpdates call.trx call.blockId call.time).1.foldl Process.updateWallet
            (afterCalls calls) := by
        have ran := addWalletTransaction_run call.trx call.blockId call.time formed
        simp only [afterCalls, List.foldl_append, List.foldl_cons, List.foldl_nil] at ran ⊢
        rw [ran]
      refine ⟨last ▸ formed.foldl _, ?_⟩
      rw [last, store_foldl_updateWallet, Function.update_self, walletsEq, updatesOf, updatesOf,
        List.flatMap_append, List.foldl_append]
      simp

theorem recorded_afterCalls (calls : List WalletTransaction) :
    Recorded (updatesOf calls) ((afterCalls calls).store .wallets) := by
  rw [(wallets_afterCalls calls).2]
  exact recorded_foldl _

/-- The entries of the calls carry their blocks. -/
theorem find?_entry_of_updatesOf {calls : List WalletTransaction} {update : WalletUpdate}
    (member : update ∈ updatesOf calls) :
    update.call.entry.find? "block-id" = some (.num update.call.blockId) := by
  obtain ⟨call, -, listed⟩ := List.mem_flatMap.mp member
  unfold walletUpdates at listed
  split at listed
  · obtain ⟨sameBlock, uniqId, built⟩ := mem_entryUpdates listed
    rw [(find?_walletEntry built).1, sameBlock]
  · simp at listed
  · simp at listed

/-! ## What the getters yield -/

/-- The pages of `get_wallet_history_blocks` one after the other, as long as
they begin below the count that `get_wallet_history_state` reports. -/
def walletPages (publicKey : String) (limit : Nat) (store : Store) : List Json :=
  let count := (Db.walletHistoryState publicKey store).1
  ((List.range count).filter fun page => page * limit < count).flatMap fun page =>
    (getDataOf (Db.walletHistoryBlocks publicKey (page * limit) limit store)).elements

theorem wallet_eq (publicKey : String) (store : Store) :
    Db.wallet publicKey store =
      .ok (((store .wallets).get? (.str publicKey)).getD .null) := rfl

theorem walletHistoryState_of_absent {publicKey : String} {store : Store}
    (absent : (store .wallets).get? (.str publicKey) = none) :
    Db.walletHistoryState publicKey store = (0, 0) := by
  have missing := wallet_eq publicKey store
  rw [absent] at missing
  simp only [Db.walletHistoryState, Cursor.count, Cursor.field, missing]
  rfl

theorem walletHistoryState_of_found {publicKey : String} {store : Store} {row : Json}
    (found : (store .wallets).get? (.str publicKey) = some row) (formed : IsWalletRow row) :
    Db.walletHistoryState publicKey store =
      ((rowList row "blocks").length, (rowList row "transactions").length) := by
  have yields := wallet_eq publicKey store
  rw [found] at yields
  have blocks := Cursor.field_of_find? yields formed.blocks
  have transactions := Cursor.field_of_find? yields formed.transactions
  simp only [Db.walletHistoryState, Cursor.count, blocks, transactions]
  simp [bind, Except.bind, pure, Except.pure, getDataOf]

def byBlock (entries : List Json) : List Json :=
  entries.insertionSort fun first second =>
    Cursor.fieldRank "block-id" first ≤ Cursor.fieldRank "block-id" second

theorem walletHistoryBlocks_of_found {publicKey : String} {store : Store} {row : Json}
    (found : (store .wallets).get? (.str publicKey) = some row) (formed : IsWalletRow row)
    (first limit : Nat) :
    (getDataOf (Db.walletHistoryBlocks publicKey first limit store)).elements =
      pageOf ((byBlock (rowList row "transactions")).filterMap fun entry => entry.find? "block-id")
        first ((first + limit) % 2 ^ 64 - first) := by
  have yields := wallet_eq publicKey store
  rw [found] at yields
  have entries := Cursor.field_of_find? yields formed.transactions
  have sorted : ((Db.wallet publicKey).field "transactions").sortField "block-id" store =
      .ok (.arr (byBlock (rowList row "transactions"))) := by
    rw [Cursor.sortField, entries]
    rfl
  have listed : ((((Db.wallet publicKey).field "transactions").sortField "block-id").field
      "block-id") store =
        .ok (.arr ((byBlock (rowList row "transactions")).filterMap
          fun entry => entry.find? "block-id")) := by
    rw [Cursor.field, sorted]
    rfl
  rw [Db.walletHistoryBlocks, Cursor.slice, listed]
  rfl

def entryBlocks (entries : List Json) : List Nat := (byBlock entries).map blockOf

theorem mem_byBlock {entries : List Json} {entry : Json} :
    entry ∈ byBlock entries ↔ entry ∈ entries :=
  (List.perm_insertionSort _ _).mem_iff

theorem entryBlocks_perm (entries : List Json) :
    (entryBlocks entries).Perm (entries.map blockOf) :=
  (List.perm_insertionSort _ _).map blockOf

section Entries

variable {entries : List Json}
  (indexed : ∀ entry ∈ entries, entry.find? "block-id" = some (.num (blockOf entry)))

include indexed

theorem filterMap_byBlock :
    ((byBlock entries).filterMap fun entry => entry.find? "block-id") =
      (entryBlocks entries).map fun block : Nat => .num block := by
  have every : ∀ entry ∈ byBlock entries,
      entry.find? "block-id" = some (.num (blockOf entry)) :=
    fun entry member => indexed entry (mem_byBlock.mp member)
  rw [entryBlocks, List.map_map, ← List.filterMap_eq_map]
  exact List.filterMap_congr every

theorem entryBlocks_pairwise : (entryBlocks entries).Pairwise (· ≤ ·) := by
  have total : Std.Total fun first second : Json =>
      Cursor.fieldRank "block-id" first ≤ Cursor.fieldRank "block-id" second :=
    ⟨fun first second => le_total _ _⟩
  have transitive : IsTrans Json fun first second =>
      Cursor.fieldRank "block-id" first ≤ Cursor.fieldRank "block-id" second :=
    ⟨fun first second third => le_trans⟩
  rw [entryBlocks, List.pairwise_map]
  apply (List.pairwise_insertionSort _ entries).imp_of_mem
  intro first second firstMem secondMem before
  have firstEq := indexed first (mem_byBlock.mp firstMem)
  have secondEq := indexed second (mem_byBlock.mp secondMem)
  simp only [Cursor.fieldRank, firstEq, secondEq] at before
  rcases Prod.Lex.toLex_le_toLex.mp before with less | ⟨-, ranks⟩
  · exact absurd less (lt_irrefl _)
  · rw [Json.sortKey_num_le] at ranks
    omega

end Entries

theorem walletPages_of_found {publicKey : String} {store : Store} {row : Json}
    (found : (store .wallets).get? (.str publicKey) = some row) (formed : IsWalletRow row)
    (indexed : ∀ entry ∈ rowList row "transactions",
      entry.find? "block-id" = some (.num (blockOf entry)))
    (few : (rowList row "blocks").length < 2 ^ 63) {limit : Nat} (positive : 1 ≤ limit)
    (bound : limit < 2 ^ 64) :
    walletPages publicKey limit store =
      ((entryBlocks (rowList row "transactions")).take
        (((rowList row "blocks").length + limit - 1) / limit * limit)).map fun block : Nat =>
          .num block := by
  rw [List.map_take, ← flatMap_pageOf, ← filter_mul_lt positive, walletPages]
  simp only [walletHistoryState_of_found found formed]
  apply List.flatMap_congr
  intro page member
  have begins : page * limit < (rowList row "blocks").length := by
    simpa using (List.mem_filter.mp member).2
  have inside : page * limit + limit < 2 ^ 64 := by
    -- a limit of 2 ^ 63 or more is reached on the first page only
    rcases Nat.eq_zero_or_pos page with rfl | later
    · omega
    · have := Nat.le_mul_of_pos_left limit later
      omega
  rw [walletHistoryBlocks_of_found found formed, filterMap_byBlock indexed,
    Nat.mod_eq_of_lt inside, Nat.add_sub_cancel_left]

theorem walletPages_of_absent {publicKey : String} {store : Store}
    (absent : (store .wallets).get? (.str publicKey) = none) (limit : Nat) :
    walletPages publicKey limit store = [] := by
  simp [walletPages, walletHistoryState_of_absent absent]

/-! ## Agreement -/

/-- Read in pages of any size, the block history of the wallet is the blocks
with a call for it, each once, in ascending order. -/
def HistoryAgrees (publicKey : String) (updates : List WalletUpdate) (store : Store) : Prop :=
  ∀ limit, 1 ≤ limit → limit < 2 ^ 64 →
    ∃ blocks : List Nat,
      walletPages publicKey limit store = (blocks.map fun block : Nat => .num block) ∧
      blocks.Pairwise (· < ·) ∧
      ∀ block, block ∈ blocks ↔
        ∃ update ∈ updates, update.address = publicKey ∧ update.call.blockId = block

/-- All calls for the wallet in one block carry the same entry. -/
def OneEntryEach (publicKey : String) (updates : List WalletUpdate) : Prop :=
  ∀ first ∈ callsFor publicKey updates, ∀ second ∈ callsFor publicKey updates,
    first.blockId = second.blockId → first.entry = second.entry

instance (publicKey : String) (updates : List WalletUpdate) :
    Decidable (OneEntryEach publicKey updates) :=
  inferInstanceAs (Decidable (∀ first ∈ _, ∀ second ∈ _, _ → _))

namespace Recorded

variable {updates : List WalletUpdate} {store : Store} {publicKey : String} {row : Json}
  (recorded : Recorded updates (store .wallets))
  (indexed : ∀ update ∈ updates,
    update.call.entry.find? "block-id" = some (.num update.call.blockId))
  (found : (store .wallets).get? (.str publicKey) = some row)

include recorded found in
theorem mem_entries {entry : Json} :
    entry ∈ rowList row "transactions" ↔
      ∃ call ∈ callsFor publicKey updates, call.entry = entry := by
  rw [(recorded.lists publicKey row found).2, Json.mem_setUnion]
  simp

include indexed in
theorem blockOf_entry {call : WalletCall} (member : call ∈ callsFor publicKey updates) :
    call.entry.find? "block-id" = some (.num call.blockId) ∧
      blockOf call.entry = call.blockId := by
  obtain ⟨update, listed, -, rfl⟩ := mem_callsFor.mp member
  exact ⟨indexed update listed, blockOf_eq (indexed update listed)⟩

include recorded indexed found

theorem entries_indexed {entry : Json} (member : entry ∈ rowList row "transactions") :
    entry.find? "block-id" = some (.num (blockOf entry)) := by
  obtain ⟨call, listed, rfl⟩ := (recorded.mem_entries found).mp member
  obtain ⟨blockEq, same⟩ := blockOf_entry indexed listed
  rw [same, blockEq]

theorem mem_entryBlocks {block : Nat} :
    block ∈ entryBlocks (rowList row "transactions") ↔
      ∃ update ∈ updates, update.address = publicKey ∧ update.call.blockId = block := by
  rw [(entryBlocks_perm _).mem_iff, List.mem_map]
  constructor
  · rintro ⟨entry, member, rfl⟩
    obtain ⟨call, listed, rfl⟩ := (recorded.mem_entries found).mp member
    obtain ⟨update, updateMem, address, rfl⟩ := mem_callsFor.mp listed
    exact ⟨update, updateMem, address, (blockOf_entry indexed listed).2.symm⟩
  · rintro ⟨update, updateMem, address, rfl⟩
    have listed := mem_callsFor.mpr ⟨update, updateMem, address, rfl⟩
    exact ⟨update.call.entry, (recorded.mem_entries found).mpr ⟨_, listed, rfl⟩,
      (blockOf_entry indexed listed).2⟩

theorem entryBlocks_nodup_iff :
    (entryBlocks (rowList row "transactions")).Nodup ↔ OneEntryEach publicKey updates := by
  rw [(entryBlocks_perm _).nodup_iff]
  constructor
  · intro nodup first firstMem second secondMem same
    apply List.inj_on_of_nodup_map nodup
    · exact (recorded.mem_entries found).mpr ⟨first, firstMem, rfl⟩
    · exact (recorded.mem_entries found).mpr ⟨second, secondMem, rfl⟩
    · rw [(blockOf_entry indexed firstMem).2, (blockOf_entry indexed secondMem).2, same]
  · intro one
    have formed := recorded.formed.get? found
    apply List.Nodup.map_on _ formed.transactionsNodup
    intro first firstMem second secondMem same
    obtain ⟨firstCall, firstListed, rfl⟩ := (recorded.mem_entries found).mp firstMem
    obtain ⟨secondCall, secondListed, rfl⟩ := (recorded.mem_entries found).mp secondMem
    apply one _ firstListed _ secondListed
    rw [← (blockOf_entry indexed firstListed).2, same, (blockOf_entry indexed secondListed).2]

theorem mem_blocks {value : Json} :
    value ∈ rowList row "blocks" ↔
      value ∈ (entryBlocks (rowList row "transactions")).map fun block : Nat => Json.num block := by
  rw [(recorded.lists publicKey row found).1, Json.mem_setUnion, List.mem_map]
  simp only [recorded.mem_entryBlocks indexed found, List.not_mem_nil, false_or, List.mem_map,
    mem_callsFor]
  constructor
  · rintro ⟨call, ⟨update, listed, address, rfl⟩, rfl⟩
    exact ⟨update.call.blockId, ⟨update, listed, address, rfl⟩, rfl⟩
  · rintro ⟨block, ⟨update, listed, address, rfl⟩, rfl⟩
    exact ⟨update.call, ⟨update, listed, address, rfl⟩, rfl⟩

theorem blocks_length_le :
    (rowList row "blocks").length ≤ (entryBlocks (rowList row "transactions")).length := by
  have formed := recorded.formed.get? found
  have included := List.subperm_of_subset formed.blocksNodup
    fun _ => (recorded.mem_blocks indexed found).mp
  simpa using included.length_le

/-- With distinct blocks there are as many entries as blocks. -/
theorem length_eq_of_nodup (nodup : (entryBlocks (rowList row "transactions")).Nodup) :
    (entryBlocks (rowList row "transactions")).length = (rowList row "blocks").length := by
  have formed := recorded.formed.get? found
  have numbers : ((entryBlocks (rowList row "transactions")).map
      fun block : Nat => Json.num block).Nodup := by
    apply nodup.map
    intro first second same
    simpa using same
  have same := (List.perm_ext_iff_of_nodup formed.blocksNodup numbers).mpr
    fun _ => recorded.mem_blocks indexed found
  simpa using same.length_eq.symm

end Recorded

theorem length_entryBlocks (entries : List Json) :
    (entryBlocks entries).length = entries.length := by
  simpa using (entryBlocks_perm entries).length_eq

namespace Recorded

variable {updates : List WalletUpdate} {store : Store} {publicKey : String}
  (recorded : Recorded updates (store .wallets))
  (indexed : ∀ update ∈ updates,
    update.call.entry.find? "block-id" = some (.num update.call.blockId))

include recorded indexed

/-- With one entry for each block the pages are right, whatever their size. -/
theorem historyAgrees {row : Json} (found : (store .wallets).get? (.str publicKey) = some row)
    (few : (rowList row "transactions").length < 2 ^ 63)
    (one : OneEntryEach publicKey updates) : HistoryAgrees publicKey updates store := by
  have nodup := (recorded.entryBlocks_nodup_iff indexed found).mpr one
  have sameLength := recorded.length_eq_of_nodup indexed found nodup
  rw [length_entryBlocks] at sameLength
  intro limit positive bound
  refine ⟨entryBlocks (rowList row "transactions"), ?_, ?_, ?_⟩
  · rw [walletPages_of_found found (recorded.formed.get? found)
      (fun _ => recorded.entries_indexed indexed found) (by omega) positive bound,
      List.take_of_length_le]
    rw [length_entryBlocks, sameLength]
    exact le_pages positive _
  · have sorted := entryBlocks_pairwise fun _ => recorded.entries_indexed indexed found
    apply (sorted.and nodup).imp
    rintro first second ⟨before, differ⟩
    exact lt_of_le_of_ne before differ
  · exact fun block => recorded.mem_entryBlocks indexed found

/-- A page that holds all entries shows every block once only if each has one
entry. -/
theorem oneEntryEach {row : Json} (found : (store .wallets).get? (.str publicKey) = some row)
    (listed : publicKey ∈ updates.map WalletUpdate.address)
    (few : (rowList row "transactions").length < 2 ^ 63)
    (agrees : HistoryAgrees publicKey updates store) : OneEntryEach publicKey updates := by
  have fewer := recorded.blocks_length_le indexed found
  rw [length_entryBlocks] at fewer
  obtain ⟨update, updateMem, rfl⟩ := List.mem_map.mp listed
  have member : update.call.blockId ∈ entryBlocks (rowList row "transactions") :=
    (recorded.mem_entryBlocks indexed found).mpr ⟨update, updateMem, rfl, rfl⟩
  have some : 0 < (rowList row "blocks").length :=
    List.length_pos_of_mem ((recorded.mem_blocks indexed found).mpr (List.mem_map_of_mem member))
  obtain ⟨blocks, pagesEq, ascending, -⟩ :=
    agrees ((rowList row "transactions").length + 1) (by omega) (by omega)
  rw [walletPages_of_found found (recorded.formed.get? found)
    (fun _ => recorded.entries_indexed indexed found) (by omega) (by omega) (by omega),
    List.take_of_length_le] at pagesEq
  · have same : entryBlocks (rowList row "transactions") = blocks := by
      apply List.map_injective_iff.mpr _ pagesEq
      intro first second equal
      simpa using equal
    rw [← same] at ascending
    apply (recorded.entryBlocks_nodup_iff indexed found).mp
    exact ascending.imp fun less => ne_of_lt less
  · -- the first page begins below the count and is longer than the list
    rw [length_entryBlocks]
    have whole := limit_le_pages (show 0 < (rowList row "transactions").length + 1 by omega) some
    omega

end Recorded

/-- After any calls of `add_wallet_transaction` the block history of a wallet
agrees with its history state exactly if no call for the wallet is lost to the
wallet whose key is the text of the index option, and all calls for it in one
block carry the same entry. -/
theorem wallet_history_agrees_iff (calls : List WalletTransaction) (publicKey : String)
    (few : (walletList publicKey "transactions" (afterCalls calls).store).length < 2 ^ 63) :
    HistoryAgrees publicKey (updatesOf calls) (afterCalls calls).store ↔
      (publicKey ∈ (updatesOf calls).map WalletUpdate.address →
        ¬ Hidden publicKey (updatesOf calls)) ∧
      OneEntryEach publicKey (updatesOf calls) := by
  have recorded := recorded_afterCalls calls
  have indexed : ∀ update ∈ updatesOf calls,
      update.call.entry.find? "block-id" = some (.num update.call.blockId) :=
    fun _ => find?_entry_of_updatesOf
  cases found : ((afterCalls calls).store .wallets).get? (.str publicKey) with
  | some row =>
      rw [walletList_eq_rowList found] at few
      obtain ⟨listed, shown⟩ := (recorded.has publicKey).mp
        (KeyedTable.has_iff_get?.mpr ⟨row, found⟩)
      constructor
      · exact fun agrees => ⟨fun _ => shown, recorded.oneEntryEach indexed found listed few agrees⟩
      · exact fun ⟨_, one⟩ => recorded.historyAgrees indexed found few one
  | none =>
      have absent := KeyedTable.get?_eq_none.mp found
      rw [recorded.has] at absent
      constructor
      · intro agrees
        -- the pages are empty, so there is no call for the wallet
        obtain ⟨blocks, pagesEq, -, members⟩ := agrees 1 (by decide) (by decide)
        rw [walletPages_of_absent found] at pagesEq
        obtain rfl : blocks = [] := by simpa using pagesEq.symm
        have unlisted : publicKey ∉ (updatesOf calls).map WalletUpdate.address := by
          intro listed
          obtain ⟨update, updateMem, address⟩ := List.mem_map.mp listed
          exact absurd ((members _).mpr ⟨update, updateMem, address, rfl⟩) List.not_mem_nil
        refine ⟨fun listed => absurd listed unlisted, ?_⟩
        rw [OneEntryEach, callsFor_eq_nil unlisted]
        exact fun first member => absurd member List.not_mem_nil
      · rintro ⟨shown, -⟩ limit - -
        have unlisted : publicKey ∉ (updatesOf calls).map WalletUpdate.address :=
          fun listed => absent ⟨listed, shown listed⟩
        refine ⟨[], walletPages_of_absent found limit, List.Pairwise.nil, fun block => ?_⟩
        simp only [List.not_mem_nil, false_iff]
        rintro ⟨update, updateMem, rfl, -⟩
        exact unlisted (List.mem_map_of_mem updateMem)

/-- A transfer from the same wallet with a number of its own. -/
def numberedTransfer (number : String) : Json :=
  .ofMembers [("from", .str "alice"), ("transaction-id", .str number),
    ("transaction-type", .str "TransferAssetsTransaction"), ("digest", .str "0x")]

/-- One transfer in block 1 and one in block 2. -/
theorem wallet_history_agrees_iff_two :
    let calls := [⟨numberedTransfer "0", 1, 10⟩, ⟨numberedTransfer "0", 2, 20⟩]
    HistoryAgrees "alice" (updatesOf calls) (afterCalls calls).store ∧
      (Db.walletHistoryState "alice" (afterCalls calls).store).1 = 2 := by
  intro calls
  have few : (walletList "alice" "transactions" (afterCalls calls).store).length = 2 := by
    decide +kernel
  refine ⟨(wallet_history_agrees_iff calls "alice" ?_).mpr (by decide +kernel),
    by decide +kernel⟩
  rw [few]
  decide

/-- Two transfers in block 1 and one in block 2: the history has two blocks,
and its pages are block 1 twice. -/
theorem wallet_history_repeats_block :
    ¬ ∀ calls publicKey, HistoryAgrees publicKey (updatesOf calls) (afterCalls calls).store := by
  intro always
  let calls : List WalletTransaction := [⟨numberedTransfer "0", 1, 10⟩,
    ⟨numberedTransfer "1", 1, 10⟩, ⟨numberedTransfer "0", 2, 20⟩]
  obtain ⟨blocks, pagesEq, ascending, -⟩ := always calls "alice" 1 (by decide) (by decide)
  have pages : walletPages "alice" 1 (afterCalls calls).store = [.num 1, .num 1] := by
    decide +kernel
  have same : blocks = [1, 1] := by
    have equal : [1, 1].map (fun block : Nat => Json.num block) =
        blocks.map fun block : Nat => Json.num block := pages.symm.trans pagesEq
    apply (List.map_injective_iff.mpr _ equal).symm
    intro first second numbers
    simpa using numbers
  simp [same] at ascending

end MileExplorer
