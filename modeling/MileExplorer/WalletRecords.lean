import MileExplorer.WalletHistory

/-!
# What calls record in wallets that are there already

Whatever the table holds, a sequence of calls of `Table::update` adds to the
lists of a wallet what the calls for it carry, or nothing at all if the wallet
is missing and the row under the text of the index option hides that.
-/

namespace MileExplorer

def listIn (table : Table) (id field : String) : List Json :=
  match table.get? (.str id) with
  | none => []
  | some row => rowList row field

def WalletCall.carries (call : WalletCall) (field : String) : Json :=
  if field = "blocks" then .num call.blockId else call.entry

/-- The wallet is missing, and the row under the text of the index option is
there before it. -/
def HiddenIn (table : Table) (id : String) (updates : List WalletUpdate) : Prop :=
  ¬ table.Has (.str id) ∧ (table.Has (.str Db.indexText) ∨ Hidden id updates)

instance (table : Table) (id : String) (updates : List WalletUpdate) :
    Decidable (HiddenIn table id updates) :=
  inferInstanceAs (Decidable (_ ∧ _))

section Lists

variable {table : Table} {id field : String} {update : WalletUpdate}
  {rest updates : List WalletUpdate}

theorem listIn_of_absent (absent : ¬ table.Has (.str id)) : listIn table id field = [] := by
  simp [listIn, KeyedTable.get?_eq_none.mpr absent]

theorem listIn_of_found {row : Json} (found : table.get? (.str id) = some row) :
    listIn table id field = rowList row field := by
  simp [listIn, found]

theorem walletList_eq_listIn (id field : String) (store : Store) :
    walletList id field store = listIn (store .wallets) id field := by
  cases found : (store .wallets).get? (.str id) with
  | none => simp [walletList, listIn, found]
  | some row => rw [walletList_eq_rowList found, listIn_of_found found]

theorem hiddenIn_cons :
    HiddenIn table id (update :: rest) ↔ HiddenIn (updatedWallets table update) id rest := by
  simp only [HiddenIn, hidden_cons, has_updatedWallets]
  by_cases index : table.Has (.str Db.indexText)
  · simp [index]
  · by_cases own : update.address = id
    · simp [index, own]
    · simp [index, own]

theorem nodup_listIn (formed : WalletsFormed table)
    (isList : field = "blocks" ∨ field = "transactions") : (listIn table id field).Nodup := by
  cases found : table.get? (.str id) with
  | none => simp [listIn, found]
  | some row =>
      rw [listIn_of_found found]
      rcases isList with rfl | rfl
      · exact (formed.get? found).blocksNodup
      · exact (formed.get? found).transactionsNodup

theorem listIn_updatedWallets (formed : WalletsFormed table)
    (isList : field = "blocks" ∨ field = "transactions") (own : update.address = id)
    (seen : table.Has (.str id) ∨ ¬ table.Has (.str Db.indexText)) :
    listIn (updatedWallets table update) id field =
      Json.setUnion (listIn table id field) [update.call.carries field] := by
  subst own
  by_cases present : table.Has (.str update.address)
  · obtain ⟨row, found⟩ := KeyedTable.has_iff_get?.mp present
    obtain ⟨-, blocks, transactions, sameKey⟩ := (formed.get? found).extend update.call
    have key := (KeyedTable.get?_eq_some.mp found).2
    rw [updatedWallets, if_pos (.inl present), listIn_of_found found,
      listIn_of_found (KeyedTable.get?_modify_self found (sameKey.trans key))]
    rcases isList with rfl | rfl
    · exact blocks
    · exact transactions
  · have noIndex := seen.resolve_left present
    obtain ⟨-, blocks, transactions⟩ := isWalletRow_fieldRow update.address update.call
    have notKnown : ¬ (table.Has (.str update.address) ∨ table.Has (.str Db.indexText)) := by
      simp [present, noIndex]
    rw [updatedWallets, if_neg notKnown, listIn_of_absent present,
      listIn_of_found (get?_insert_wallet update.call present)]
    rcases isList with rfl | rfl
    · exact blocks
    · exact transactions

theorem setUnion_nil {values : List Json} (nodup : values.Nodup) :
    Json.setUnion values [] = values := by
  have kept := Json.setUnion_of_nodup nodup
  rw [Json.setUnion, List.nil_append] at kept
  rw [Json.setUnion, List.append_nil, kept]

theorem setUnion_cons (values : List Json) (value : Json) (more : List Json) :
    Json.setUnion (Json.setUnion values [value]) more = Json.setUnion values (value :: more) := by
  induction more using List.reverseRecOn with
  | nil => exact setUnion_nil (Json.setUnion_nodup values [value])
  | append_singleton more last ih =>
      rw [Json.setUnion_append, ih, ← List.cons_append, Json.setUnion_append]

theorem listIn_foldl (formed : WalletsFormed table)
    (isList : field = "blocks" ∨ field = "transactions") :
    listIn (updates.foldl updatedWallets table) id field =
      if HiddenIn table id updates then []
      else Json.setUnion (listIn table id field)
        ((callsFor id updates).map fun call => call.carries field) := by
  induction updates generalizing table with
  | nil =>
      rw [List.foldl_nil]
      split_ifs with hidden
      · exact listIn_of_absent hidden.1
      · exact (setUnion_nil (nodup_listIn formed isList)).symm
  | cons update rest ih =>
      rw [List.foldl_cons, ih (formed.update update)]
      by_cases hidden : HiddenIn table id (update :: rest)
      · rw [if_pos (hiddenIn_cons.mp hidden), if_pos hidden]
      · rw [if_neg (mt hiddenIn_cons.mpr hidden), if_neg hidden]
        by_cases own : update.address = id
        · have seen : table.Has (.str id) ∨ ¬ table.Has (.str Db.indexText) := by
            by_contra lost
            rw [not_or, not_not] at lost
            exact hidden ⟨lost.1, .inl lost.2⟩
          have calls : callsFor id (update :: rest) = update.call :: callsFor id rest := by
            simp [callsFor, own]
          rw [listIn_updatedWallets formed isList own seen, setUnion_cons, calls, List.map_cons]
        · have calls : callsFor id (update :: rest) = callsFor id rest := by
            simp [callsFor, own]
          have same : listIn (updatedWallets table update) id field = listIn table id field := by
            simp only [listIn, get?_updatedWallets_of_ne own]
          rw [same, calls]

theorem entries_foldl (formed : WalletsFormed table) :
    listIn (updates.foldl updatedWallets table) id "transactions" =
      if HiddenIn table id updates then []
      else Json.setUnion (listIn table id "transactions")
        ((callsFor id updates).map WalletCall.entry) :=
  listIn_foldl formed (.inr rfl)

theorem blocks_foldl (formed : WalletsFormed table) :
    listIn (updates.foldl updatedWallets table) id "blocks" =
      if HiddenIn table id updates then []
      else Json.setUnion (listIn table id "blocks")
        ((callsFor id updates).map fun call => .num call.blockId) :=
  listIn_foldl formed (.inl rfl)

/-- A row for which no call is made stays as it is. -/
theorem get?_foldl_of_not_mem {key : Json}
    (absent : ∀ update ∈ updates, key ≠ .str update.address) :
    (updates.foldl updatedWallets table).get? key = table.get? key := by
  induction updates generalizing table with
  | nil => rfl
  | cons update rest ih =>
      rw [List.foldl_cons, ih fun other member => absent other (by simp [member]),
        get?_updatedWallets_of_key_ne (absent update (by simp))]

theorem holdsCall_foldl_iff {store after : Store} (formed : WalletsFormed (store .wallets))
    (sameBlock : ∀ other ∈ updates, other.call.blockId = update.call.blockId)
    (afterEq : after .wallets = updates.foldl updatedWallets (store .wallets)) :
    HoldsCall update.address after update.call ↔
      ¬ HiddenIn (store .wallets) update.address updates ∧
        (.num update.call.blockId ∈ walletList update.address "blocks" store ∨
          update.address ∈ updates.map WalletUpdate.address) ∧
        (update.call.entry ∈ walletList update.address "transactions" store ∨
          update ∈ updates) := by
  have block : .num (update.call.blockId : Int) ∈ (callsFor update.address updates).map
      (fun call => call.carries "blocks") ↔ update.address ∈ updates.map WalletUpdate.address := by
    simp only [List.mem_map, mem_callsFor, WalletCall.carries, if_true]
    constructor
    · rintro ⟨call, ⟨other, member, own, -⟩, -⟩
      exact ⟨other, member, own⟩
    · rintro ⟨other, member, own⟩
      exact ⟨other.call, ⟨other, member, own, rfl⟩, by rw [sameBlock other member]⟩
  have entry : update.call.entry ∈ (callsFor update.address updates).map
      (fun call => call.carries "transactions") ↔ update ∈ updates := by
    simp only [List.mem_map, mem_callsFor, WalletCall.carries, String.reduceEq, if_false]
    constructor
    · rintro ⟨call, ⟨⟨address, other⟩, member, rfl, rfl⟩, sameEntry⟩
      have blocks := sameBlock _ member
      obtain ⟨_, ⟨number, carried⟩⟩ := update
      dsimp only at blocks sameEntry
      rw [← blocks, ← sameEntry]
      exact member
    · intro member
      exact ⟨update.call, ⟨update, member, rfl, rfl⟩, rfl⟩
  rw [HoldsCall, walletList_eq_listIn, walletList_eq_listIn, walletList_eq_listIn,
    walletList_eq_listIn, afterEq, listIn_foldl formed (.inl rfl), listIn_foldl formed (.inr rfl)]
  split_ifs with hidden
  · simp [hidden]
  · rw [Json.mem_setUnion, Json.mem_setUnion, block, entry, and_iff_right hidden]

end Lists

end MileExplorer
