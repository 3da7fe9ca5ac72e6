import MileExplorer.Chain
import MileExplorer.WalletRecords

/-!
# The parties of a transaction

`add_wallet_transaction` goes over the distinct senders of a transaction and
enters it in the wallet of the receiver once for each of them, under an id that
names the sender.  A receiver is therefore entered once only if there is
exactly one sender, and not at all if there is none.
-/

namespace MileExplorer

/-! ## The addresses of a transaction -/

def addressOf (trx : Json) (name : String) : Option String :=
  match trx.find? name with
  | some (.str address) => some address
  | _ => none

/-- The addresses that `find_public_keys` looks at. -/
def senders (trx : Json) : List String := ["from", "public-key"].filterMap (addressOf trx)

def parties (trx : Json) : List String := ["from", "public-key", "to"].filterMap (addressOf trx)

def numberText (trx : Json) : String := (addressOf trx "transaction-id").getD ""

/-- A transaction with a party whose addresses, number, digest and type are
texts. -/
structure NamesParties (trx : Json) : Prop where
  texts : ∀ name ∈ ["from", "public-key", "to"], ∀ value, trx.find? name = some value →
    value.isString = true
  named : parties trx ≠ []
  number : ∃ text, trx.find? "transaction-id" = some (.str text)
  digest : ∃ text, trx.find? "digest" = some (.str text)
  type : ∃ text, trx.find? "transaction-type" = some (.str text)

/-- The entry is one of the transaction in the block: its id is made of a
party, the block and the number. -/
def isEntryOf (trx : Json) (blockId : Nat) (entry : Json) : Bool :=
  (parties trx).any fun party =>
    entry.find? "id" = some (.str (rowId party (toString blockId) (numberText trx)))

/-- The entry that the wallets get for one of the senders. -/
def senderEntry (trx : Json) (blockId : Nat) (time : Int) (sender : String) : Json :=
  .ofMembers [("id", .str (rowId sender (toString blockId) (numberText trx))),
    ("block-id", .num blockId), ("digest", (trx.find? "digest").getD .null),
    ("transaction-type", (trx.find? "transaction-type").getD .null), ("timestamp", .num time)]

section Addresses

variable {trx : Json} {blockId : Nat} {time : Int}

theorem addressOf_eq_some {name address : String} :
    addressOf trx name = some address ↔ trx.find? name = some (.str address) := by
  unfold addressOf
  split
  · rename_i found foundEq
    simp [foundEq]
  · rename_i other
    simpa using other address

theorem mem_senders {address : String} :
    address ∈ senders trx ↔
      addressOf trx "from" = some address ∨ addressOf trx "public-key" = some address := by
  simp [senders]

theorem mem_parties {address : String} :
    address ∈ parties trx ↔ address ∈ senders trx ∨ addressOf trx "to" = some address := by
  simp [parties, senders, or_assoc]

theorem senderEntry_id (sender : String) :
    (senderEntry trx blockId time sender).find? "id" =
      some (.str (rowId sender (toString blockId) (numberText trx))) := by
  simp [senderEntry, Json.find?_ofMembers, Json.member?_setMember]

theorem senderEntry_injective {first second : String}
    (same : senderEntry trx blockId time first = senderEntry trx blockId time second) :
    first = second := by
  have ids := congrArg (fun entry => entry.find? "id") same
  simp only [senderEntry_id, Option.some.injEq, Json.str.injEq, rowId, String.append_assoc] at ids
  exact (String.append_left_inj _).mp ids

theorem isEntryOf_senderEntry {sender : String} (member : sender ∈ senders trx) :
    isEntryOf trx blockId (senderEntry trx blockId time sender) = true := by
  apply List.any_eq_true.mpr
  exact ⟨sender, mem_parties.mpr (.inl member), by simp [senderEntry_id]⟩

theorem NamesParties.numberText_eq (named : NamesParties trx) :
    trx.find? "transaction-id" = some (.str (numberText trx)) := by
  obtain ⟨text, found⟩ := named.number
  simp [numberText, addressOf, found]

theorem NamesParties.addressOf_or_none (named : NamesParties trx) {name : String}
    (isName : name ∈ ["from", "public-key", "to"]) :
    trx.find? name = none ∨ ∃ address, trx.find? name = some (.str address) := by
  cases found : trx.find? name with
  | none => exact .inl rfl
  | some value =>
      have isText := named.texts name isName value found
      cases value with
      | str address => exact .inr ⟨address, rfl⟩
      | _ => simp [Json.isString] at isText

theorem mem_setMember {Value : Type} (valueOf : String → Value) {key : String}
    {members : List (String × Value)} (given : ∀ entry ∈ members, entry.2 = valueOf entry.1)
    {entry : String × Value} :
    entry ∈ Json.setMember key (valueOf key) members ↔
      entry = (key, valueOf key) ∨ entry ∈ members := by
  induction members with
  | nil => simp [Json.setMember]
  | cons head rest ih =>
      obtain ⟨name, value⟩ := head
      have headValue : value = valueOf name := given (name, value) (by simp)
      have later := ih fun other member => given other (by simp [member])
      unfold Json.setMember
      split_ifs with same before
      · simp [headValue, same]
      · simp
      · rw [List.mem_cons, later, List.mem_cons]
        exact or_left_comm

theorem NamesParties.exists_addPublicKey (named : NamesParties trx) {name block : String}
    (isName : name ∈ ["from", "public-key", "to"]) {found : List (String × String)}
    (given : ∀ entry ∈ found, entry.2 = rowId entry.1 block (numberText trx)) :
    ∃ entries, addPublicKey trx block found name = .ok entries ∧
      (∀ entry ∈ entries, entry.2 = rowId entry.1 block (numberText trx)) ∧
      ∀ address, address ∈ entries.map Prod.fst ↔
        addressOf trx name = some address ∨ address ∈ found.map Prod.fst := by
  cases addressEq : addressOf trx name with
  | none =>
      have absent : trx.find? name = none := by
        rcases named.addressOf_or_none isName with none | ⟨address, foundEq⟩
        · exact none
        · rw [addressOf_eq_some.mpr foundEq] at addressEq
          cases addressEq
      exact ⟨found, by simp [addPublicKey, Json.count, absent], given, by simp⟩
  | some address =>
      have foundEq := addressOf_eq_some.mp addressEq
      have members {entry : String × String} : entry ∈ Json.setMember address
          (rowId address block (numberText trx)) found ↔
            entry = (address, rowId address block (numberText trx)) ∨ entry ∈ found :=
        mem_setMember (fun address => rowId address block (numberText trx)) given
      refine ⟨Json.setMember address (rowId address block (numberText trx)) found, ?_, ?_, ?_⟩
      · rw [addPublicKey, if_neg (by simp [Json.count, foundEq]),
          Json.constText_eq_ok.mpr foundEq, Json.constText_eq_ok.mpr named.numberText_eq]
        rfl
      · intro entry member
        rcases members.mp member with rfl | old
        · rfl
        · exact given entry old
      · intro other
        simp only [List.mem_map, members, Option.some.injEq]
        constructor
        · rintro ⟨entry, rfl | old, rfl⟩
          · exact .inl rfl
          · exact .inr ⟨entry, old, rfl⟩
        · rintro (rfl | ⟨entry, old, rfl⟩)
          · exact ⟨_, .inl rfl, rfl⟩
          · exact ⟨entry, .inr old, rfl⟩

theorem NamesParties.exists_findPublicKeys (named : NamesParties trx) (block : String) :
    ∃ entries, findPublicKeys trx block = .ok entries ∧
      (∀ entry ∈ entries, entry.2 = rowId entry.1 block (numberText trx)) ∧
      ∀ address, address ∈ entries.map Prod.fst ↔ address ∈ senders trx := by
  have isFrom : "from" ∈ ["from", "public-key", "to"] := by simp
  have isKey : "public-key" ∈ ["from", "public-key", "to"] := by simp
  obtain ⟨first, firstEq, firstGiven, firstKeys⟩ := named.exists_addPublicKey isFrom
    (show ∀ entry ∈ ([] : List (String × String)), entry.2 = rowId entry.1 block (numberText trx)
      by simp)
  obtain ⟨entries, entriesEq, given, keys⟩ := named.exists_addPublicKey isKey firstGiven
  refine ⟨entries, ?_, given, ?_⟩
  · apply bind_eq_ok.mpr
    refine ⟨first, firstEq, ?_⟩
    apply bind_eq_ok.mpr
    exact ⟨entries, entriesEq, rfl⟩
  · intro address
    rw [keys, firstKeys, mem_senders]
    simp [or_comm]

/-! ## The updates of wallets -/

theorem NamesParties.walletEntry_eq (named : NamesParties trx) (sender : String) :
    Db.walletEntry trx (rowId sender (toString blockId) (numberText trx)) blockId time =
      .ok (senderEntry trx blockId time sender) := by
  obtain ⟨digest, digestEq⟩ := named.digest
  obtain ⟨type, typeEq⟩ := named.type
  rw [Db.walletEntry, Json.indexConst_of_find? digestEq, Json.indexConst_of_find? typeEq]
  simp only [senderEntry, digestEq, typeEq]
  rfl

/-- For each sender the transaction is entered in the wallet of the sender and
in that of the receiver. -/
theorem NamesParties.mem_entryUpdates (named : NamesParties trx)
    {entries : List (String × String)}
    (given : ∀ entry ∈ entries, entry.2 = rowId entry.1 (toString blockId) (numberText trx))
    (update : WalletUpdate) :
    update ∈ (entryUpdates trx blockId time entries).1 ↔
      ∃ sender ∈ entries.map Prod.fst,
        update.call = ⟨blockId, senderEntry trx blockId time sender⟩ ∧
          (update.address = sender ∨ addressOf trx "to" = some update.address) := by
  induction entries with
  | nil => simp [entryUpdates]
  | cons head rest ih =>
      obtain ⟨sender, id⟩ := head
      have idEq : id = rowId sender (toString blockId) (numberText trx) :=
        given (sender, id) (by simp)
      have later := ih fun other member => given other (by simp [member])
      have split (address : String) (call : WalletCall) :
          update = ⟨address, call⟩ ↔ update.call = call ∧ update.address = address := by
        obtain ⟨ownAddress, ownCall⟩ := update
        simp [and_comm]
      unfold entryUpdates
      rw [idEq, named.walletEntry_eq]
      rcases named.addressOf_or_none (show "to" ∈ ["from", "public-key", "to"] by simp) with
        noTo | ⟨receiver, toEq⟩
      · have noAddress : addressOf trx "to" = none := by simp [addressOf, noTo]
        simp only [noTo, List.mem_cons, later, split, List.map_cons, noAddress, reduceCtorEq,
          or_false, exists_eq_or_imp]
      · have toAddress : addressOf trx "to" = some update.address ↔
            update.address = receiver := by
          rw [addressOf_eq_some.mpr toEq, Option.some.injEq, eq_comm]
        simp only [toEq, Json.getString, List.mem_cons, later, split, List.map_cons, toAddress,
          exists_eq_or_imp, ← or_assoc, ← and_or_left]

theorem NamesParties.mem_walletUpdates (named : NamesParties trx) (small : blockId < 2 ^ 64)
    (update : WalletUpdate) :
    update ∈ (walletUpdates trx blockId time).1 ↔
      ∃ sender ∈ senders trx,
        update.call = ⟨blockId, senderEntry trx blockId time sender⟩ ∧
          (update.address = sender ∨ addressOf trx "to" = some update.address) := by
  obtain ⟨entries, entriesEq, given, keys⟩ := named.exists_findPublicKeys (toString blockId)
  simp only [walletUpdates, stoull, if_pos small, entriesEq, named.mem_entryUpdates given, keys]

theorem NamesParties.mem_entries (named : NamesParties trx) (small : blockId < 2 ^ 64)
    {party : String} {entry : Json} :
    entry ∈ (callsFor party (walletUpdates trx blockId time).1).map WalletCall.entry ↔
      ∃ sender ∈ senders trx, entry = senderEntry trx blockId time sender ∧
        (party = sender ∨ addressOf trx "to" = some party) := by
  simp only [List.mem_map, mem_callsFor, named.mem_walletUpdates small]
  constructor
  · rintro ⟨call, ⟨update, ⟨sender, member, callEq, own⟩, rfl, rfl⟩, rfl⟩
    exact ⟨sender, member, by rw [callEq], own⟩
  · rintro ⟨sender, member, rfl, own⟩
    exact ⟨_, ⟨⟨party, blockId, senderEntry trx blockId time sender⟩,
      ⟨sender, member, rfl, own⟩, rfl, rfl⟩, rfl⟩

end Addresses

/-! ## Counting entries -/

/-- Values that are wanted, added to a list with none of them. -/
theorem filter_setUnion {wanted : Json → Bool} {old new : List Json}
    (none : ∀ value ∈ old, wanted value = false) (every : ∀ value ∈ new, wanted value = true)
    (nodup : old.Nodup) : (Json.setUnion old new).filter wanted = Json.setUnion [] new := by
  induction new using List.reverseRecOn with
  | nil =>
      rw [setUnion_nil nodup]
      apply List.filter_eq_nil_iff.mpr
      intro value member
      simp [none value member]
  | append_singleton new value ih =>
      have isWanted := every value (by simp)
      have notOld : value ∉ old := by
        intro member
        rw [none value member] at isWanted
        cases isWanted
      have same : value ∈ Json.setUnion old new ↔ value ∈ Json.setUnion [] new := by
        simp [Json.mem_setUnion, notOld]
      have earlier := ih fun other member => every other (by simp [member])
      rw [Json.setUnion_append, Json.setUnion_append, ← earlier]
      by_cases present : value ∈ Json.setUnion old new
      · rw [if_pos present, if_pos]
        rw [earlier]
        exact same.mp present
      · rw [if_neg present, if_neg, List.filter_append, List.filter_cons_of_pos isWanted,
          List.filter_nil]
        rw [earlier]
        exact mt same.mpr present

theorem length_setUnion_eq_one {values : List Json} :
    (Json.setUnion [] values).length = 1 ↔ ∃ value, ∀ other, other ∈ values ↔ other = value := by
  have members (other : Json) : other ∈ Json.setUnion [] values ↔ other ∈ values := by
    simp [Json.mem_setUnion]
  constructor
  · intro one
    obtain ⟨value, single⟩ := List.length_eq_one_iff.mp one
    refine ⟨value, fun other => ?_⟩
    rw [← members, single, List.mem_singleton]
  · rintro ⟨value, only⟩
    have perm : (Json.setUnion [] values).Perm [value] := by
      apply (List.perm_ext_iff_of_nodup (Json.setUnion_nodup _ _) (List.nodup_singleton _)).mpr
      intro other
      rw [members, only, List.mem_singleton]
    exact perm.length_eq

/-! ## One entry for each party -/

/-- Every party has the block and one entry of the transaction, and no other
row has changed. -/
structure EachPartyOnce (trx : Json) (blockId : Nat) (before after : Table) : Prop where
  entered : ∀ party ∈ parties trx, ∃ row, after.get? (.str party) = some row ∧
    .num blockId ∈ rowList row "blocks" ∧
    ((rowList row "transactions").filter (isEntryOf trx blockId)).length = 1
  others : ∀ key, (∀ party ∈ parties trx, key ≠ .str party) → after.get? key = before.get? key

section Once

variable {trx : Json} {blockId : Nat} {time : Int} {table : Table} {party : String}

/-- A party is entered once exactly if it is not hidden and all its entries are
of one sender. -/
theorem NamesParties.entered_iff (named : NamesParties trx) (small : blockId < 2 ^ 64)
    (formed : WalletsFormed table)
    (unmentioned : ∀ row ∈ table.rows, ∀ entry ∈ rowList row "transactions",
      isEntryOf trx blockId entry = false) :
    (∃ row, ((walletUpdates trx blockId time).1.foldl updatedWallets table).get? (.str party) =
        some row ∧ .num blockId ∈ rowList row "blocks" ∧
        ((rowList row "transactions").filter (isEntryOf trx blockId)).length = 1) ↔
      ¬ HiddenIn table party (walletUpdates trx blockId time).1 ∧
        ∃ sender, ∀ other, other ∈ senders trx ∧
          (party = other ∨ addressOf trx "to" = some party) ↔ other = sender := by
  let updates := (walletUpdates trx blockId time).1
  have none : ∀ entry ∈ listIn table party "transactions",
      isEntryOf trx blockId entry = false := by
    intro entry member
    cases found : table.get? (.str party) with
    | none => simp [listIn, found] at member
    | some row =>
        rw [listIn_of_found found] at member
        exact unmentioned row (KeyedTable.get?_eq_some.mp found).1 entry member
  have every : ∀ entry ∈ (callsFor party updates).map WalletCall.entry,
      isEntryOf trx blockId entry = true := by
    intro entry member
    obtain ⟨sender, senderMem, rfl, -⟩ := (named.mem_entries small).mp member
    exact isEntryOf_senderEntry senderMem
  have oneSender : (∃ entry, ∀ other, other ∈ (callsFor party updates).map WalletCall.entry ↔
        other = entry) ↔
      ∃ sender, ∀ other, other ∈ senders trx ∧
        (party = other ∨ addressOf trx "to" = some party) ↔ other = sender := by
    simp only [updates, named.mem_entries small]
    constructor
    · rintro ⟨entry, only⟩
      obtain ⟨sender, senderMem, rfl, own⟩ := (only entry).mpr rfl
      refine ⟨sender, fun other => ⟨?_, ?_⟩⟩
      · rintro ⟨otherMem, otherOwn⟩
        exact senderEntry_injective ((only _).mp ⟨other, otherMem, rfl, otherOwn⟩)
      · rintro rfl
        exact ⟨senderMem, own⟩
    · rintro ⟨sender, only⟩
      obtain ⟨senderMem, own⟩ := (only sender).mpr rfl
      refine ⟨senderEntry trx blockId time sender, fun other => ⟨?_, ?_⟩⟩
      · rintro ⟨another, anotherMem, rfl, anotherOwn⟩
        rw [(only another).mp ⟨anotherMem, anotherOwn⟩]
      · rintro rfl
        exact ⟨sender, senderMem, rfl, own⟩
  have counts (visible : ¬ HiddenIn table party updates) :
      ((listIn (updates.foldl updatedWallets table) party "transactions").filter
          (isEntryOf trx blockId)).length = 1 ↔
        ∃ sender, ∀ other, other ∈ senders trx ∧
          (party = other ∨ addressOf trx "to" = some party) ↔ other = sender := by
    rw [entries_foldl formed, if_neg visible,
      filter_setUnion none every (nodup_listIn formed (.inr rfl)), length_setUnion_eq_one,
      oneSender]
  constructor
  · rintro ⟨row, found, -, one⟩
    rw [← listIn_of_found found] at one
    have visible : ¬ HiddenIn table party updates := by
      intro hidden
      rw [entries_foldl formed, if_pos hidden] at one
      simp at one
    exact ⟨visible, (counts visible).mp one⟩
  · rintro ⟨visible, sender, only⟩
    have one := (counts visible).mpr ⟨sender, only⟩
    obtain ⟨senderMem, own⟩ := (only sender).mpr rfl
    have made : (⟨party, blockId, senderEntry trx blockId time sender⟩ : WalletUpdate) ∈ updates :=
      (named.mem_walletUpdates small _).mpr ⟨sender, senderMem, rfl, own⟩
    have block : .num (blockId : Int) ∈ listIn (updates.foldl updatedWallets table) party
        "blocks" := by
      rw [blocks_foldl formed, if_neg visible, Json.mem_setUnion]
      exact .inr (List.mem_map.mpr ⟨_, mem_callsFor.mpr ⟨_, made, rfl, rfl⟩, rfl⟩)
    cases found : (updates.foldl updatedWallets table).get? (.str party) with
    | none => simp [listIn, found] at block
    | some row =>
        rw [listIn_of_found found] at block one
        exact ⟨row, rfl, block, one⟩

theorem oneSender_iff :
    (∀ party ∈ parties trx, ∃ sender, ∀ other, other ∈ senders trx ∧
        (party = other ∨ addressOf trx "to" = some party) ↔ other = sender) ↔
      addressOf trx "to" = none ∨
        ∃ sender, ∀ other, other ∈ senders trx ↔ other = sender := by
  constructor
  · intro each
    cases toEq : addressOf trx "to" with
    | none => exact .inl rfl
    | some receiver =>
        right
        obtain ⟨sender, only⟩ := each receiver (mem_parties.mpr (.inr toEq))
        refine ⟨sender, fun other => ?_⟩
        rw [← only other, and_iff_left (.inr toEq)]
  · rintro (noReceiver | ⟨sender, only⟩) party member
    · have isSender : party ∈ senders trx := by
        rcases mem_parties.mp member with isSender | isReceiver
        · exact isSender
        · rw [noReceiver] at isReceiver
          cases isReceiver
      refine ⟨party, fun other => ⟨?_, ?_⟩⟩
      · rintro ⟨-, same | isReceiver⟩
        · exact same.symm
        · rw [noReceiver] at isReceiver
          cases isReceiver
      · rintro rfl
        exact ⟨isSender, .inl rfl⟩
    · refine ⟨sender, fun other => ⟨fun isOther => (only other).mp isOther.1, ?_⟩⟩
      rintro rfl
      refine ⟨(only other).mpr rfl, ?_⟩
      rcases mem_parties.mp member with isSender | isReceiver
      · exact .inl ((only party).mp isSender)
      · exact .inr isReceiver

end Once

/-- Every party of a transaction is entered exactly once, and no other wallet
changes, exactly if the transaction has no receiver or exactly one sender, and
none of its parties is hidden. -/
theorem parties_entered_iff {trx : Json} {blockId : Nat} {process : Process} (time : Int)
    (named : NamesParties trx) (small : blockId < 2 ^ 64) (formed : process.Formed)
    (unmentioned : ∀ row ∈ (process.store .wallets).rows,
      ∀ entry ∈ rowList row "transactions", isEntryOf trx blockId entry = false) :
    EachPartyOnce trx blockId (process.store .wallets)
        (((Db.addWalletTransaction trx blockId time).run Process.exec process).2.store
          .wallets) ↔
      (addressOf trx "to" = none ∨
          ∃ sender, ∀ other, other ∈ senders trx ↔ other = sender) ∧
        ∀ party ∈ parties trx,
          ¬ HiddenIn (process.store .wallets) party (walletUpdates trx blockId time).1 := by
  have wallets : ((Db.addWalletTransaction trx blockId time).run Process.exec process).2.store
      .wallets = (walletUpdates trx blockId time).1.foldl updatedWallets
        (process.store .wallets) := by
    rw [addWalletTransaction_run _ _ _ formed, store_foldl_updateWallet, Function.update_self]
  rw [wallets, ← oneSender_iff, and_comm]
  constructor
  · intro once
    have entered (party : String) (member : party ∈ parties trx) :=
      (named.entered_iff small formed unmentioned).mp (once.entered party member)
    exact ⟨fun party member => (entered party member).1,
      fun party member => (entered party member).2⟩
  · rintro ⟨visible, single⟩
    constructor
    · intro party member
      exact (named.entered_iff small formed unmentioned).mpr
        ⟨visible party member, single party member⟩
    · intro key noParty
      apply get?_foldl_of_not_mem
      intro update member same
      obtain ⟨sender, senderMem, -, own⟩ := (named.mem_walletUpdates small update).mp member
      apply noParty update.address _ same
      rcases own with isSender | isReceiver
      · exact mem_parties.mpr (.inl (isSender ▸ senderMem))
      · exact mem_parties.mpr (.inr isReceiver)

def transferBetween (addresses : List (String × Json)) : Json :=
  .ofMembers ([("transaction-id", .str "0"), ("digest", .str "0x"),
    ("transaction-type", .str "TransferAssetsTransaction")] ++ addresses)

/-- A transfer of alice to bob. -/
theorem parties_entered_iff_transfer :
    let trx := transferBetween [("from", .str "alice"), ("to", .str "bob")]
    NamesParties trx ∧
      EachPartyOnce trx 1 KeyedTable.empty
        (((Db.addWalletTransaction trx 1 0).run Process.exec
          (Process.idle Store.empty)).2.store .wallets) := by
  intro trx
  have fromEq : trx.find? "from" = some (.str "alice") := by decide +kernel
  have keyEq : trx.find? "public-key" = none := by decide +kernel
  have toEq : trx.find? "to" = some (.str "bob") := by decide +kernel
  have sendersEq : senders trx = ["alice"] := by decide +kernel
  have named : NamesParties trx := by
    refine ⟨?_, by decide +kernel, ⟨"0", by decide +kernel⟩, ⟨"0x", by decide +kernel⟩,
      ⟨"TransferAssetsTransaction", by decide +kernel⟩⟩
    intro name isName value found
    simp only [List.mem_cons, List.not_mem_nil, or_false] at isName
    rcases isName with rfl | rfl | rfl
    · rw [← Option.some.inj (fromEq.symm.trans found)]
      rfl
    · rw [keyEq] at found
      cases found
    · rw [← Option.some.inj (toEq.symm.trans found)]
      rfl
  have formed : (Process.idle Store.empty).Formed :=
    fun row member => absurd member List.not_mem_nil
  refine ⟨named, (parties_entered_iff 0 named (by decide) formed
    fun row member => absurd member List.not_mem_nil).mpr ⟨.inr ⟨"alice", ?_⟩, ?_⟩⟩
  · intro other
    rw [sendersEq, List.mem_singleton]
  · decide +kernel

/-- A transfer to bob that names alice as sender and carol by her key: bob gets
two entries. -/
theorem receiver_entered_twice :
    let trx := transferBetween [("from", .str "alice"), ("public-key", .str "carol"),
      ("to", .str "bob")]
    ¬ EachPartyOnce trx 1 KeyedTable.empty
      (((Db.addWalletTransaction trx 1 0).run Process.exec
        (Process.idle Store.empty)).2.store .wallets) := by
  intro trx once
  obtain ⟨row, found, -, one⟩ := once.entered "bob" (by decide +kernel)
  have twice : ((listIn (((Db.addWalletTransaction trx 1 0).run Process.exec
      (Process.idle Store.empty)).2.store .wallets) "bob" "transactions").filter
        (isEntryOf trx 1)).length = 2 := by
    decide +kernel
  rw [listIn_of_found found, one] at twice
  cases twice

end MileExplorer
