import MileExplorer.Api
import MileExplorer.Parties

/-!
# Keys of transactions

The indexer stores a transaction under a key of three parts, the address, the
block and the number of the transaction.  `get-transaction` puts such a key
together from a request.  The parts can be read off a key again as long as the
address has no colon.
-/

namespace MileExplorer

/-! ## Parts of a key -/

theorem eq_of_append_separator {Symbol : Type} {separator : Symbol}
    {first second firstRest secondRest : List Symbol} (firstFree : separator ∉ first)
    (secondFree : separator ∉ second)
    (same : first ++ separator :: firstRest = second ++ separator :: secondRest) :
    first = second ∧ firstRest = secondRest := by
  induction first generalizing second with
  | nil =>
      cases second with
      | nil => exact ⟨rfl, (List.cons.inj same).2⟩
      | cons head tail =>
          have : separator = head := (List.cons.inj same).1
          simp [this] at secondFree
  | cons head tail ih =>
      cases second with
      | nil =>
          have : head = separator := (List.cons.inj same).1
          simp [this] at firstFree
      | cons other others =>
          obtain ⟨rfl, rest⟩ := List.cons.inj same
          have tailFree : separator ∉ tail := fun member => firstFree (by simp [member])
          have othersFree : separator ∉ others := fun member => secondFree (by simp [member])
          obtain ⟨rfl, restEq⟩ := ih tailFree othersFree rest
          exact ⟨rfl, restEq⟩

theorem toList_rowId (address blockId number : String) :
    (rowId address blockId number).toList =
      address.toList ++ ':' :: (blockId.toList ++ ':' :: number.toList) := by
  simp [rowId]

/-- Different parts make different keys, whatever the number is. -/
theorem rowId_inj {address otherAddress : String} (plain : ':' ∉ address.toList)
    (otherPlain : ':' ∉ otherAddress.toList) {block otherBlock : Nat}
    {number otherNumber : String}
    (same : rowId address (toString block) number =
      rowId otherAddress (toString otherBlock) otherNumber) :
    address = otherAddress ∧ block = otherBlock ∧ number = otherNumber := by
  have texts := congrArg String.toList same
  rw [toList_rowId, toList_rowId] at texts
  obtain ⟨addressEq, rest⟩ := eq_of_append_separator plain otherPlain texts
  obtain ⟨blockEq, numberEq⟩ := eq_of_append_separator (colon_not_mem_toString block)
    (colon_not_mem_toString otherBlock) rest
  exact ⟨String.toList_inj.mp addressEq, toString_injective (String.toList_inj.mp blockEq),
    String.toList_inj.mp numberEq⟩

/-! ## Keys of the indexer -/

theorem mem_findPublicKeys {trx : Json} {block number : String}
    (numberEq : trx.find? "transaction-id" = some (.str number))
    {entries : List (String × String)} (found : findPublicKeys trx block = .ok entries)
    {entry : String × String} :
    entry ∈ entries ↔ (trx.find? "from" = some (.str entry.1) ∨
      trx.find? "public-key" = some (.str entry.1)) ∧ entry.2 = rowId entry.1 block number := by
  obtain ⟨senders, first, rest⟩ := bind_eq_ok.mp found
  obtain ⟨keys, second, done⟩ := bind_eq_ok.mp rest
  obtain rfl : keys = entries := Except.ok.inj done
  have adds {name : String} {before after : List (String × String)}
      (given : ∀ entry ∈ before, entry.2 = rowId entry.1 block number)
      (added : addPublicKey trx block before name = .ok after) (entry : String × String) :
      entry ∈ after ↔ (trx.find? name = some (.str entry.1) ∧
        entry.2 = rowId entry.1 block number) ∨ entry ∈ before := by
    rcases addPublicKey_cases added with ⟨absent, rfl⟩ | ⟨address, other, addressEq, otherEq, rfl⟩
    · simp [absent]
    · obtain rfl : other = number := by simpa [numberEq] using otherEq.symm
      rw [mem_setMember (fun address => rowId address block other) given, addressEq]
      apply or_congr_left
      constructor
      · rintro rfl
        exact ⟨rfl, rfl⟩
      · rintro ⟨addressIs, idEq⟩
        obtain rfl : address = entry.1 := by simpa using addressIs
        exact Prod.ext rfl idEq
  have fromSenders := adds (by simp) first
  have given : ∀ entry ∈ senders, entry.2 = rowId entry.1 block number := by
    intro entry member
    have := (fromSenders entry).mp member
    simp only [List.not_mem_nil, or_false] at this
    exact this.2
  rw [adds given second entry, fromSenders entry]
  simp only [List.not_mem_nil, or_false]
  tauto

/-! ## Keys of `get-transaction` -/

/-- Whatever the database holds, the answer to the request is the transaction
stored under the key. -/
def LooksUp (params : Json) (key : String) : Prop :=
  ∀ store, Api.getTransaction params store =
    .ok (.answers (getDataOf (Db.transactionById key store)))

def requestsFor (publicKey : String) (block number : Nat) : List Json :=
  [.ofMembers [("id", .str (rowId publicKey (toString block) (toString number)))],
    .ofMembers [("id", .num number), ("block-id", .num block), ("public-key", .str publicKey)],
    .ofMembers [("id", .num number), ("block-id", .str (toString block)),
      ("public-key", .str publicKey)],
    .ofMembers [("id", .str (toString number)), ("block-id", .num block),
      ("public-key", .str publicKey)],
    .ofMembers [("id", .str (toString number)), ("block-id", .str (toString block)),
      ("public-key", .str publicKey)],
    .ofMembers [("id", .str (toString block ++ ":" ++ toString number)),
      ("public-key", .str publicKey)]]

/-- A database with one transaction, of which only the key is known. -/
def transactionNamed (key : String) : Store := fun _ =>
  KeyedTable.empty.insert (.ofMembers [("id", .str key)])

theorem transactionById_named (key wanted : String) :
    getDataOf (Db.transactionById wanted (transactionNamed key)) =
      if key = wanted then .ofMembers [("id", .str key)] else .arr [] := by
  have rows : (transactionNamed key .transactions).rows = [.ofMembers [("id", .str key)]] :=
    KeyedTable.rows_insert_of_not_has (KeyedTable.not_has_empty _)
  have name : docId (.ofMembers [("id", .str key)]) = .str key := rfl
  simp only [Db.transactionById, Cursor.get, cursor, Cursor.rows, rows, bind, Except.bind, pure,
    Except.pure, List.find?_cons, List.find?_nil, name, Json.str.injEq]
  by_cases same : key = wanted
  · simp [same, getDataOf, Json.ofMembers]
  · simp [same, getDataOf]

theorem LooksUp.unique {params : Json} {first second : String} (firstKey : LooksUp params first)
    (secondKey : LooksUp params second) : first = second := by
  have same : getDataOf (Db.transactionById first (transactionNamed first)) =
      getDataOf (Db.transactionById second (transactionNamed first)) := by
    have := (firstKey (transactionNamed first)).symm.trans (secondKey (transactionNamed first))
    simpa using this
  rw [transactionById_named, transactionById_named, if_pos rfl] at same
  by_contra differ
  rw [if_neg differ] at same
  simp [Json.ofMembers] at same

section Requests

variable {params : Json} {publicKey blockId : String}

theorem transactionBlockId_num {block : Nat} (found : params.find? "block-id" = some (.num block)) :
    Api.transactionBlockId params = .ok (some (toString block)) := by
  rw [Api.transactionBlockId, if_neg (by simp [Json.count, found]), Json.at?_of_find? found]
  simp [Json.isNumber, Json.getUInt64, bind, Except.bind, pure, Except.pure]

theorem transactionBlockId_str (found : params.find? "block-id" = some (.str blockId)) :
    Api.transactionBlockId params = .ok (some blockId) := by
  rw [Api.transactionBlockId, if_neg (by simp [Json.count, found]), Json.at?_of_find? found]
  rfl

theorem transactionBlockId_none (absent : params.find? "block-id" = none) :
    Api.transactionBlockId params = .ok none := by
  rw [Api.transactionBlockId, if_pos (by simp [Json.count, absent])]

variable (noDigest : params.find? "digest" = none)

include noDigest

theorem LooksUp.whole {key : String} (idEq : params.find? "id" = some (.str key))
    (noKey : params.find? "public-key" = none) : LooksUp params key := by
  intro store
  simp [Api.getTransaction, Api.check, Json.count, noDigest, noKey, idEq, Json.at?_of_find? idEq,
    Json.isNumber, Json.getString, bind, Except.bind, pure, Except.pure]

variable (keyEq : params.find? "public-key" = some (.str publicKey))

include keyEq

theorem LooksUp.numbered {number : Nat} (idEq : params.find? "id" = some (.num number))
    (blockEq : Api.transactionBlockId params = .ok (some blockId)) :
    LooksUp params (rowId publicKey blockId (toString number)) := by
  intro store
  simp [Api.getTransaction, Api.check, Api.textOf, Json.count, noDigest, keyEq, idEq, blockEq,
    Json.at?_of_find? idEq, Json.at?_of_find? keyEq, Json.isNumber, Json.getString, Json.getUInt64,
    bind, Except.bind, pure, Except.pure]

theorem LooksUp.texts {number : String} (idEq : params.find? "id" = some (.str number))
    (blockEq : Api.transactionBlockId params = .ok (some blockId)) :
    LooksUp params (rowId publicKey blockId number) := by
  intro store
  simp [Api.getTransaction, Api.check, Api.textOf, Json.count, noDigest, keyEq, idEq, blockEq,
    Json.at?_of_find? idEq, Json.at?_of_find? keyEq, Json.isNumber, Json.getString, rowId,
    bind, Except.bind, pure, Except.pure]

theorem LooksUp.ending {ending : String} (idEq : params.find? "id" = some (.str ending))
    (absent : params.find? "block-id" = none) : LooksUp params (publicKey ++ ":" ++ ending) := by
  intro store
  simp [Api.getTransaction, Api.check, Api.textOf, Json.count, noDigest, keyEq, idEq,
    transactionBlockId_none absent, Json.at?_of_find? idEq, Json.at?_of_find? keyEq, Json.isNumber,
    Json.getString, bind, Except.bind, pure, Except.pure]

end Requests

theorem looksUp_of_mem_requestsFor {publicKey : String} {block number : Nat} {params : Json}
    (member : params ∈ requestsFor publicKey block number) :
    LooksUp params (rowId publicKey (toString block) (toString number)) := by
  simp only [requestsFor, List.mem_cons, List.not_mem_nil, or_false] at member
  rcases member with rfl | rfl | rfl | rfl | rfl | rfl
  · apply LooksUp.whole
    all_goals simp [Json.find?_ofMembers, Json.member?_setMember, Json.member?]
  · refine LooksUp.numbered ?_ ?_ ?_ (transactionBlockId_num ?_)
    all_goals simp [Json.find?_ofMembers, Json.member?_setMember, Json.member?]
  · refine LooksUp.numbered ?_ ?_ ?_ (transactionBlockId_str ?_)
    all_goals simp [Json.find?_ofMembers, Json.member?_setMember, Json.member?]
  · refine LooksUp.texts ?_ ?_ ?_ (transactionBlockId_num ?_)
    all_goals simp [Json.find?_ofMembers, Json.member?_setMember, Json.member?]
  · refine LooksUp.texts ?_ ?_ ?_ (transactionBlockId_str ?_)
    all_goals simp [Json.find?_ofMembers, Json.member?_setMember, Json.member?]
  · have key : rowId publicKey (toString block) (toString number) =
        publicKey ++ ":" ++ (toString block ++ ":" ++ toString number) := by
      simp [rowId, String.append_assoc]
    rw [key]
    apply LooksUp.ending
    all_goals simp [Json.find?_ofMembers, Json.member?_setMember, Json.member?]

/-- `get-transaction` looks up the key under which the indexer stores the
transaction, and different transactions have different keys. -/
theorem getTransaction_key (publicKey : String) (plain : ':' ∉ publicKey.toList)
    (block number : Nat) :
    (∀ params ∈ requestsFor publicKey block number, ∀ key,
      LooksUp params key ↔ key = rowId publicKey (toString block) (toString number)) ∧
    (∀ trx entries, trx.find? "transaction-id" = some (.str (toString number)) →
      trx.find? "from" = some (.str publicKey) ∨ trx.find? "public-key" = some (.str publicKey) →
      findPublicKeys trx (toString block) = .ok entries → ∀ key,
        (publicKey, key) ∈ entries ↔
          key = rowId publicKey (toString block) (toString number)) ∧
    ∀ otherKey : String, ':' ∉ otherKey.toList → ∀ (otherBlock : Nat) (id otherId : String),
      (publicKey, block, id) ≠ (otherKey, otherBlock, otherId) →
        rowId publicKey (toString block) id ≠ rowId otherKey (toString otherBlock) otherId := by
  refine ⟨?_, ?_, ?_⟩
  · intro params member key
    have looked := looksUp_of_mem_requestsFor member
    constructor
    · intro looksUp
      exact looksUp.unique looked
    · rintro rfl
      exact looked
  · intro trx entries numberEq named found key
    simp [mem_findPublicKeys numberEq found, named]
  · intro otherKey otherPlain otherBlock id otherId differ same
    obtain ⟨rfl, rfl, rfl⟩ := rowId_inj plain otherPlain same
    exact differ rfl

/-- The transfer number 3 of `alice` in block 7. -/
theorem getTransaction_key_alice :
    ':' ∉ "alice".toList ∧
    LooksUp (.ofMembers [("id", .str "7:3"), ("public-key", .str "alice")]) "alice:7:3" ∧
    rowId "alice" "7" "3" ≠ rowId "alice" "7" ":3" := by
  have plain : ':' ∉ "alice".toList := by decide
  obtain ⟨looks, -, differ⟩ := getTransaction_key "alice" plain 7 3
  refine ⟨plain, ?_, differ "alice" plain 7 "3" ":3" (by simp)⟩
  exact (looks _ (by decide) _).mpr (by decide)

end MileExplorer
