import MileExplorer.BadTransactions
import MileExplorer.TransactionKeys

/-!
# The two halves of a transaction

The stream half and the wallet half of `add_transactions` read the same
transaction on their own.  Only the stream half brings it into one form: it
takes a type under the name the node used and turns a number into a text.
Here is when the rows of the one and the entries of the other still agree.
-/

namespace MileExplorer

/-- The type of a transaction under the name the node used. -/
def typeOf (trx : Json) : Option Json :=
  (trx.find? "transaction-name").or (trx.find? "transaction-type")

/-- The transaction has no address that `find_public_keys` looks at. -/
def NoSender (trx : Json) : Prop :=
  trx.find? "from" = none ∧ trx.find? "public-key" = none

/-! ## The rows of a transaction -/

section Rows

variable {platform : Platform} {blockId : Nat} {time : Int} {uniqId : String} {trx row : Json}
  {entries : List (String × String)} {rows : List Json}

theorem typeOf_replaceKeys (isObj : trx.isObject = true) :
    (replaceKeys "transaction-name" "transaction-type" trx).find? "transaction-type" =
        typeOf trx ∧
      (replaceKeys "transaction-name" "transaction-type" trx).find? "transaction-name" = none := by
  unfold replaceKeys typeOf
  cases name : trx.find? "transaction-name" with
  | none => simp [name]
  | some value => simp [Json.find?_erase, isObj]

theorem find?_type_streamRow (isObj : trx.isObject = true)
    (built : streamRow platform blockId time uniqId trx = .ok row) :
    row.find? "transaction-type" = typeOf trx ∧ row.find? "transaction-name" = none := by
  obtain ⟨-, textual, converted, truncated⟩ := streamRow_steps built
  have notNull : (headed blockId time uniqId trx).isNull = false := by
    cases trx <;> rfl
  have textualObj : textual.isObject = true :=
    (find?_textualId converted notNull (show "id" ≠ "transaction-id" by decide)).1
  have sameType : typeOf textual = typeOf trx := by
    rw [typeOf, (find?_textualId converted notNull (by decide)).2,
      (find?_textualId converted notNull (by decide)).2, find?_headed isObj, find?_headed isObj]
    simp [typeOf]
  have renamedObj : (replaceKeys "transaction-name" "transaction-type" textual).isObject = true :=
    (find?_replaceKeys textualObj (show "id" ≠ "transaction-name" by decide) (by decide)).1
  rw [find?_truncateDescription renamedObj truncated (by decide),
    find?_truncateDescription renamedObj truncated (by decide), ← sameType]
  exact typeOf_replaceKeys textualObj

structure IsRowFor (trx : Json) (blockId : Nat) (time : Int) (row : Json) : Prop where
  block : row.find? "block-id" = some (.num blockId)
  timestamp : row.find? "timestamp" = some (.num time)
  digest : row.find? "digest" = trx.find? "digest"
  type : row.find? "transaction-type" = typeOf trx

theorem streamRow_isRowFor (isObj : trx.isObject = true)
    (built : streamRow platform blockId time uniqId trx = .ok row) :
    IsRowFor trx blockId time row ∧ row.find? "id" = some (.str uniqId) ∧
      row.isObject = true ∧ typeOf row = typeOf trx := by
  obtain ⟨typeEq, noName⟩ := find?_type_streamRow isObj built
  have kept {key : String}
      (other : key ∉ ["transaction-id", "transaction-name", "transaction-type", "description"]) :
      row.find? key = _ :=
    (find?_streamRow isObj built other).trans (find?_headed isObj key)
  have idEq : row.find? "id" = some (.str uniqId) := kept (by decide)
  refine ⟨⟨kept (by decide), kept (by decide), kept (by decide), typeEq⟩, idEq,
    Json.isObject_of_find? idEq, ?_⟩
  rw [typeOf, noName, typeEq, Option.none_or]

/-- The rows of a transaction have the ids of its addresses, in their order,
although each is built from the one before it. -/
theorem streamEntries_rows (isObj : trx.isObject = true)
    (built : streamEntries platform blockId time trx [] entries = .ok rows) :
    rows.map (fun row => row.find? "id") = entries.map (fun entry => some (.str entry.2)) ∧
      ∀ row ∈ rows, IsRowFor trx blockId time row := by
  induction entries generalizing trx rows with
  | nil =>
      obtain rfl : [] = rows := Except.ok.inj built
      simp
  | cons head rest ih =>
      unfold streamEntries at built
      cases first : streamRow platform blockId time head.2 trx with
      | error exception => simp [first] at built
      | ok row =>
          obtain ⟨rowFor, idEq, rowObj, sameType⟩ := streamRow_isRowFor isObj first
          simp only [first, List.nil_append] at built
          rw [streamEntries_append] at built
          cases others : streamEntries platform blockId time row [] rest with
          | error exception => simp [others, Except.map] at built
          | ok later =>
              obtain rfl : [row] ++ later = rows := by simpa [others, Except.map] using built
              obtain ⟨ids, laterFor⟩ := ih rowObj others
              refine ⟨by simp [idEq, ids], ?_⟩
              intro other member
              rcases List.mem_cons.mp member with rfl | isLater
              · exact rowFor
              · have otherFor := laterFor other isLater
                exact ⟨otherFor.block, otherFor.timestamp, otherFor.digest.trans rowFor.digest,
                  otherFor.type.trans sameType⟩

end Rows

/-! ## The entries of a transaction -/

def historyEntry (digest type : Json) (blockId : Nat) (time : Int) (uniqId : String) : Json :=
  .ofMembers [("id", .str uniqId), ("block-id", .num blockId), ("digest", digest),
    ("transaction-type", type), ("timestamp", .num time)]

theorem find?_historyEntry (digest type : Json) (blockId : Nat) (time : Int) (uniqId : String) :
    (historyEntry digest type blockId time uniqId).find? "id" = some (.str uniqId) ∧
      (historyEntry digest type blockId time uniqId).find? "digest" = some digest ∧
      (historyEntry digest type blockId time uniqId).find? "transaction-type" = some type ∧
      (historyEntry digest type blockId time uniqId).find? "block-id" = some (.num blockId) ∧
      (historyEntry digest type blockId time uniqId).find? "timestamp" = some (.num time) := by
  simp [historyEntry, Json.find?_ofMembers, Json.member?_setMember]

def walletWrites (trx : Json) (blockId : Nat) (time : Int) : List Json :=
  (walletUpdates trx blockId time).1.map fun update => update.call.entry

def ReceiverText (trx : Json) : Prop :=
  ∀ value, trx.find? "to" = some value → value.isString = true

section Entries

variable {trx digest type : Json} {blockId : Nat} {time : Int}

theorem walletEntry_eq (digestEq : trx.find? "digest" = some digest)
    (typeEq : trx.find? "transaction-type" = some type) (uniqId : String) :
    Db.walletEntry trx uniqId blockId time = .ok (historyEntry digest type blockId time uniqId) := by
  rw [Db.walletEntry, Json.indexConst_of_find? digestEq, Json.indexConst_of_find? typeEq]
  rfl

/-- Without a digest or a type nothing is written. -/
theorem entryUpdates_unread
    (unread : trx.find? "digest" = none ∨ trx.find? "transaction-type" = none)
    (entries : List (String × String)) : (entryUpdates trx blockId time entries).1 = [] := by
  cases entries with
  | nil => rfl
  | cons head rest =>
      unfold entryUpdates
      cases built : Db.walletEntry trx head.2 blockId time with
      | error exception => rfl
      | ok entry =>
          obtain ⟨digest, digestEq, others⟩ := bind_eq_ok.mp built
          obtain ⟨type, typeEq, -⟩ := bind_eq_ok.mp others
          simp [Json.find?_of_indexConst digestEq, Json.find?_of_indexConst typeEq] at unread

/-- With a receiver that is a text, or none, every address gets its entry. -/
theorem entryUpdates_written (digestEq : trx.find? "digest" = some digest)
    (typeEq : trx.find? "transaction-type" = some type) (receiver : ReceiverText trx)
    {entries : List (String × String)} {entry : Json} :
    entry ∈ (entryUpdates trx blockId time entries).1.map (fun update => update.call.entry) ↔
      ∃ address ∈ entries, entry = historyEntry digest type blockId time address.2 := by
  induction entries with
  | nil => simp [entryUpdates]
  | cons head rest ih =>
      unfold entryUpdates
      rw [walletEntry_eq digestEq typeEq]
      cases toEq : trx.find? "to" with
      | none => simp only [List.map_cons, List.mem_cons, ih, exists_eq_or_imp]
      | some value =>
          have isText := receiver value toEq
          cases value with
          | str address =>
              simp only [Json.getString, List.map_cons, List.mem_cons, ih, exists_eq_or_imp,
                or_self_left]
          | _ => simp [Json.isString] at isText

/-- A receiver that is no text ends the loop after the first entry. -/
theorem entryUpdates_stopped (digestEq : trx.find? "digest" = some digest)
    (typeEq : trx.find? "transaction-type" = some type) (receiver : ¬ ReceiverText trx)
    (head : String × String) (rest : List (String × String)) :
    (entryUpdates trx blockId time (head :: rest)).1.map (fun update => update.call.entry) =
      [historyEntry digest type blockId time head.2] := by
  simp only [ReceiverText, not_forall] at receiver
  obtain ⟨value, toEq, noText⟩ := receiver
  unfold entryUpdates
  rw [walletEntry_eq digestEq typeEq]
  cases value <;> simp_all [Json.isString, Json.getString]

end Entries

/-! ## Agreement -/

/-- The rows and the entries have the same ids, and where the ids are the same
also the same block, digest, type and time. -/
structure Agree (rows written : List Json) : Prop where
  members : ∀ entry ∈ written, ∀ row ∈ rows, row.find? "id" = entry.find? "id" →
    ∀ key ∈ ["block-id", "digest", "transaction-type", "timestamp"],
      row.find? key = entry.find? key
  ids : ∀ id, (∃ entry ∈ written, entry.find? "id" = some id) ↔
    ∃ row ∈ rows, row.find? "id" = some id

/-- The wallet half gets as far as writing an entry. -/
def WalletReads (trx : Json) (blockId : Nat) : Prop :=
  blockId < 2 ^ 64 ∧ trx.find? "digest" ≠ none ∧ trx.find? "transaction-type" ≠ none

/-- The wallet half reads of the transaction what the stream half does: a
digest, the type under its own name, and a receiver it can go on after. -/
structure ReadAlike (trx : Json) : Prop where
  digest : trx.find? "digest" ≠ none
  type : trx.find? "transaction-type" ≠ none
  name : trx.find? "transaction-name" = none ∨
    trx.find? "transaction-name" = trx.find? "transaction-type"
  receiver : ReceiverText trx ∨
    ∀ first ∈ senders trx, ∀ second ∈ senders trx, first = second

/-- The marker of the block is still among the rows to process, so that the
stream half passes over every address. -/
def Marked (process : Process) (blockId : Nat) : Prop :=
  (process.store .transactionsProcessing).Has (.str (toString blockId))

section Halves

variable {platform : Platform} {process : Process} {blockId : Nat} {time : Int} {trx : Json}
  {output rows : List Json} {entries : List (String × String)}

theorem setMember_ne_nil {Value : Type} (key : String) (value : Value)
    (members : List (String × Value)) : Json.setMember key value members ≠ [] := by
  cases members with
  | nil => simp [Json.setMember]
  | cons head rest =>
      unfold Json.setMember
      split_ifs <;> simp

theorem findPublicKeys_eq_nil (found : findPublicKeys trx (toString blockId) = .ok entries) :
    entries = [] ↔ NoSender trx := by
  obtain ⟨senders, first, rest⟩ := bind_eq_ok.mp found
  obtain ⟨keys, second, done⟩ := bind_eq_ok.mp rest
  obtain rfl : keys = entries := Except.ok.inj done
  rcases addPublicKey_cases first with ⟨noFrom, rfl⟩ | ⟨sender, _, fromEq, _, rfl⟩
  · rcases addPublicKey_cases second with ⟨noKey, rfl⟩ | ⟨key, _, keyEq, _, rfl⟩
    · simp [NoSender, noFrom, noKey]
    · simp [NoSender, keyEq, setMember_ne_nil]
  · rcases addPublicKey_cases second with ⟨noKey, rfl⟩ | ⟨key, _, keyEq, _, rfl⟩
    · simp [NoSender, fromEq, setMember_ne_nil]
    · simp [NoSender, fromEq, setMember_ne_nil]

theorem exists_number (found : findPublicKeys trx (toString blockId) = .ok entries)
    (named : ¬ NoSender trx) : ∃ number, trx.find? "transaction-id" = some (.str number) := by
  obtain ⟨senders, first, rest⟩ := bind_eq_ok.mp found
  obtain ⟨keys, second, -⟩ := bind_eq_ok.mp rest
  rcases addPublicKey_cases first with ⟨noFrom, -⟩ | ⟨_, number, _, numberEq, _⟩
  · rcases addPublicKey_cases second with ⟨noKey, -⟩ | ⟨_, number, _, numberEq, _⟩
    · exact absurd ⟨noFrom, noKey⟩ named
    · exact ⟨number, numberEq⟩
  · exact ⟨number, numberEq⟩

theorem addStreamTransaction_accepted
    (accepted : ((Db.addStreamTransaction platform blockId time output trx).run Process.exec
      process).1 = .ok (output ++ rows)) :
    ∃ entries, findPublicKeys trx (toString blockId) = .ok entries ∧
      (Marked process blockId ∧ rows = [] ∨
        ¬ Marked process blockId ∧
          streamEntries platform blockId time trx [] entries = .ok rows) := by
  unfold Db.addStreamTransaction at accepted
  cases found : findPublicKeys trx (toString blockId) with
  | error exception =>
      simp only [found] at accepted
      cases accepted
  | ok entries =>
      refine ⟨entries, rfl, ?_⟩
      simp only [found] at accepted
      by_cases marked : Marked process blockId
      · rw [addStreamEntries_marked marked] at accepted
        exact .inl ⟨marked, by simpa using accepted⟩
      · rw [addStreamEntries_run marked, streamEntries_append] at accepted
        refine .inr ⟨marked, ?_⟩
        cases built : streamEntries platform blockId time trx [] entries with
        | error exception => simp [built, Except.map] at accepted
        | ok own => simpa [built, Except.map] using accepted

theorem walletWrites_eq (small : blockId < 2 ^ 64)
    (found : findPublicKeys trx (toString blockId) = .ok entries) :
    walletWrites trx blockId time =
      (entryUpdates trx blockId time entries).1.map fun update => update.call.entry := by
  simp only [walletWrites, walletUpdates, stoull, if_pos small, found]

theorem walletWrites_eq_nil (found : findPublicKeys trx (toString blockId) = .ok entries)
    (named : ¬ NoSender trx) : walletWrites trx blockId time = [] ↔ ¬ WalletReads trx blockId := by
  by_cases small : blockId < 2 ^ 64
  · rw [walletWrites_eq small found, List.map_eq_nil_iff]
    cases digestEq : trx.find? "digest" with
    | none => simp [entryUpdates_unread (.inl digestEq), WalletReads, digestEq]
    | some digest =>
        cases typeEq : trx.find? "transaction-type" with
        | none => simp [entryUpdates_unread (.inr typeEq), WalletReads, typeEq]
        | some type =>
            obtain ⟨head, rest, rfl⟩ : ∃ head rest, entries = head :: rest := by
              apply List.exists_cons_of_ne_nil
              exact fun none => named ((findPublicKeys_eq_nil found).mp none)
            have reads : WalletReads trx blockId := ⟨small, by simp [digestEq], by simp [typeEq]⟩
            refine iff_of_false ?_ (not_not.mpr reads)
            rw [← List.map_eq_nil_iff]
            by_cases receiver : ReceiverText trx
            · apply List.ne_nil_of_mem
              exact (entryUpdates_written digestEq typeEq receiver).mpr ⟨head, by simp, rfl⟩
            · simp [entryUpdates_stopped digestEq typeEq receiver]
  · have unread : ¬ WalletReads trx blockId := fun reads => small reads.1
    simp only [walletWrites, walletUpdates, stoull, if_neg small, List.map_nil, unread,
      not_false_eq_true]

/-! ## When the halves agree -/

theorem agree_nil_left {written : List Json}
    (named : ∀ entry ∈ written, ∃ id, entry.find? "id" = some id) :
    Agree [] written ↔ written = [] := by
  constructor
  · intro agree
    apply List.eq_nil_iff_forall_not_mem.mpr
    intro entry member
    obtain ⟨id, idEq⟩ := named entry member
    obtain ⟨row, absent, -⟩ := (agree.ids id).mp ⟨entry, member, idEq⟩
    simp at absent
  · rintro rfl
    exact ⟨by simp, by simp⟩

/-- Every entry has the digest and the type that the transaction has under
these names. -/
theorem exists_historyEntry {entry : Json} (member : entry ∈ walletWrites trx blockId time) :
    ∃ digest type number uniqId, trx.find? "digest" = some digest ∧
      trx.find? "transaction-type" = some type ∧
      entry = historyEntry digest type number time uniqId := by
  obtain ⟨update, made, rfl⟩ := List.mem_map.mp member
  unfold walletUpdates at made
  split at made
  · rename_i number _ _ _
    obtain ⟨-, uniqId, built⟩ := mem_entryUpdates made
    obtain ⟨digest, digestEq, rest⟩ := bind_eq_ok.mp built
    obtain ⟨type, typeEq, done⟩ := bind_eq_ok.mp rest
    exact ⟨digest, type, number, uniqId, Json.find?_of_indexConst digestEq,
      Json.find?_of_indexConst typeEq, (Except.ok.inj done).symm⟩
  · simp at made
  · simp at made

theorem rowId_left_inj {first second block number : String}
    (same : rowId first block number = rowId second block number) : first = second := by
  simp only [rowId, String.append_assoc] at same
  exact (String.append_left_inj _).mp same

theorem exists_row_iff {id : Json}
    (ids : rows.map (fun row => row.find? "id") = entries.map (fun entry => some (.str entry.2))) :
    (∃ row ∈ rows, row.find? "id" = some id) ↔ ∃ entry ∈ entries, id = .str entry.2 := by
  have listed := congrArg (fun found => some id ∈ found) ids
  simp only [List.mem_map, Option.some.injEq, eq_iff_iff] at listed
  rw [listed]
  simp only [eq_comm]

section Unmarked

variable (found : findPublicKeys trx (toString blockId) = .ok entries) (named : ¬ NoSender trx)
  (built : streamEntries platform blockId time trx [] entries = .ok rows)

include found named

theorem exists_head : ∃ head rest, entries = head :: rest :=
  List.exists_cons_of_ne_nil fun none => named ((findPublicKeys_eq_nil found).mp none)

theorem small_of_streamEntries (built : streamEntries platform blockId time trx [] entries =
    .ok rows) : blockId < 2 ^ 64 := by
  obtain ⟨head, rest, rfl⟩ := exists_head found named
  unfold streamEntries at built
  cases first : streamRow platform blockId time head.2 trx with
  | error exception => simp [first] at built
  | ok row => exact (streamRow_steps first).1

/-- The entries that are written are those of the addresses, unless a receiver
that is no text cuts off an address. -/
theorem mem_walletWrites {digest type entry : Json} (small : blockId < 2 ^ 64)
    (digestEq : trx.find? "digest" = some digest)
    (typeEq : trx.find? "transaction-type" = some type)
    (receiver : ReceiverText trx ∨
      ∀ first ∈ senders trx, ∀ second ∈ senders trx, first = second) :
    entry ∈ walletWrites trx blockId time ↔
      ∃ address ∈ entries, entry = historyEntry digest type blockId time address.2 := by
  rw [walletWrites_eq small found]
  by_cases isText : ReceiverText trx
  · exact entryUpdates_written digestEq typeEq isText
  · have oneSender := receiver.resolve_left isText
    obtain ⟨number, numberEq⟩ := exists_number found named
    obtain ⟨head, rest, rfl⟩ := exists_head found named
    have sender (address : String × String) (member : address ∈ head :: rest) :
        address.1 ∈ senders trx ∧ address.2 = rowId address.1 (toString blockId) number := by
      rw [mem_senders, addressOf_eq_some, addressOf_eq_some]
      exact (mem_findPublicKeys numberEq found).mp member
    rw [entryUpdates_stopped digestEq typeEq isText, List.mem_singleton]
    constructor
    · intro same
      exact ⟨head, by simp, same⟩
    · rintro ⟨address, member, rfl⟩
      obtain ⟨isSender, idEq⟩ := sender address member
      obtain ⟨headSender, headEq⟩ := sender head (by simp)
      rw [idEq, headEq, oneSender address.1 isSender head.1 headSender]

include built

theorem ReadAlike.agree (alike : ReadAlike trx) :
    Agree rows (walletWrites trx blockId time) := by
  obtain ⟨digest, digestEq⟩ := Option.ne_none_iff_exists'.mp alike.digest
  obtain ⟨type, typeEq⟩ := Option.ne_none_iff_exists'.mp alike.type
  obtain ⟨number, numberEq⟩ := exists_number found named
  have small := small_of_streamEntries found named built
  obtain ⟨ids, rowsFor⟩ := streamEntries_rows (Json.isObject_of_find? numberEq) built
  have written (entry : Json) : entry ∈ walletWrites trx blockId time ↔ _ :=
    mem_walletWrites found named small digestEq typeEq alike.receiver
  have sameType : typeOf trx = some type := by
    rcases alike.name with noName | nameEq
    · simp [typeOf, noName, typeEq]
    · simp [typeOf, nameEq, typeEq]
  constructor
  · intro entry entryMem row rowMem sameId
    obtain ⟨address, -, rfl⟩ := (written entry).mp entryMem
    obtain ⟨-, digestIs, typeIs, blockIs, timeIs⟩ :=
      find?_historyEntry digest type blockId time address.2
    have rowFor := rowsFor row rowMem
    simp [digestIs, typeIs, blockIs, timeIs, rowFor.block, rowFor.timestamp, rowFor.digest,
      rowFor.type, digestEq, sameType]
  · intro id
    rw [exists_row_iff ids]
    constructor
    · rintro ⟨entry, member, idEq⟩
      obtain ⟨address, addressMem, rfl⟩ := (written entry).mp member
      rw [(find?_historyEntry _ _ _ _ _).1] at idEq
      exact ⟨address, addressMem, (Option.some.inj idEq).symm⟩
    · rintro ⟨address, addressMem, rfl⟩
      exact ⟨_, (written _).mpr ⟨address, addressMem, rfl⟩, (find?_historyEntry _ _ _ _ _).1⟩

theorem Agree.readAlike (agree : Agree rows (walletWrites trx blockId time)) :
    ReadAlike trx := by
  obtain ⟨number, numberEq⟩ := exists_number found named
  have small := small_of_streamEntries found named built
  obtain ⟨ids, rowsFor⟩ := streamEntries_rows (Json.isObject_of_find? numberEq) built
  obtain ⟨head, rest, entriesEq⟩ := exists_head found named
  -- The first address has a row, hence an entry.
  obtain ⟨row, rowMem, rowIdEq⟩ := (exists_row_iff ids).mpr ⟨head, by simp [entriesEq], rfl⟩
  obtain ⟨entry, entryMem, entryIdEq⟩ := (agree.ids _).mpr ⟨row, rowMem, rowIdEq⟩
  obtain ⟨digest, type, other, uniqId, digestEq, typeEq, entryEq⟩ := exists_historyEntry entryMem
  refine ⟨by simp [digestEq], by simp [typeEq], ?_, ?_⟩
  · have same := agree.members entry entryMem row rowMem (rowIdEq.trans entryIdEq.symm)
      "transaction-type" (by simp)
    rw [(rowsFor row rowMem).type, entryEq, (find?_historyEntry _ _ _ _ _).2.2.1] at same
    cases nameEq : trx.find? "transaction-name" with
    | none => exact .inl rfl
    | some name =>
        refine .inr ?_
        simpa [typeOf, nameEq, typeEq] using same
  · by_cases isText : ReceiverText trx
    · exact .inl isText
    · -- Only the first address has an entry, so no other can have a row.
      have first (sender : String) (isSender : sender ∈ senders trx) :
          rowId sender (toString blockId) number = head.2 := by
        rw [mem_senders, addressOf_eq_some, addressOf_eq_some] at isSender
        have addressMem : (sender, rowId sender (toString blockId) number) ∈ entries :=
          (mem_findPublicKeys numberEq found).mpr ⟨isSender, rfl⟩
        obtain ⟨own, ownMem, ownId⟩ :=
          (agree.ids _).mpr ((exists_row_iff ids).mpr ⟨_, addressMem, rfl⟩)
        rw [walletWrites_eq small found, entriesEq, entryUpdates_stopped digestEq typeEq isText,
          List.mem_singleton] at ownMem
        rw [ownMem, (find?_historyEntry _ _ _ _ _).1] at ownId
        simpa using ownId.symm
      refine .inr ?_
      intro sender isSender second isSecond
      exact rowId_left_inj ((first sender isSender).trans (first second isSecond).symm)

end Unmarked

/-- The rows of the stream half and the entries of the wallet half agree on a
transaction that the stream half accepts exactly if there is nothing to
write, or the stream half passes over the transaction and the wallet half
fails, or the wallet half reads of it what the stream half does. -/
theorem halves_agree_iff
    (accepted : ((Db.addStreamTransaction platform blockId time output trx).run Process.exec
      process).1 = .ok (output ++ rows)) :
    Agree rows (walletWrites trx blockId time) ↔
      NoSender trx ∨ (Marked process blockId ∧ ¬ WalletReads trx blockId) ∨
        (¬ Marked process blockId ∧ ReadAlike trx) := by
  obtain ⟨entries, found, left⟩ := addStreamTransaction_accepted accepted
  by_cases named : NoSender trx
  · obtain rfl := (findPublicKeys_eq_nil found).mpr named
    have noRows : rows = [] := by
      rcases left with ⟨-, rfl⟩ | ⟨-, built⟩
      · rfl
      · exact (Except.ok.inj built).symm
    have noEntries : walletWrites trx blockId time = [] := by
      unfold walletWrites walletUpdates
      rw [found]
      cases stoull blockId <;> rfl
    rw [noRows, noEntries]
    exact iff_of_true ⟨by simp, by simp⟩ (.inl named)
  · rcases left with ⟨marked, rfl⟩ | ⟨unmarked, built⟩
    · rw [agree_nil_left, walletWrites_eq_nil found named]
      · simp only [named, marked, true_and, false_or, not_true_eq_false, false_and, or_false]
      · intro entry member
        obtain ⟨digest, type, number, uniqId, -, -, rfl⟩ := exists_historyEntry member
        exact ⟨_, (find?_historyEntry _ _ _ _ _).1⟩
    · simp only [named, unmarked, false_and, false_or, not_false_eq_true, true_and]
      exact ⟨Agree.readAlike found named built, ReadAlike.agree found named built⟩

end Halves

def renamedTransfer (type name : String) : Json :=
  .ofMembers [("public-key", .str "alice"), ("transaction-id", .str "3"), ("digest", .str "d"),
    ("transaction-type", .str type), ("transaction-name", .str name)]

theorem halves_agree_iff_transfer :
    let row : Json := .ofMembers [("id", .str "alice:7:3"), ("block-id", .num 7),
      ("timestamp", .num 100), ("public-key", .str "alice"), ("transaction-id", .str "3"),
      ("digest", .str "d"), ("transaction-type", .str "transfer")]
    ((Db.addStreamTransaction samplePlatform 7 100 [] (renamedTransfer "transfer" "transfer")).run
      Process.exec (.idle Store.empty)).1 = .ok ([] ++ [row]) ∧
    Agree [row] (walletWrites (renamedTransfer "transfer" "transfer") 7 100) := by
  intro row
  have accepted : ((Db.addStreamTransaction samplePlatform 7 100 []
      (renamedTransfer "transfer" "transfer")).run Process.exec (.idle Store.empty)).1 =
        .ok ([] ++ [row]) := by
    decide +kernel
  have alike : ReadAlike (renamedTransfer "transfer" "transfer") := by
    refine ⟨by decide +kernel, by decide +kernel, .inr (by decide +kernel), .inr ?_⟩
    decide +kernel
  exact ⟨accepted, (halves_agree_iff accepted).mpr
    (.inr (.inr ⟨KeyedTable.not_has_empty _, alike⟩))⟩

/-- The row has the type under the one name, the entry that under the other. -/
theorem renamed_transfer_disagrees :
    ¬ ∀ rows, ((Db.addStreamTransaction samplePlatform 7 100 []
        (renamedTransfer "transfer" "asset-transfer")).run Process.exec
        (.idle Store.empty)).1 = .ok rows →
      Agree rows (walletWrites (renamedTransfer "transfer" "asset-transfer") 7 100) := by
  let row : Json := .ofMembers [("id", .str "alice:7:3"), ("block-id", .num 7),
    ("timestamp", .num 100), ("public-key", .str "alice"), ("transaction-id", .str "3"),
    ("digest", .str "d"), ("transaction-type", .str "asset-transfer")]
  let entry := historyEntry (.str "d") (.str "transfer") 7 100 "alice:7:3"
  intro always
  have agree := always [row] (by decide +kernel)
  have written : walletWrites (renamedTransfer "transfer" "asset-transfer") 7 100 = [entry] := by
    decide +kernel
  have same := agree.members entry (by simp [written]) row (by simp) (by decide +kernel)
    "transaction-type" (by simp)
  revert same
  decide +kernel

/-! ## Numbers and texts -/

def withNumber (trx number : Json) : Json := trx.set "transaction-id" number

/-- The stream half makes the same rows of the transaction whichever way the
number is given, and the rows have it as a text. -/
def NumberAlike (platform : Platform) (process : Process) (blockId : Nat) (time : Int)
    (output : List Json) (trx : Json) (number : Nat) : Prop :=
  ∃ rows,
    ((Db.addStreamTransaction platform blockId time output (withNumber trx (.num number))).run
      Process.exec process).1 = .ok (output ++ rows) ∧
    ((Db.addStreamTransaction platform blockId time output
      (withNumber trx (.str (toString number)))).run Process.exec process).1 =
        .ok (output ++ rows) ∧
    ∀ row ∈ rows, row.find? "transaction-id" = some (.str (toString number)) ∧
      ∃ address ∈ senders trx,
        row.find? "id" = some (.str (rowId address (toString blockId) (toString number)))

theorem noSender_withNumber {trx : Json} (isObj : trx.isObject = true) (number : Json) :
    NoSender (withNumber trx number) ↔ NoSender trx := by
  simp [NoSender, withNumber, isObj]

/-- Without an address there is nothing to write, and the number is not read. -/
theorem addStreamTransaction_noSender (platform : Platform) (process : Process) (blockId : Nat)
    (time : Int) (output : List Json) {trx : Json} (named : NoSender trx) :
    ((Db.addStreamTransaction platform blockId time output trx).run Process.exec process).1 =
      .ok output := by
  obtain ⟨noFrom, noKey⟩ := named
  have none : findPublicKeys trx (toString blockId) = .ok [] := by
    simp [findPublicKeys, addPublicKey, Json.count, noFrom, noKey, bind, Except.bind, pure,
      Except.pure]
  rw [Db.addStreamTransaction, none]
  rfl

/-- A number as number and as text are treated alike only in a transaction
without an address: for every other one the number is read as a text before it
is turned into one. -/
theorem number_alike_iff (platform : Platform) (process : Process) (blockId : Nat) (time : Int)
    (output : List Json) {trx : Json} (isObj : trx.isObject = true) (number : Nat) :
    NumberAlike platform process blockId time output trx number ↔ NoSender trx := by
  constructor
  · rintro ⟨rows, numeric, -, -⟩
    by_contra named
    obtain ⟨entries, found, -⟩ := addStreamTransaction_accepted numeric
    rw [← noSender_withNumber isObj (.num number)] at named
    obtain ⟨text, textEq⟩ := exists_number found named
    simp [withNumber, isObj] at textEq
  · intro named
    refine ⟨[], ?_, ?_, by simp⟩
    · rw [List.append_nil]
      apply addStreamTransaction_noSender
      exact (noSender_withNumber isObj _).mpr named
    · rw [List.append_nil]
      apply addStreamTransaction_noSender
      exact (noSender_withNumber isObj _).mpr named

theorem number_alike_iff_emission :
    (Json.ofMembers [("transaction-type", .str "emission")]).isObject = true ∧
    NumberAlike samplePlatform (.idle Store.empty) 7 100 []
      (.ofMembers [("transaction-type", .str "emission")]) 3 :=
  ⟨rfl, (number_alike_iff samplePlatform (.idle Store.empty) 7 100 [] rfl 3).mpr
    ⟨by decide +kernel, by decide +kernel⟩⟩

/-- The transfer with the number 3 is rejected, with the text it is not. -/
theorem numbered_transfer_rejected :
    ¬ NumberAlike samplePlatform (.idle Store.empty) 7 100 []
      (renamedTransfer "transfer" "transfer") 3 := by
  rintro ⟨rows, numeric, -⟩
  have rejected : ((Db.addStreamTransaction samplePlatform 7 100 []
      (withNumber (renamedTransfer "transfer" "transfer") (.num 3))).run Process.exec
        (.idle Store.empty)).1 = .error (.typeError "type must be string, but is number") := by
    decide +kernel
  rw [show ((3 : Nat) : Int) = 3 from rfl, rejected] at numeric
  cases numeric

end MileExplorer
