import MileExplorer.Indexer
import MileExplorer.StoreRules

/-!
# The rows of the chain

Which rows the indexer builds from the blocks of the chain: the ids of the
transaction rows of a block, the row of a block, and what the stream half of
`add_transactions` makes of a well-formed transaction.
-/

namespace MileExplorer

/-! ## Decimal texts and row ids -/

theorem toString_injective {first second : Nat} (same : toString first = toString second) :
    first = second := by
  have digits : Nat.toDigits 10 first = Nat.toDigits 10 second := by
    rw [← Nat.toList_repr, ← Nat.toList_repr]
    exact congrArg String.toList same
  rw [← @Nat.ofDigitChars_ten_toDigits first, digits, Nat.ofDigitChars_ten_toDigits]

theorem colon_not_mem_toString (number : Nat) : ':' ∉ (toString number).toList := by
  intro colon
  have digits : (toString number).toList = Nat.toDigits 10 number := Nat.toList_repr
  rw [digits] at colon
  exact absurd (Nat.isDigit_of_mem_toDigits (by decide) (by decide) colon) (by decide)

theorem rowId_ne_toString (address blockId number : String) (other : Nat) :
    rowId address blockId number ≠ toString other := by
  intro same
  apply colon_not_mem_toString other
  rw [← same]
  simp [rowId]

theorem addPublicKey_cases {trx : Json} {blockId name : String}
    {found entries : List (String × String)}
    (added : addPublicKey trx blockId found name = .ok entries) :
    (trx.find? name = none ∧ entries = found) ∨
      ∃ address number, trx.find? name = some (.str address) ∧
        trx.find? "transaction-id" = some (.str number) ∧
        entries = Json.setMember address (rowId address blockId number) found := by
  unfold addPublicKey at added
  split_ifs at added with absent
  · refine .inl ⟨?_, (Except.ok.inj added).symm⟩
    cases member : trx.find? name with
    | none => rfl
    | some value => simp [Json.count, member] at absent
  · obtain ⟨address, addressEq, rest⟩ := bind_eq_ok.mp added
    obtain ⟨number, numberEq, built⟩ := bind_eq_ok.mp rest
    exact .inr ⟨address, number, Json.constText_eq_ok.mp addressEq,
      Json.constText_eq_ok.mp numberEq, (Except.ok.inj built).symm⟩

theorem addPublicKey_ok {trx : Json} (blockId : String) {name number : String}
    (addressText : ∀ value, trx.find? name = some value → value.isString = true)
    (numberEq : trx.find? "transaction-id" = some (.str number))
    (found : List (String × String)) :
    ∃ entries, addPublicKey trx blockId found name = .ok entries := by
  unfold addPublicKey
  cases addressEq : trx.find? name with
  | none => exact ⟨found, by simp [Json.count, addressEq]⟩
  | some value =>
      obtain ⟨address, rfl⟩ : ∃ address, value = .str address := by
        have := addressText value addressEq
        cases value <;> simp_all [Json.isString]
      refine ⟨Json.setMember address (rowId address blockId number) found, ?_⟩
      rw [if_neg (by simp [Json.count, addressEq]), Json.constText_eq_ok.mpr addressEq,
        Json.constText_eq_ok.mpr numberEq]
      rfl

theorem findPublicKeys_ids {trx : Json} {blockId : String} {entries : List (String × String)}
    (found : findPublicKeys trx blockId = .ok entries) :
    ∀ entry ∈ entries, ∃ address number, entry.2 = rowId address blockId number := by
  obtain ⟨senders, first, rest⟩ := bind_eq_ok.mp found
  obtain ⟨keys, second, done⟩ := bind_eq_ok.mp rest
  obtain rfl : keys = entries := Except.ok.inj done
  have senderIds : ∀ entry ∈ senders, ∃ address number,
      entry.2 = rowId address blockId number := by
    intro entry member
    rcases addPublicKey_cases first with ⟨-, rfl⟩ | ⟨address, number, -, -, rfl⟩
    · simp at member
    · rcases Json.mem_of_mem_setMember member with rfl | old
      · exact ⟨address, number, rfl⟩
      · simp at old
  intro entry member
  rcases addPublicKey_cases second with ⟨-, rfl⟩ | ⟨address, number, -, -, rfl⟩
  · exact senderIds entry member
  · rcases Json.mem_of_mem_setMember member with rfl | old
    · exact ⟨address, number, rfl⟩
    · exact senderIds entry old

/-! ## The ids of a block -/

/-- The ids that `find_public_keys` yields for a transaction of a block. -/
def yields (number : Nat) (trx : Json) : List String :=
  match findPublicKeys trx (toString number) with
  | .ok entries => entries.map Prod.snd
  | .error _ => []

/-- The ids that `find_public_keys` yields for the transactions of a list. -/
def blockIds (number : Nat) : Option Json → List String
  | some (.arr transactions) => transactions.flatMap (yields number)
  | _ => []

/-- The ids of the transaction rows of a block of the chain, none if its
transactions are not a list. -/
def Chain.ids (chain : Chain) (number : Nat) : List String :=
  blockIds number ((chain number).json.find? "transactions")

theorem Chain.ids_ne_toString {chain : Chain} {number other : Nat} {id : String}
    (member : id ∈ chain.ids number) : id ≠ toString other := by
  unfold Chain.ids blockIds at member
  split at member
  · obtain ⟨trx, _, idMem⟩ := List.mem_flatMap.mp member
    unfold yields at idMem
    split at idMem
    · rename_i entries found
      obtain ⟨entry, entryMem, rfl⟩ := List.mem_map.mp idMem
      obtain ⟨address, text, idEq⟩ := findPublicKeys_ids found entry entryMem
      rw [idEq]
      exact rowId_ne_toString address _ text other
    · simp at idMem
  · simp at member

/-! ## Well-formed transactions -/

/-- The type a transaction has in the stream: a `transaction-name` takes the
place of the `transaction-type`. -/
def streamType (trx : Json) : Option Json :=
  (trx.find? "transaction-name").or (trx.find? "transaction-type")

/-- What the stream half needs of a transaction once its addresses are known. -/
structure Streamable (platform : Platform) (trx : Json) : Prop where
  number : ∃ text, trx.find? "transaction-id" = some (.str text)
  description : ∀ value, trx.find? "description" = some value → ∃ text kept,
    value = .str text ∧ truncateBytes platform.descriptionMaxLength text.toList = some kept
  type : ∃ type, streamType trx = some type ∧ type ≠ processingType

/-- A well-formed transaction: addresses, id and description are strings, the
description is cut between two characters, and the type is not the marker's. -/
structure WellFormed (platform : Platform) (trx : Json) : Prop
    extends Streamable platform trx where
  addresses : ∀ name ∈ ["from", "public-key"], ∀ value, trx.find? name = some value →
    value.isString = true

def Chain.WellFormed (platform : Platform) (chain : Chain) : Prop :=
  ∀ number transactions, (chain number).json.find? "transactions" = some (.arr transactions) →
    ∀ trx ∈ transactions, MileExplorer.WellFormed platform trx

theorem WellFormed.findPublicKeys_ok {platform : Platform} {trx : Json}
    (wellFormed : WellFormed platform trx) (blockId : String) :
    ∃ entries, findPublicKeys trx blockId = .ok entries := by
  obtain ⟨text, numberEq⟩ := wellFormed.number
  obtain ⟨senders, first⟩ := addPublicKey_ok blockId
    (wellFormed.addresses "from" (by simp)) numberEq []
  obtain ⟨keys, second⟩ := addPublicKey_ok blockId
    (wellFormed.addresses "public-key" (by simp)) numberEq senders
  exact ⟨keys, bind_eq_ok.mpr ⟨senders, first, bind_eq_ok.mpr ⟨keys, second, rfl⟩⟩⟩

theorem truncateBytes_truncated {size : Nat} {text kept : List Char}
    (truncated : truncateBytes size text = some kept) :
    truncateBytes size kept = some kept := by
  induction text generalizing size kept with
  | nil =>
      obtain rfl : [] = kept := by simpa [truncateBytes] using truncated
      simp [truncateBytes]
  | cons char rest ih =>
      cases size with
      | zero =>
          obtain rfl : [] = kept := by simpa [truncateBytes] using truncated
          simp [truncateBytes]
      | succ size =>
          simp only [truncateBytes] at truncated
          split_ifs at truncated with fits
          obtain ⟨shorter, shortened, rfl⟩ := Option.map_eq_some_iff.mp truncated
          simp [truncateBytes, fits, ih shortened]

namespace Streamable

variable {platform : Platform} {trx : Json}

theorem isObject (streamable : Streamable platform trx) : trx.isObject = true := by
  obtain ⟨text, found⟩ := streamable.number
  exact Json.isObject_of_find? found

/-- The members that the stream half does not look at may change. -/
theorem of_find?_eq {other : Json} (streamable : Streamable platform trx)
    (same : ∀ key ∈ ["transaction-id", "description", "transaction-name", "transaction-type"],
      other.find? key = trx.find? key) :
    Streamable platform other where
  number := by rw [same _ (by simp)]; exact streamable.number
  description := by rw [same _ (by simp)]; exact streamable.description
  type := by
    rw [streamType, same _ (by simp), same _ (by simp)]
    exact streamable.type

theorem replaceKeys (streamable : Streamable platform trx) :
    let renamed := MileExplorer.replaceKeys "transaction-name" "transaction-type" trx
    Streamable platform renamed ∧
      (∃ type, renamed.find? "transaction-type" = some type ∧ type ≠ processingType) ∧
      ∀ key, key ≠ "transaction-name" → key ≠ "transaction-type" →
        renamed.find? key = trx.find? key := by
  intro renamed
  have isObj := streamable.isObject
  obtain ⟨type, typeEq, unmarked⟩ := streamable.type
  cases nameEq : trx.find? "transaction-name" with
  | none =>
      have same : renamed = trx := by simp [renamed, MileExplorer.replaceKeys, nameEq]
      rw [same]
      refine ⟨streamable, ⟨type, ?_, unmarked⟩, fun _ _ _ => rfl⟩
      simpa [streamType, nameEq] using typeEq
  | some name =>
      obtain rfl : name = type := by simpa [streamType, nameEq] using typeEq
      have members (key : String) : renamed.find? key =
          if key = "transaction-name" then none
          else if key = "transaction-type" then some name else trx.find? key := by
        simp only [renamed, MileExplorer.replaceKeys, nameEq, Json.find?_erase,
          Json.find?_set _ isObj, eq_comm]
      refine ⟨⟨?_, ?_, name, ?_, unmarked⟩, ⟨name, by simp [members], unmarked⟩, ?_⟩
      · simpa [members] using streamable.number
      · simpa [members] using streamable.description
      · simp [streamType, members]
      · intro key notName notType
        simp [members, notName, notType]

theorem truncateDescription (streamable : Streamable platform trx) :
    ∃ row, truncateDescription platform.descriptionMaxLength trx = .ok row ∧
      Streamable platform row ∧
      ∀ key ≠ "description", row.find? key = trx.find? key := by
  have isObj := streamable.isObject
  unfold MileExplorer.truncateDescription
  cases found : trx.find? "description" with
  | none => exact ⟨trx, rfl, streamable, fun _ _ => rfl⟩
  | some description =>
      obtain ⟨text, kept, rfl, truncated⟩ := streamable.description description found
      have others : ∀ key ≠ "description",
          (trx.set "description" (.str (String.ofList kept))).find? key = trx.find? key := by
        intro key other
        simp [isObj, Ne.symm other]
      refine ⟨trx.set "description" (.str (String.ofList kept)), ?_, ⟨?_, ?_, ?_⟩, others⟩
      · simp [Json.getString, truncated, bind, Except.bind, pure, Except.pure]
      · rw [others _ (by decide)]
        exact streamable.number
      · intro value valueEq
        obtain rfl : Json.str (String.ofList kept) = value := by simpa [isObj] using valueEq
        refine ⟨String.ofList kept, kept, rfl, ?_⟩
        rw [String.toList_ofList]
        exact truncateBytes_truncated truncated
      · rw [streamType, others _ (by decide), others _ (by decide)]
        exact streamable.type

/-- The row built for an address, from which the row for the next address is
built in turn. -/
theorem streamRow (streamable : Streamable platform trx) {blockId : Nat}
    (small : blockId < 2 ^ 64) (time : Int) (uniqId : String) :
    ∃ row, streamRow platform blockId time uniqId trx = .ok row ∧ Streamable platform row ∧
      row.find? "id" = some (.str uniqId) ∧ row.find? "block-id" = some (.num blockId) ∧
      ∃ type, row.find? "transaction-type" = some type ∧ type ≠ processingType := by
  have isObj := streamable.isObject
  obtain ⟨number, numberEq⟩ := streamable.number
  let headed := ((trx.set "id" (.str uniqId)).set "block-id" (.num blockId)).set "timestamp"
    (.num time)
  have members (key : String) : headed.find? key =
      if "timestamp" = key then some (.num time)
      else if "block-id" = key then some (.num blockId)
      else if "id" = key then some (.str uniqId) else trx.find? key := by
    simp [headed, isObj]
  have headedStreamable : Streamable platform headed := by
    refine streamable.of_find?_eq fun key member => ?_
    simp only [List.mem_cons, List.not_mem_nil, or_false] at member
    rcases member with rfl | rfl | rfl | rfl <;> simp [members]
  have textual : textualId headed = .ok headed := by
    have numberAt : headed.find? "transaction-id" = some (.str number) := by
      simp [members, numberEq]
    simp [textualId, Json.index_of_find? numberAt, bind, Except.bind, pure, Except.pure]
  obtain ⟨renamed, ⟨type, typeEq, unmarked⟩, renamedMembers⟩ := headedStreamable.replaceKeys
  obtain ⟨row, truncated, rowStreamable, others⟩ := renamed.truncateDescription
  refine ⟨row, ?_, rowStreamable, ?_, ?_, type, ?_, unmarked⟩
  · have numbered : stoull blockId = .ok blockId := if_pos small
    exact bind_eq_ok.mpr ⟨blockId, numbered, bind_eq_ok.mpr ⟨headed, textual, truncated⟩⟩
  · rw [others _ (by decide), renamedMembers _ (by decide) (by decide)]
    simp [members]
  · rw [others _ (by decide), renamedMembers _ (by decide) (by decide)]
    simp [members]
  · rw [others _ (by decide), typeEq]

end Streamable

/-! ## A chain with one transaction in each block -/

def samplePlatform : Platform := ⟨64, fun _ => 0⟩

def transfer : Json :=
  .ofMembers [("from", .str "alice"), ("transaction-id", .str "0"),
    ("transaction-type", .str "TransferAssetsTransaction"), ("digest", .str "0x")]

def sampleChain : Chain := fun number =>
  ⟨.ofMembers [("id", .str (toString number)), ("transactions", .arr [transfer])], by
    simp [Json.find?_ofMembers, Json.member?_setMember]⟩

theorem sampleChain_wellFormed : sampleChain.WellFormed samplePlatform := by
  have formed : WellFormed samplePlatform transfer := by
    refine ⟨⟨⟨"0", by decide⟩, ?_, .str "TransferAssetsTransaction", by decide, by decide⟩, ?_⟩
    · intro value found
      have absent : transfer.find? "description" = none := by decide
      simp [absent] at found
    · decide
  intro number list listed trx member
  obtain rfl : [transfer] = list := by
    simpa [sampleChain, Json.find?_ofMembers, Json.member?_setMember] using listed
  rw [List.mem_singleton.mp member]
  exact formed

end MileExplorer
