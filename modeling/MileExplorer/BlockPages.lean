import MileExplorer.Api
import MileExplorer.Chain

/-!
# Blocks by id and by page

`get-block` looks a block up by the decimal text of its id, `get-block-history`
with limit one by the range of one number.  The second narrows the id to 64
bits first, the end of its range wraps around at the greatest number, and both
ends of the range are sent as doubles.
-/

namespace MileExplorer

/-- Every stored block is named by the decimal text of its number. -/
def BlocksNamed (store : Store) : Prop :=
  ∀ row ∈ (store .blocks).rows, ∃ number : Nat,
    row.find? "block-id" = some (.num number) ∧ row.find? "id" = some (.str (toString number))

/-- The parameter stands for the number: as a 64-bit number, or as a text that
the conversion to 256 bits accepts. -/
inductive BlockParam (api : NodeApi) : Json → Nat → Prop where
  | number {number : Nat} (small : number < 2 ^ 64) : BlockParam api (.num number) number
  | text {text : String} {number : Nat} (converted : api.stringToUInt256 text = some number) :
      BlockParam api (.str text) number

section Pages

variable {api : NodeApi} {store : Store} {param : Json} {number : Nat}

def blockRowOf (store : Store) (number : Nat) : Option Json :=
  (store .blocks).get? (.str (toString number))

theorem getDataOf_blockById (store : Store) (number : Nat) (named : BlocksNamed store) :
    getDataOf (Db.blockById number store) = (blockRowOf store number).getD (.arr []) := by
  have yields : Db.blockById number store = .ok ((blockRowOf store number).getD .null) := rfl
  rw [yields]
  cases found : blockRowOf store number with
  | none => rfl
  | some row =>
      obtain ⟨member, -⟩ := KeyedTable.get?_eq_some.mp found
      obtain ⟨_, indexed, -⟩ := named row member
      exact (getDataOf_eq_document indexed).mpr rfl

def blockPage (store : Store) (first : Nat) : List Json :=
  (Cursor.ordered "block-id" (store .blocks).rows).filter
    (Cursor.between.inRange first 1 "block-id")

theorem getDataOf_blockHistory (store : Store) (first : Nat) :
    getDataOf (Db.blockHistory first 1 store) = .arr (blockPage store first) := rfl

/-- The range of a page of one number, between two doubles. -/
def InPage (first number : Nat) : Prop :=
  Cursor.toDouble first ≤ number ∧ number < Cursor.toDouble ((first + 1) % 2 ^ 64)

instance (first number : Nat) : Decidable (InPage first number) :=
  inferInstanceAs (Decidable (_ ∧ _))

theorem inPage_iff_eq {first : Nat} (small : first < 2 ^ 53) (number : Nat) :
    InPage first number ↔ number = first := by
  have inBits : (first + 1) % 2 ^ 64 = first + 1 := Nat.mod_eq_of_lt (by omega)
  rw [InPage, inBits, Cursor.toDouble_of_lt small, Cursor.toDouble_of_le (by omega)]
  omega

-- the ends of the page of 2^53 have the same double
example : ¬ InPage (2 ^ 53) (2 ^ 53) := by decide +kernel

theorem mem_blockPage (named : BlocksNamed store) {first : Nat} {row : Json} :
    row ∈ blockPage store first ↔
      ∃ number, InPage first number ∧ blockRowOf store number = some row := by
  simp only [blockPage, List.mem_filter, Cursor.mem_ordered, blockRowOf, KeyedTable.get?_eq_some]
  constructor
  · rintro ⟨⟨member, -⟩, inRange⟩
    obtain ⟨number, indexed, idEq⟩ := named row member
    exact ⟨number, (Cursor.inRange_iff indexed).mp inRange, member, docId_of_find? idEq⟩
  · rintro ⟨number, inPage, member, keyEq⟩
    obtain ⟨stored, indexed, idEq⟩ := named row member
    obtain rfl : stored = number :=
      toString_injective (Json.str.inj ((docId_of_find? idEq).symm.trans keyEq))
    exact ⟨⟨member, by simp [indexed]⟩, (Cursor.inRange_iff indexed).mpr inPage⟩

theorem nodup_blockPage (store : Store) (first : Nat) : (blockPage store first).Nodup :=
  (Cursor.nodup_ordered (store .blocks) "block-id").of_map.filter _

theorem blockRowOf_injective {first second : Nat} {row : Json}
    (firstRow : blockRowOf store first = some row)
    (secondRow : blockRowOf store second = some row) : first = second := by
  have key := (KeyedTable.get?_eq_some.mp firstRow).2
  rw [(KeyedTable.get?_eq_some.mp secondRow).2] at key
  exact (toString_injective (Json.str.inj key)).symm

/-- A page lists the block of a number alone exactly if that block is the only
stored one in the range of the page. -/
theorem blockPage_eq_toList_iff (named : BlocksNamed store) {first number : Nat} :
    blockPage store first = (blockRowOf store number).toList ↔
      ∀ stored, (blockRowOf store stored).isSome → (InPage first stored ↔ stored = number) := by
  constructor
  · intro page stored present
    obtain ⟨row, found⟩ := Option.isSome_iff_exists.mp present
    have listed : row ∈ blockPage store first ↔ blockRowOf store number = some row := by
      rw [page, Option.mem_toList]
    rw [mem_blockPage named] at listed
    constructor
    · intro inPage
      exact blockRowOf_injective found (listed.mp ⟨stored, inPage, found⟩)
    · rintro rfl
      obtain ⟨other, inPage, same⟩ := listed.mpr found
      rwa [blockRowOf_injective found same]
  · intro alone
    have members : ∀ row, row ∈ blockPage store first ↔ blockRowOf store number = some row := by
      intro row
      rw [mem_blockPage named]
      constructor
      · rintro ⟨stored, inPage, found⟩
        rwa [← (alone stored (by simp [found])).mp inPage]
      · intro found
        exact ⟨number, (alone number (by simp [found])).mpr rfl, found⟩
    cases found : blockRowOf store number with
    | none =>
        refine List.eq_nil_iff_forall_not_mem.mpr fun row member => ?_
        simp [members, found] at member
    | some block =>
        refine List.perm_singleton.mp ?_
        refine (List.perm_ext_iff_of_nodup (nodup_blockPage store first) (by simp)).mpr ?_
        intro row
        rw [members, found, List.mem_singleton, Option.some.injEq, eq_comm]

theorem getBlockId_eq {params : Json} {name : String} (is : BlockParam api param number)
    (found : params.find? name = some param) :
    Api.getBlockId api params name = .ok (number, .silent) := by
  have present : params.count name ≠ 0 := by simp [Json.count, found]
  rw [Api.getBlockId, if_neg present, Json.at?_of_find? found]
  cases is with
  | number small => simp [Json.isNumber, bind, Except.bind, pure, Except.pure]
  | text converted =>
      simp [Json.isNumber, Json.getString, converted, bind, Except.bind, pure, Except.pure]

theorem getBlock_eq (is : BlockParam api param number)
    (notReserved : number ≠ Api.reservedBlockId) :
    Api.getBlock api (.ofMembers [("id", param)]) store =
      .ok (.answers (getDataOf (Db.blockById number store))) := by
  have found : (Json.ofMembers [("id", param)]).find? "id" = some param := by
    simp [Json.find?_ofMembers, Json.member?_setMember]
  rw [Api.getBlock, getBlockId_eq is found]
  simp [bind, Except.bind, notReserved, pure, Except.pure]

theorem getBlockHistory_eq (is : BlockParam api param number)
    (notReserved : number ≠ Api.reservedBlockId) :
    Api.getBlockHistory api (.ofMembers [("first", param), ("limit", .num 1)]) store =
      .ok (.answers (getDataOf (Db.blockHistory (number % 2 ^ 64) 1 store))) := by
  have first : (Json.ofMembers [("first", param), ("limit", .num 1)]).find? "first" =
      some param := by
    simp [Json.find?_ofMembers, Json.member?_setMember]
  have limit : (Json.ofMembers [("first", param), ("limit", .num 1)]).find? "limit" =
      some (.num 1) := by
    simp [Json.find?_ofMembers, Json.member?_setMember]
  have one : Json.getUInt64 (.num 1) = .ok 1 := rfl
  simp [Api.getBlockHistory, Api.checkLimit, Api.check, Json.count, first, limit, Api.numberOf,
    Json.at?_of_find? limit, one, getBlockId_eq is first, bind, Except.bind, notReserved, pure,
    Except.pure]

/-- The two methods agree on the block: the one finds it exactly if the other
lists it alone, and finds nothing exactly if the other lists nothing. -/
def BlockMethodsAgree (api : NodeApi) (store : Store) (param : Json) : Prop :=
  let block := Api.getBlock api (.ofMembers [("id", param)]) store
  let history := Api.getBlockHistory api (.ofMembers [("first", param), ("limit", .num 1)]) store
  (∀ row ∈ (store .blocks).rows,
    block = .ok (.answers row) ↔ history = .ok (.answers (.arr [row]))) ∧
  (block = .ok (.answers (.arr [])) ↔ history = .ok (.answers (.arr [])))

theorem blockMethodsAgree_iff_page (named : BlocksNamed store)
    (is : BlockParam api param number) (notReserved : number ≠ Api.reservedBlockId) :
    BlockMethodsAgree api store param ↔
      blockPage store (number % 2 ^ 64) = (blockRowOf store number).toList := by
  have notEmpty : ∀ row ∈ (store .blocks).rows, Json.arr [] ≠ row := by
    rintro row member rfl
    obtain ⟨_, indexed, -⟩ := named _ member
    simp [Json.find?] at indexed
  simp only [BlockMethodsAgree, getBlock_eq is notReserved, getBlockHistory_eq is notReserved,
    getDataOf_blockById store number named, getDataOf_blockHistory, Except.ok.injEq,
    Outcome.answers.injEq, Json.arr.injEq]
  generalize blockPage store (number % 2 ^ 64) = page
  cases found : blockRowOf store number with
  | none =>
      simp only [Option.getD_none, Option.toList_none, true_iff]
      refine ⟨And.right, fun empty => ⟨fun row member => ?_, empty⟩⟩
      simp [empty, notEmpty row member]
  | some block =>
      obtain ⟨stored, -⟩ := KeyedTable.get?_eq_some.mp found
      simp only [Option.getD_some, Option.toList_some]
      refine ⟨fun agree => (agree.1 block stored).mp rfl, ?_⟩
      rintro rfl
      exact ⟨fun row member => by simp, by simp [(notEmpty block stored).symm]⟩

/-- `get-block` and `get-block-history` with limit one agree on the ids below
2^53, and on another id exactly if no other stored number, and that number if
it is stored, is in the range of doubles that the page of the id asks for. -/
theorem block_methods_agree_iff (named : BlocksNamed store) (is : BlockParam api param number)
    (notReserved : number ≠ Api.reservedBlockId) :
    BlockMethodsAgree api store param ↔
      number < 2 ^ 53 ∨ ∀ stored : Nat, (store .blocks).Has (.str (toString stored)) →
        (InPage (number % 2 ^ 64) stored ↔ stored = number) := by
  have present : ∀ stored : Nat,
      (blockRowOf store stored).isSome ↔ (store .blocks).Has (.str (toString stored)) := by
    intro stored
    rw [← Option.ne_none_iff_isSome, blockRowOf, ne_eq, KeyedTable.get?_eq_none, not_not]
  rw [blockMethodsAgree_iff_page named is notReserved, blockPage_eq_toList_iff named]
  simp only [present]
  constructor
  · exact .inr
  · rintro (small | alone)
    · intro stored _
      rw [Nat.mod_eq_of_lt (by omega), inPage_iff_eq small]
    · exact alone

end Pages

def oneBlockStore : Store :=
  Function.update Store.empty .blocks
    (KeyedTable.empty.insert (.ofMembers [("id", .str "0"), ("block-id", .num 0)]))

theorem oneBlockStore_named : BlocksNamed oneBlockStore := by
  intro row member
  obtain rfl : row = .ofMembers [("id", .str "0"), ("block-id", .num 0)] := by
    simpa [oneBlockStore, KeyedTable.mem_insert] using member
  exact ⟨0, by decide +kernel, by decide +kernel⟩

theorem block_methods_agree_iff_first :
    BlocksNamed oneBlockStore ∧ BlockMethodsAgree sampleApi oneBlockStore (.num 0) := by
  refine ⟨oneBlockStore_named, ?_⟩
  exact (block_methods_agree_iff oneBlockStore_named (.number (by decide)) (by decide)).mpr
    (.inl (by decide))

/-- The id 2^64 names no stored block, but the page of it is that of block 0. -/
theorem block_methods_differ :
    ¬ ∀ (api : NodeApi) (store : Store) (param : Json) (number : Nat), BlocksNamed store →
      BlockParam api param number → number ≠ Api.reservedBlockId →
        BlockMethodsAgree api store param := by
  intro always
  have agree := (always sampleApi oneBlockStore (.str "18446744073709551616") (2 ^ 64)
    oneBlockStore_named (.text (by decide +kernel)) (by decide)).2
  exact absurd agree (by decide +kernel)

end MileExplorer
