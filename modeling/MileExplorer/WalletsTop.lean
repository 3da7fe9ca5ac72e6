import MileExplorer.Api
import MileExplorer.Chain
import MileExplorer.Paging
import Mathlib.Data.List.Dedup
import Mathlib.Data.List.ReduceOption

/-!
# The ranking of wallets

`wallets_top_upd` ranks the wallets by what they have of each asset and inserts
the ranking with replacement, under keys made of the position and the asset.  A
position that the ranking no longer has keeps its old row, so the table is the
ranking exactly as long as no ranking gets shorter.
-/

namespace MileExplorer

namespace Db

/-- Effect of an insert with `conflict` set to `replace`. -/
def replaceEffect (table : TableName) (data : Json) (store : Store) : Except DbError Store :=
  match data with
  | .obj members => .ok (Function.update store table ((store table).replace (.obj members)))
  | .arr documents => .ok (Function.update store table ((store table).replaceMany documents))
  | other => .error ⟨"Cannot insert " ++ other.typeName⟩

/-- `Table::insert_with_replace`, which reports a database error only to the log. -/
def insertWithReplace (site : Site) (table : TableName) (data : Json) : Prog Unit :=
  .request (.write site (replaceEffect table data)) fun _ => ()

end Db

/-! ## The method -/

structure TopEntry where
  publicKey : Json
  code : Json
  amount : Json
  deriving DecidableEq

/-- How the database converts amounts to numbers and orders entries by them.
Entries with equal amounts may come in any order. -/
structure AmountOrder where
  number : Json → Option Rat
  order : List TopEntry → List TopEntry
  perm : ∀ entries, (order entries).Perm entries
  descending : ∀ entries, (order entries).Pairwise fun first second =>
    (number second.amount).getD 0 ≤ (number first.amount).getD 0

namespace WalletsTop

/-- An element of a balance, if it `has_fields("code", "amount")`. -/
def rawObject (id coin : Json) : Except DbError (Option TopEntry) :=
  match coin with
  | .obj members =>
      match Json.member? "code" members, Json.member? "amount" members with
      | some code, some amount =>
          if code = .null ∨ amount = .null then .ok none else .ok (some ⟨id, code, amount⟩)
      | _, _ => .ok none
  | _ => .error ⟨"Cannot perform has_fields on a non-object non-sequence."⟩

/-- `get_raw_object`, on the rows with a balance that is an array. -/
def rawObjects (row : Json) : Except DbError (List TopEntry) :=
  match row.find? "balance" with
  | some (.arr coins) => do
      let objects ← coins.mapM (rawObject (docId row))
      return objects.reduceOption
  | _ => return []

def eachTypeAmount : Nat := 1024

def resultedObject (code position : Nat) (entry : TopEntry) : Json :=
  .ofMembers [("public-key", entry.publicKey), ("amount", entry.amount),
    ("asset-code", .num code), ("position", .num position),
    ("id", .str (toString position ++ ":" ++ toString code))]

def codes (api : NodeApi) : List Nat := [api.xdrCode, api.mileCode].dedup

def inGroup (code : Nat) (entry : TopEntry) : Bool := entry.code = .str (toString code)

section Method

variable (api : NodeApi) (amounts : AmountOrder)

def reduction (entries : List TopEntry) (code : Nat) : Except DbError (List Json) :=
  let group := entries.filter (inGroup code)
  if group.all fun entry => (amounts.number entry.amount).isSome then
    .ok (((amounts.order group).take eachTypeAmount).mapIdx (resultedObject code))
  else .error ⟨"Could not coerce to NUMBER."⟩

/-- The query.  The order of the groups does not matter to the insert. -/
def ranking : Cursor := fun store => do
  let rows ← Cursor.rows (← cursor .walletsState store)
  let entries ← rows.mapM rawObjects
  let groups ← (codes api).mapM (reduction amounts entries.flatten)
  return .arr groups.flatten

def method : Prog Unit := do
  let items ← Db.getData (.snapshot .walletsState) (ranking api amounts)
  Db.insertWithReplace (.insert .walletsTop "") .walletsTop items

end Method

/-! ## What the table is to hold -/

def entriesOf (row : Json) : List TopEntry :=
  match rawObjects row with
  | .ok entries => entries
  | .error _ => []

def assetEntries (code : Nat) (states : Table) : List TopEntry :=
  states.rows.flatMap fun row => (entriesOf row).filter (inGroup code)

/-- Every balance is a list of assets with numeric amounts, no asset twice. -/
def StatesFormed (amounts : AmountOrder) (states : Table) : Prop :=
  ∀ row ∈ states.rows, (rawObjects row).isOk = true ∧
    (∀ entry ∈ entriesOf row, (amounts.number entry.amount).isSome) ∧
    ((entriesOf row).map TopEntry.code).Nodup

instance (amounts : AmountOrder) (states : Table) : Decidable (StatesFormed amounts states) :=
  inferInstanceAs (Decidable (∀ row ∈ states.rows, _ ∧ _ ∧ _))

/-- The largest of the entries in descending order, as many as a ranking has. -/
structure IsTop (amounts : AmountOrder) (entries top : List TopEntry) : Prop where
  length : top.length = min eachTypeAmount entries.length
  descending : top.Pairwise fun first second =>
    (amounts.number second.amount).getD 0 ≤ (amounts.number first.amount).getD 0
  largest : ∃ rest, (top ++ rest).Perm entries ∧ ∀ first ∈ top, ∀ second ∈ rest,
    (amounts.number second.amount).getD 0 ≤ (amounts.number first.amount).getD 0

def params (code limit : Nat) : Json :=
  .ofMembers [("name", .str "wallets-top"), ("asset-code", .num code), ("limit", .num limit)]

/-- The rows for the asset are its ranking by position, and a request for the
first `limit` wallets yields those of the ranking, none of them twice. -/
def Holds (api : NodeApi) (amounts : AmountOrder) (store : Store) (code : Nat) : Prop :=
  ∃ top, IsTop amounts (assetEntries code (store .walletsState)) top ∧
    (∀ row, row ∈ (store .walletsTop).rows ∧ row.find? "asset-code" = some (.num code) ↔
      row ∈ top.mapIdx (resultedObject code)) ∧
    (∀ limit < 2 ^ 64, Api.getStatistics api (params code limit) store =
      .ok (.answers (.arr ((top.take limit).mapIdx (resultedObject code))))) ∧
    (top.map TopEntry.publicKey).Nodup

/-- The process after a change of `wallets_state` and a run of the method. -/
def update (api : NodeApi) (amounts : AmountOrder) (process : Process) (states : Table) :
    Process :=
  ((method api amounts).run Process.exec (process.withTable .walletsState states)).2

/-- After every run the table is the ranking. -/
def HoldsThroughout (api : NodeApi) (amounts : AmountOrder) : Process → List Table → Prop
  | _, [] => True
  | process, states :: rest =>
      (∀ code ∈ codes api, Holds api amounts (update api amounts process states).store code) ∧
        HoldsThroughout api amounts (update api amounts process states) rest

/-! ## The keys of the rows -/

theorem find?_resultedObject (code position : Nat) (entry : TopEntry) :
    (resultedObject code position entry).find? "id" =
        some (.str (toString position ++ ":" ++ toString code)) ∧
      (resultedObject code position entry).find? "asset-code" = some (.num code) ∧
      (resultedObject code position entry).find? "position" = some (.num position) := by
  simp [resultedObject, Json.find?_ofMembers, Json.member?_setMember]

theorem docId_resultedObject (code position : Nat) (entry : TopEntry) :
    docId (resultedObject code position entry) =
      .str (toString position ++ ":" ++ toString code) :=
  docId_of_find? (find?_resultedObject code position entry).1

/-- Decimal texts have no colon, so the key tells the position and the asset. -/
theorem key_injective {position other code otherCode : Nat}
    (same : toString position ++ ":" ++ toString code =
      toString other ++ ":" ++ toString otherCode) : position = other ∧ code = otherCode := by
  have lists : (toString position).toList ++ ':' :: (toString code).toList =
      (toString other).toList ++ ':' :: (toString otherCode).toList := by
    have := congrArg String.toList same
    simpa [String.toList_append] using this
  obtain ⟨positions, -, codesEq⟩ := (List.append_cons_inj_of_notMem
    (colon_not_mem_toString position) (colon_not_mem_toString code)).mp lists
  exact ⟨toString_injective (String.toList_inj.mp positions),
    toString_injective (String.toList_inj.mp codesEq)⟩

/-! ## One run -/

def topOf (amounts : AmountOrder) (states : Table) (code : Nat) : List TopEntry :=
  (amounts.order (assetEntries code states)).take eachTypeAmount

def items (api : NodeApi) (amounts : AmountOrder) (states : Table) : List Json :=
  (codes api).flatMap fun code => (topOf amounts states code).mapIdx (resultedObject code)

theorem mapM_eq_ok {Item Value : Type} {items : List Item} {run : Item → Except DbError Value}
    {value : Item → Value} (each : ∀ item ∈ items, run item = .ok (value item)) :
    items.mapM run = .ok (items.map value) := by
  induction items with
  | nil => rfl
  | cons item rest ih =>
      have head := each item List.mem_cons_self
      have tail := ih fun other member => each other (List.mem_cons_of_mem _ member)
      rw [List.mapM_cons, head, tail]
      rfl

section Run

variable {api : NodeApi} {amounts : AmountOrder} {states : Table}

theorem reduction_eq (formed : StatesFormed amounts states) (code : Nat) :
    reduction amounts (states.rows.map entriesOf).flatten code =
      .ok ((topOf amounts states code).mapIdx (resultedObject code)) := by
  have group : (states.rows.map entriesOf).flatten.filter (inGroup code) =
      assetEntries code states := by
    rw [← List.flatMap_def, List.filter_flatMap, assetEntries]
  have numeric : (assetEntries code states).all
      (fun entry => (amounts.number entry.amount).isSome) = true := by
    rw [List.all_eq_true]
    intro entry member
    obtain ⟨row, rowMem, listed⟩ := List.mem_flatMap.mp member
    exact (formed row rowMem).2.1 entry (List.mem_of_mem_filter listed)
  rw [reduction, group, if_pos numeric, topOf]

theorem ranking_eq {store : Store} (formed : StatesFormed amounts (store .walletsState)) :
    ranking api amounts store = .ok (.arr (items api amounts (store .walletsState))) := by
  have entries : (store .walletsState).rows.mapM rawObjects =
      .ok ((store .walletsState).rows.map entriesOf) := by
    apply mapM_eq_ok
    intro row member
    obtain ⟨ok, -⟩ := formed row member
    cases raw : rawObjects row with
    | error error => simp [raw, Except.isOk, Except.toBool] at ok
    | ok entries => rw [entriesOf, raw]
  have groups : (codes api).mapM
      (reduction amounts ((store .walletsState).rows.map entriesOf).flatten) =
        .ok ((codes api).map fun code =>
          (topOf amounts (store .walletsState) code).mapIdx (resultedObject code)) :=
    mapM_eq_ok fun code _ => reduction_eq formed code
  refine bind_eq_ok.mpr ⟨_, rfl, bind_eq_ok.mpr ⟨_, rfl, bind_eq_ok.mpr ⟨_, entries, ?_⟩⟩⟩
  refine bind_eq_ok.mpr ⟨_, groups, ?_⟩
  rw [items, List.flatMap_def]
  rfl

/-- A run replaces the rows of the ranking and leaves the others. -/
theorem update_eq (formed : StatesFormed amounts states) (process : Process) :
    update api amounts process states =
      (process.withTable .walletsState states).withTable .walletsTop
        ((process.store .walletsTop).replaceMany (items api amounts states)) := by
  have stateEq : (process.withTable .walletsState states).store .walletsState = states := by
    rw [Process.store_withTable, Function.update_self]
  have topEq : (process.withTable .walletsState states).store .walletsTop =
      process.store .walletsTop := by
    rw [Process.store_withTable, Function.update_of_ne (by decide)]
  have answer : getDataOf (ranking api amounts (process.withTable .walletsState states).store) =
      .arr (items api amounts states) := by
    rw [ranking_eq (by rw [stateEq]; exact formed), stateEq]
    rfl
  rw [update, method, Program.run_bind, Db.run_getData, answer, ← topEq]
  rfl

def rowKey (code position : Nat) : Json := .str (toString position ++ ":" ++ toString code)

theorem rowKey_injective {position other code otherCode : Nat}
    (same : rowKey code position = rowKey otherCode other) :
    position = other ∧ code = otherCode :=
  key_injective (Json.str.inj same)

theorem map_docId_top (code : Nat) (top : List TopEntry) :
    (top.mapIdx (resultedObject code)).map docId =
      (List.range top.length).map (rowKey code) := by
  apply List.ext_getElem (by simp)
  intro position _ _
  simp only [List.getElem_map, List.getElem_mapIdx, List.getElem_range]
  exact docId_resultedObject code position _

theorem nodup_top (code : Nat) (top : List TopEntry) :
    ((top.mapIdx (resultedObject code)).map docId).Nodup := by
  rw [map_docId_top]
  exact List.Nodup.map (fun _ _ same => (rowKey_injective same).1) List.nodup_range

theorem mem_top {code : Nat} {top : List TopEntry} {row : Json} :
    row ∈ top.mapIdx (resultedObject code) ↔
      ∃ position, ∃ inside : position < top.length,
        row = resultedObject code position top[position] := by
  rw [List.mem_mapIdx]
  exact exists₂_congr fun _ _ => eq_comm

theorem map_docId_items (api : NodeApi) (amounts : AmountOrder) (states : Table) :
    (items api amounts states).map docId = (codes api).flatMap fun code =>
      (List.range (topOf amounts states code).length).map (rowKey code) := by
  rw [items, List.map_flatMap]
  exact List.flatMap_congr fun code _ => map_docId_top code _

theorem rowKey_mem_items {code position : Nat} :
    rowKey code position ∈ (items api amounts states).map docId ↔
      code ∈ codes api ∧ position < (topOf amounts states code).length := by
  rw [map_docId_items, List.mem_flatMap]
  constructor
  · rintro ⟨other, listed, member⟩
    obtain ⟨otherPosition, inside, same⟩ := List.mem_map.mp member
    obtain ⟨rfl, rfl⟩ := rowKey_injective same
    exact ⟨listed, List.mem_range.mp inside⟩
  · rintro ⟨listed, inside⟩
    exact ⟨code, listed, List.mem_map.mpr ⟨position, List.mem_range.mpr inside, rfl⟩⟩

theorem nodup_items (api : NodeApi) (amounts : AmountOrder) (states : Table) :
    ((items api amounts states).map docId).Nodup := by
  rw [map_docId_items, List.nodup_flatMap]
  constructor
  · intro code _
    rw [← map_docId_top]
    exact nodup_top code _
  · refine (List.nodup_dedup _).imp ?_
    intro first second differ key inFirst inSecond
    obtain ⟨position, -, rfl⟩ := List.mem_map.mp inFirst
    obtain ⟨other, -, same⟩ := List.mem_map.mp inSecond
    exact differ (rowKey_injective same).2.symm

/-- The rows after a run: those of the ranking, and the old ones at other keys. -/
theorem mem_update (formed : StatesFormed amounts states) (process : Process) {row : Json} :
    row ∈ ((update api amounts process states).store .walletsTop).rows ↔
      row ∈ items api amounts states ∨ row ∈ (process.store .walletsTop).rows ∧
        docId row ∉ (items api amounts states).map docId := by
  rw [update_eq formed, Process.store_withTable, Function.update_self]
  exact KeyedTable.mem_replaceMany (nodup_items api amounts states)

theorem states_update (formed : StatesFormed amounts states) (process : Process) :
    (update api amounts process states).store .walletsState = states := by
  rw [update_eq formed, Process.store_withTable, Function.update_of_ne (by decide),
    Process.store_withTable, Function.update_self]

end Run

/-! ## Requests -/

/-- The codes of the tokens are of the type `unsigned short`, and looking one
up yields the token with that code. -/
def KnownTokens (api : NodeApi) : Prop :=
  ∀ code ∈ codes api, code < 2 ^ 16 ∧ api.tokenFromCode code = code

instance (api : NodeApi) : Decidable (KnownTokens api) :=
  inferInstanceAs (Decidable (∀ code ∈ codes api, _ ∧ _))

theorem getStatistics_params {api : NodeApi} (tokens : KnownTokens api) {code limit : Nat}
    (known : code ∈ codes api) (store : Store) :
    Api.getStatistics api (params code limit) store = .ok (.answers (getDataOf
      ((((cursor .walletsTop).between 0 limit "position").filter "asset-code" (.num code))
        store))) := by
  obtain ⟨short, token⟩ := tokens code known
  have name : (params code limit).find? "name" = some (.str "wallets-top") := by
    simp [params, Json.find?_ofMembers, Json.member?_setMember]
  have assetCode : (params code limit).find? "asset-code" = some (.num code) := by
    simp [params, Json.find?_ofMembers, Json.member?_setMember]
  have limitEq : (params code limit).find? "limit" = some (.num limit) := by
    simp [params, Json.find?_ofMembers, Json.member?_setMember]
  have listed : code = api.xdrCode ∨ code = api.mileCode := by
    simpa [codes] using known
  have present {key : String} {value : Json} (found : (params code limit).find? key = some value)
      (rest : Except Exn Outcome) : Api.check (params code limit) key rest = rest := by
    rw [Api.check, if_neg (Json.count_pos.mpr ⟨value, found⟩).ne']
  have codeText : (params code limit).at? "asset-code" >>= Json.getUInt16 = .ok code := by
    rw [Json.at?_of_find? assetCode]
    change Except.ok ((code : Int) % 2 ^ 16).toNat = _
    congr 1
    omega
  have limitText : Api.numberOf (params code limit) "limit" = .ok limit := by
    rw [Api.numberOf, Json.at?_of_find? limitEq]
    exact Json.getUInt64_num limit
  have nameText : Api.textOf (params code limit) "name" = .ok "wallets-top" := by
    rw [Api.textOf, Json.at?_of_find? name]
    rfl
  have isToken :
      ¬ (api.tokenFromCode code ≠ api.xdrCode ∧ api.tokenFromCode code ≠ api.mileCode) := by
    rw [token]
    tauto
  rw [Api.getStatistics, present name, nameText, present assetCode, present limitEq, codeText,
    limitText]
  change (if api.tokenFromCode code ≠ api.xdrCode ∧ api.tokenFromCode code ≠ api.mileCode then _
    else _) = _
  rw [if_neg isToken, token]
  rfl

def positionOf (row : Json) : Nat :=
  match row.find? "position" with
  | some (.num position) => position.toNat
  | _ => 0

theorem positionOf_resultedObject (code position : Nat) (entry : TopEntry) :
    positionOf (resultedObject code position entry) = position := by
  simp [positionOf, (find?_resultedObject code position entry).2.2]

theorem map_positionOf_top (code : Nat) (top : List TopEntry) :
    (top.mapIdx (resultedObject code)).map positionOf =
      List.range' 0 (top.mapIdx (resultedObject code)).length := by
  apply List.ext_getElem (by simp)
  intro position _ _
  simp [positionOf_resultedObject]

theorem rank_top {code : Nat} {top : List TopEntry} {row : Json}
    (member : row ∈ top.mapIdx (resultedObject code)) :
    Cursor.rank "position" row = (Json.num (positionOf row)).sortKey := by
  obtain ⟨position, inside, rfl⟩ := mem_top.mp member
  have found := (find?_resultedObject code position top[position]).2.2
  rw [Cursor.rank, found, positionOf_resultedObject]
  rfl

section Request

variable {code : Nat} {top : List TopEntry} {rows : List Json}
  (exactly : ∀ row, row ∈ rows ∧ row.find? "asset-code" = some (.num code) ↔
    row ∈ top.mapIdx (resultedObject code))

include exactly

theorem perm_asset (distinct : (rows.map docId).Nodup) :
    ((Cursor.ordered "position" rows).filter
      fun row => row.find? "asset-code" = some (.num code)).Perm
        (top.mapIdx (resultedObject code)) := by
  have orderedNodup : ((Cursor.ordered "position" rows).map docId).Nodup :=
    ((Cursor.ordered_perm "position" rows).map docId).nodup_iff.mpr
      (distinct.sublist (List.filter_sublist.map docId))
  refine (List.perm_ext_iff_of_nodup (orderedNodup.of_map.filter _)
    (nodup_top code top).of_map).mpr ?_
  intro row
  rw [List.mem_filter, Cursor.mem_ordered, decide_eq_true_eq, ← exactly]
  constructor
  · rintro ⟨⟨member, -⟩, asset⟩
    exact ⟨member, asset⟩
  · rintro ⟨member, asset⟩
    obtain ⟨position, inside, rfl⟩ := mem_top.mp ((exactly row).mp ⟨member, asset⟩)
    exact ⟨⟨member, by simp [(find?_resultedObject code position _).2.2]⟩, asset⟩

/-- In the order of the index the rows for the asset are the ranking. -/
theorem ordered_asset (distinct : (rows.map docId).Nodup) :
    (Cursor.ordered "position" rows).filter (fun row => row.find? "asset-code" = some (.num code)) =
      top.mapIdx (resultedObject code) := by
  have sameRows := perm_asset exactly distinct
  apply sameRows.eq_of_pairwise _ ((Cursor.ordered_pairwise "position" rows).filter _)
  · have increasing : ((top.mapIdx (resultedObject code)).map positionOf).Pairwise (· < ·) := by
      rw [map_positionOf_top]
      exact List.pairwise_lt_range'
    refine (List.pairwise_map.mp increasing).imp_of_mem ?_
    intro first second firstMem secondMem before
    rw [rank_top firstMem, rank_top secondMem, Json.sortKey_num_le]
    omega
  · intro first second firstMem secondMem before after
    have firstTop := sameRows.mem_iff.mp firstMem
    rw [rank_top firstTop, rank_top secondMem, Json.sortKey_num_le] at before after
    obtain ⟨position, inside, rfl⟩ := mem_top.mp firstTop
    obtain ⟨other, otherInside, rfl⟩ := mem_top.mp secondMem
    rw [positionOf_resultedObject, positionOf_resultedObject] at before after
    obtain rfl : position = other := by omega
    rfl

theorem request_eq (distinct : (rows.map docId).Nodup) (few : top.length ≤ 2 ^ 53) {limit : Nat}
    (bound : limit < 2 ^ 64) :
    ((Cursor.ordered "position" rows).filter (Cursor.between.inRange 0 limit "position")).filter
        (fun row => row.find? "asset-code" = some (.num code)) =
      (top.take limit).mapIdx (resultedObject code) := by
  have inside : (top.mapIdx (resultedObject code)).filter
      (Cursor.between.inRange 0 limit "position") =
        (top.mapIdx (resultedObject code)).filter
          fun row => 0 ≤ positionOf row ∧ positionOf row < limit := by
    apply List.filter_congr
    intro row member
    obtain ⟨position, inside, rfl⟩ := mem_top.mp member
    have positionEq := (find?_resultedObject code position top[position]).2.2
    rw [Bool.eq_iff_iff, Cursor.inRange_iff_of_lt positionEq (inside.trans_le few),
      positionOf_resultedObject, Nat.zero_add, Nat.mod_eq_of_lt bound]
    simp
  rw [List.filter_comm, ordered_asset exactly distinct, inside,
    filter_range_eq (map_positionOf_top code top)]
  apply List.ext_getElem
  · simp [pageOf]
  · intro position _ _
    simp [pageOf]

end Request

/-! ## The ranking that a run computes -/

section Top

variable {amounts : AmountOrder} {states : Table}

def topCount (states : Table) (code : Nat) : Nat :=
  min eachTypeAmount (assetEntries code states).length

theorem length_topOf (amounts : AmountOrder) (states : Table) (code : Nat) :
    (topOf amounts states code).length = topCount states code := by
  rw [topOf, List.length_take, (amounts.perm _).length_eq, topCount]

theorem isTop_topOf (amounts : AmountOrder) (states : Table) (code : Nat) :
    IsTop amounts (assetEntries code states) (topOf amounts states code) := by
  have split := List.take_append_drop eachTypeAmount (amounts.order (assetEntries code states))
  have descending := amounts.descending (assetEntries code states)
  rw [← split] at descending
  obtain ⟨inside, -, across⟩ := List.pairwise_append.mp descending
  refine ⟨length_topOf amounts states code, inside, _, ?_, across⟩
  rw [topOf, split]
  exact amounts.perm _

theorem mem_of_mapM_eq_ok {Item Value : Type} {items : List Item}
    {run : Item → Except DbError Value} {values : List Value}
    (ran : items.mapM run = .ok values) {value : Value} (member : value ∈ values) :
    ∃ item ∈ items, run item = .ok value := by
  induction items generalizing values with
  | nil =>
      obtain rfl : [] = values := Except.ok.inj ran
      cases member
  | cons item rest ih =>
      rw [List.mapM_cons] at ran
      obtain ⟨first, firstEq, ranRest⟩ := bind_eq_ok.mp ran
      obtain ⟨others, othersEq, built⟩ := bind_eq_ok.mp ranRest
      obtain rfl : first :: others = values := Except.ok.inj built
      rcases List.mem_cons.mp member with rfl | later
      · exact ⟨item, List.mem_cons_self, firstEq⟩
      · obtain ⟨other, otherMem, otherEq⟩ := ih othersEq later
        exact ⟨other, List.mem_cons_of_mem _ otherMem, otherEq⟩

theorem publicKey_of_rawObject {id coin : Json} {entry : TopEntry}
    (built : rawObject id coin = .ok (some entry)) : entry.publicKey = id := by
  unfold rawObject at built
  split at built
  · split at built
    · split_ifs at built
      · cases built
      · obtain rfl := Option.some.inj (Except.ok.inj built)
        rfl
    · cases built
  · cases built

theorem publicKey_of_mem {row : Json} {entry : TopEntry} (member : entry ∈ entriesOf row) :
    entry.publicKey = docId row := by
  cases raw : rawObjects row with
  | error error => simp [entriesOf, raw] at member
  | ok entries =>
      rw [entriesOf, raw] at member
      unfold rawObjects at raw
      split at raw
      · obtain ⟨objects, objectsEq, built⟩ := bind_eq_ok.mp raw
        obtain rfl : objects.reduceOption = entries := Except.ok.inj built
        obtain ⟨coin, -, coinEq⟩ :=
          mem_of_mapM_eq_ok objectsEq (List.reduceOption_mem_iff.mp member)
        exact publicKey_of_rawObject coinEq
      · obtain rfl : [] = entries := Except.ok.inj raw
        cases member

/-- A wallet has at most one entry of an asset. -/
theorem sublist_publicKey {row : Json} (nodup : ((entriesOf row).map TopEntry.code).Nodup)
    (code : Nat) :
    (((entriesOf row).filter (inGroup code)).map TopEntry.publicKey).Sublist [docId row] := by
  have groupNodup : (((entriesOf row).filter (inGroup code)).map TopEntry.code).Nodup :=
    nodup.sublist (List.filter_sublist.map _)
  have inGroups : ∀ entry ∈ (entriesOf row).filter (inGroup code),
      entry.publicKey = docId row ∧ entry.code = .str (toString code) := by
    intro entry member
    obtain ⟨listed, matching⟩ := List.mem_filter.mp member
    exact ⟨publicKey_of_mem listed, by simpa [inGroup] using matching⟩
  cases group : (entriesOf row).filter (inGroup code) with
  | nil => exact List.nil_sublist _
  | cons first rest =>
      rw [group] at groupNodup inGroups
      cases rest with
      | nil =>
          rw [List.map_singleton, (inGroups first List.mem_cons_self).1]
      | cons second others =>
          have same : first.code = second.code :=
            (inGroups first (by simp)).2.trans (inGroups second (by simp)).2.symm
          simp [same] at groupNodup

theorem sublist_publicKeys {rows : List Json}
    (nodup : ∀ row ∈ rows, ((entriesOf row).map TopEntry.code).Nodup) (code : Nat) :
    ((rows.flatMap fun row => (entriesOf row).filter (inGroup code)).map
      TopEntry.publicKey).Sublist (rows.map docId) := by
  induction rows with
  | nil => exact List.nil_sublist _
  | cons row rest ih =>
      rw [List.flatMap_cons, List.map_append, List.map_cons]
      have head := sublist_publicKey (nodup row List.mem_cons_self) code
      exact head.append (ih fun other member => nodup other (List.mem_cons_of_mem _ member))

theorem nodup_assetEntries (formed : StatesFormed amounts states) (code : Nat) :
    ((assetEntries code states).map TopEntry.publicKey).Nodup :=
  states.keysNodup.sublist (sublist_publicKeys (fun row member => (formed row member).2.2) code)

theorem nodup_topOf (formed : StatesFormed amounts states) (code : Nat) :
    ((topOf amounts states code).map TopEntry.publicKey).Nodup := by
  have ordered : ((amounts.order (assetEntries code states)).map TopEntry.publicKey).Nodup :=
    ((amounts.perm _).map _).nodup_iff.mpr (nodup_assetEntries formed code)
  exact ordered.sublist ((List.take_sublist _ _).map _)

end Top

/-! ## Runs -/

/-- The table has the rows of rankings of the given lengths. -/
structure TopIs (api : NodeApi) (table : Table) (count : Nat → Nat) : Prop where
  rows : ∀ row ∈ table.rows, ∃ code ∈ codes api, ∃ position < count code, ∃ entry,
    row = resultedObject code position entry
  keys : ∀ code ∈ codes api, ∀ position < count code, table.Has (rowKey code position)

section Runs

variable {api : NodeApi} {amounts : AmountOrder} {states : Table} {process : Process}
  {count : Nat → Nat}

/-- The old row behind the end of a shorter ranking stays. -/
theorem Holds.le (top : TopIs api (process.store .walletsTop) count)
    (formed : StatesFormed amounts states) {code : Nat} (known : code ∈ codes api)
    (holds : Holds api amounts (update api amounts process states).store code) :
    count code ≤ topCount states code := by
  obtain ⟨ranked, isTop, exactly, -⟩ := holds
  rw [states_update formed] at isTop
  by_contra longer
  rw [not_le] at longer
  obtain ⟨row, member, key⟩ := top.keys code known _ longer
  obtain ⟨rowCode, -, position, -, entry, rfl⟩ := top.rows row member
  obtain ⟨rfl, rfl⟩ := rowKey_injective ((docId_resultedObject _ _ entry).symm.trans key)
  have stays : resultedObject rowCode (topCount states rowCode) entry ∈
      ((update api amounts process states).store .walletsTop).rows := by
    refine (mem_update formed process).mpr (.inr ⟨member, ?_⟩)
    rw [key, rowKey_mem_items, length_topOf]
    exact fun ⟨_, impossible⟩ => lt_irrefl _ impossible
  have listed := (exactly _).mp ⟨stays, (find?_resultedObject _ _ entry).2.1⟩
  obtain ⟨other, inside, same⟩ := mem_top.mp listed
  have samePosition := congrArg positionOf same
  rw [positionOf_resultedObject, positionOf_resultedObject] at samePosition
  rw [isTop.length, ← topCount, ← samePosition] at inside
  exact lt_irrefl _ inside

section Longer

variable (top : TopIs api (process.store .walletsTop) count)
  (formed : StatesFormed amounts states)
  (longer : ∀ code ∈ codes api, count code ≤ topCount states code)

include top formed longer

/-- If no ranking gets shorter, every old row is replaced. -/
theorem mem_update_of_longer {row : Json} :
    row ∈ ((update api amounts process states).store .walletsTop).rows ↔
      row ∈ items api amounts states := by
  rw [mem_update formed]
  refine ⟨fun member => member.resolve_right ?_, .inl⟩
  rintro ⟨old, kept⟩
  obtain ⟨code, known, position, inside, entry, rfl⟩ := top.rows row old
  apply kept
  rw [docId_resultedObject]
  refine rowKey_mem_items.mpr ⟨known, ?_⟩
  rw [length_topOf]
  exact inside.trans_le (longer code known)

theorem TopIs.update : TopIs api ((update api amounts process states).store .walletsTop)
    (topCount states) where
  rows row member := by
    obtain ⟨code, known, listed⟩ :=
      List.mem_flatMap.mp ((mem_update_of_longer top formed longer).mp member)
    obtain ⟨position, inside, rfl⟩ := mem_top.mp listed
    rw [length_topOf] at inside
    exact ⟨code, known, position, inside, _, rfl⟩
  keys code known position inside := by
    rw [← length_topOf amounts] at inside
    obtain ⟨row, member, key⟩ :=
      List.mem_map.mp (rowKey_mem_items.mpr ⟨known, inside⟩)
    exact ⟨row, (mem_update_of_longer top formed longer).mpr member, key⟩

theorem holds_update (tokens : KnownTokens api) {code : Nat} (known : code ∈ codes api) :
    Holds api amounts (WalletsTop.update api amounts process states).store code := by
  have exactly (row : Json) :
      row ∈ ((WalletsTop.update api amounts process states).store .walletsTop).rows ∧
          row.find? "asset-code" = some (.num code) ↔
        row ∈ (topOf amounts states code).mapIdx (resultedObject code) := by
    rw [mem_update_of_longer top formed longer]
    constructor
    · rintro ⟨member, asset⟩
      obtain ⟨other, -, listed⟩ := List.mem_flatMap.mp member
      obtain ⟨position, inside, rfl⟩ := mem_top.mp listed
      rw [(find?_resultedObject other position _).2.1] at asset
      obtain rfl : other = code := by simpa using asset
      exact listed
    · intro listed
      obtain ⟨position, inside, rfl⟩ := mem_top.mp listed
      exact ⟨List.mem_flatMap.mpr ⟨code, known, listed⟩, (find?_resultedObject _ _ _).2.1⟩
  refine ⟨topOf amounts states code, ?_, exactly, ?_, nodup_topOf formed code⟩
  · rw [states_update formed]
    exact isTop_topOf amounts states code
  · intro limit bound
    have few : (topOf amounts states code).length ≤ 2 ^ 53 := by
      rw [length_topOf]
      exact (Nat.min_le_left _ _).trans (by decide)
    have rows := request_eq exactly (KeyedTable.keysNodup _) few bound
    rw [getStatistics_params tokens known, ← rows]
    rfl

end Longer

/-- One run after another, from a table of rankings of any lengths. -/
theorem holdsThroughout_iff (tokens : KnownTokens api) {contents : List Table}
    (formed : ∀ states ∈ contents, StatesFormed amounts states)
    (top : TopIs api (process.store .walletsTop) count) :
    HoldsThroughout api amounts process contents ↔
      ∀ code ∈ codes api, (count code :: contents.map fun states => topCount states code).IsChain
        (· ≤ ·) := by
  induction contents generalizing process count with
  | nil => simp [HoldsThroughout]
  | cons states rest ih =>
      have formedHere := formed states List.mem_cons_self
      have formedRest : ∀ other ∈ rest, StatesFormed amounts other :=
        fun other member => formed other (List.mem_cons_of_mem _ member)
      simp only [List.map_cons, List.isChain_cons_cons, forall_and]
      constructor
      · rintro ⟨holds, throughout⟩
        have longer : ∀ code ∈ codes api, count code ≤ topCount states code :=
          fun code known => (holds code known).le top formedHere known
        exact ⟨longer, (ih formedRest (top.update formedHere longer)).mp throughout⟩
      · rintro ⟨longer, chains⟩
        exact ⟨fun code known => holds_update top formedHere longer tokens known,
          (ih formedRest (top.update formedHere longer)).mpr chains⟩

/-- Before the first run there is no ranking. -/
theorem topIs_empty (fresh : process.store .walletsTop = .empty) :
    TopIs api (process.store .walletsTop) fun _ => 0 := by
  constructor
  · intro row member
    rw [fresh] at member
    cases member
  · intro code _ position impossible
    cases impossible

theorem isChain_zero_cons {numbers : List Nat} :
    (0 :: numbers).IsChain (· ≤ ·) ↔ numbers.IsChain (· ≤ ·) := by
  cases numbers with
  | nil => simp
  | cons first rest => simp

/-- The method runs after every change of the wallet states, from an empty
table on.  After every run the table is the present ranking, and requests yield
its beginning, exactly if the number of ranked wallets of no asset ever
decreases. -/
theorem wallets_top_iff (tokens : KnownTokens api) {contents : List Table}
    (formed : ∀ states ∈ contents, StatesFormed amounts states)
    (fresh : process.store .walletsTop = .empty) :
    HoldsThroughout api amounts process contents ↔
      ∀ code ∈ codes api, (contents.map fun states => topCount states code).IsChain (· ≤ ·) := by
  rw [holdsThroughout_iff tokens formed (topIs_empty fresh)]
  exact forall₂_congr fun _ _ => isChain_zero_cons

end Runs

/-- Whole amounts, as numbers or as texts, and ties in the order of the rows. -/
def sampleAmounts : AmountOrder :=
  let number : Json → Option Rat := fun amount =>
    match amount with
    | .num value => some value
    | .real value => some value
    | .str text => (stoullText text).toOption.map fun value => (value : Rat)
    | _ => none
  let precedes : TopEntry → TopEntry → Prop := fun first second =>
    (number second.amount).getD 0 ≤ (number first.amount).getD 0
  { number := number
    order := List.insertionSort precedes
    perm := List.perm_insertionSort precedes
    descending := by
      have total : Std.Total precedes := ⟨fun first second => le_total _ _⟩
      have transitive : IsTrans TopEntry precedes :=
        ⟨fun first second third before after => le_trans after before⟩
      exact List.pairwise_insertionSort precedes }

/-- The states of wallets that have the given amounts of the first asset. -/
def statesOf (wallets : List (String × String)) : Table :=
  KeyedTable.empty.insertMany (wallets.map fun (publicKey, amount) =>
    .ofMembers [("id", .str publicKey), ("balance", .arr
      [.ofMembers [("code", .str "0"), ("amount", .str amount)]])])

/-- A second wallet appears and is richer than the first. -/
theorem wallets_top_iff_growing :
    let contents := [statesOf [("alice", "5")], statesOf [("alice", "5"), ("bob", "7")]]
    (∀ states ∈ contents, StatesFormed sampleAmounts states) ∧
      HoldsThroughout sampleApi sampleAmounts (.idle .empty) contents := by
  intro contents
  have tokens : KnownTokens sampleApi := by decide
  have formed : ∀ states ∈ contents, StatesFormed sampleAmounts states := by decide +kernel
  exact ⟨formed, (wallets_top_iff tokens formed rfl).mpr (by decide +kernel)⟩

/-- The second of two wallets loses its balance: its row stays. -/
theorem wallets_top_keeps_old_rows :
    ¬ ∀ contents : List Table, (∀ states ∈ contents, StatesFormed sampleAmounts states) →
      HoldsThroughout sampleApi sampleAmounts (.idle .empty) contents := by
  intro always
  let contents := [statesOf [("alice", "5"), ("bob", "7")], statesOf [("alice", "5")]]
  have formed : ∀ states ∈ contents, StatesFormed sampleAmounts states := by decide +kernel
  have tokens : KnownTokens sampleApi := by decide
  have chains := (holdsThroughout_iff tokens formed (topIs_empty rfl)).mp (always contents formed)
  revert chains
  decide +kernel

end WalletsTop

end MileExplorer
