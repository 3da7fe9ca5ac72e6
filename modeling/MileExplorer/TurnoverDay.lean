import MileExplorer.Statistics
import Mathlib.Data.List.Perm.Basic

/-!
# The turnover of a day

`turnover24` adds up the assets of the blocks of the last day.  It gives the
end of the day to `between` where that takes a length, so it reads the blocks
of a much longer time; while the clock is within its first day the start of
the day is negative, and it reads none of the blocks it should.
-/

namespace MileExplorer

namespace Statistics

/-! ## The entries of a block -/

def trxAssets (trx : Json) : List Json :=
  match trx.find? "asset" with
  | some assets => assets.elements
  | none => []

def blockAssets (block : Json) : List Json :=
  match block.find? "transactions" with
  | some (.arr trxs) => trxs.flatMap trxAssets
  | _ => []

section Sums

variable (api : NodeApi) (stold : String → Except Exn Rat)

/-- The asset that the code of an entry is read as. -/
def kindIn (entry : Json) : Option Asset :=
  match entry.find? "code" with
  | some (.str code) => (assetOf api code).toOption.join
  | _ => none

def amountIn (entry : Json) : Rat :=
  match entry.find? "amount" with
  | some (.str amount) => (stold amount).toOption.getD 0
  | _ => 0

def entriesFor (asset : Asset) (entries : List Json) : List Json :=
  entries.filter fun entry => kindIn api entry = some asset

/-- The members of a row for an asset are the sums over its entries. -/
structure AssetSums (asset : Asset) (entries : List Json) (row : Json) : Prop where
  code : row.find? "code" = some (.str (toString (codeOf api asset)))
  amount : row.find? "amount" =
    some (.real ((entriesFor api asset entries).map (amountIn stold)).sum)
  count : row.find? "count" = some (.num (entriesFor api asset entries).length)

/-- The members of a row are the sums over entries. -/
structure SumsUp (entries : List Json) (row : Json) : Prop where
  count : row.find? "count" = some (.num entries.length)
  assets : ∃ xdr mile, row.find? "assets" = some (.arr [xdr, mile]) ∧
    AssetSums api stold .xdr entries xdr ∧ AssetSums api stold .mile entries mile

/-- The code of an entry is read as a number, and the amount as one too if the
entry is of one of the two assets. -/
def EntryReads (entry : Json) : Prop :=
  ∃ code amount kind, entry.find? "code" = some (.str code) ∧
    entry.find? "amount" = some (.str amount) ∧ assetOf api code = .ok kind ∧
      (kind ≠ none → ∃ value, stold amount = .ok value)

/-- The time of a transaction is a number, if there is one, and its entries can
be read. -/
def TrxReads (trx : Json) : Prop :=
  (∃ time, trxTime trx = .ok time) ∧ ∀ entry ∈ trxAssets trx, EntryReads api stold entry

def BlockReads (block : Json) : Prop :=
  ∀ trxs, block.find? "transactions" = some (.arr trxs) → ∀ trx ∈ trxs, TrxReads api stold trx

end Sums

/-! ## Enumerations -/

theorem Trail.isOk_next (first second : Trail) :
    (first.next second).2.isOk = true ↔ first.2.isOk = true ∧ second.2.isOk = true := by
  obtain ⟨calls, ended⟩ := first
  obtain ⟨others, otherEnd⟩ := second
  cases ended <;> cases otherEnd <;> simp [Trail.next, Except.isOk, Except.toBool, Except.map]

theorem Trail.isOk_foldr {Item : Type} (trailOf : Item → Trail) (items : List Item) :
    (items.foldr (fun item rest => (trailOf item).next rest) .none).2.isOk = true ↔
      ∀ item ∈ items, (trailOf item).2.isOk = true := by
  induction items with
  | nil => simp [Trail.none, Except.isOk, Except.toBool]
  | cons item items ih => rw [List.foldr_cons, Trail.isOk_next, ih, List.forall_mem_cons]

section Enumeration

variable {api : NodeApi} {stold : String → Except Exn Rat}

/-- An enumeration counts the entries and makes a call for each that is of one
of the two assets. -/
def Counts (api : NodeApi) (stold : String → Except Exn Rat) (trail : Trail)
    (entries : List Json) : Prop :=
  trail.2 = .ok entries.length ∧ ∀ asset, total asset trail.1 =
    (((entriesFor api asset entries).map (amountIn stold)).sum,
      (entriesFor api asset entries).length)

theorem Counts.none : Counts api stold .none [] := ⟨rfl, fun _ => rfl⟩

theorem Counts.next {first second : Trail} {entries others : List Json}
    (own : Counts api stold first entries) (later : Counts api stold second others) :
    Counts api stold (first.next second) (entries ++ others) := by
  obtain ⟨ended, totals⟩ := own
  obtain ⟨otherEnd, otherTotals⟩ := later
  have together : first.next second =
      (first.1 ++ second.1, .ok (entries.length + others.length)) := by
    simp [Trail.next, ended, otherEnd, Except.map]
  rw [together]
  refine ⟨by rw [List.length_append], fun asset => ?_⟩
  have split : total asset (first.1 ++ second.1) =
      ((total asset first.1).1 + (total asset second.1).1,
        (total asset first.1).2 + (total asset second.1).2) := by
    simp [total]
  rw [split, totals, otherTotals]
  simp [entriesFor]

theorem Counts.foldr {Item : Type} {trailOf : Item → Trail} {entriesIn : Item → List Json}
    {items : List Item} (each : ∀ item ∈ items, Counts api stold (trailOf item) (entriesIn item)) :
    Counts api stold (items.foldr (fun item rest => (trailOf item).next rest) .none)
      (items.flatMap entriesIn) := by
  induction items with
  | nil => exact .none
  | cons item items ih =>
      rw [List.foldr_cons, List.flatMap_cons]
      exact (each item (by simp)).next (ih fun other member => each other (by simp [member]))

theorem isOk_entryTrail {time : Int} {entry : Json} :
    (entryTrail api stold time entry).2.isOk = true ↔ EntryReads api stold entry := by
  have calls : (entryTrail api stold time entry).2.isOk = true ↔
      ∃ call, entryCall api stold time entry = .ok call := by
    unfold entryTrail
    cases entryCall api stold time entry <;> simp [Trail.throw, Except.isOk, Except.toBool]
  rw [calls]
  constructor
  · rintro ⟨call, called⟩
    obtain ⟨code, codeEq, rest⟩ := bind_eq_ok.mp called
    obtain ⟨amount, amountEq, rest⟩ := bind_eq_ok.mp rest
    obtain ⟨kind, kindEq, rest⟩ := bind_eq_ok.mp rest
    refine ⟨code, amount, kind, Json.constText_eq_ok.mp codeEq, Json.constText_eq_ok.mp amountEq,
      kindEq, fun isKind => ?_⟩
    cases kind with
    | none => exact absurd rfl isKind
    | some kind =>
        obtain ⟨value, valueEq, -⟩ := bind_eq_ok.mp rest
        exact ⟨value, valueEq⟩
  · rintro ⟨code, amount, kind, codeEq, amountEq, kindEq, isNumber⟩
    rw [entryCall, Json.constText_eq_ok.mpr codeEq, Json.constText_eq_ok.mpr amountEq]
    simp only [bind, Except.bind, kindEq]
    cases kind with
    | none => exact ⟨none, rfl⟩
    | some kind =>
        obtain ⟨value, valueEq⟩ := isNumber (by simp)
        exact ⟨some ⟨kind, value, time⟩, by simp [valueEq, pure, Except.pure]⟩

theorem counts_entryTrail {time : Int} {entry : Json} (reads : EntryReads api stold entry) :
    Counts api stold (entryTrail api stold time entry) [entry] := by
  obtain ⟨code, amount, kind, codeEq, amountEq, kindEq, isNumber⟩ := reads
  have kindIs : kindIn api entry = kind := by
    simp [kindIn, codeEq, kindEq, Except.toOption]
  rw [entryTrail, entryCall, Json.constText_eq_ok.mpr codeEq, Json.constText_eq_ok.mpr amountEq]
  simp only [bind, Except.bind, kindEq]
  cases kind with
  | none =>
      refine ⟨rfl, fun asset => ?_⟩
      simp [total, entriesFor, kindIs, pure, Except.pure]
  | some kind =>
      obtain ⟨value, valueEq⟩ := isNumber (by simp)
      have amountIs : amountIn stold entry = value := by
        simp [amountIn, amountEq, valueEq, Except.toOption]
      simp only [valueEq, pure, Except.pure]
      refine ⟨rfl, fun asset => ?_⟩
      by_cases same : kind = asset
      · simp [total, entriesFor, kindIs, amountIs, same]
      · simp [total, entriesFor, kindIs, same]

theorem isOk_trxTrail {trx : Json} :
    (trxTrail api stold trx).2.isOk = true ↔ TrxReads api stold trx := by
  unfold trxTrail TrxReads trxAssets
  cases trxTime trx with
  | error exception => simp [Trail.throw, Except.isOk, Except.toBool]
  | ok time =>
      cases trx.find? "asset" with
      | none => simp [Trail.none, Except.isOk, Except.toBool]
      | some assets =>
          simp only [assetsTrail, Trail.isOk_foldr, isOk_entryTrail]
          simp

theorem counts_trxTrail {trx : Json} (reads : TrxReads api stold trx) :
    Counts api stold (trxTrail api stold trx) (trxAssets trx) := by
  obtain ⟨⟨time, timeEq⟩, each⟩ := reads
  unfold trxAssets at each ⊢
  simp only [trxTrail, timeEq]
  cases assetsEq : trx.find? "asset" with
  | none => exact .none
  | some assets =>
      simp only [assetsEq] at each
      have own : ∀ entry ∈ assets.elements,
          Counts api stold (entryTrail api stold time entry) [entry] :=
        fun entry member => counts_entryTrail (each entry member)
      simpa [assetsTrail] using Counts.foldr own

def blockTrail (api : NodeApi) (stold : String → Except Exn Rat) (block : Json) : Trail :=
  match block.find? "transactions" with
  | none => .none
  | some item => itemTrail api stold item

theorem isOk_blockTrail {block : Json} :
    (blockTrail api stold block).2.isOk = true ↔ BlockReads api stold block := by
  unfold blockTrail BlockReads
  cases block.find? "transactions" with
  | none => simp [Trail.none, Except.isOk, Except.toBool]
  | some item =>
      cases item with
      | arr trxs =>
          simp only [itemTrail, Json.isArray, enumerateAssets, trxsTrail, if_true,
            Trail.isOk_foldr, isOk_trxTrail]
          simp
      | _ => simp [itemTrail, Json.isArray, Trail.none, Except.isOk, Except.toBool]

theorem counts_blockTrail {block : Json} (reads : BlockReads api stold block) :
    Counts api stold (blockTrail api stold block) (blockAssets block) := by
  unfold blockTrail blockAssets
  cases itemEq : block.find? "transactions" with
  | none => exact .none
  | some item =>
      cases item with
      | arr trxs =>
          exact Counts.foldr fun trx member => counts_trxTrail (reads trxs itemEq trx member)
      | _ => exact .none

def transactionsOf (blocks : List Json) : Json :=
  .arr (blocks.filterMap fun block => block.find? "transactions")

theorem Trail.none_next (trail : Trail) : Trail.none.next trail = trail := by
  obtain ⟨calls, ended⟩ := trail
  cases ended <;> simp [Trail.none, Trail.next, Except.map]

/-- The blocks are enumerated one after another. -/
theorem foldr_transactionsOf (blocks : List Json) :
    (transactionsOf blocks).elements.foldr (fun item rest => (itemTrail api stold item).next rest)
        .none =
      blocks.foldr (fun block rest => (blockTrail api stold block).next rest) .none := by
  rw [transactionsOf, Json.elements]
  induction blocks with
  | nil => rfl
  | cons block blocks ih =>
      rw [List.filterMap_cons, List.foldr_cons, blockTrail]
      cases block.find? "transactions" with
      | none => exact ih.trans (Trail.none_next _).symm
      | some item => simp only [List.foldr_cons, ih]

/-- A row is made exactly of blocks that can be read. -/
theorem isOk_turnover24Of {blocks : List Json} :
    (turnover24Of api stold (transactionsOf blocks)).isOk = true ↔
      ∀ block ∈ blocks, BlockReads api stold block := by
  simp only [← isOk_blockTrail, ← Trail.isOk_foldr, turnover24Of, foldr_transactionsOf]
  generalize blocks.foldr _ _ = trail
  obtain ⟨calls, ended⟩ := trail
  cases ended <;> simp [Except.map, Except.isOk, Except.toBool]

def dayRowOf (api : NodeApi) (count : Nat) (xdr mile : Rat × Nat) : Json :=
  .ofMembers [("id", .str "turnovers-24"), ("count", .num count),
    ("assets", .arr [assetRow api.xdrCode xdr, assetRow api.mileCode mile])]

theorem find?_dayRowOf (api : NodeApi) (count : Nat) (xdr mile : Rat × Nat) :
    (dayRowOf api count xdr mile).find? "id" = some (.str "turnovers-24") ∧
      (dayRowOf api count xdr mile).find? "count" = some (.num count) ∧
      (dayRowOf api count xdr mile).find? "assets" =
        some (.arr [assetRow api.xdrCode xdr, assetRow api.mileCode mile]) := by
  simp [dayRowOf, Json.find?_ofMembers, Json.member?_setMember]

theorem turnover24Of_transactionsOf {blocks : List Json}
    (reads : ∀ block ∈ blocks, BlockReads api stold block) :
    ∃ trail, Counts api stold trail (blocks.flatMap blockAssets) ∧
      turnover24Of api stold (transactionsOf blocks) =
        .ok (dayRowOf api (blocks.flatMap blockAssets).length (total .xdr trail.1)
          (total .mile trail.1)) := by
  have counts := Counts.foldr fun block member => counts_blockTrail (reads block member)
  refine ⟨_, counts, ?_⟩
  simp only [turnover24Of, foldr_transactionsOf, counts.1, Except.map]
  rfl

theorem Counts.assetSums {trail : Trail} {entries : List Json}
    (counts : Counts api stold trail entries) (asset : Asset) :
    AssetSums api stold asset entries (assetRow (codeOf api asset) (total asset trail.1)) := by
  rw [counts.2 asset]
  constructor <;> simp [assetRow, Json.find?_ofMembers, Json.member?_setMember]

theorem Counts.sumsUp {trail : Trail} {entries : List Json} {row : Json}
    (counts : Counts api stold trail entries)
    (countEq : row.find? "count" = some (.num entries.length))
    (assetsEq : row.find? "assets" = some (.arr [assetRow api.xdrCode (total .xdr trail.1),
      assetRow api.mileCode (total .mile trail.1)])) : SumsUp api stold entries row :=
  ⟨countEq, _, _, assetsEq, counts.assetSums .xdr, counts.assetSums .mile⟩

/-- The order of the entries does not matter. -/
theorem SumsUp.of_perm {entries others : List Json} {row : Json}
    (sums : SumsUp api stold entries row) (same : entries.Perm others) :
    SumsUp api stold others row := by
  have own (asset : Asset) : (entriesFor api asset entries).Perm (entriesFor api asset others) :=
    same.filter _
  have assetSums {asset : Asset} {part : Json} (own' : AssetSums api stold asset entries part) :
      AssetSums api stold asset others part := by
    refine ⟨own'.code, ?_, ?_⟩
    · rw [own'.amount, ((own asset).map (amountIn stold)).sum_eq]
    · rw [own'.count, (own asset).length_eq]
  obtain ⟨countEq, xdr, mile, assetsEq, xdrSums, mileSums⟩ := sums
  exact ⟨by rw [countEq, same.length_eq], xdr, mile, assetsEq, assetSums xdrSums,
    assetSums mileSums⟩

end Enumeration

/-! ## The blocks of the day -/

def stamp (block : Json) : Option Rat := block.find? "timestamp" >>= Json.number?

def inDay (last : Int) (block : Json) : Bool :=
  match stamp block with
  | some time => ((last - 86400 : Int) : Rat) ≤ time && time < last
  | none => false

def atLast (last : Int) (block : Json) : Bool := stamp block = some (last : Rat)

def isRead (last : Int) (block : Json) : Bool :=
  Cursor.between.inRange (toUnsigned (last - 86400)) (toUnsigned last) "timestamp" block

def readBlocks (last : Int) (store : Store) : List Json :=
  (Cursor.ordered "timestamp" (store .blocks).rows).filter (isRead last)

def blockEntries (blocks : List Json) : List (Json × Json) :=
  blocks.flatMap fun block => (blockAssets block).map (Prod.mk block)

/-- The method stores a row, its members are the sums over the entries of the
blocks of the day and of some with the time `last`, and these are the entries
that it reads. -/
def CoversDay (api : NodeApi) (stold : String → Except Exn Rat) (last : Int)
    (process : Process) : Prop :=
  ∃ final row chosen,
    (turnover24 api stold last).run Process.exec process = (.ok (), final) ∧
    (final.store .turnovers).get? (.str "turnovers-24") = some row ∧
    chosen.Sublist ((process.store .blocks).rows.filter (atLast last)) ∧
    SumsUp api stold
      (((process.store .blocks).rows.filter (inDay last) ++ chosen).flatMap blockAssets) row ∧
    (blockEntries (readBlocks last process.store)).Perm
      (blockEntries ((process.store .blocks).rows.filter (inDay last) ++ chosen))

/-- The row is not hidden, the blocks that are read can be enumerated, those of
them that are neither of the day nor at its end have no entries, and neither
have those of the day that are not read. -/
structure Isolates (api : NodeApi) (stold : String → Except Exn Rat) (last : Int)
    (store : Store) : Prop where
  notHidden : NotHidden (store .turnovers) "turnovers-24"
  reads : ∀ block ∈ (store .blocks).rows, isRead last block = true → BlockReads api stold block
  noOthers : ∀ block ∈ (store .blocks).rows, isRead last block = true →
    inDay last block = false → atLast last block = false → blockAssets block = []
  noneMissing : ∀ block ∈ (store .blocks).rows, inDay last block = true →
    isRead last block = false → blockAssets block = []

theorem getDataOf_recentBlocks (last : Int) (store : Store) :
    getDataOf (recentBlocks last store) = transactionsOf (readBlocks last store) := rfl

section Day

variable {api : NodeApi} {stold : String → Except Exn Rat} {last : Int} {store : Store}
  {process : Process} {block : Json}

theorem stamp_eq_some {time : Rat} : stamp block = some time ↔
    ∃ value, block.find? "timestamp" = some value ∧ value.number? = some time :=
  Option.bind_eq_some_iff

theorem isRead_iff : isRead last block = true ↔
    ∃ time, stamp block = some time ∧ (Cursor.toDouble (toUnsigned (last - 86400)) : Rat) ≤ time ∧
      time < Cursor.toDouble ((toUnsigned (last - 86400) + toUnsigned last) % 2 ^ 64) := by
  rw [isRead, Cursor.inRange_iff_number]
  constructor
  · rintro ⟨value, number, found, isNumber, bounds⟩
    exact ⟨number, stamp_eq_some.mpr ⟨value, found, isNumber⟩, bounds⟩
  · rintro ⟨number, stamped, bounds⟩
    obtain ⟨value, found, isNumber⟩ := stamp_eq_some.mp stamped
    exact ⟨value, number, found, isNumber, bounds⟩

theorem inDay_iff : inDay last block = true ↔ ∃ time, stamp block = some time ∧
    ((last - 86400 : Int) : Rat) ≤ time ∧ time < last := by
  unfold inDay
  cases stamp block <;> simp

theorem isRead_indexed (read : isRead last block = true) :
    (block.find? "timestamp").isSome = true := by
  obtain ⟨time, stamped, -⟩ := isRead_iff.mp read
  obtain ⟨value, found, -⟩ := stamp_eq_some.mp stamped
  simp [found]

theorem readBlocks_perm (last : Int) (store : Store) :
    (readBlocks last store).Perm ((store .blocks).rows.filter (isRead last)) := by
  have sorted := (Cursor.ordered_perm "timestamp" (store .blocks).rows).filter (isRead last)
  rw [List.filter_filter] at sorted
  refine sorted.trans (List.Perm.of_eq ?_)
  apply List.filter_congr
  intro block _
  cases read : isRead last block with
  | false => rfl
  | true => simpa using isRead_indexed read

theorem mem_readBlocks : block ∈ readBlocks last store ↔
    block ∈ (store .blocks).rows ∧ isRead last block = true := by
  rw [(readBlocks_perm last store).mem_iff, List.mem_filter]

theorem mem_blockEntries {blocks : List Json} {entry : Json} :
    (block, entry) ∈ blockEntries blocks ↔ block ∈ blocks ∧ entry ∈ blockAssets block := by
  simp only [blockEntries, List.mem_flatMap, List.mem_map, Prod.mk.injEq]
  constructor
  · rintro ⟨_, member, _, isEntry, rfl, rfl⟩
    exact ⟨member, isEntry⟩
  · rintro ⟨member, isEntry⟩
    exact ⟨block, member, entry, isEntry, rfl, rfl⟩

theorem map_snd_blockEntries (blocks : List Json) :
    (blockEntries blocks).map Prod.snd = blocks.flatMap blockAssets := by
  simp [blockEntries, List.map_flatMap, Function.comp_def]

/-! ## When the day is covered -/

theorem run_turnover24_of_reads
    (reads : ∀ block ∈ (process.store .blocks).rows, isRead last block = true →
      BlockReads api stold block)
    (notHidden : NotHidden (process.store .turnovers) "turnovers-24") :
    ∃ final row, (turnover24 api stold last).run Process.exec process = (.ok (), final) ∧
      (final.store .turnovers).get? (.str "turnovers-24") = some row ∧
      SumsUp api stold ((readBlocks last process.store).flatMap blockAssets) row := by
  obtain ⟨trail, counts, made⟩ := turnover24Of_transactionsOf fun block member =>
    reads block (mem_readBlocks.mp member).1 (mem_readBlocks.mp member).2
  have ran := @run_turnover24 api stold last process
  rw [getDataOf_recentBlocks, made] at ran
  obtain ⟨idEq, countEq, assetsEq⟩ := find?_dayRowOf api
    ((readBlocks last process.store).flatMap blockAssets).length (total .xdr trail.1)
    (total .mile trail.1)
  obtain ⟨row, found, members⟩ := get?_upsert_ofMembers (by decide) idEq notHidden
  obtain ⟨oldCount, storedCount⟩ := members "count" _ (by decide) countEq
  obtain ⟨oldAssets, storedAssets⟩ := members "assets" _ (by decide) assetsEq
  refine ⟨_, row, ran, ?_, counts.sumsUp ?_ ?_⟩
  · rw [Process.store_withTable, Function.update_self]
    exact found
  · rw [storedCount, Json.merge_num]
  · rw [storedAssets]
    cases oldAssets <;> rfl

/-- A run that ends well has read nothing that cannot be enumerated. -/
theorem reads_of_run {final : Process}
    (ran : (turnover24 api stold last).run Process.exec process = (.ok (), final))
    (isRow : block ∈ (process.store .blocks).rows) (read : isRead last block = true) :
    BlockReads api stold block := by
  rw [run_turnover24, getDataOf_recentBlocks] at ran
  have made : (turnover24Of api stold
      (transactionsOf (readBlocks last process.store))).isOk = true := by
    cases made : turnover24Of api stold (transactionsOf (readBlocks last process.store)) with
    | error exception => simp [made] at ran
    | ok row => rfl
  exact isOk_turnover24Of.mp made block (mem_readBlocks.mpr ⟨isRow, read⟩)

theorem notHidden_of_run {final : Process} {row : Json}
    (ran : (turnover24 api stold last).run Process.exec process = (.ok (), final))
    (found : (final.store .turnovers).get? (.str "turnovers-24") = some row) :
    NotHidden (process.store .turnovers) "turnovers-24" := by
  intro hidden
  by_contra absent
  have present : Db.absentIn process .turnovers "turnovers-24" = false := by
    simp [Db.absentIn, hidden]
  have has := KeyedTable.has_iff_get?.mpr ⟨row, found⟩
  rw [run_turnover24] at ran
  split at ran
  · cases ran
  · obtain rfl := (Prod.mk.inj ran).2
    rw [Process.store_withTable, Function.update_self, present, Db.upsert, if_neg (by decide),
      KeyedTable.has_modify] at has
    exact absent has

theorem blockEntries_filter (choice : Json → Bool) (rows : List Json) :
    blockEntries (rows.filter choice) =
      rows.flatMap fun block =>
        if choice block then (blockAssets block).map (Prod.mk block) else [] := by
  induction rows with
  | nil => rfl
  | cons row rows ih =>
      cases chosen : choice row with
      | false => simpa [blockEntries, chosen] using ih
      | true => simpa [blockEntries, chosen] using ih

/-- The entries that are read are those of the day and of the blocks read at
its end. -/
theorem Isolates.perm (isolates : Isolates api stold last store) :
    (blockEntries (readBlocks last store)).Perm
      (blockEntries ((store .blocks).rows.filter (inDay last) ++
        (store .blocks).rows.filter fun block => isRead last block && atLast last block)) := by
  have append (first second : List Json) :
      blockEntries (first ++ second) = blockEntries first ++ blockEntries second :=
    List.flatMap_append
  have sorted : (blockEntries (readBlocks last store)).Perm
      (blockEntries ((store .blocks).rows.filter (isRead last))) :=
    (readBlocks_perm last store).flatMap_right _
  refine sorted.trans ?_
  rw [append, blockEntries_filter, blockEntries_filter, blockEntries_filter]
  refine .trans (.of_eq ?_) (List.flatMap_append_perm _ _ _).symm
  apply List.flatMap_congr
  intro block isRow
  cases isIn : inDay last block with
  | true =>
      have notLast : atLast last block = false := by
        obtain ⟨time, stamped, -, below⟩ := inDay_iff.mp isIn
        rw [atLast, stamped]
        simp [ne_of_lt below]
      cases read : isRead last block with
      | true => simp [notLast]
      | false => simp [isolates.noneMissing block isRow isIn read]
  | false =>
      cases read : isRead last block with
      | false => simp
      | true =>
          cases isLast : atLast last block with
          | true => simp
          | false => simp [isolates.noOthers block isRow read isIn isLast]

/-- The day is covered exactly if the row is not hidden, what is read can be
enumerated, and the blocks that are read and those of the day differ in blocks
without entries and blocks at the end of the day only. -/
theorem coversDay_iff :
    CoversDay api stold last process ↔ Isolates api stold last process.store := by
  constructor
  · rintro ⟨final, row, chosen, ran, found, fromLast, -, same⟩
    refine ⟨notHidden_of_run ran found, fun block isRow read => reads_of_run ran isRow read,
      ?_, ?_⟩
    · intro block isRow read notIn notLast
      refine List.eq_nil_iff_forall_not_mem.mpr fun entry isEntry => ?_
      have listed := same.mem_iff.mp
        (mem_blockEntries.mpr ⟨mem_readBlocks.mpr ⟨isRow, read⟩, isEntry⟩)
      rcases List.mem_append.mp (mem_blockEntries.mp listed).1 with isIn | isChosen
      · simp [notIn] at isIn
      · have isLast := (List.mem_filter.mp (fromLast.subset isChosen)).2
        simp [notLast] at isLast
    · intro block isRow isIn notRead
      refine List.eq_nil_iff_forall_not_mem.mpr fun entry isEntry => ?_
      have listed := same.mem_iff.mpr (mem_blockEntries.mpr
        ⟨List.mem_append_left chosen (List.mem_filter.mpr ⟨isRow, isIn⟩), isEntry⟩)
      have read := (mem_readBlocks.mp (mem_blockEntries.mp listed).1).2
      simp [notRead] at read
  · intro isolates
    obtain ⟨final, row, ran, found, sums⟩ :=
      run_turnover24_of_reads isolates.reads isolates.notHidden
    refine ⟨final, row, _, ran, found, ?_, sums.of_perm ?_, isolates.perm⟩
    · rw [← List.filter_filter]
      exact List.filter_sublist
    · rw [← map_snd_blockEntries, ← map_snd_blockEntries]
      exact isolates.perm.map Prod.snd

/-! ## The range that is read -/

/-- With a full day behind, as long as doubles are exact, the blocks read are
those from the start of the day to far beyond its end. -/
theorem isRead_of_le (full : 86400 ≤ last) (upper : last ≤ 2 ^ 52) :
    isRead last block = true ↔ ∃ time, stamp block = some time ∧
      ((last - 86400 : Int) : Rat) ≤ time ∧ time < ((2 * last - 86400 : Int) : Rat) := by
  have start : Cursor.toDouble (toUnsigned (last - 86400)) = (last - 86400).toNat := by
    rw [Cursor.toDouble_of_le] <;> unfold toUnsigned <;> omega
  have ending : Cursor.toDouble ((toUnsigned (last - 86400) + toUnsigned last) % 2 ^ 64) =
      (2 * last - 86400).toNat := by
    rw [Cursor.toDouble_of_le] <;> unfold toUnsigned <;> omega
  have cast {number : Int} (nonneg : 0 ≤ number) : ((number.toNat : Nat) : Rat) = number := by
    exact_mod_cast Int.toNat_of_nonneg nonneg
  rw [isRead_iff, start, ending, cast (by omega), cast (by omega)]

/-- Then the day is covered exactly if no block of the time after it that is
read has an entry. -/
theorem isolates_iff_of_le (full : 86400 ≤ last) (upper : last ≤ 2 ^ 52) :
    Isolates api stold last store ↔ NotHidden (store .turnovers) "turnovers-24" ∧
      (∀ block ∈ (store .blocks).rows, isRead last block = true → BlockReads api stold block) ∧
      ∀ block ∈ (store .blocks).rows, ∀ time, stamp block = some time → (last : Rat) < time →
        time < ((2 * last - 86400 : Int) : Rat) → blockAssets block = [] := by
  have within : ((last - 86400 : Int) : Rat) ≤ last := by
    exact_mod_cast (by omega : last - 86400 ≤ last)
  constructor
  · intro isolates
    refine ⟨isolates.notHidden, isolates.reads, fun block isRow time stamped late below => ?_⟩
    apply isolates.noOthers block isRow
    · exact (isRead_of_le full upper).mpr ⟨time, stamped, within.trans late.le, below⟩
    · simp [inDay, stamped, late.le]
    · simp [atLast, stamped, late.ne']
  · rintro ⟨notHidden, reads, none⟩
    refine ⟨notHidden, reads, ?_, ?_⟩
    · intro block isRow read notIn notLast
      obtain ⟨time, stamped, above, below⟩ := (isRead_of_le full upper).mp read
      refine none block isRow time stamped ?_ below
      simp only [inDay, atLast, stamped, Bool.and_eq_false_iff, decide_eq_false_iff_not, not_le,
        not_lt, Option.some.injEq] at notIn notLast
      rcases notIn with early | late
      · exact absurd above (not_le.mpr early)
      · exact lt_of_le_of_ne late (Ne.symm notLast)
    · intro block isRow isIn notRead
      obtain ⟨time, stamped, above, below⟩ := inDay_iff.mp isIn
      have read := (isRead_of_le full upper).mpr ⟨time, stamped, above, below.trans_le (by
        exact_mod_cast (by omega : last ≤ 2 * last - 86400))⟩
      simp [notRead] at read

/-- Within the first day, only blocks of a far future are read. -/
theorem later_of_isRead (early : last < 86400) (lower : -2 ^ 63 ≤ last)
    (read : isRead last block = true) : ∃ time, stamp block = some time ∧ (last : Rat) < time := by
  obtain ⟨time, stamped, above, -⟩ := isRead_iff.mp read
  have large : 2 ^ 53 ≤ toUnsigned (last - 86400) := by
    unfold toUnsigned
    omega
  have beyond : last < (Cursor.toDouble (toUnsigned (last - 86400)) : Int) := by
    have := Cursor.le_toDouble large
    omega
  refine ⟨time, stamped, lt_of_lt_of_le ?_ above⟩
  exact_mod_cast beyond

/-- Then neither the blocks of the day nor those that are read may have an
entry. -/
theorem isolates_iff_of_early (early : last < 86400) (lower : -2 ^ 63 ≤ last) :
    Isolates api stold last store ↔ NotHidden (store .turnovers) "turnovers-24" ∧
      (∀ block ∈ (store .blocks).rows, isRead last block = true → BlockReads api stold block) ∧
      ∀ block ∈ (store .blocks).rows, inDay last block = true ∨ isRead last block = true →
        blockAssets block = [] := by
  have outside {block : Json} (read : isRead last block = true) :
      inDay last block = false ∧ atLast last block = false := by
    obtain ⟨time, stamped, late⟩ := later_of_isRead early lower read
    simp [inDay, atLast, stamped, late.le, late.ne']
  constructor
  · intro isolates
    refine ⟨isolates.notHidden, isolates.reads, ?_⟩
    intro block isRow either
    cases read : isRead last block with
    | true =>
        obtain ⟨notIn, notLast⟩ := outside read
        exact isolates.noOthers block isRow read notIn notLast
    | false => exact isolates.noneMissing block isRow (by simpa [read] using either) read
  · rintro ⟨notHidden, reads, none⟩
    exact ⟨notHidden, reads, fun block isRow read _ _ => none block isRow (.inr read),
      fun block isRow isIn _ => none block isRow (.inl isIn)⟩

end Day

def fiveBlock (time : Int) : Json :=
  .ofMembers [("id", .str "7"), ("block-id", .num 7), ("timestamp", .num time),
    ("transactions", .arr [.ofMembers [("timestamp", .num time),
      ("asset", .arr [fiveUnits "0"])]])]

def blocksWith (block : Json) : Process :=
  Process.idle (Function.update Store.empty .blocks (KeyedTable.empty.insert block))

theorem coversDay_iff_day :
    CoversDay sampleApi sampleStold 200000 (blocksWith (fiveBlock 150000)) := by
  have rows : ((blocksWith (fiveBlock 150000)).store .blocks).rows = [fiveBlock 150000] := by
    decide +kernel
  have isIn : inDay 200000 (fiveBlock 150000) = true := by decide +kernel
  have read : isRead 200000 (fiveBlock 150000) = true := by decide +kernel
  have reads : BlockReads sampleApi sampleStold (fiveBlock 150000) :=
    isOk_blockTrail.mp (by decide +kernel)
  refine coversDay_iff.mpr ⟨by decide, ?_, ?_, ?_⟩
  · simpa [rows] using fun _ => reads
  · simp [rows, isIn]
  · simp [rows, read]

/-- A block one second later than `last` is counted. -/
theorem late_block_counted :
    ¬ CoversDay sampleApi sampleStold 200000 (blocksWith (fiveBlock 200001)) := by
  rintro ⟨final, row, chosen, ran, found, fromLast, sums, -⟩
  have noneLast : (((blocksWith (fiveBlock 200001)).store .blocks).rows.filter
      (atLast 200000)) = [] := by
    decide +kernel
  have noneIn : (((blocksWith (fiveBlock 200001)).store .blocks).rows.filter
      (inDay 200000)) = [] := by
    decide +kernel
  rw [noneLast, List.sublist_nil] at fromLast
  have zero := sums.count
  rw [noneIn, fromLast] at zero
  have one : ((((turnover24 sampleApi sampleStold 200000).run Process.exec
      (blocksWith (fiveBlock 200001))).2.store .turnovers).get? (.str "turnovers-24") >>=
        fun row => row.find? "count") = some (.num 1) := by
    decide +kernel
  rw [ran, found] at one
  exact absurd (zero.symm.trans one) (by decide)

end Statistics

end MileExplorer
