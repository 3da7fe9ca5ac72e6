import MileExplorer.Statistics
import Mathlib.Algebra.Group.Prod

/-!
# The turnover of two weeks

`transaction_turnover` counts the entries of assets by days.  For transactions
of the two weeks the days lose no entry and count none twice.  But it asks the
database for the transactions of a longer time than it has days for, since
`between` takes a length where it is given an end, and an entry that is later
than the last day has no place in the map.
-/

namespace MileExplorer

namespace Statistics

/-! ## The entries of a transaction -/

structure Entry where
  code : String
  amount : Rat
  time : Int

def textAt (value : Json) (key : String) : String :=
  match value.find? key with
  | some (.str text) => text
  | _ => ""

section Formed

variable (api : NodeApi) (stold : String → Except Exn Rat)

def entryOf (time : Int) (asset : Json) : Entry where
  code := textAt asset "code"
  amount := ((stold (textAt asset "amount")).toOption).getD 0
  time := time

def timeOf (trx : Json) : Int :=
  match trx.find? "timestamp" with
  | some (.num time) => time
  | _ => -1

def entriesOf (trx : Json) : List Entry :=
  match trx.find? "asset" with
  | some (.arr assets) => assets.map (entryOf stold (timeOf trx))
  | _ => []

/-- The code of an asset is the decimal form of a 16-bit number, and the
amount is a numeric text. -/
structure AssetFormed (asset : Json) : Prop where
  code : ∃ number < 2 ^ 16, asset.find? "code" = some (.str (toString number))
  amount : ∃ text value, asset.find? "amount" = some (.str text) ∧ stold text = .ok value

/-- A transaction of the two weeks before `last`. -/
structure Recent (last : Int) (trx : Json) : Prop where
  time : ∃ time, trx.find? "timestamp" = some (.num time) ∧ last - twoWeeks ≤ time ∧ time ≤ last
  assets : ∃ assets, trx.find? "asset" = some (.arr assets) ∧
    ∀ asset ∈ assets, AssetFormed stold asset

def kindOf (code : String) : Option Asset :=
  if code = toString api.xdrCode then some .xdr
  else if code = toString api.mileCode then some .mile
  else none

def callOf (entry : Entry) : Option AssetCall :=
  (kindOf api entry.code).map fun kind => ⟨kind, entry.amount, entry.time⟩

end Formed

section Enumerated

variable {api : NodeApi} {stold : String → Except Exn Rat} {last time : Int}

theorem textAt_eq {value : Json} {key text : String} (found : value.find? key = some (.str text)) :
    textAt value key = text := by
  simp [textAt, found]

theorem entryCall_eq {asset : Json} (formed : AssetFormed stold asset) :
    entryCall api stold time asset = .ok (callOf api (entryOf stold time asset)) := by
  obtain ⟨number, small, codeEq⟩ := formed.code
  obtain ⟨text, value, amountEq, valueEq⟩ := formed.amount
  have kind : kindOf api (toString number) = if number = api.xdrCode then some .xdr
      else if number = api.mileCode then some .mile else none := by
    have same (code : Nat) : toString number = toString code ↔ number = code :=
      ⟨toString_injective, congrArg toString⟩
    simp only [kindOf, same]
  have entry : entryOf stold time asset = ⟨toString number, value, time⟩ := by
    simp [entryOf, textAt_eq codeEq, textAt_eq amountEq, valueEq, Except.toOption]
  rw [entry, callOf]
  dsimp only
  rw [kind, entryCall, Json.constText_eq_ok.mpr codeEq, Json.constText_eq_ok.mpr amountEq]
  simp only [bind, Except.bind, assetOf_toString small]
  split_ifs
  · simp [valueEq, pure, Except.pure]
  · simp [valueEq, pure, Except.pure]
  · rfl

theorem assetsTrail_eq {assets : List Json} (formed : ∀ asset ∈ assets, AssetFormed stold asset) :
    assetsTrail api stold time assets =
      ((assets.map (entryOf stold time)).filterMap (callOf api), .ok assets.length) := by
  induction assets with
  | nil => rfl
  | cons asset rest ih =>
      have later := ih fun other member => formed other (by simp [member])
      have unfolded : assetsTrail api stold time (asset :: rest) =
          (entryTrail api stold time asset).next (assetsTrail api stold time rest) := rfl
      rw [unfolded, later, entryTrail, entryCall_eq (formed asset (by simp)), Trail.next,
        List.map_cons]
      cases called : callOf api (entryOf stold time asset) with
      | none => simp [called, Except.map, Nat.add_comm]
      | some call => simp [called, Except.map, Nat.add_comm]

theorem trxTrail_eq {trx : Json} (recent : Recent stold last trx) :
    trxTrail api stold trx =
      ((entriesOf stold trx).filterMap (callOf api), .ok (entriesOf stold trx).length) := by
  obtain ⟨time, timeEq, -⟩ := recent.time
  obtain ⟨assets, assetsEq, formed⟩ := recent.assets
  simp only [trxTrail, trxTime, entriesOf, timeOf, timeEq, assetsEq, Json.getTime, Json.elements,
    assetsTrail_eq formed, List.length_map]

theorem enumerateAssets_eq {trxs : List Json} (recent : ∀ trx ∈ trxs, Recent stold last trx) :
    enumerateAssets api stold (.arr trxs) =
      ((trxs.flatMap (entriesOf stold)).filterMap (callOf api),
        .ok (trxs.flatMap (entriesOf stold)).length) := by
  unfold enumerateAssets
  induction trxs with
  | nil => rfl
  | cons trx rest ih =>
      have later := ih fun other member => recent other (by simp [member])
      have unfolded : trxsTrail api stold (trx :: rest) =
          (trxTrail api stold trx).next (trxsTrail api stold rest) := rfl
      dsimp only at later ⊢
      rw [unfolded, later, trxTrail_eq (recent trx (by simp)), Trail.next]
      simp [Except.map]

theorem time_of_mem_entriesOf {trx : Json} (recent : Recent stold last trx) {entry : Entry}
    (member : entry ∈ entriesOf stold trx) :
    last - twoWeeks ≤ entry.time ∧ entry.time ≤ last := by
  obtain ⟨time, timeEq, bounds⟩ := recent.time
  obtain ⟨assets, assetsEq, -⟩ := recent.assets
  simp only [entriesOf, timeOf, timeEq, assetsEq] at member
  obtain ⟨asset, -, rfl⟩ := List.mem_map.mp member
  exact bounds

end Enumerated

/-! ## Counting by days -/

section Days

variable {api : NodeApi} {last : Int}

theorem day_pos : 0 < day := by decide

/-- An entry within a row of days is counted in its day. -/
theorem addAmount_tiles {start : Int} {number : Nat} {values : Nat → Rat × Nat} {call : AssetCall}
    (lower : start ≤ call.time) (upper : call.time ≤ start + number * day)
    (nonempty : 0 < number) :
    addAmount (IntervalMap.tiles start day number values) call =
      some (IntervalMap.tiles start day number
        (Function.update values (IntervalMap.slot start day call.time)
          ((values (IntervalMap.slot start day call.time)).1 + call.amount,
            (values (IntervalMap.slot start day call.time)).2 + 1))) := by
  unfold addAmount
  rw [IntervalMap.modifyAt_tiles day_pos values _ _ lower upper nonempty]
  dsimp only [bind, Option.bind]
  rw [IntervalMap.modifyAt_tiles day_pos _ _ _ lower upper nonempty]
  simp

/-- The values of the days after a number of calls. -/
def counted (start : Int) (calls : List AssetCall) (index : Nat) : Rat × Nat :=
  (IntervalMap.sumAt (fun call => IntervalMap.slot start day call.time) AssetCall.amount calls
      index,
    IntervalMap.sumAt (fun call => IntervalMap.slot start day call.time) (fun _ => 1) calls index)

theorem counted_cons (start : Int) (call : AssetCall) (calls : List AssetCall) (index : Nat) :
    counted start (call :: calls) index =
      (if index = IntervalMap.slot start day call.time then (call.amount, 1) else 0) +
        counted start calls index := by
  simp only [counted, IntervalMap.sumAt_cons]
  split_ifs <;> rfl

theorem foldlM_addAmount_tiles {start : Int} {number : Nat} (nonempty : 0 < number)
    (calls : List AssetCall)
    (inside : ∀ call ∈ calls, start ≤ call.time ∧ call.time ≤ start + number * day)
    (values : Nat → Rat × Nat) :
    calls.foldlM addAmount (IntervalMap.tiles start day number values) =
      some (IntervalMap.tiles start day number fun index => values index + counted start calls
        index) := by
  induction calls generalizing values with
  | nil =>
      have none : counted start [] = fun _ => 0 := rfl
      simp [none]
  | cons call calls ih =>
      obtain ⟨lower, upper⟩ := inside call (by simp)
      have later := ih fun other member => inside other (by simp [member])
      rw [List.foldlM_cons, addAmount_tiles lower upper nonempty]
      dsimp only [bind, Option.bind]
      rw [later]
      congr 2
      funext index
      rw [counted_cons]
      by_cases here : index = IntervalMap.slot start day call.time
      · rw [← here, Function.update_self, if_pos rfl, ← add_assoc]
        rfl
      · rw [Function.update_of_ne here, if_neg here, zero_add]

theorem last_eq (last : Int) : last - twoWeeks + (14 : Nat) * day = last := by
  simp only [twoWeeks, day]
  omega

theorem build_days (last : Int) :
    IntervalMap.build ((0 : Rat), 0) (last - twoWeeks) last day =
      IntervalMap.tiles (last - twoWeeks) day 14 fun _ => (0, 0) := by
  have weeks : twoWeeks = (14 : Nat) * day := by decide
  rw [weeks]
  exact IntervalMap.build_tiles day_pos (0, 0) last 14

theorem weeksOf_eq (asset : Asset) {calls : List AssetCall}
    (inside : ∀ call ∈ calls, last - twoWeeks ≤ call.time ∧ call.time ≤ last) :
    weeksOf last asset calls = some (IntervalMap.tiles (last - twoWeeks) day 14
      (counted (last - twoWeeks) (calls.filter fun call => call.asset = asset))) := by
  have bounded : ∀ call ∈ calls.filter (fun call => call.asset = asset),
      last - twoWeeks ≤ call.time ∧ call.time ≤ last - twoWeeks + (14 : Nat) * day := by
    intro call member
    rw [last_eq]
    exact inside call (List.mem_of_mem_filter member)
  rw [weeksOf, build_days, foldlM_addAmount_tiles (by decide) _ bounded]
  congr 2
  funext index
  exact zero_add _

end Days

/-! ## The result -/

def callFor (asset : Asset) (entry : Entry) : AssetCall := ⟨asset, entry.amount, entry.time⟩

def ofAsset (api : NodeApi) (asset : Asset) (entries : List Entry) : List Entry :=
  entries.filter fun entry => entry.code = toString (codeOf api asset)

/-- The days of an asset as the entries make them. -/
def daysOf (api : NodeApi) (last : Int) (asset : Asset) (entries : List Entry) : Weeks :=
  IntervalMap.tiles (last - twoWeeks) day 14
    (counted (last - twoWeeks) ((ofAsset api asset entries).map (callFor asset)))

def turnoverRow (api : NodeApi) (xdr mile : Weeks) : Json :=
  .ofMembers [("id", .str "transaction-turnover"),
    ("assets", .ofMembers [(toString api.xdrCode, .arr (xdr.map dayRow)),
      (toString api.mileCode, .arr (mile.map dayRow))])]

/-- The fourteen days tile the two weeks, and each entry is counted in one of
them that has its time between its bounds. -/
structure CountedByDay (last : Int) (entries : List Entry) (days : Weeks) : Prop where
  tiled : days.map Prod.fst = (List.range 14).map fun index =>
    ⟨last - twoWeeks + index * day, last - twoWeeks + (index + 1) * day⟩
  counts : (days.map fun bucket => bucket.2.2).sum = entries.length
  amounts : (days.map fun bucket => bucket.2.1).sum = (entries.map Entry.amount).sum
  placed : ∃ place : Entry → Nat,
    (∀ entry ∈ entries, ∃ bucket, days[place entry]? = some bucket ∧
      bucket.1.lower ≤ entry.time ∧ entry.time ≤ bucket.1.upper) ∧
    ∀ index bucket, days[index]? = some bucket →
      bucket.2.1 = ((entries.filter fun entry => place entry = index).map Entry.amount).sum ∧
      bucket.2.2 = (entries.filter fun entry => place entry = index).length

/-- The rows are fourteen and tile the two weeks.  Each entry is counted in one
of them, which has its time between its bounds. -/
structure CountsEntries (last : Int) (entries : List Entry) (rows : List Json) : Prop where
  length : rows.length = 14
  tiled : ∀ (index : Nat) row, rows[index]? = some row →
    row.find? "begin" = some (.num (last - twoWeeks + index * day)) ∧
      row.find? "end" = some (.num (last - twoWeeks + (index + 1) * day))
  counts : ∃ counts : List Nat,
    (rows.map fun row => row.find? "count") = counts.map (fun count => some (.num count)) ∧
      counts.sum = entries.length
  amounts : ∃ amounts : List Rat,
    (rows.map fun row => row.find? "amount") = amounts.map (fun amount => some (.real amount)) ∧
      amounts.sum = (entries.map Entry.amount).sum
  placed : ∃ place : Entry → Nat,
    (∀ entry ∈ entries, ∃ row lower upper, rows[place entry]? = some row ∧
      row.find? "begin" = some (.num lower) ∧ row.find? "end" = some (.num upper) ∧
        lower ≤ entry.time ∧ entry.time ≤ upper) ∧
    ∀ (index : Nat) row, rows[index]? = some row →
      row.find? "amount" =
          some (.real ((entries.filter fun entry => place entry = index).map Entry.amount).sum) ∧
        row.find? "count" = some (.num (entries.filter fun entry => place entry = index).length)

/-- What a result has under the code of an asset. -/
def bucketsOf (api : NodeApi) (asset : Asset) (result : Json) : Option Json :=
  result.find? "assets" >>= fun assets => assets.find? (toString (codeOf api asset))

/-- For both assets the rows of a result count the entries of transactions. -/
def CountsTransactions (api : NodeApi) (stold : String → Except Exn Rat) (last : Int)
    (trxs : List Json) (result : Json) : Prop :=
  ∀ asset, ∃ rows, bucketsOf api asset result = some (.arr rows) ∧
    CountsEntries last (ofAsset api asset (trxs.flatMap (entriesOf stold))) rows

def readTransactions (last : Int) (store : Store) : List Json :=
  (Cursor.ordered "timestamp" (store .transactions).rows).filter fun row =>
    Cursor.between.inRange (toUnsigned (last - twoWeeks)) (toUnsigned last) "timestamp" row

theorem getDataOf_recentTransactions (last : Int) (store : Store) :
    getDataOf (recentTransactions last store) = .arr (readTransactions last store) := rfl

section Result

variable {api : NodeApi} {stold : String → Except Exn Rat} {last : Int}

theorem weekRows_eq {days : Weeks} (nonempty : days ≠ []) :
    weekRows days = .arr (days.map dayRow) := by
  have pushed (rest : Weeks) (rows : List Json) :
      rest.foldl (fun (trx : Json) bucket => trx.pushBack (dayRow bucket)) (.arr rows) =
        .arr (rows ++ rest.map dayRow) := by
    induction rest generalizing rows with
    | nil => simp
    | cons bucket rest ih =>
        rw [List.foldl_cons, Json.pushBack, ih, List.map_cons, List.append_assoc,
          List.singleton_append]
  cases days with
  | nil => exact absurd rfl nonempty
  | cons bucket rest => exact pushed rest [dayRow bucket]

theorem kindOf_eq_some (distinct : api.xdrCode ≠ api.mileCode) {code : String} {asset : Asset} :
    kindOf api code = some asset ↔ code = toString (codeOf api asset) := by
  have texts : toString api.xdrCode ≠ toString api.mileCode :=
    fun same => distinct (toString_injective same)
  unfold kindOf
  cases asset with
  | xdr =>
      change _ ↔ code = toString api.xdrCode
      split_ifs with isXdr isMile
      · exact iff_of_true rfl isXdr
      · exact iff_of_false (by decide) isXdr
      · exact iff_of_false (by decide) isXdr
  | mile =>
      change _ ↔ code = toString api.mileCode
      split_ifs with isXdr isMile
      · exact iff_of_false (by decide) fun isMile => texts (isXdr.symm.trans isMile)
      · exact iff_of_true rfl isMile
      · exact iff_of_false (by decide) isMile

theorem filter_calls (distinct : api.xdrCode ≠ api.mileCode) (asset : Asset)
    (entries : List Entry) :
    (entries.filterMap (callOf api)).filter (fun call => call.asset = asset) =
      (ofAsset api asset entries).map (callFor asset) := by
  induction entries with
  | nil => rfl
  | cons entry entries ih =>
      have isOf : kindOf api entry.code = some asset ↔
          entry.code = toString (codeOf api asset) := kindOf_eq_some distinct
      unfold ofAsset at ih ⊢
      rw [List.filter_cons, List.filterMap_cons]
      unfold callOf at ih ⊢
      cases kind : kindOf api entry.code with
      | none =>
          rw [kind] at isOf
          rw [if_neg (by simpa using fun same => by cases isOf.mpr same)]
          exact ih
      | some other =>
          rw [kind, Option.some.injEq] at isOf
          by_cases same : other = asset
          · subst same
            rw [if_pos (by simpa using isOf.mp rfl)]
            simpa [callFor] using ih
          · rw [if_neg (by simpa using fun isCode => same (isOf.mpr isCode))]
            simpa [same] using ih

theorem sumAt_map_callFor {Sum : Type} [AddMonoid Sum] (start : Int) (asset : Asset)
    (worth : AssetCall → Sum) (entries : List Entry) (index : Nat) :
    IntervalMap.sumAt (fun call => IntervalMap.slot start day call.time) worth
        (entries.map (callFor asset)) index =
      IntervalMap.sumAt (fun entry : Entry => IntervalMap.slot start day entry.time)
        (fun entry => worth (callFor asset entry)) entries index := by
  simp only [IntervalMap.sumAt, List.filter_map, List.map_map]
  rfl

def dayOf (last : Int) (entry : Entry) : Nat :=
  IntervalMap.slot (last - twoWeeks) day entry.time

theorem dayOf_covers {entry : Entry} (lower : last - twoWeeks ≤ entry.time)
    (upper : entry.time ≤ last) :
    dayOf last entry < 14 ∧
      (IntervalMap.tile (last - twoWeeks) day (dayOf last entry)).covers entry.time = true := by
  obtain ⟨listed, first⟩ := IntervalMap.find?_tiles day_pos (fun index => index) lower
    (upper.trans_eq (last_eq last).symm) (by decide)
  have covers := List.find?_some first
  exact ⟨listed, covers⟩

theorem daysOf_eq_map (asset : Asset) (entries : List Entry) :
    daysOf api last asset entries = (List.range 14).map fun index =>
      (IntervalMap.tile (last - twoWeeks) day index,
        IntervalMap.sumAt (dayOf last) Entry.amount (ofAsset api asset entries) index,
        IntervalMap.sumAt (dayOf last) (fun _ => 1) (ofAsset api asset entries) index) := by
  rw [daysOf, IntervalMap.tiles_eq_map]
  apply List.map_congr_left
  intro index _
  rw [counted, sumAt_map_callFor, sumAt_map_callFor]
  rfl

theorem daysOf_counted (asset : Asset) {entries : List Entry}
    (inside : ∀ entry ∈ entries, last - twoWeeks ≤ entry.time ∧ entry.time ≤ last) :
    CountedByDay last (ofAsset api asset entries) (daysOf api last asset entries) := by
  have placed : ∀ entry ∈ ofAsset api asset entries, dayOf last entry < 14 ∧
      (IntervalMap.tile (last - twoWeeks) day (dayOf last entry)).covers entry.time = true := by
    intro entry member
    obtain ⟨lower, upper⟩ := inside entry (List.mem_of_mem_filter member)
    exact dayOf_covers lower upper
  have listed : ∀ entry ∈ ofAsset api asset entries, dayOf last entry < 14 :=
    fun entry member => (placed entry member).1
  constructor
  · rw [daysOf_eq_map, List.map_map]
    apply List.map_congr_left
    intro index member
    simp only [Function.comp, IntervalMap.tile, Interval.mk.injEq, true_and]
    ring
  · rw [daysOf_eq_map, List.map_map]
    have sum := IntervalMap.sum_sumAt (fun _ => 1) listed
    simpa [Function.comp_def] using sum
  · rw [daysOf_eq_map, List.map_map]
    exact IntervalMap.sum_sumAt Entry.amount listed
  · refine ⟨dayOf last, ?_, ?_⟩
    · intro entry member
      obtain ⟨inRange, covers⟩ := placed entry member
      simp only [Interval.covers, Bool.and_eq_true, decide_eq_true_eq] at covers
      rw [daysOf_eq_map, List.getElem?_map, List.getElem?_range inRange]
      exact ⟨_, rfl, covers.1, covers.2⟩
    · intro index bucket found
      rw [daysOf_eq_map, List.getElem?_map] at found
      obtain ⟨same, inRange, rfl⟩ := Option.map_eq_some_iff.mp found
      obtain ⟨-, rfl⟩ := List.getElem?_eq_some_iff.mp inRange
      simp [IntervalMap.sumAt]

/-- The row for transactions of the two weeks. -/
theorem turnoverOf_eq (distinct : api.xdrCode ≠ api.mileCode) {trxs : List Json}
    (recent : ∀ trx ∈ trxs, Recent stold last trx) :
    turnoverOf api stold last (.arr trxs) =
      .ok (turnoverRow api (daysOf api last .xdr (trxs.flatMap (entriesOf stold)))
        (daysOf api last .mile (trxs.flatMap (entriesOf stold)))) := by
  have inside : ∀ call ∈ (trxs.flatMap (entriesOf stold)).filterMap (callOf api),
      last - twoWeeks ≤ call.time ∧ call.time ≤ last := by
    intro call member
    obtain ⟨entry, entryMem, called⟩ := List.mem_filterMap.mp member
    obtain ⟨trx, trxMem, own⟩ := List.mem_flatMap.mp entryMem
    obtain ⟨kind, -, rfl⟩ := Option.map_eq_some_iff.mp called
    exact time_of_mem_entriesOf (recent trx trxMem) own
  have nonempty (asset : Asset) :
      daysOf api last asset (trxs.flatMap (entriesOf stold)) ≠ [] := by
    simp [daysOf, IntervalMap.tiles]
  unfold turnoverOf
  rw [enumerateAssets_eq recent]
  simp only [weeksOf_eq _ inside, filter_calls distinct]
  rw [turnoverRow, ← weekRows_eq (nonempty .xdr), ← weekRows_eq (nonempty .mile)]
  rfl

theorem daysOf_perm {first second : List Entry} (same : first.Perm second) (asset : Asset) :
    daysOf api last asset first = daysOf api last asset second := by
  have calls : ((ofAsset api asset first).map (callFor asset)).Perm
      ((ofAsset api asset second).map (callFor asset)) :=
    (same.filter _).map _
  unfold daysOf
  congr 1
  funext index
  exact Prod.ext (IntervalMap.sumAt_perm calls index) (IntervalMap.sumAt_perm calls index)

theorem find?_dayRow (bucket : Interval × Rat × Nat) :
    (dayRow bucket).find? "begin" = some (.num bucket.1.lower) ∧
      (dayRow bucket).find? "end" = some (.num bucket.1.upper) ∧
      (dayRow bucket).find? "amount" = some (.real bucket.2.1) ∧
      (dayRow bucket).find? "count" = some (.num bucket.2.2) := by
  simp [dayRow, Json.find?_ofMembers, Json.member?_setMember]

theorem CountedByDay.rows {entries : List Entry} {days : Weeks}
    (counted : CountedByDay last entries days) :
    CountsEntries last entries (days.map dayRow) := by
  have listed {index : Nat} {row : Json} (found : (days.map dayRow)[index]? = some row) :
      ∃ bucket, days[index]? = some bucket ∧ dayRow bucket = row := by
    rw [List.getElem?_map] at found
    exact Option.map_eq_some_iff.mp found
  obtain ⟨place, inside, values⟩ := counted.placed
  constructor
  · simpa using congrArg List.length counted.tiled
  · intro index row found
    obtain ⟨bucket, isBucket, rfl⟩ := listed found
    have bounds : (days.map Prod.fst)[index]? = some bucket.1 := by
      rw [List.getElem?_map, isBucket]
      rfl
    have isIndex : index < 14 := by
      obtain ⟨inside, -⟩ := List.getElem?_eq_some_iff.mp bounds
      simpa [counted.tiled] using inside
    rw [counted.tiled, List.getElem?_map, List.getElem?_range isIndex] at bounds
    obtain ⟨begins, ends, -⟩ := find?_dayRow bucket
    rw [begins, ends, ← Option.some.inj bounds]
    exact ⟨rfl, rfl⟩
  · refine ⟨days.map fun bucket => bucket.2.2, ?_, counted.counts⟩
    simp [Function.comp_def, find?_dayRow]
  · refine ⟨days.map fun bucket => bucket.2.1, ?_, counted.amounts⟩
    simp [Function.comp_def, find?_dayRow]
  · refine ⟨place, ?_, ?_⟩
    · intro entry member
      obtain ⟨bucket, isBucket, lower, upper⟩ := inside entry member
      obtain ⟨begins, ends, -⟩ := find?_dayRow bucket
      exact ⟨dayRow bucket, _, _, by rw [List.getElem?_map, isBucket]; rfl, begins, ends, lower,
        upper⟩
    · intro index row found
      obtain ⟨bucket, isBucket, rfl⟩ := listed found
      obtain ⟨amount, count⟩ := values index bucket isBucket
      obtain ⟨-, -, amountEq, countEq⟩ := find?_dayRow bucket
      rw [amountEq, countEq, amount, count]
      exact ⟨rfl, rfl⟩

def assetsRow (api : NodeApi) (xdr mile : List Json) : Json :=
  .ofMembers [(toString api.xdrCode, .arr xdr), (toString api.mileCode, .arr mile)]

theorem find?_assetsRow (distinct : api.xdrCode ≠ api.mileCode) (xdr mile : List Json)
    (asset : Asset) :
    (assetsRow api xdr mile).find? (toString (codeOf api asset)) =
      some (.arr (match asset with
        | .xdr => xdr
        | .mile => mile)) := by
  have texts : toString api.mileCode ≠ toString api.xdrCode :=
    fun same => distinct (toString_injective same).symm
  rw [assetsRow, Json.find?_ofMembers]
  simp only [List.foldl_cons, List.foldl_nil, Json.member?_setMember]
  cases asset with
  | xdr => exact (if_neg texts).trans (if_pos rfl)
  | mile => exact if_pos rfl

theorem countsTransactions_of_merge (distinct : api.xdrCode ≠ api.mileCode) {trxs : List Json}
    {xdr mile : Weeks} {old result : Json}
    (isAssets : result.find? "assets" =
      some (old.merge (assetsRow api (xdr.map dayRow) (mile.map dayRow))))
    (xdrCounted : CountedByDay last (ofAsset api .xdr (trxs.flatMap (entriesOf stold))) xdr)
    (mileCounted : CountedByDay last (ofAsset api .mile (trxs.flatMap (entriesOf stold))) mile) :
    CountsTransactions api stold last trxs result := by
  have buckets (asset : Asset) :
      bucketsOf api asset result = some (.arr (match asset with
        | .xdr => xdr.map dayRow
        | .mile => mile.map dayRow)) := by
    rw [bucketsOf, isAssets]
    exact Json.find?_merge_arr old (find?_assetsRow distinct _ _ asset)
  intro asset
  cases asset with
  | xdr => exact ⟨_, buckets .xdr, xdrCounted.rows⟩
  | mile => exact ⟨_, buckets .mile, mileCounted.rows⟩

theorem find?_turnoverRow (api : NodeApi) (xdr mile : Weeks) :
    (turnoverRow api xdr mile).find? "id" = some (.str "transaction-turnover") ∧
      (turnoverRow api xdr mile).find? "assets" =
        some (assetsRow api (xdr.map dayRow) (mile.map dayRow)) := by
  simp [turnoverRow, assetsRow, Json.find?_ofMembers, Json.member?_setMember]

/-- For transactions of the two weeks the rows that are made and stored count
every entry of an asset in exactly one day, and the order of the transactions
does not matter. -/
theorem turnover_counted (xdr : api.xdrCode = 0) (mile : api.mileCode = 1) {trxs : List Json}
    (recent : ∀ trx ∈ trxs, Recent stold last trx) :
    (∃ result, CountsTransactions api stold last trxs result ∧
      ∀ others : List Json, others.Perm trxs →
        turnoverOf api stold last (.arr others) = .ok result) ∧
    ∀ process : Process, (readTransactions last process.store).Perm trxs →
      NotHidden (process.store .transactionTurnover) "transaction-turnover" →
        ∃ final stored,
          (transactionTurnover api stold last).run Process.exec process = (.ok (), final) ∧
          (final.store .transactionTurnover).get? (.str "transaction-turnover") = some stored ∧
          CountsTransactions api stold last trxs stored := by
  have distinct : api.xdrCode ≠ api.mileCode := by omega
  have inside : ∀ entry ∈ trxs.flatMap (entriesOf stold),
      last - twoWeeks ≤ entry.time ∧ entry.time ≤ last := by
    intro entry member
    obtain ⟨trx, trxMem, own⟩ := List.mem_flatMap.mp member
    exact time_of_mem_entriesOf (recent trx trxMem) own
  have counted (asset : Asset) : CountedByDay last (ofAsset api asset _)
      (daysOf api last asset (trxs.flatMap (entriesOf stold))) := daysOf_counted asset inside
  have made (others : List Json) (same : others.Perm trxs) :
      turnoverOf api stold last (.arr others) =
        .ok (turnoverRow api (daysOf api last .xdr (trxs.flatMap (entriesOf stold)))
          (daysOf api last .mile (trxs.flatMap (entriesOf stold)))) := by
    have othersRecent : ∀ trx ∈ others, Recent stold last trx := fun trx member =>
      recent trx (same.mem_iff.mp member)
    have entries := same.flatMap_right (entriesOf stold)
    rw [turnoverOf_eq distinct othersRecent, daysOf_perm entries, daysOf_perm entries]
  obtain ⟨idEq, isAssets⟩ := find?_turnoverRow api
    (daysOf api last .xdr (trxs.flatMap (entriesOf stold)))
    (daysOf api last .mile (trxs.flatMap (entriesOf stold)))
  constructor
  · -- a result that is not merged into anything
    have unmerged : ∀ assets : Json, Json.null.merge assets = assets := fun assets => by
      cases assets <;> rfl
    rw [← unmerged (assetsRow _ _ _)] at isAssets
    exact ⟨_, countsTransactions_of_merge distinct isAssets (counted .xdr) (counted .mile), made⟩
  · intro process read notHidden
    obtain ⟨stored, found, members⟩ := get?_upsert_ofMembers (by decide) idEq notHidden
    obtain ⟨old, storedAssets⟩ := members "assets" _ (by decide) isAssets
    have ran := @run_transactionTurnover api stold last process
    rw [getDataOf_recentTransactions, made _ read] at ran
    refine ⟨_, stored, ran, ?_,
      countsTransactions_of_merge distinct storedAssets (counted .xdr) (counted .mile)⟩
    rw [Process.store_withTable, Function.update_self]
    exact found

end Result

def fiveAt (time : Int) : Json :=
  .ofMembers [("id", .str "alice:7:3"), ("timestamp", .num time), ("asset", .arr [fiveUnits "0"])]

def transactionsWith (trx : Json) : Store :=
  Function.update Store.empty .transactions (KeyedTable.empty.insert trx)

theorem turnover_counted_five :
    ∃ (final : Process) (stored : Json) (rows : List Json) (amounts : List Rat),
      (transactionTurnover sampleApi sampleStold 2000000).run Process.exec
        (Process.idle (transactionsWith (fiveAt 2000000))) = (.ok (), final) ∧
      (final.store .transactionTurnover).get? (.str "transaction-turnover") = some stored ∧
      bucketsOf sampleApi .xdr stored = some (.arr rows) ∧
      (rows.map fun row => row.find? "amount") = amounts.map (fun amount => some (.real amount)) ∧
      amounts.sum = 5 := by
  have recent : ∀ trx ∈ [fiveAt 2000000], Recent sampleStold 2000000 trx := by
    intro trx member
    obtain rfl := List.mem_singleton.mp member
    refine ⟨⟨2000000, by decide +kernel, by decide, by decide⟩, [fiveUnits "0"],
      by decide +kernel, ?_⟩
    intro asset assetMem
    obtain rfl := List.mem_singleton.mp assetMem
    exact ⟨⟨0, by decide, by decide +kernel⟩, "5", 5, by decide +kernel, by decide +kernel⟩
  have read : readTransactions 2000000 (transactionsWith (fiveAt 2000000)) = [fiveAt 2000000] := by
    decide +kernel
  obtain ⟨final, stored, ends, found, counts⟩ :=
    (@turnover_counted sampleApi sampleStold 2000000 rfl rfl _ recent).2
      (Process.idle (transactionsWith (fiveAt 2000000))) (.of_eq read) (by decide)
  obtain ⟨rows, isRows, counted⟩ := counts .xdr
  obtain ⟨amounts, members, sum⟩ := counted.amounts
  refine ⟨final, stored, rows, amounts, ends, found, isRows, members, sum.trans ?_⟩
  decide +kernel

/-! ## Entries later than the last day -/

section Late

variable {api : NodeApi} {stold : String → Except Exn Rat} {last : Int}

/-- The time is later than `last`, or the start of the two weeks is a number
that a double may round down and the time is before it. -/
def OutsideWeeks (last time : Int) : Prop :=
  last < time ∨ 2 ^ 53 < last - twoWeeks ∧ time < last - twoWeeks

/-- A transaction outside of the two weeks with an entry that `enumerate_assets`
comes to, because no transaction before it makes it throw. -/
def EntryOutside (api : NodeApi) (stold : String → Except Exn Rat) (last : Int)
    (trxs : List Json) : Prop :=
  ∃ front trx rest, trxs = front ++ trx :: rest ∧
    (∀ earlier ∈ front, (trxTrail api stold earlier).2.isOk = true) ∧
    (∃ time, trxTime trx = .ok time ∧ OutsideWeeks last time) ∧ (trxTrail api stold trx).1 ≠ []

theorem le_truncate {number : Nat} {value : Rat} (above : (number : Rat) ≤ value) :
    (number : Int) ≤ Json.truncate value := by
  have den : (0 : Int) < value.den := by exact_mod_cast value.den_pos
  have scaled : (number : Int) * value.den ≤ value.num := by
    rw [← Rat.num_div_den value, le_div_iff₀ (by exact_mod_cast value.den_pos)] at above
    exact_mod_cast above
  have nonneg : 0 ≤ value.num := le_trans (by positivity) scaled
  rw [Json.truncate, Int.tdiv_eq_ediv_of_nonneg nonneg]
  exact (Int.le_ediv_iff_mul_le den).mpr scaled

theorem trxTime_of_inRange {first limit : Nat} {row : Json}
    (inRange : Cursor.between.inRange first limit "timestamp" row = true) :
    ∃ time : Int, trxTime row = .ok time ∧ (Cursor.toDouble first : Int) ≤ time := by
  obtain ⟨value, number, found, isNumber, above, -⟩ := Cursor.inRange_iff_number.mp inRange
  simp only [trxTime, found]
  cases value with
  | num integer =>
      obtain rfl : (integer : Rat) = number := by simpa [Json.number?] using isNumber
      exact ⟨integer, rfl, by exact_mod_cast above⟩
  | real rational =>
      obtain rfl : rational = number := by simpa [Json.number?] using isNumber
      exact ⟨Json.truncate rational, rfl, le_truncate above⟩
  | _ => simp [Json.number?] at isNumber

/-- The calls of an enumeration are those of the transactions up to the first
that throws. -/
theorem mem_trxsTrail {trxs : List Json} {call : AssetCall} :
    call ∈ (trxsTrail api stold trxs).1 ↔ ∃ front trx rest, trxs = front ++ trx :: rest ∧
      (∀ earlier ∈ front, (trxTrail api stold earlier).2.isOk = true) ∧
      call ∈ (trxTrail api stold trx).1 := by
  induction trxs with
  | nil => simp [trxsTrail, Trail.none]
  | cons trx trxs ih =>
      have unfolded : trxsTrail api stold (trx :: trxs) =
          (trxTrail api stold trx).next (trxsTrail api stold trxs) := rfl
      have inFront : (∃ front other rest, trx :: trxs = front ++ other :: rest ∧
          (∀ earlier ∈ front, (trxTrail api stold earlier).2.isOk = true) ∧
          call ∈ (trxTrail api stold other).1) ↔ call ∈ (trxTrail api stold trx).1 ∨
            ((trxTrail api stold trx).2.isOk = true ∧ call ∈ (trxsTrail api stold trxs).1) := by
        rw [ih]
        constructor
        · rintro ⟨front, other, rest, same, ends, member⟩
          cases front with
          | nil =>
              obtain ⟨rfl, -⟩ := List.cons.inj same
              exact .inl member
          | cons head front =>
              obtain ⟨rfl, tail⟩ := List.cons.inj same
              refine .inr ⟨ends trx (by simp), front, other, rest, tail, ?_, member⟩
              exact fun earlier isEarlier => ends earlier (by simp [isEarlier])
        · rintro (member | ⟨ended, front, other, rest, rfl, ends, member⟩)
          · exact ⟨[], trx, trxs, rfl, by simp, member⟩
          · refine ⟨trx :: front, other, rest, rfl, ?_, member⟩
            simpa [ended] using ends
      rw [inFront, unfolded, Trail.next]
      cases ended : (trxTrail api stold trx).2 with
      | error exception => simp [Except.isOk, Except.toBool]
      | ok count => simp [Except.isOk, Except.toBool]

theorem time_of_mem_assetsTrail {time : Int} {assets : List Json} {call : AssetCall}
    (member : call ∈ (assetsTrail api stold time assets).1) : call.time = time := by
  induction assets with
  | nil => simp [assetsTrail, Trail.none] at member
  | cons asset assets ih =>
      have unfolded : assetsTrail api stold time (asset :: assets) =
          (entryTrail api stold time asset).next (assetsTrail api stold time assets) := rfl
      have own (ownCall : call ∈ (entryTrail api stold time asset).1) : call.time = time := by
        unfold entryTrail at ownCall
        cases called : entryCall api stold time asset with
        | error exception => simp [called, Trail.throw] at ownCall
        | ok made =>
            obtain rfl : made = some call := by simpa [called] using ownCall
            obtain ⟨code, -, rest⟩ := bind_eq_ok.mp called
            obtain ⟨amount, -, rest⟩ := bind_eq_ok.mp rest
            obtain ⟨kind, -, rest⟩ := bind_eq_ok.mp rest
            cases kind with
            | none => cases rest
            | some kind =>
                obtain ⟨value, -, rest⟩ := bind_eq_ok.mp rest
                rw [← Option.some.inj (Except.ok.inj rest)]
      rw [unfolded, Trail.next] at member
      cases ended : (entryTrail api stold time asset).2 with
      | error exception =>
          simp only [ended] at member
          exact own member
      | ok count =>
          simp only [ended] at member
          exact (List.mem_append.mp member).elim own ih

theorem time_of_mem_trxTrail {trx : Json} {call : AssetCall}
    (member : call ∈ (trxTrail api stold trx).1) : trxTime trx = .ok call.time := by
  unfold trxTrail at member
  cases timeEq : trxTime trx with
  | error exception => simp [timeEq, Trail.throw] at member
  | ok time =>
      simp only [timeEq] at member
      cases assetsEq : trx.find? "asset" with
      | none => simp [assetsEq, Trail.none] at member
      | some assets =>
          simp only [assetsEq] at member
          rw [time_of_mem_assetsTrail member]

/-- The start of the two weeks that the driver sends is not before the start,
unless a double rounds it down. -/
theorem le_toDouble_toUnsigned {value : Int} (isExact : value ≤ 2 ^ 53) :
    value ≤ Cursor.toDouble (toUnsigned value) := by
  rcases Nat.lt_or_ge (toUnsigned value) (2 ^ 53) with small | large
  · rw [Cursor.toDouble_of_lt small]
    unfold toUnsigned
    omega
  · have := Cursor.le_toDouble large
    omega

/-- A call outside of the days dereferences the end of the map. -/
theorem foldlM_addAmount_eq_none {start : Int} {number : Nat} (nonempty : 0 < number)
    (calls : List AssetCall) (values : Nat → Rat × Nat) :
    calls.foldlM addAmount (IntervalMap.tiles start day number values) = none ↔
      ∃ call ∈ calls, ¬ (start ≤ call.time ∧ call.time ≤ start + number * day) := by
  induction calls generalizing values with
  | nil => simp
  | cons call calls ih =>
      rw [List.foldlM_cons]
      by_cases inside : start ≤ call.time ∧ call.time ≤ start + number * day
      · rw [addAmount_tiles inside.1 inside.2 nonempty]
        dsimp only [bind, Option.bind]
        rw [ih]
        simp only [List.mem_cons, exists_eq_or_imp, inside, and_self, not_true_eq_false, false_or]
      · have missed : (IntervalMap.tiles start day number values).find?
            (fun entry => entry.1.covers call.time) = none := by
          apply List.find?_eq_none.mpr
          intro entry member covers
          have found := (IntervalMap.exists_covers_tiles day_pos).mp ⟨entry, member, covers⟩
          exact inside found.2
        refine iff_of_true ?_ ⟨call, by simp, inside⟩
        simp [addAmount, IntervalMap.modifyAt, missed]

theorem weeksOf_eq_none {asset : Asset} {calls : List AssetCall} :
    weeksOf last asset calls = none ↔ ∃ call ∈ calls, call.asset = asset ∧
      ¬ (last - twoWeeks ≤ call.time ∧ call.time ≤ last) := by
  rw [weeksOf, build_days, foldlM_addAmount_eq_none (by decide), last_eq]
  simp [and_assoc]

theorem turnoverOf_eq_pastTheEnd {items : Json} :
    turnoverOf api stold last items = .error .pastTheEnd ↔
      ∃ call ∈ (enumerateAssets api stold items).1,
        ¬ (last - twoWeeks ≤ call.time ∧ call.time ≤ last) := by
  unfold turnoverOf
  generalize enumerateAssets api stold items = trail
  obtain ⟨calls, ended⟩ := trail
  have outside : (∃ call ∈ calls, ¬ (last - twoWeeks ≤ call.time ∧ call.time ≤ last)) ↔
      weeksOf last .xdr calls = none ∨ weeksOf last .mile calls = none := by
    rw [weeksOf_eq_none, weeksOf_eq_none]
    constructor
    · rintro ⟨call, member, late⟩
      cases asset : call.asset with
      | xdr => exact .inl ⟨call, member, asset, late⟩
      | mile => exact .inr ⟨call, member, asset, late⟩
    · rintro (⟨call, member, -, late⟩ | ⟨call, member, -, late⟩)
      · exact ⟨call, member, late⟩
      · exact ⟨call, member, late⟩
  rw [outside]
  dsimp only
  generalize weeksOf last .xdr calls = xdr
  generalize weeksOf last .mile calls = mile
  cases xdr with
  | none => simp
  | some xdr =>
      cases mile with
      | none => simp
      | some mile => cases ended <;> simp

/-- Every entry is looked up at a time for which there is a day. -/
def LooksUpInside (api : NodeApi) (stold : String → Except Exn Rat) (last : Int)
    (store : Store) : Prop :=
  ∀ call ∈ (enumerateAssets api stold (getDataOf (recentTransactions last store))).1,
    ∃ bucket ∈ IntervalMap.build ((0 : Rat), 0) (last - twoWeeks) last day,
      bucket.1.covers call.time = true

theorem covers_days {time : Int} :
    (∃ bucket ∈ IntervalMap.build ((0 : Rat), 0) (last - twoWeeks) last day,
      bucket.1.covers time = true) ↔ last - twoWeeks ≤ time ∧ time ≤ last := by
  rw [build_days, IntervalMap.exists_covers_tiles day_pos, last_eq]
  simp

theorem start_le_of_mem_readTransactions (isExact : last - twoWeeks ≤ 2 ^ 53) {store : Store}
    {trx : Json} (read : trx ∈ readTransactions last store) {time : Int}
    (timeEq : trxTime trx = .ok time) : last - twoWeeks ≤ time := by
  obtain ⟨found, foundEq, above⟩ := trxTime_of_inRange (List.mem_filter.mp read).2
  obtain rfl : found = time := Except.ok.inj (foundEq.symm.trans timeEq)
  exact (le_toDouble_toUnsigned isExact).trans above

/-- Every entry is looked up inside of the days, and the end of a map is never
dereferenced, exactly if none of the entries that `enumerate_assets` comes to
is outside of the two weeks. -/
theorem looksUpInside_iff (last : Int) (store : Store) :
    (LooksUpInside api stold last store ↔
      ¬ EntryOutside api stold last (readTransactions last store)) ∧
    (turnoverOf api stold last (getDataOf (recentTransactions last store)) ≠ .error .pastTheEnd ↔
      ¬ EntryOutside api stold last (readTransactions last store)) := by
  have never : turnoverOf api stold last (getDataOf (recentTransactions last store)) ≠
      .error .pastTheEnd ↔ LooksUpInside api stold last store := by
    simp only [ne_eq, turnoverOf_eq_pastTheEnd, LooksUpInside, covers_days]
    constructor
    · intro none call member
      by_contra outside
      exact none ⟨call, member, outside⟩
    · rintro inside ⟨call, member, outside⟩
      exact outside (inside call member)
  rw [never, and_self]
  unfold LooksUpInside
  rw [getDataOf_recentTransactions]
  change (∀ call ∈ (trxsTrail api stold (readTransactions last store)).1, _) ↔ _
  simp only [covers_days]
  constructor
  · rintro inside ⟨front, trx, rest, same, ends, ⟨time, timeEq, outside⟩, called⟩
    obtain ⟨call, member⟩ := List.exists_mem_of_ne_nil _ called
    have bounds := inside call (mem_trxsTrail.mpr ⟨front, trx, rest, same, ends, member⟩)
    have callTime : call.time = time :=
      Except.ok.inj ((time_of_mem_trxTrail member).symm.trans timeEq)
    unfold OutsideWeeks at outside
    omega
  · intro none call member
    obtain ⟨front, trx, rest, same, ends, own⟩ := mem_trxsTrail.mp member
    have timeEq := time_of_mem_trxTrail own
    have inside : ¬ OutsideWeeks last call.time := fun outside =>
      none ⟨front, trx, rest, same, ends, ⟨call.time, timeEq, outside⟩, List.ne_nil_of_mem own⟩
    have read : trx ∈ readTransactions last store := by
      rw [same]
      simp
    unfold OutsideWeeks at inside
    by_cases isExact : last - twoWeeks ≤ 2 ^ 53
    · have := start_le_of_mem_readTransactions isExact read timeEq
      omega
    · omega

end Late

theorem looksUpInside_iff_early :
    readTransactions 2000000 (transactionsWith (fiveAt 1000000)) = [fiveAt 1000000] ∧
      LooksUpInside sampleApi sampleStold 2000000 (transactionsWith (fiveAt 1000000)) := by
  have read : readTransactions 2000000 (transactionsWith (fiveAt 1000000)) = [fiveAt 1000000] := by
    decide +kernel
  refine ⟨read, (looksUpInside_iff 2000000 _).1.mpr ?_⟩
  rintro ⟨front, trx, rest, same, -, ⟨time, timeEq, outside⟩, -⟩
  have member : trx ∈ [fiveAt 1000000] := by
    rw [← read, same]
    simp
  obtain rfl := List.mem_singleton.mp member
  have isTime : trxTime (fiveAt 1000000) = .ok 1000000 := by decide +kernel
  obtain rfl : 1000000 = time := Except.ok.inj (isTime.symm.trans timeEq)
  revert outside
  unfold OutsideWeeks
  decide

/-- A transaction one second later than `last` is read and has no day. -/
theorem late_entry_outside :
    ¬ LooksUpInside sampleApi sampleStold 2000000 (transactionsWith (fiveAt 2000001)) := by
  intro inside
  have called : (⟨.xdr, 5, 2000001⟩ : AssetCall) ∈ (enumerateAssets sampleApi sampleStold
      (getDataOf (recentTransactions 2000000 (transactionsWith (fiveAt 2000001))))).1 := by
    decide +kernel
  have bounds := covers_days.mp (inside _ called)
  revert bounds
  decide

end Statistics

end MileExplorer
