import MileExplorer.IntervalMap
import MileExplorer.WalletsTop
import Mathlib.Data.List.TakeWhile

/-!
# Turnovers

The statistics that go over the assets of transactions: the turnover of the
last two weeks by days and the turnover of the last day.  Both enumerate the
assets with `enumerate_assets`, which reads the code of an asset as a number,
while the ranking of wallets compares the text of the code.
-/

namespace MileExplorer

/-- `std::stoi`: the digits after blanks and a sign, up to the first character
that is none, if they are a 32-bit number. -/
def stoi (text : String) : Except Exn Int :=
  let (negative, rest) := splitSign (text.toList.dropWhile isSpace)
  let digits := rest.takeWhile Char.isDigit
  let value : Nat := digits.foldl (fun value digit => 10 * value + (digit.toNat - 48)) 0
  let number : Int := if negative then -value else value
  if digits = [] then .error (.standard "stoi")
  else if number < -2 ^ 31 ∨ 2 ^ 31 ≤ number then .error (.standard "stoi")
  else .ok number

/-- The conversion of a signed time to the unsigned argument of a cursor. -/
def toUnsigned (value : Int) : Nat := (value % 2 ^ 64).toNat

/-- The exact value of a number. -/
def Json.number? : Json → Option Rat
  | .num value => some value
  | .real value => some value
  | _ => none

theorem Cursor.inRange_iff_number {first limit : Nat} {index : String} {row : Json} :
    Cursor.between.inRange first limit index row = true ↔
      ∃ value number, row.find? index = some value ∧ value.number? = some number ∧
        (toDouble first : Rat) ≤ number ∧ number < toDouble ((first + limit) % 2 ^ 64) := by
  unfold Cursor.between.inRange
  generalize toDouble ((first + limit) % 2 ^ 64) = upper
  generalize toDouble first = lower
  cases row.find? index with
  | none => simp
  | some value =>
      cases value with
      | num number =>
          simp [Json.sortKey, Json.number?, Prod.Lex.toLex_lt_toLex, le_iff_lt_or_eq]
      | real number =>
          simp [Json.sortKey, Json.number?, Prod.Lex.toLex_lt_toLex, le_iff_lt_or_eq]
      | _ =>
          simp [Json.sortKey, Json.number?, Prod.Lex.toLex_le_toLex, Prod.Lex.toLex_lt_toLex]

inductive Asset where
  | xdr
  | mile
  deriving DecidableEq, Repr

/-- A call of one of the two functions given to `enumerate_assets`. -/
structure AssetCall where
  asset : Asset
  amount : Rat
  time : Int
  deriving DecidableEq

/-- The calls that were made, and the number of entries or the exception with
which the enumeration ended. -/
abbrev Trail := List AssetCall × Except Exn Nat

namespace Trail

/-- Nothing to enumerate. -/
def none : Trail := ([], .ok 0)

/-- An exception before any call. -/
def throw (exception : Exn) : Trail := ([], .error exception)

/-- One enumeration and, unless it throws, another one. -/
def next (first second : Trail) : Trail :=
  match first.2 with
  | .error exception => (first.1, .error exception)
  | .ok count => (first.1 ++ second.1, second.2.map (count + ·))

end Trail

namespace Statistics

section Enumeration

variable (api : NodeApi) (stold : String → Except Exn Rat)

/-- The asset with a code.  The number is narrowed to 16 bits. -/
def assetOf (code : String) : Except Exn (Option Asset) := do
  let number ← stoi code
  let assetCode := (number % 2 ^ 16).toNat
  if assetCode = api.xdrCode then return some .xdr
  else if assetCode = api.mileCode then return some .mile
  else return none

def entryCall (time : Int) (asset : Json) : Except Exn (Option AssetCall) := do
  let code ← asset.constText "code"
  let amount ← asset.constText "amount"
  match ← assetOf api code with
  | none => return none
  | some kind =>
      let value ← stold amount
      return some ⟨kind, value, time⟩

def entryTrail (time : Int) (asset : Json) : Trail :=
  match entryCall api stold time asset with
  | .error exception => .throw exception
  | .ok call => (call.toList, .ok 1)

def assetsTrail (time : Int) (assets : List Json) : Trail :=
  assets.foldr (fun asset rest => (entryTrail api stold time asset).next rest) .none

/-- The time of a transaction, -1 if it has none. -/
def trxTime (trx : Json) : Except Exn Int :=
  match trx.find? "timestamp" with
  | none => .ok (-1)
  | some value => value.getTime

/-- One iteration of the loop over the transactions. -/
def trxTrail (trx : Json) : Trail :=
  match trxTime trx with
  | .error exception => .throw exception
  | .ok time =>
      match trx.find? "asset" with
      | none => .none
      | some assets => assetsTrail api stold time assets.elements

def trxsTrail (trxs : List Json) : Trail :=
  trxs.foldr (fun trx rest => (trxTrail api stold trx).next rest) .none

def enumerateAssets (items : Json) : Trail :=
  match items with
  | .arr trxs => trxsTrail api stold trxs
  | _ => .none

end Enumeration

def codeOf (api : NodeApi) : Asset → Nat
  | .xdr => api.xdrCode
  | .mile => api.mileCode

/-! ## The turnover of two weeks -/

def day : Int := 86400

def twoWeeks : Int := day * 14

/-- The amount and the number of entries of each day. -/
abbrev Weeks := IntervalMap (Rat × Nat)

/-- What the functions given to `enumerate_assets` do with an entry: the
amount is added and then the number raised, each through `operator[]`. -/
def addAmount (weeks : Weeks) (call : AssetCall) : Option Weeks := do
  let weeks ← weeks.modifyAt (0, 0) call.time fun (amount, count) => (amount + call.amount, count)
  weeks.modifyAt (0, 0) call.time fun (amount, count) => (amount, count + 1)

/-- The days of an asset after the calls, none if one of them was outside of
all days. -/
def weeksOf (last : Int) (asset : Asset) (calls : List AssetCall) : Option Weeks :=
  (calls.filter fun call => call.asset = asset).foldlM addAmount
    (IntervalMap.build (0, 0) (last - twoWeeks) last day)

def dayRow (bucket : Interval × Rat × Nat) : Json :=
  .ofMembers [("begin", .num bucket.1.lower), ("end", .num bucket.1.upper),
    ("amount", .real bucket.2.1), ("count", .num bucket.2.2)]

/-- `trx_update`. -/
def weekRows (weeks : Weeks) : Json :=
  weeks.foldl (fun trx bucket => trx.pushBack (dayRow bucket)) .null

inductive Failure where
  | exception (exception : Exn)
  | pastTheEnd
  deriving DecidableEq

section Methods

variable (api : NodeApi) (stold : String → Except Exn Rat)

/-- The row that `transaction_turnover` makes of the transactions. -/
def turnoverOf (last : Int) (items : Json) : Except Failure Json :=
  let (calls, ended) := enumerateAssets api stold items
  match weeksOf last .xdr calls, weeksOf last .mile calls with
  | some xdr, some mile =>
      match ended with
      | .error exception => .error (.exception exception)
      | .ok _ =>
          .ok (.ofMembers [("id", .str "transaction-turnover"),
            ("assets", .ofMembers [(toString api.xdrCode, weekRows xdr),
              (toString api.mileCode, weekRows mile)])])
  | _, _ => .error .pastTheEnd

def recentTransactions (last : Int) : Cursor :=
  (cursor .transactions).between (toUnsigned (last - twoWeeks)) (toUnsigned last) "timestamp"

def storeRow (table : TableName) (id : String) (row : Json) : Prog (Except Failure Unit) := do
  match ← Db.update id table row with
  | .error exception => return .error (.exception exception)
  | .ok _ => return .ok ()

def transactionTurnover (last : Int) : Prog (Except Failure Unit) := do
  let items ← Db.getData (.snapshot .transactions) (recentTransactions last)
  match turnoverOf api stold last items with
  | .error failure => return .error failure
  | .ok row => storeRow .transactionTurnover "transaction-turnover" row

/-! ## The turnover of a day -/

/-- The amount and the number of the entries of an asset. -/
def total (asset : Asset) (calls : List AssetCall) : Rat × Nat :=
  let own := calls.filter fun call => call.asset = asset
  ((own.map AssetCall.amount).sum, own.length)

/-- One iteration of the loop over the blocks' transactions. -/
def itemTrail (item : Json) : Trail :=
  if item.isArray then enumerateAssets api stold item else .none

def assetRow (code : Nat) (total : Rat × Nat) : Json :=
  .ofMembers [("code", .str (toString code)), ("amount", .real total.1), ("count", .num total.2)]

/-- The row that `turnover24` makes of the transactions of the blocks. -/
def turnover24Of (items : Json) : Except Exn Json :=
  let (calls, ended) :=
    items.elements.foldr (fun item rest => (itemTrail api stold item).next rest) .none
  ended.map fun (count : Nat) =>
    .ofMembers [("id", .str "turnovers-24"), ("count", .num count),
      ("assets", .arr [assetRow api.xdrCode (total .xdr calls),
        assetRow api.mileCode (total .mile calls)])]

/-- The transactions of the blocks that `turnover24` reads. -/
def recentBlocks (last : Int) : Cursor :=
  ((cursor .blocks).between (toUnsigned (last - 86400)) (toUnsigned last) "timestamp").field
    "transactions"

def turnover24 (last : Int) : Prog (Except Failure Unit) := do
  let items ← Db.getData (.snapshot .blocks) (recentBlocks last)
  match turnover24Of api stold items with
  | .error exception => return .error (.exception exception)
  | .ok row => storeRow .turnovers "turnovers-24" row

end Methods

/-! ## The methods run alone -/

theorem run_storeRow (table : TableName) {id : String} {row : Json}
    (idEq : row.find? "id" = some (.str id)) (process : Process) :
    (storeRow table id row).run Process.exec process =
      (.ok (), process.withTable table
        (Db.upsert (Db.absentIn process table id) id row (process.store table))) := by
  rw [storeRow, Program.run_bind, Db.run_update id table idEq]
  rfl

/-- No row under the text of the index option passes for a missing row. -/
def NotHidden (rows : Table) (id : String) : Prop :=
  rows.Has (.str Db.indexText) → rows.Has (.str id)

instance (rows : Table) (id : String) : Decidable (NotHidden rows id) :=
  inferInstanceAs (Decidable (_ → _))

/-- The stored row of a statistic has the members of the new row, each merged
into what was there. -/
theorem get?_upsert_ofMembers {process : Process} {table : TableName} {id : String}
    {members : List (String × Json)} (named : id ≠ "id")
    (idEq : (Json.ofMembers members).find? "id" = some (.str id))
    (notHidden : NotHidden (process.store table) id) :
    ∃ stored, (Db.upsert (Db.absentIn process table id) id (.ofMembers members)
        (process.store table)).get? (.str id) = some stored ∧
      ∀ name value, name ≠ id → (Json.ofMembers members).find? name = some value →
        ∃ old : Json, stored.find? name = some (old.merge value) := by
  by_cases present : (process.store table).Has (.str id)
  · have stored : Db.absentIn process table id = false := by
      simp [Db.absentIn, present]
    obtain ⟨former, found⟩ := KeyedTable.has_iff_get?.mp present
    have formerId := (KeyedTable.get?_eq_some.mp found).2
    obtain ⟨old, rfl⟩ := exists_members_of_docId (by simp [formerId] : docId former ≠ .null)
    have merged (name : String) (value : Json) (other : name ≠ id)
        (isMember : (Json.ofMembers members).find? name = some value) :
        ∃ old' : Json, ((Json.obj old).merge ((Json.ofMembers members).erase id)).find? name =
          some (old'.merge value) := by
      rw [Json.find?_merge_erase, if_neg other.symm, isMember]
      cases Json.member? name old with
      | none => exact ⟨.null, by cases value <;> rfl⟩
      | some former => exact ⟨former, rfl⟩
    have keeps : docId ((Json.obj old).merge ((Json.ofMembers members).erase id)) = .str id := by
      obtain ⟨former, isId⟩ := merged "id" _ named.symm idEq
      exact docId_of_find? (by simpa using isId)
    rw [stored, Db.upsert, if_neg (by decide)]
    exact ⟨_, KeyedTable.get?_modify_self found keeps, merged⟩
  · have noText : ¬ (process.store table).Has (.str Db.indexText) := mt notHidden present
    have absent : Db.absentIn process table id = true := by
      simp [Db.absentIn, present, noText]
    have key := docId_of_find? idEq
    have fresh : ¬ (process.store table).Has (docId (.ofMembers members)) := by rwa [key]
    rw [absent, Db.upsert, if_pos rfl, ← key]
    exact ⟨_, KeyedTable.get?_insert_self fresh, fun name value _ isMember => ⟨.null, by
      rw [isMember]
      cases value <;> rfl⟩⟩

/-- The row of the last two weeks is put in its table, if there is one. -/
theorem run_transactionTurnover {api : NodeApi} {stold : String → Except Exn Rat} {last : Int}
    (process : Process) :
    (transactionTurnover api stold last).run Process.exec process =
      match turnoverOf api stold last (getDataOf (recentTransactions last process.store)) with
      | .error failure => (.error failure, process)
      | .ok row => (.ok (), process.withTable .transactionTurnover
          (Db.upsert (Db.absentIn process .transactionTurnover "transaction-turnover")
            "transaction-turnover" row (process.store .transactionTurnover))) := by
  rw [transactionTurnover, Program.run_bind, Db.run_getData]
  cases made : turnoverOf api stold last (getDataOf (recentTransactions last process.store)) with
  | error failure => rfl
  | ok row =>
      have idEq : row.find? "id" = some (.str "transaction-turnover") := by
        simp only [turnoverOf] at made
        split at made
        · split at made
          · cases made
          · cases made
            simp [Json.find?_ofMembers, Json.member?_setMember]
        · cases made
      simp only [run_storeRow _ idEq]

/-- The row of the last day is put in its table, if there is one. -/
theorem run_turnover24 {api : NodeApi} {stold : String → Except Exn Rat} {last : Int}
    (process : Process) :
    (turnover24 api stold last).run Process.exec process =
      match turnover24Of api stold (getDataOf (recentBlocks last process.store)) with
      | .error exception => (.error (.exception exception), process)
      | .ok row => (.ok (), process.withTable .turnovers
          (Db.upsert (Db.absentIn process .turnovers "turnovers-24") "turnovers-24" row
            (process.store .turnovers))) := by
  rw [turnover24, Program.run_bind, Db.run_getData]
  cases made : turnover24Of api stold (getDataOf (recentBlocks last process.store)) with
  | error exception => rfl
  | ok row =>
      have idEq : row.find? "id" = some (.str "turnovers-24") := by
        simp only [turnover24Of, Except.map] at made
        split at made
        · cases made
        · cases made
          simp [Json.find?_ofMembers, Json.member?_setMember]
      simp only [run_storeRow _ idEq]

/-! ## Codes as numbers and as texts -/

theorem splitSign_of_isDigit {digit : Char} {rest : List Char} (isDigit : digit.isDigit = true) :
    splitSign (digit :: rest) = (false, digit :: rest) := by
  unfold splitSign
  split
  · rename_i same
    obtain ⟨rfl, -⟩ := List.cons.inj same
    simp at isDigit
  · rename_i same
    obtain ⟨rfl, -⟩ := List.cons.inj same
    simp at isDigit
  · rfl

/-- The decimal text of a number is read as the number. -/
theorem stoi_toString {number : Nat} (small : number < 2 ^ 31) :
    stoi (toString number) = .ok number := by
  have digitsEq : (toString number).toList = Nat.toDigits 10 number := Nat.toList_repr
  have every : ∀ digit ∈ Nat.toDigits 10 number, digit.isDigit = true := fun digit member =>
    Nat.isDigit_of_mem_toDigits (by decide) (by decide) member
  have value : (Nat.toDigits 10 number).foldl
      (fun value digit => 10 * value + (digit.toNat - 48)) 0 = number :=
    Nat.ofDigitChars_ten_toDigits
  obtain ⟨digit, rest, cons⟩ : ∃ digit rest, Nat.toDigits 10 number = digit :: rest :=
    List.exists_cons_of_ne_nil Nat.toDigits_ne_nil
  have isDigit := every digit (by simp [cons])
  have notSpace : isSpace digit = false := by
    cases space : isSpace digit with
    | false => rfl
    | true =>
        simp only [isSpace, Bool.or_eq_true, decide_eq_true_eq] at space
        rcases space with ((((rfl | rfl) | rfl) | rfl) | rfl) | rfl <;> simp at isDigit
  have taken : (digit :: rest).takeWhile Char.isDigit = digit :: rest := by
    rw [List.takeWhile_eq_self_iff, ← cons]
    exact every
  have kept : (digit :: rest).dropWhile isSpace = digit :: rest := by
    simp [notSpace]
  unfold stoi
  rw [digitsEq, cons, kept, splitSign_of_isDigit isDigit]
  dsimp only
  rw [taken, ← cons, value]
  simp only [Bool.false_eq_true, if_false, cons, reduceCtorEq]
  rw [if_neg (by omega)]

section Codes

variable {api : NodeApi} {stold : String → Except Exn Rat} {time : Int}

theorem assetOf_toString {number : Nat} (small : number < 2 ^ 16) :
    assetOf api (toString number) = .ok (if number = api.xdrCode then some .xdr
      else if number = api.mileCode then some .mile else none) := by
  have narrowed : ((number : Int) % 2 ^ 16).toNat = number := by omega
  rw [assetOf, stoi_toString (by omega)]
  simp only [bind, Except.bind, narrowed]
  split_ifs <;> rfl

theorem asset_of_entryCall {asset : Json} {code : String} {call : Option AssetCall}
    (codeEq : asset.find? "code" = some (.str code))
    (accepted : entryCall api stold time asset = .ok call) :
    assetOf api code = .ok (call.map AssetCall.asset) := by
  obtain ⟨text, textEq, rest⟩ := bind_eq_ok.mp accepted
  obtain ⟨amount, -, rest⟩ := bind_eq_ok.mp rest
  obtain ⟨kind, kindEq, rest⟩ := bind_eq_ok.mp rest
  obtain rfl : code = text := by
    simpa [codeEq] using Json.constText_eq_ok.mp textEq
  rw [kindEq]
  cases kind with
  | none =>
      rw [← Except.ok.inj rest]
      rfl
  | some kind =>
      obtain ⟨value, -, rest⟩ := bind_eq_ok.mp rest
      rw [← Except.ok.inj rest]
      rfl

/-- `enumerate_assets` takes an entry for one of an asset exactly if the query
of `wallets_top_upd` does. -/
def SameClass (api : NodeApi) (code : String) (call : Option AssetCall) : Prop :=
  ∀ entry : TopEntry, entry.code = .str code →
    (call.map AssetCall.asset = some .xdr ↔ WalletsTop.inGroup api.xdrCode entry = true) ∧
    (call.map AssetCall.asset = some .mile ↔ WalletsTop.inGroup api.mileCode entry = true)

theorem sameClass_iff {code : String} {call : Option AssetCall} :
    SameClass api code call ↔
      (call.map AssetCall.asset = some .xdr ↔ code = toString api.xdrCode) ∧
      (call.map AssetCall.asset = some .mile ↔ code = toString api.mileCode) := by
  constructor
  · intro same
    simpa [WalletsTop.inGroup] using same ⟨.null, .str code, .null⟩ rfl
  · intro same entry codeEq
    simpa [WalletsTop.inGroup, codeEq] using same

theorem kind_of_assetOf (xdr : api.xdrCode = 0) (mile : api.mileCode = 1) {code : String}
    {number : Int} {kind : Option Asset} (numberEq : stoi code = .ok number)
    (read : assetOf api code = .ok kind) :
    kind = if number % 65536 = 0 then some .xdr
      else if number % 65536 = 1 then some .mile else none := by
  simp only [assetOf, numberEq, xdr, mile, bind, Except.bind] at read
  by_cases isZero : number % 65536 = 0
  · rw [if_pos (by omega)] at read
    rw [if_pos isZero]
    exact (Except.ok.inj read).symm
  rw [if_neg (by omega)] at read
  rw [if_neg isZero]
  by_cases isOne : number % 65536 = 1
  · rw [if_pos (by omega)] at read
    rw [if_pos isOne]
    exact (Except.ok.inj read).symm
  · rw [if_neg (by omega)] at read
    rw [if_neg isOne]
    exact (Except.ok.inj read).symm

/-- An entry that is accepted is classified as the ranking classifies it
exactly if its code is the text of one of the two codes, or is read as a
number that is neither of them after the narrowing. -/
theorem classified_iff (xdr : api.xdrCode = 0) (mile : api.mileCode = 1) {asset : Json}
    {code : String} {call : Option AssetCall} (codeEq : asset.find? "code" = some (.str code))
    (accepted : entryCall api stold time asset = .ok call) :
    SameClass api code call ↔ code = "0" ∨ code = "1" ∨
      ∀ number, stoi code = .ok number → number % 65536 ≠ 0 ∧ number % 65536 ≠ 1 := by
  have zero : toString api.xdrCode = "0" := by rw [xdr]; rfl
  have one : toString api.mileCode = "1" := by rw [mile]; rfl
  have read := asset_of_entryCall codeEq accepted
  obtain ⟨number, numberEq, -⟩ := bind_eq_ok.mp read
  have ofZero : code = "0" → number = 0 := by
    intro isZero
    have text : code = toString 0 := isZero
    rw [text, stoi_toString (by decide)] at numberEq
    exact (Except.ok.inj numberEq).symm
  have ofOne : code = "1" → number = 1 := by
    intro isOne
    have text : code = toString 1 := isOne
    rw [text, stoi_toString (by decide)] at numberEq
    exact (Except.ok.inj numberEq).symm
  have narrowed : (∀ other, stoi code = .ok other → other % 65536 ≠ 0 ∧ other % 65536 ≠ 1) ↔
      number % 65536 ≠ 0 ∧ number % 65536 ≠ 1 := by
    simp [numberEq]
  rw [sameClass_iff, zero, one, narrowed, kind_of_assetOf xdr mile numberEq read]
  by_cases isZero : number % 65536 = 0
  · have notOne : code ≠ "1" := fun isOne => by
      have := ofOne isOne
      omega
    simp [isZero, notOne]
  by_cases isOne : number % 65536 = 1
  · have notZero : code ≠ "0" := fun isZero => by
      have := ofZero isZero
      omega
    simp [isOne, notZero]
  · have notZero : code ≠ "0" := fun isText => isZero (by rw [ofZero isText]; rfl)
    have notOne : code ≠ "1" := fun isText => isOne (by rw [ofOne isText]; rfl)
    simp [isZero, isOne, notZero, notOne]

end Codes

def sampleStold (text : String) : Except Exn Rat :=
  (stoullText text).map fun value => (value : Rat)

def fiveUnits (code : String) : Json := .ofMembers [("code", .str code), ("amount", .str "5")]

theorem classified_iff_other :
    sampleApi.xdrCode = 0 ∧ sampleApi.mileCode = 1 ∧
    entryCall sampleApi sampleStold 100 (fiveUnits "2") = .ok none ∧
    SameClass sampleApi "2" none := by
  have codeEq : (fiveUnits "2").find? "code" = some (.str "2") := by decide +kernel
  have accepted : entryCall sampleApi sampleStold 100 (fiveUnits "2") = .ok none := by
    decide +kernel
  have read : stoi "2" = .ok 2 := by decide +kernel
  refine ⟨rfl, rfl, accepted, (classified_iff rfl rfl codeEq accepted).mpr (.inr (.inr ?_))⟩
  intro number numberEq
  obtain rfl := Except.ok.inj (read.symm.trans numberEq)
  decide

/-- The code 65536 is taken for XDR, but not by the ranking. -/
theorem wide_code_misclassified :
    entryCall sampleApi sampleStold 100 (fiveUnits "65536") = .ok (some ⟨.xdr, 5, 100⟩) ∧
    ¬ SameClass sampleApi "65536" (some ⟨.xdr, 5, 100⟩) := by
  refine ⟨by decide +kernel, ?_⟩
  intro same
  have inGroup := (same ⟨.null, .str "65536", .null⟩ rfl).1.mp rfl
  revert inGroup
  decide +kernel

end Statistics

end MileExplorer
