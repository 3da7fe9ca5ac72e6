import MileExplorer.Footprints
import MileExplorer.Genesis

/-!
# Loading the genesis

`update_genesis` adds one entry to the wallet of each transaction and a row to
the table of the genesis.  A row that is there already stays as it is: its
first field is a text or an object, which the update of an array field fails
on, and the failure only goes to the log.
-/

namespace MileExplorer

/-! ## Rows made of the fields of an object -/

namespace Json

/-- Distinct members that are assigned one by one are all there. -/
theorem member?_foldl_setMember {members : List (String × Json)}
    (nodup : (members.map Prod.fst).Nodup) (built : List (String × Json)) (key : String) :
    member? key (members.foldl (fun built entry => setMember entry.1 entry.2 built) built) =
      (member? key members).or (member? key built) := by
  induction members generalizing built with
  | nil => simp [member?]
  | cons head rest ih =>
      obtain ⟨fresh, restNodup⟩ := List.nodup_cons.mp nodup
      rw [List.foldl_cons, ih restNodup, member?_setMember, member?]
      split_ifs with own
      · have missing : member? key rest = none := by
          rw [← own]
          exact member?_eq_none.mpr fresh
        simp [missing]
      · rfl

theorem setMember_of_lt {Value : Type} {key name : String} (before : name < key)
    (value old : Value) (rest : List (String × Value)) :
    setMember key value ((name, old) :: rest) = (name, old) :: setMember key value rest := by
  rw [setMember, if_neg (ne_of_lt before), if_neg (not_lt_of_gt before)]

/-- The least of the names stays in front. -/
theorem exists_members_set {name key : String} (old value : Json)
    {members : List (String × Json)} (least : ∀ entry ∈ members, name < entry.1)
    (before : name < key) :
    ∃ rest, ((ofMembers ((name, old) :: members)).set key value).members = (name, old) :: rest := by
  suffices front : ∀ built, ∃ rest, members.foldl
      (fun built entry => setMember entry.1 entry.2 built) ((name, old) :: built) =
        (name, old) :: rest by
    obtain ⟨rest, same⟩ := front []
    refine ⟨setMember key value rest, ?_⟩
    rw [← setMember_of_lt before, ← same]
    rfl
  induction members with
  | nil => exact fun built => ⟨built, rfl⟩
  | cons head rest ih =>
      intro built
      rw [List.foldl_cons, setMember_of_lt (least head (by simp))]
      exact ih (fun entry member => least entry (by simp [member])) _

end Json

theorem find?_fieldRow_members {trx : Json} {members : List (String × Json)}
    (isObj : trx = .obj members) (ordered : Json.Ordered members) (noId : trx.find? "id" = none)
    (id key : String) :
    (Db.fieldRow id trx.members).find? key =
      if "id" = key then some (.str id) else trx.find? key := by
  subst isObj
  have assigned := Json.member?_foldl_setMember ordered.nodup [("id", .str id)] key
  change Json.member? key (members.foldl (fun built entry =>
    Json.setMember entry.1 entry.2 built) [("id", .str id)]) = _
  rw [assigned]
  change (Json.member? key members).or (if "id" = key then some (.str id) else none) =
    if "id" = key then some (.str id) else Json.member? key members
  split_ifs with own
  · have missing : Json.member? key members = none := by
      rw [← own]
      exact noId
    rw [missing, Option.none_or]
  · exact Option.or_none

namespace Genesis

/-! ## The transactions of the genesis -/

namespace Element

def digest : Element → String
  | .transfer _ _ _ publicKey _ => publicKey
  | _ => ""

def kindName : Element → String
  | .transfer _ _ _ _ _ => Kind.transfer.name
  | _ => Kind.registerNode.name

def rowKey (element : Element) : String :=
  rowId element.publicKey "0" (toString element.trxId)

/-- The call that adds the transaction to its wallet. -/
def update (element : Element) : WalletUpdate where
  address := element.publicKey
  call :=
    { blockId := 0
      entry := .ofMembers [("id", .str element.rowKey), ("block-id", .num (0 : Nat)),
        ("digest", .str element.digest), ("transaction-type", .str element.kindName),
        ("timestamp", .num 0)] }

variable {element : Element}

/-- The members that the parser writes in every transaction. -/
theorem find?_value (notNull : element ≠ .null) :
    element.value.find? "public-key" = some (.str element.publicKey) ∧
    element.value.find? "digest" = some (.str element.digest) ∧
    element.value.find? "transaction-id" = some (.str (toString element.trxId)) ∧
    element.value.find? "transaction-type" = some (.str element.kindName) ∧
    element.value.find? "id" = none ∧ element.value.find? "from" = none ∧
    element.value.find? "to" = none := by
  cases element with
  | null => exact absurd rfl notNull
  | registerNode address amount publicKey trxId =>
      simp [value, Element.publicKey, digest, Element.trxId, kindName, Json.find?_ofMembers,
        Json.member?_setMember, Json.member?]
  | transfer amount code fee publicKey trxId =>
      simp [value, Element.publicKey, digest, Element.trxId, kindName, Json.find?_ofMembers,
        Json.member?_setMember, Json.member?]

theorem isObject_value (notNull : element ≠ .null) : element.value.isObject = true :=
  Json.isObject_of_find? (find?_value notNull).1

theorem genesisId_value (notNull : element ≠ .null) :
    Db.genesisId element.value = .ok element.rowKey := by
  obtain ⟨publicKey, -, number, -⟩ := find?_value notNull
  rw [Db.genesisId, Json.index_of_find? publicKey, Json.index_of_find? number]
  rfl

/-- The wallet half makes one call for a transaction of the genesis. -/
theorem walletUpdates_value (notNull : element ≠ .null) :
    walletUpdates element.value 0 0 = ([element.update], .ok ()) := by
  obtain ⟨publicKey, digest, number, kind, -, noFrom, noTo⟩ := find?_value notNull
  have entries : findPublicKeys element.value (toString 0) =
      .ok [(element.publicKey, element.rowKey)] := by
    have sender : addPublicKey element.value (toString 0) [] "from" = .ok [] := by
      simp [addPublicKey, Json.count, noFrom]
    have owner : addPublicKey element.value (toString 0) [] "public-key" =
        .ok [(element.publicKey, element.rowKey)] := by
      rw [addPublicKey, if_neg (by simp [Json.count, publicKey]),
        Json.constText_eq_ok.mpr publicKey, Json.constText_eq_ok.mpr number]
      rfl
    rw [findPublicKeys, List.foldlM_cons, sender]
    exact congrArg (· >>= pure) owner
  have entry : Db.walletEntry element.value element.rowKey 0 0 = .ok element.update.call.entry := by
    rw [Db.walletEntry, Json.indexConst_of_find? digest, Json.indexConst_of_find? kind]
    rfl
  have number : stoull 0 = .ok 0 := rfl
  simp only [walletUpdates, number, entries, entryUpdates, entry, noTo]
  rfl

theorem isString_address (element : Element) (address : Json)
    (found : element.value.find? "address" = some address) : address.isString = true := by
  cases element with
  | null => cases found
  | registerNode word amount publicKey trxId =>
      simp [value, Json.find?_ofMembers, Json.member?_setMember] at found
      rw [← found]
      rfl
  | transfer amount code fee publicKey trxId =>
      simp [value, Json.find?_ofMembers, Json.member?_setMember, Json.member?] at found

theorem isObject_asset (element : Element) (asset : Json)
    (found : element.value.find? "asset" = some asset) : asset.isObject = true := by
  cases element with
  | null => cases found
  | registerNode word amount publicKey trxId =>
      simp [value, Json.find?_ofMembers, Json.member?_setMember, Json.member?] at found
  | transfer amount code fee publicKey trxId =>
      simp [value, Json.find?_ofMembers, Json.member?_setMember] at found
      rw [← found]
      rfl

theorem genesisFields_cons (notNull : element ≠ .null) (serial : Nat) :
    (∃ text rest, Db.genesisFields serial element = ("address", .str text) :: rest) ∨
      ∃ members rest, Db.genesisFields serial element = ("asset", .obj members) :: rest := by
  cases element with
  | null => exact absurd rfl notNull
  | registerNode address amount publicKey trxId =>
      refine .inl ⟨_, Json.exists_members_set _ _ ?_ (by decide +kernel)⟩
      simp only [List.forall_mem_cons, List.not_mem_nil, false_imp_iff, implies_true, and_true]
      decide +kernel
  | transfer amount code fee publicKey trxId =>
      refine .inr ⟨_, Json.exists_members_set _ _ ?_ (by decide +kernel)⟩
      simp only [List.forall_mem_cons, List.not_mem_nil, false_imp_iff, implies_true, and_true]
      decide +kernel

end Element

/-! ## The table of the genesis -/

def genesisRow (serial : Nat) (element : Element) : Json :=
  Db.fieldRow element.rowKey (Db.genesisFields serial element)

structure IsGenesisRow (row : Json) : Prop where
  key : ∃ publicKey, ∃ trxId : Nat, docId row = .str (rowId publicKey "0" (toString trxId))
  address : ∀ value, row.find? "address" = some value → value.isString = true
  asset : ∀ value, row.find? "asset" = some value → value.isObject = true

def GenesisFormed (table : Table) : Prop := ∀ row ∈ table.rows, IsGenesisRow row

theorem find?_genesisRow {element : Element} (notNull : element ≠ .null) (serial : Nat)
    (key : String) :
    (genesisRow serial element).find? key =
      if "id" = key then some (.str element.rowKey)
      else if "serial" = key then some (.num serial) else element.value.find? key := by
  have isObj := Element.isObject_value notNull
  have members (other : String) := Json.find?_set element.value isObj "serial" other (.num serial)
  obtain ⟨built, trxEq, ordered⟩ : ∃ built, element.value.set "serial" (.num serial) = .obj built ∧
      Json.Ordered built := by
    cases element with
    | null => exact absurd rfl notNull
    | registerNode address amount publicKey trxId =>
        obtain ⟨built, same, ordered⟩ := Json.ofMembers_ordered _
        exact ⟨_, congrArg (·.set "serial" (.num serial)) same, ordered.setMember _ _⟩
    | transfer amount code fee publicKey trxId =>
        obtain ⟨built, same, ordered⟩ := Json.ofMembers_ordered _
        exact ⟨_, congrArg (·.set "serial" (.num serial)) same, ordered.setMember _ _⟩
  have noId : (element.value.set "serial" (.num serial)).find? "id" = none := by
    rw [members, if_neg (by decide)]
    exact (Element.find?_value notNull).2.2.2.2.1
  rw [genesisRow, Db.genesisFields, find?_fieldRow_members trxEq ordered noId, members]

theorem docId_genesisRow {element : Element} (notNull : element ≠ .null) (serial : Nat) :
    docId (genesisRow serial element) = .str element.rowKey := by
  rw [docId, find?_genesisRow notNull]
  rfl

theorem isGenesisRow_genesisRow {element : Element} (notNull : element ≠ .null) (serial : Nat) :
    IsGenesisRow (genesisRow serial element) := by
  have members {key : String} (notId : "id" ≠ key) (notSerial : "serial" ≠ key) :
      (genesisRow serial element).find? key = element.value.find? key := by
    rw [find?_genesisRow notNull, if_neg notId, if_neg notSerial]
  refine ⟨⟨_, _, docId_genesisRow notNull serial⟩, ?_, ?_⟩
  · rw [members (by decide) (by decide)]
    exact element.isString_address
  · rw [members (by decide) (by decide)]
    exact element.isObject_asset

theorem rowId_ne_indexText (publicKey : String) (trxId : Nat) :
    rowId publicKey "0" (toString trxId) ≠ Db.indexText := by
  intro same
  have digits : (toString trxId).toList = Nat.toDigits 10 trxId := Nat.toList_repr
  have nonempty : Nat.toDigits 10 trxId ≠ [] := Nat.toDigits_ne_nil
  have ending : (Nat.toDigits 10 trxId).getLast? = Db.indexText.toList.getLast? := by
    rw [← same, toList_rowId, digits, List.getLast?_append_of_ne_nil _ (by simp),
      List.getLast?_cons, List.getLast?_append_of_ne_nil _ (by simp), List.getLast?_cons]
    cases last : (Nat.toDigits 10 trxId).getLast? with
    | none => exact absurd (List.getLast?_eq_none_iff.mp last) nonempty
    | some char => rfl
  have brace : '\x7d' ∈ Nat.toDigits 10 trxId := List.mem_of_getLast? (ending.trans (by decide))
  exact absurd (Nat.isDigit_of_mem_toDigits (by decide) (by decide) brace) (by decide)

theorem GenesisFormed.not_has_indexText {table : Table} (formed : GenesisFormed table) :
    ¬ table.Has (.str Db.indexText) := by
  intro has
  obtain ⟨row, found⟩ := KeyedTable.has_iff_get?.mp has
  obtain ⟨member, key⟩ := KeyedTable.get?_eq_some.mp found
  obtain ⟨publicKey, trxId, own⟩ := (formed row member).key
  exact rowId_ne_indexText publicKey trxId (Json.str.inj (own.symm.trans key))

theorem GenesisFormed.insert {table : Table} (formed : GenesisFormed table) {element : Element}
    (notNull : element ≠ .null) (serial : Nat) :
    GenesisFormed (table.insert (genesisRow serial element)) := by
  intro row member
  rcases KeyedTable.mem_insert.mp member with old | ⟨rfl, -⟩
  · exact formed row old
  · exact isGenesisRow_genesisRow notNull serial

/-! ## Updating the table -/

section Updates

variable {process : Process} {element : Element}

/-- A text is no array, and an object has no union with an object. -/
theorem IsGenesisRow.unionField_fails {row : Json} (isRow : IsGenesisRow row) :
    (∀ text, ∃ error, Db.unionField "address" (.str text) row = .error error) ∧
      ∀ members, ∃ error, Db.unionField "asset" (.obj members) row = .error error := by
  constructor
  · intro text
    unfold Db.unionField
    cases stored : row.find? "address" with
    | none => exact ⟨_, rfl⟩
    | some value =>
        have isText := isRow.address value stored
        cases value with
        | str stored => exact ⟨_, rfl⟩
        | _ => simp [Json.isString] at isText
  · intro members
    unfold Db.unionField
    cases stored : row.find? "asset" with
    | none => exact ⟨_, rfl⟩
    | some value =>
        have isObj := isRow.asset value stored
        cases value with
        | obj stored => exact ⟨_, rfl⟩
        | _ => simp [Json.isObject] at isObj

theorem unionEffect_genesisFields {store : Store}
    (formed : GenesisFormed (store .genesisTransactions)) (notNull : element ≠ .null)
    (serial : Nat) {id : String} {row : Json}
    (found : (store .genesisTransactions).get? (.str id) = some row) :
    ∃ field value rest error, Db.genesisFields serial element = (field, value) :: rest ∧
      Db.unionEffect .genesisTransactions id field value store = .error error := by
  obtain ⟨addressFails, assetFails⟩ :=
    (formed row (KeyedTable.get?_eq_some.mp found).1).unionField_fails
  rcases Element.genesisFields_cons notNull serial with ⟨text, rest, same⟩ | ⟨members, rest, same⟩
  · obtain ⟨error, fails⟩ := addressFails text
    exact ⟨"address", .str text, rest, error, same,
      by simp [Db.unionEffect, found, fails, bind, Except.bind]⟩
  · obtain ⟨error, fails⟩ := assetFails members
    exact ⟨"asset", .obj members, rest, error, same,
      by simp [Db.unionEffect, found, fails, bind, Except.bind]⟩

/-- A row is inserted if it is missing, and nothing changes if it is there. -/
theorem updateGenesisRow_run (formed : GenesisFormed (process.store .genesisTransactions))
    (notNull : element ≠ .null) (dumps : element.dumps = true) (serial : Nat) :
    (Db.updateGenesisRow element.rowKey serial element).run Process.exec process =
      (.ok (), process.withTable .genesisTransactions
        ((process.store .genesisTransactions).insert (genesisRow serial element))) := by
  have noIndex := formed.not_has_indexText
  have key := docId_genesisRow notNull serial
  rw [Db.updateGenesisRow, if_pos dumps, Program.run_bind, Db.updateFields, Program.run_ask,
    Process.exec_read]
  by_cases known : (process.store .genesisTransactions).Has (.str element.rowKey)
  · have status : Db.isEmpty .genesisTransactions element.rowKey process.store =
        .ok (.bool false) := by
      simp [Db.isEmpty, known]
    obtain ⟨row, found⟩ := KeyedTable.has_iff_get?.mp known
    obtain ⟨field, value, rest, error, fields, fails⟩ :=
      unionEffect_genesisFields formed notNull serial found
    have asked : Process.exec (.write (.update .genesisTransactions element.rowKey)
        (Db.unionEffect .genesisTransactions element.rowKey field value)) process =
          (.error error, process) := by
      simp [Process.exec, Process.execFaulty, fails]
    rw [KeyedTable.insert_of_has (by rw [key]; exact known), Process.withTable,
      Function.update_eq_self, status]
    simp only [fields, Db.unionFields, Program.run_ask, asked]
    rfl
  · have status : Db.isEmpty .genesisTransactions element.rowKey process.store =
        .ok (.bool true) := by
      simp [Db.isEmpty, known, noIndex]
    have idEq : (genesisRow serial element).find? "id" = some (.str element.rowKey) := by
      rw [find?_genesisRow notNull]
      rfl
    rw [status]
    simp only [Program.run_ask]
    rw [← genesisRow, Process.exec_write_of_ok
      (Db.insertEffect_of_isObject (Json.isObject_of_find? idEq))]
    rfl

/-- Nothing is stored of a transaction that cannot be dumped. -/
theorem updateGenesisRow_throws (dumps : element.dumps = false) (id : String) (serial : Nat) :
    (Db.updateGenesisRow id serial element).run Process.exec process =
      (.error (.typeError "invalid UTF-8 byte"), process) := by
  rw [Db.updateGenesisRow, if_neg (by simp [dumps]), Program.run_ask, Process.exec_read]
  rfl

end Updates

/-! ## The process after the genesis -/

def addElement (process : Process) (serial : Nat) (element : Element) : Process :=
  (process.updateWallet element.update).withTable .genesisTransactions
    ((process.store .genesisTransactions).insert (genesisRow serial element))

def addElements (process : Process) : Nat → List Element → Process
  | _, [] => process
  | serial, element :: rest => addElements (addElement process serial element) (serial + 1) rest

/-- What the rows of the wallets and of the genesis are like in every state. -/
structure RowsFormed (process : Process) : Prop where
  wallets : process.Formed
  keys : TextKeys (process.store .wallets)
  genesis : GenesisFormed (process.store .genesisTransactions)

section Loading

variable {process : Process} {element : Element} {serial : Nat}

@[simp]
theorem genesis_updateWallet (process : Process) (update : WalletUpdate) :
    (process.updateWallet update).store .genesisTransactions =
      process.store .genesisTransactions := by
  simp [Process.updateWallet]

@[simp]
theorem wallets_addElement (process : Process) (serial : Nat) (element : Element) :
    (addElement process serial element).store .wallets =
      updatedWallets (process.store .wallets) element.update := by
  simp [addElement, Process.updateWallet]

@[simp]
theorem genesis_addElement (process : Process) (serial : Nat) (element : Element) :
    (addElement process serial element).store .genesisTransactions =
      (process.store .genesisTransactions).insert (genesisRow serial element) := by
  simp [addElement]

theorem textKeys_updatedWallets {table : Table} (keys : TextKeys table) (update : WalletUpdate) :
    TextKeys (updatedWallets table update) := by
  intro key has
  by_cases own : key = .str update.address
  · exact ⟨_, own⟩
  · apply keys key
    rw [KeyedTable.has_iff_get?] at has ⊢
    rwa [get?_updatedWallets_of_key_ne own] at has

theorem RowsFormed.addElement (formed : RowsFormed process) (notNull : element ≠ .null)
    (serial : Nat) : RowsFormed (addElement process serial element) := by
  refine ⟨?_, ?_, ?_⟩
  · rw [Process.Formed, wallets_addElement]
    exact formed.wallets.update _
  · rw [wallets_addElement]
    exact textKeys_updatedWallets formed.keys _
  · rw [genesis_addElement]
    exact formed.genesis.insert notNull serial

theorem RowsFormed.addElements {elements : List Element} (formed : RowsFormed process)
    (notNull : ∀ element ∈ elements, element ≠ .null) (serial : Nat) :
    RowsFormed (addElements process serial elements) := by
  induction elements generalizing process serial with
  | nil => exact formed
  | cons element rest ih =>
      exact ih (formed.addElement (notNull element (by simp)) serial)
        (fun other member => notNull other (by simp [member])) _

theorem addGenesisTransaction_run (formed : RowsFormed process) (notNull : element ≠ .null)
    (dumps : element.dumps = true) (serial : Nat) :
    (Db.addGenesisTransaction serial element).run Process.exec process =
      (.ok (), addElement process serial element) := by
  have stillFormed : GenesisFormed
      ((process.updateWallet element.update).store .genesisTransactions) := by
    rw [genesis_updateWallet]
    exact formed.genesis
  rw [Db.addGenesisTransaction, Program.run_bind, addWalletTransaction_run _ _ _ formed.wallets,
    Element.walletUpdates_value notNull]
  simp only [Element.genesisId_value notNull, List.foldl_cons, List.foldl_nil,
    updateGenesisRow_run stillFormed notNull dumps, genesis_updateWallet]
  rfl

theorem addGenesisTransaction_throws (formed : RowsFormed process) (notNull : element ≠ .null)
    (dumps : element.dumps = false) (serial : Nat) :
    ∃ exception after, (Db.addGenesisTransaction serial element).run Process.exec process =
      (.error exception, after) := by
  rw [Db.addGenesisTransaction, Program.run_bind, addWalletTransaction_run _ _ _ formed.wallets,
    Element.walletUpdates_value notNull]
  simp only [Element.genesisId_value notNull, updateGenesisRow_throws dumps]
  exact ⟨_, _, rfl⟩

theorem addGenesisTransactions_run {elements : List Element} (formed : RowsFormed process)
    (good : ∀ element ∈ elements, element ≠ .null ∧ element.dumps = true) (serial : Nat) :
    (Db.addGenesisTransactions serial elements).run Process.exec process =
      (.ok (), addElements process serial elements) := by
  induction elements generalizing process serial with
  | nil => rfl
  | cons element rest ih =>
      obtain ⟨notNull, dumps⟩ := good element (by simp)
      rw [Db.addGenesisTransactions, Program.run_bind,
        addGenesisTransaction_run formed notNull dumps]
      exact ih (formed.addElement notNull serial)
        (fun other member => good other (by simp [member])) (serial + 1)

theorem addGenesisTransactions_throws {elements : List Element} (formed : RowsFormed process)
    (notNull : ∀ element ∈ elements, element ≠ .null) (member : element ∈ elements)
    (dumps : element.dumps = false) (serial : Nat) :
    ∃ exception after, (Db.addGenesisTransactions serial elements).run Process.exec process =
      (.error exception, after) := by
  induction elements generalizing process serial with
  | nil => simp at member
  | cons first rest ih =>
      have firstNotNull := notNull first (by simp)
      rw [Db.addGenesisTransactions, Program.run_bind]
      cases firstDumps : first.dumps with
      | false =>
          obtain ⟨exception, after, throws⟩ :=
            addGenesisTransaction_throws formed firstNotNull firstDumps serial
          rw [throws]
          exact ⟨exception, after, rfl⟩
      | true =>
          have later : element ∈ rest := by
            rcases List.mem_cons.mp member with rfl | later
            · rw [dumps] at firstDumps
              cases firstDumps
            · exact later
          rw [addGenesisTransaction_run formed firstNotNull firstDumps]
          exact ih (formed.addElement firstNotNull serial)
            (fun other otherMem => notNull other (by simp [otherMem])) later (serial + 1)

theorem updateWalletsStateFor_run {items : List Json}
    (texts : ∀ item ∈ items, ∃ publicKey, item = .str publicKey) (process : Process) :
    ∃ stateQueue, (Db.updateWalletsStateFor items).run Process.exec process =
      (.ok (), { process with stateQueue := stateQueue }) := by
  induction items generalizing process with
  | nil => exact ⟨process.stateQueue, rfl⟩
  | cons item rest ih =>
      obtain ⟨publicKey, rfl⟩ := texts item (by simp)
      exact ih (fun other member => texts other (by simp [member]))
        { process with stateQueue := process.stateQueue ++ [publicKey] }

theorem updateWalletsState_run (keys : TextKeys (process.store .wallets)) :
    ∃ stateQueue, Db.updateWalletsState.run Process.exec process =
      (.ok (), { process with stateQueue := stateQueue }) := by
  rw [Db.updateWalletsState, Program.run_bind, Db.run_getData]
  apply updateWalletsStateFor_run
  intro item member
  obtain ⟨row, isRow, idEq⟩ := List.mem_filterMap.mp member
  obtain ⟨id, own⟩ := keys (docId row) (KeyedTable.has_of_mem isRow)
  rw [docId_of_find? idEq] at own
  exact ⟨id, own⟩

/-- Transactions that can be dumped are all stored. -/
theorem updateGenesis_run {elements : List Element} (formed : RowsFormed process)
    (good : ∀ element ∈ elements, element ≠ .null ∧ element.dumps = true) :
    ∃ stateQueue, (Db.updateGenesis elements).run Process.exec process =
      (.ok (), { addElements process 0 elements with stateQueue := stateQueue }) := by
  have stillFormed := formed.addElements (fun element member => (good element member).1) 0
  rw [Db.updateGenesis, Program.run_bind, addGenesisTransactions_run formed good]
  exact updateWalletsState_run stillFormed.keys

theorem dumps_of_updateGenesis {elements : List Element} (formed : RowsFormed process)
    (notNull : ∀ element ∈ elements, element ≠ .null) {after : Process}
    (completes : (Db.updateGenesis elements).run Process.exec process = (.ok (), after)) :
    ∀ element ∈ elements, element.dumps = true := by
  intro element member
  by_contra garbled
  obtain ⟨exception, later, throws⟩ :=
    addGenesisTransactions_throws formed notNull member (by simpa using garbled) 0
  rw [Db.updateGenesis, Program.run_bind, throws] at completes
  cases completes

end Loading

/-! ## Rows stay as they should be -/

section Kept

variable {process : Process}

theorem RowsFormed.withStateQueue (formed : RowsFormed process) (stateQueue : List String) :
    RowsFormed { process with stateQueue := stateQueue } :=
  ⟨formed.wallets, formed.keys, formed.genesis⟩

/-- The body of the loop, whatever was pushed for the line. -/
theorem RowsFormed.addGenesisTransaction (formed : RowsFormed process) (serial : Nat)
    (element : Element) :
    RowsFormed ((Db.addGenesisTransaction serial element).run Process.exec process).2 := by
  by_cases notNull : element ≠ .null
  · cases dumps : element.dumps with
    | true =>
        rw [addGenesisTransaction_run formed notNull dumps]
        exact formed.addElement notNull serial
    | false =>
        rw [Db.addGenesisTransaction, Program.run_bind,
          addWalletTransaction_run _ _ _ formed.wallets, Element.walletUpdates_value notNull]
        simp only [Element.genesisId_value notNull, updateGenesisRow_throws dumps]
        refine ⟨formed.wallets.updateWallet _, ?_, ?_⟩
        · change TextKeys (Function.update process.store .wallets _ .wallets)
          rw [Function.update_self]
          exact textKeys_updatedWallets formed.keys _
        · rw [List.foldl_cons, List.foldl_nil, genesis_updateWallet]
          exact formed.genesis
  · obtain rfl : element = .null := by simpa using notNull
    exact formed

theorem RowsFormed.addGenesisTransactions {elements : List Element} (formed : RowsFormed process)
    (serial : Nat) :
    RowsFormed ((Db.addGenesisTransactions serial elements).run Process.exec process).2 := by
  induction elements generalizing process serial with
  | nil => exact formed
  | cons element rest ih =>
      have kept := formed.addGenesisTransaction serial element
      rw [Db.addGenesisTransactions, Program.run_bind]
      generalize (Db.addGenesisTransaction serial element).run Process.exec process = added at kept
      obtain ⟨ended, after⟩ := added
      cases ended with
      | error exception => exact kept
      | ok done => exact ih kept (serial + 1)

theorem RowsFormed.updateGenesis (formed : RowsFormed process) (elements : List Element) :
    RowsFormed ((Db.updateGenesis elements).run Process.exec process).2 := by
  have kept : RowsFormed ((Db.addGenesisTransactions 0 elements).run Process.exec process).2 :=
    formed.addGenesisTransactions 0
  rw [Db.updateGenesis, Program.run_bind]
  generalize (Db.addGenesisTransactions 0 elements).run Process.exec process = added at kept
  obtain ⟨ended, after⟩ := added
  cases ended with
  | error exception => exact kept
  | ok done =>
      obtain ⟨stateQueue, states⟩ := updateWalletsState_run kept.keys
      dsimp only
      rw [states]
      exact kept.withStateQueue stateQueue

theorem fetchGenesis_run_of_none {Value : Type} {library : Library Value} {buffer : Bytes}
    (rejected : parser library buffer = none) :
    (fetchGenesis library (some buffer)).run Process.exec process =
      (.error .emptyOptional, process) := by
  rw [Genesis.fetchGenesis]
  simp only [rejected]
  rfl

theorem fetchGenesis_run_of_some {Value : Type} {library : Library Value} {buffer : Bytes}
    {elements : List Element} (parsed : parser library buffer = some elements) :
    (fetchGenesis library (some buffer)).run Process.exec process =
      (((Db.updateGenesis elements).run Process.exec process).1.mapError .exception,
        ((Db.updateGenesis elements).run Process.exec process).2) := by
  rw [Genesis.fetchGenesis]
  simp only [parsed, Program.run_bind]
  generalize (Db.updateGenesis elements).run Process.exec process = updated
  obtain ⟨ended, after⟩ := updated
  cases ended <;> rfl

theorem RowsFormed.fetchGenesis {Value : Type} (formed : RowsFormed process)
    (library : Library Value) (body : Option Bytes) :
    RowsFormed ((fetchGenesis library body).run Process.exec process).2 := by
  cases body with
  | none => exact formed
  | some buffer =>
      cases parsed : parser library buffer with
      | none =>
          rw [fetchGenesis_run_of_none parsed]
          exact formed
      | some elements =>
          rw [fetchGenesis_run_of_some parsed]
          exact formed.updateGenesis elements

end Kept

/-! ## Runs -/

/-- A query of a wallet call or the begin of one, an iteration of
`fetch_genesis`, or a step of the indexer that leaves the wallets and the table
of the genesis alone. -/
inductive Move where
  | wallet (move : WalletMove)
  | fetch (body : Option Bytes)
  | other (process : Process)

def step {Value : Type} (library : Library Value) (run : WalletRun) : Move → Option WalletRun
  | .wallet move => walletStep run move
  | .fetch body => some ⟨((fetchGenesis library body).run Process.exec run.process).2, run.running⟩
  | .other process => some ⟨process, run.running⟩

def Undisturbed (run : WalletRun) : Move → Prop
  | .other process => process.store .wallets = run.table ∧
      process.store .genesisTransactions = run.process.store .genesisTransactions
  | _ => True

theorem query_writes (call : RunningCall) (process : Process) :
    Writes [.wallets] process (Process.exec call.query process).2 := by
  obtain ⟨update, phase⟩ := call
  cases phase with
  | checking => exact (Db.read_writesOnly _ _ process).1
  | inserting => exact (Db.write_writesOnly (by simp) Db.insertEffect_confined process).1
  | addingBlock => exact (Db.write_writesOnly (by simp) Db.unionEffect_confined process).1
  | addingEntry => exact (Db.write_writesOnly (by simp) Db.unionEffect_confined process).1

theorem genesis_walletMove {run next : WalletRun} {move : WalletMove}
    (moved : walletStep run move = some next) :
    next.process.store .genesisTransactions = run.process.store .genesisTransactions := by
  cases move with
  | call update =>
      obtain rfl := Option.some.inj moved
      rfl
  | advance position =>
      obtain ⟨call, -, rfl⟩ := Option.map_eq_some_iff.mp moved
      exact query_writes call run.process .genesisTransactions (by simp)

theorem RowsFormed.walletMove {run next : WalletRun} {move : WalletMove}
    (formed : RowsFormed run.process) (moved : walletStep run move = some next) :
    RowsFormed next.process := by
  have keys := formed.keys.move formed.wallets moved
  have genesis : GenesisFormed (next.process.store .genesisTransactions) := by
    rw [genesis_walletMove moved]
    exact formed.genesis
  cases move with
  | call update =>
      obtain rfl := Option.some.inj moved
      exact formed
  | advance position =>
      obtain ⟨call, -, rfl⟩ := Option.map_eq_some_iff.mp moved
      obtain ⟨going, callStep, -⟩ := WalletRun.ask_callStep formed.wallets position call
      exact ⟨callStep.formed formed.wallets, keys, genesis⟩

theorem RowsFormed.move {Value : Type} {library : Library Value} {run next : WalletRun}
    {move : Move} (formed : RowsFormed run.process) (undisturbed : Undisturbed run move)
    (moved : step library run move = some next) : RowsFormed next.process := by
  cases move with
  | wallet move => exact formed.walletMove moved
  | fetch body =>
      obtain rfl := Option.some.inj moved
      exact formed.fetchGenesis library body
  | other process =>
      obtain rfl := Option.some.inj moved
      obtain ⟨wallets, genesis⟩ := undisturbed
      refine ⟨?_, ?_, ?_⟩
      · rw [Process.Formed, wallets]
        exact formed.wallets
      · rw [wallets]
        exact formed.keys
      · rw [genesis]
        exact formed.genesis

theorem RowsFormed.reached {Value : Type} {library : Library Value} {run : WalletRun}
    (reached : Reaches (step library) Undisturbed quietRun run) : RowsFormed run.process := by
  refine reached.invariant (fun run => RowsFormed run.process) ?_ ?_
  · refine ⟨?_, ?_, ?_⟩
    · intro row member
      cases member
    · intro key has
      exact absurd has (KeyedTable.not_has_empty key)
    · intro row member
      cases member
  · intro current move next formed undisturbed moved
    exact formed.move undisturbed moved

/-! ## Texts that are processed cleanly -/

/-- An object with the texts that a transaction of the genesis should have. -/
def IsTrx (trx : Json) : Prop :=
  trx.isObject = true ∧ ∀ key ∈ ["public-key", "digest", "transaction-id", "transaction-type"],
    ∃ text, trx.find? key = some (.str text)

/-- There is one row for each transaction, and besides those only rows that were
there before. -/
structure StoresEach (elements : List Element) (before after : Table) : Prop where
  distinct : (elements.map fun element => (Db.genesisId element.value).toOption).Nodup
  stored : ∀ position element, elements[position]? = some element →
    ∃ id row, Db.genesisId element.value = .ok id ∧ after.get? (.str id) = some row ∧
      (¬ before.Has (.str id) → row = Db.fieldRow id (Db.genesisFields position element))
  only : ∀ row ∈ after.rows, row ∈ before.rows ∨
    ∃ element ∈ elements, ∃ id, Db.genesisId element.value = .ok id ∧ docId row = .str id

/-- The text is processed as a whole, with one transaction for each line that
has a keyword, or rejected with no table changed. -/
def Clean {Value : Type} (library : Library Value) (buffer : Bytes) (process : Process) : Prop :=
  let iteration := (fetchGenesis library (some buffer)).run Process.exec process
  iteration.1 = .ok () ∧
    match parser library buffer with
    | none => iteration.2.store = process.store
    | some elements =>
        (∀ element ∈ elements, IsTrx element.value) ∧
        elements.length = (linesOf buffer).countP (fun line => HasKeyword (wordsOf line)) ∧
        StoresEach elements (process.store .genesisTransactions)
          (iteration.2.store .genesisTransactions)

def genesisRows : Nat → List Element → List Json
  | _, [] => []
  | serial, element :: rest => genesisRow serial element :: genesisRows (serial + 1) rest

section Stored

variable {elements : List Element}

theorem genesis_addElements (process : Process) (serial : Nat) (elements : List Element) :
    (addElements process serial elements).store .genesisTransactions =
      (process.store .genesisTransactions).insertMany (genesisRows serial elements) := by
  induction elements generalizing process serial with
  | nil => rfl
  | cons element rest ih => rw [addElements, ih, genesis_addElement, genesisRows,
      KeyedTable.insertMany_cons]

theorem getElem?_genesisRows (serial : Nat) (elements : List Element) (position : Nat) :
    (genesisRows serial elements)[position]? =
      elements[position]?.map (genesisRow (serial + position)) := by
  induction elements generalizing serial position with
  | nil => rfl
  | cons element rest ih =>
      cases position with
      | zero => rfl
      | succ position =>
          rw [genesisRows, List.getElem?_cons_succ, List.getElem?_cons_succ, ih]
          congr 2
          omega

theorem mem_genesisRows {serial : Nat} {row : Json} (member : row ∈ genesisRows serial elements) :
    ∃ number, ∃ element ∈ elements, row = genesisRow number element := by
  obtain ⟨position, found⟩ := List.mem_iff_getElem?.mp member
  rw [getElem?_genesisRows] at found
  obtain ⟨element, isElement, rfl⟩ := Option.map_eq_some_iff.mp found
  exact ⟨_, element, List.mem_of_getElem? isElement, rfl⟩

theorem map_docId_genesisRows (notNull : ∀ element ∈ elements, element ≠ .null) (serial : Nat) :
    (genesisRows serial elements).map docId =
      elements.map fun element => .str element.rowKey := by
  induction elements generalizing serial with
  | nil => rfl
  | cons element rest ih =>
      obtain ⟨own, others⟩ := List.forall_mem_cons.mp notNull
      rw [genesisRows, List.map_cons, List.map_cons, docId_genesisRow own, ih others]

theorem trxId_eq_of_rowKey {first second : Element} (same : first.rowKey = second.rowKey) :
    first.trxId = second.trxId := by
  have texts := congrArg (fun text => text.toList.reverse) same
  simp only [Element.rowKey, toList_rowId, List.reverse_append, List.reverse_cons,
    List.append_assoc, List.singleton_append] at texts
  have free (number : Nat) : ':' ∉ (toString number).toList.reverse := by
    rw [List.mem_reverse]
    exact colon_not_mem_toString number
  have numbers := (eq_of_append_separator (free _) (free _) texts).1
  exact toString_injective (String.toList_inj.mp (List.reverse_injective numbers))

theorem nodup_rowKeys {Value : Type} {library : Library Value} {lines : List Bytes} {trxId : Nat}
    (parsed : parseLines library trxId lines = .ok elements)
    (notNull : ∀ element ∈ elements, element ≠ .null) :
    (elements.map Element.rowKey).Nodup := by
  have numbers : (elements.map Element.trxId).Nodup := by
    rw [trxIds_of_parseLines parsed notNull]
    exact List.nodup_range'
  apply List.pairwise_map.mpr
  exact (List.pairwise_map.mp numbers).imp fun apart same => apart (trxId_eq_of_rowKey same)

/-- The rows of transactions that are numbered by their lines. -/
theorem storesEach_insertMany (notNull : ∀ element ∈ elements, element ≠ .null)
    (nodup : (elements.map Element.rowKey).Nodup) (before : Table) :
    StoresEach elements before (before.insertMany (genesisRows 0 elements)) := by
  have keys : ((genesisRows 0 elements).map docId).Nodup := by
    rw [map_docId_genesisRows notNull]
    apply List.pairwise_map.mpr
    exact (List.pairwise_map.mp nodup).imp fun apart same => apart (Json.str.inj same)
  refine ⟨?_, ?_, ?_⟩
  · apply List.pairwise_map.mpr
    refine (List.pairwise_map.mp nodup).imp_of_mem ?_
    intro first second firstMem secondMem apart same
    rw [Element.genesisId_value (notNull first firstMem),
      Element.genesisId_value (notNull second secondMem)] at same
    exact apart (Option.some.inj same)
  · intro position element found
    have own := notNull element (List.mem_of_getElem? found)
    refine ⟨element.rowKey, ?_⟩
    by_cases known : before.Has (.str element.rowKey)
    · obtain ⟨row, isRow⟩ := KeyedTable.has_iff_get?.mp known
      obtain ⟨member, key⟩ := KeyedTable.get?_eq_some.mp isRow
      exact ⟨row, Element.genesisId_value own, KeyedTable.get?_eq_some.mpr
        ⟨KeyedTable.mem_insertMany_of_mem member, key⟩, fun absent => absurd known absent⟩
    · have key := docId_genesisRow own position
      have listed : genesisRow position element ∈ genesisRows 0 elements := by
        apply List.mem_of_getElem? (i := position)
        rw [getElem?_genesisRows, found, Nat.zero_add]
        rfl
      refine ⟨genesisRow position element, Element.genesisId_value own,
        KeyedTable.get?_eq_some.mpr ⟨?_, key⟩, fun _ => rfl⟩
      exact (KeyedTable.mem_insertMany keys).mpr (.inr ⟨listed, by rwa [key]⟩)
  · intro row member
    refine (KeyedTable.mem_of_mem_insertMany member).imp_right fun listed => ?_
    obtain ⟨number, element, isElement, rfl⟩ := mem_genesisRows listed
    have own := notNull element isElement
    exact ⟨element, isElement, element.rowKey, Element.genesisId_value own,
      docId_genesisRow own number⟩

theorem isTrx_value {element : Element} : IsTrx element.value ↔ element ≠ .null := by
  constructor
  · rintro ⟨isObj, -⟩ rfl
    cases isObj
  · intro notNull
    obtain ⟨publicKey, digest, number, kind, -⟩ := Element.find?_value notNull
    refine ⟨Element.isObject_value notNull, ?_⟩
    simp only [List.forall_mem_cons, List.not_mem_nil, false_imp_iff, implies_true, and_true]
    exact ⟨⟨_, publicKey⟩, ⟨_, digest⟩, ⟨_, number⟩, ⟨_, kind⟩⟩

end Stored

section Clean

variable {Value : Type} {library : Library Value} {buffer : Bytes} {elements : List Element}
  {process : Process}

theorem parser_of_parseLines (result : parseLines library 0 (linesOf buffer) = .ok elements) :
    parser library buffer = some elements := by
  rw [parser, result]
  rfl

theorem good_of_clean (formed : RowsFormed process)
    (result : parseLines library 0 (linesOf buffer) = .ok elements)
    (clean : Clean library buffer process) :
    ∀ element ∈ elements, element ≠ .null ∧ element.dumps = true := by
  have parsed := parser_of_parseLines result
  unfold Clean at clean
  rw [fetchGenesis_run_of_some parsed, parsed] at clean
  obtain ⟨ended, trxs, -⟩ := clean
  have notNull : ∀ element ∈ elements, element ≠ .null :=
    fun element member => isTrx_value.mp (trxs element member)
  have completes : (Db.updateGenesis elements).run Process.exec process =
      (.ok (), ((Db.updateGenesis elements).run Process.exec process).2) := by
    generalize (Db.updateGenesis elements).run Process.exec process = updated at ended ⊢
    obtain ⟨answer, after⟩ := updated
    cases answer with
    | error exception => cases ended
    | ok done => rfl
  exact fun element member =>
    ⟨notNull element member, dumps_of_updateGenesis formed notNull completes element member⟩

theorem clean_of_good (formed : RowsFormed process)
    (result : parseLines library 0 (linesOf buffer) = .ok elements)
    (good : ∀ element ∈ elements, element ≠ .null ∧ element.dumps = true) :
    Clean library buffer process := by
  have parsed := parser_of_parseLines result
  have notNull : ∀ element ∈ elements, element ≠ .null :=
    fun element member => (good element member).1
  have accepted := (accepted_lines_iff 0 (linesOf buffer)).mpr ⟨elements, result, good⟩
  obtain ⟨stateQueue, ran⟩ := updateGenesis_run formed good
  unfold Clean
  rw [fetchGenesis_run_of_some parsed, parsed, ran]
  refine ⟨rfl, fun element member => isTrx_value.mpr (notNull element member), ?_, ?_⟩
  · rw [length_parseLines result, eq_comm, List.countP_eq_length]
    intro line member
    simpa using (accepted line member).keyword
  · change StoresEach elements _ ((addElements process 0 elements).store _)
    rw [genesis_addElements]
    exact storesEach_insertMany notNull (nodup_rowKeys result notNull) _

end Clean

/-- In every state of a run a text is processed cleanly exactly if every line
of it is accepted.  The parser takes other lines for transactions that are
null, and `fetch_genesis` does not ask whether there is a result. -/
theorem clean_iff {Value : Type} {library : Library Value} {run : WalletRun}
    (reached : Reaches (step library) Undisturbed quietRun run) (buffer : Bytes) :
    Clean library buffer run.process ↔
      ∀ line ∈ linesOf buffer, Accepted library (wordsOf line) := by
  have formed := RowsFormed.reached reached
  rw [accepted_lines_iff 0]
  cases result : parseLines library 0 (linesOf buffer) with
  | error exception =>
      have rejected : parser library buffer = none := by
        rw [parser, result]
        rfl
      unfold Clean
      rw [fetchGenesis_run_of_none rejected]
      simp
  | ok elements =>
      constructor
      · intro clean
        exact ⟨elements, rfl, good_of_clean formed result clean⟩
      · rintro ⟨_, same, good⟩
        obtain rfl := Except.ok.inj same
        exact clean_of_good formed result good

def sampleKey : String := "xBWNvpnXpgazLVE16t7pQkdrzvyavwArTTM9iJQ2cJr6eg3b7"

/-- Decimal numbers, of which the part before the point counts. -/
def sampleStof (word : Bytes) : Except Exn Nat :=
  let digits := word.takeWhile fun byte => 48 ≤ byte ∧ byte ≤ 57
  if digits = [] then .error (.standard "stof")
  else .ok (digits.foldl (fun number byte => 10 * number + (byte.toNat - 48)) 0)

/-- Tokens print their amounts with their own numbers of digits. -/
def sampleLibrary : Library Nat where
  validatePublicKey text := text = sampleKey
  stof := sampleStof
  zero := 0
  valueToString
    | .mile, value => toString value ++ ".00000"
    | .xdr, value => toString value ++ ".00"
    | .nill, value => toString value
  code
    | .mile => 1
    | _ => 0

def sampleLine : String := "transfer XDR " ++ sampleKey ++ " 1000"

def sampleText : String := sampleLine ++ "\namount-register-node " ++ sampleKey ++ " 10.0.0.1 500"

theorem clean_iff_transfer_and_node :
    Reaches (step sampleLibrary) Undisturbed quietRun quietRun ∧
    (∀ line ∈ linesOf (bytesOf sampleText), Accepted sampleLibrary (wordsOf line)) ∧
    Clean sampleLibrary (bytesOf sampleText) quietRun.process := by
  have accepted : ∀ line ∈ linesOf (bytesOf sampleText),
      Accepted sampleLibrary (wordsOf line) := by
    have lines : linesOf (bytesOf sampleText) = [bytesOf sampleLine,
        bytesOf ("amount-register-node " ++ sampleKey ++ " 10.0.0.1 500")] := by
      decide +kernel
    intro line member
    rw [lines, List.mem_pair] at member
    rcases member with rfl | rfl
    · exact ⟨by decide +kernel, ⟨"1000.00", 1000, by decide +kernel, by decide +kernel⟩,
        by decide +kernel⟩
    · exact ⟨by decide +kernel, ⟨"500", 500, by decide +kernel, by decide +kernel⟩,
        by decide +kernel⟩
  exact ⟨.refl, accepted, (clean_iff .refl _).mpr accepted⟩

/-- A comment after a transfer: the parser pushes null for it. -/
theorem comment_not_clean :
    ¬ Clean sampleLibrary (bytesOf (sampleLine ++ "\n# end")) quietRun.process := by
  rintro ⟨ended, -⟩
  have thrown : ((fetchGenesis sampleLibrary (some (bytesOf (sampleLine ++ "\n# end")))).run
      Process.exec quietRun.process).1 ≠ .ok () := by
    decide +kernel
  exact thrown ended

end Genesis

end MileExplorer
