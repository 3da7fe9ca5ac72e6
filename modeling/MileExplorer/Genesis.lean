import MileExplorer.TransactionKeys
import MileExplorer.WalletRows

/-!
# The genesis

The fetcher downloads a text with the transactions of the genesis, one to a
line, and `update_genesis` adds them to the wallets and to a table of their
own.  The parser goes through the words of a line and keeps what it
recognises; at the end of the line it pushes whatever it has built, which is
null unless one of two keywords was among the words.
-/

namespace MileExplorer

namespace Genesis

/-! ## Texts -/

/-- The bytes of a `std::string`. -/
abbrev Bytes := List UInt8

def bytesOf (text : String) : Bytes := text.toUTF8.toList

def textOf (bytes : Bytes) : Option String := String.fromUTF8? bytes.toByteArray

/-- `boost::tokenizer` with a `char_separator`, which drops empty tokens. -/
def tokens (separator : UInt8) (bytes : Bytes) : List Bytes :=
  (bytes.splitOn separator).filter (· ≠ [])

/-- `boost::to_lower_copy`. -/
def toLowerCopy (word : Bytes) : Bytes :=
  word.map fun byte => if 65 ≤ byte ∧ byte ≤ 90 then byte + 32 else byte

def linesOf (buffer : Bytes) : List Bytes := tokens 10 buffer

def wordsOf (line : Bytes) : List Bytes := tokens 32 line

/-! ## Transactions -/

/-- The tokens of `milecsa::assets`. -/
inductive Token where
  | nill
  | xdr
  | mile
  deriving DecidableEq

/-- What the parser takes from outside this repository: the check of a public
key, which accepts texts only, the conversion of a word to a number, and the
codes of the tokens and how they print amounts. -/
structure Library (Value : Type) where
  validatePublicKey : String → Bool
  stof : Bytes → Except Exn Value
  zero : Value
  valueToString : Token → Value → String
  code : Token → Nat

inductive Kind where
  | transfer
  | registerNode
  deriving DecidableEq

def Kind.name : Kind → String
  | .transfer => "TransferAssetsTransaction"
  | .registerNode => "RegisterNodeTransactionWithAmount"

/-- What the parser pushes for a line.  The address of a node is a word of the
text as it stands. -/
inductive Element where
  | null
  | registerNode (address : Bytes) (amount publicKey : String) (trxId : Nat)
  | transfer (amount : String) (code : Nat) (fee publicKey : String) (trxId : Nat)
  deriving DecidableEq

namespace Element

/-- The value of an element.  An address that is not UTF-8 has no text here;
nothing looks at it before `dump` does. -/
def value : Element → Json
  | .null => .null
  | .registerNode address amount publicKey trxId =>
      .ofMembers [("address", .str ((textOf address).getD "")), ("amount", .str amount),
        ("digest", .str ""), ("public-key", .str publicKey), ("signature", .str ""),
        ("transaction-id", .str (toString trxId)),
        ("transaction-type", .str Kind.registerNode.name)]
  | .transfer amount code fee publicKey trxId =>
      .ofMembers [("asset", .ofMembers [("amount", .str amount), ("code", .str (toString code))]),
        ("description", .str ""), ("digest", .str publicKey), ("fee", .str fee),
        ("public-key", .str publicKey), ("signature", .str ""),
        ("transaction-id", .str (toString trxId)),
        ("transaction-type", .str Kind.transfer.name)]

def publicKey : Element → String
  | .null => ""
  | .registerNode _ _ publicKey _ => publicKey
  | .transfer _ _ _ publicKey _ => publicKey

def trxId : Element → Nat
  | .null => 0
  | .registerNode _ _ _ trxId => trxId
  | .transfer _ _ _ _ trxId => trxId

/-- `dump` throws on a text that is not UTF-8. -/
def dumps : Element → Bool
  | .registerNode address _ _ _ => (textOf address).isSome
  | _ => true

end Element

/-! ## The parser -/

section Parser

variable {Value : Type} (library : Library Value)

structure Line where
  transactionType : Option Kind
  asset : Token
  publicKey : String
  amount : String
  address : Bytes
  column : Nat
  deriving DecidableEq

def Line.start : Line := ⟨none, .nill, "", "", [], 0⟩

def recognise (line : Line) (word : Bytes) : Line :=
  let lower := toLowerCopy word
  if lower = bytesOf "transfer" then { line with transactionType := some .transfer }
  else if lower = bytesOf "amount-register-node" then
    { line with transactionType := some .registerNode }
  else if lower = bytesOf "xdr" then { line with asset := .xdr }
  else if lower = bytesOf "mile" then { line with asset := .mile }
  else
    match textOf word with
    | some text =>
        if library.validatePublicKey text then { line with publicKey := text } else line
    | none => line

def readAddress (line : Line) (word : Bytes) : Line :=
  if line.transactionType = some .registerNode ∧ line.column = 2 then
    { line with address := word }
  else line

def readAmount (line : Line) (word : Bytes) : Except Exn Line :=
  if line.column = 3 then do
    return { line with amount := library.valueToString line.asset (← library.stof word) }
  else return line

def readWord (line : Line) (word : Bytes) : Except Exn Line := do
  let line ← readAmount library (readAddress (recognise library line word) word) word
  return { line with column := line.column + 1 }

/-- What is pushed at the end of a line. -/
def elementOf (trxId : Nat) (line : Line) : Except Exn Element :=
  match line.transactionType with
  | some .registerNode => do
      let amount ← library.stof (bytesOf line.amount)
      return .registerNode line.address (library.valueToString .xdr amount) line.publicKey trxId
  | some .transfer => do
      let amount ← library.stof (bytesOf line.amount)
      return .transfer (library.valueToString line.asset amount) (library.code line.asset)
        (library.valueToString line.asset library.zero) line.publicKey trxId
  | none => return .null

def parseLine (trxId : Nat) (line : Bytes) : Except Exn Element := do
  elementOf library trxId (← (wordsOf line).foldlM (readWord library) Line.start)

def parseLines (trxId : Nat) : List Bytes → Except Exn (List Element)
  | [] => return []
  | line :: rest => do
      let element ← parseLine library trxId line
      return element :: (← parseLines (trxId + 1) rest)

/-- `Genesis::Parser`, which returns nothing if anything throws. -/
def parser (buffer : Bytes) : Option (List Element) :=
  (parseLines library 0 (linesOf buffer)).toOption

end Parser

end Genesis

/-! ## Storing the genesis -/

def Json.members : Json → List (String × Json)
  | .obj members => members
  | _ => []

namespace Db

open Genesis

def updateWalletsStateFor : List Json → Prog (Except Exn Unit)
  | [] => return .ok ()
  | item :: rest =>
      match item.getString with
      | .error exception => return .error exception
      | .ok publicKey => do
          Program.request (.asyncState publicKey) fun _ => ()
          updateWalletsStateFor rest

def updateWalletsState : Prog (Except Exn Unit) := do
  let items ← getData (.snapshot .wallets) ((cursor .wallets).field "id")
  updateWalletsStateFor items.elements

def genesisId (trx : Json) : Except Exn String := do
  let publicKey ← trx.index "public-key" >>= Json.getString
  let trxId ← trx.index "transaction-id" >>= Json.getString
  return rowId publicKey "0" trxId

def genesisFields (serial : Nat) (element : Element) : List (String × Json) :=
  (element.value.set "serial" (.num serial)).members

/-- `Table::update(id, trx)`, which looks for the row before it dumps the
transaction. -/
def updateGenesisRow (id : String) (serial : Nat) (element : Element) :
    Prog (Except Exn Unit) :=
  if element.dumps then do
    updateFields id .genesisTransactions id (genesisFields serial element)
    return .ok ()
  else
    .ask (.read (.check .genesisTransactions id) (isEmpty .genesisTransactions id)) fun status =>
      match status with
      | .ok _ => .done (.error (.typeError "invalid UTF-8 byte"))
      | .error _ => .done (.ok ())

def addGenesisTransaction (serial : Nat) (element : Element) : Prog (Except Exn Unit) := do
  match ← addWalletTransaction element.value 0 0 with
  | .error exception => return .error exception
  | .ok _ =>
      match genesisId element.value with
      | .error exception => return .error exception
      | .ok id => updateGenesisRow id serial element

def addGenesisTransactions (serial : Nat) : List Element → Prog (Except Exn Unit)
  | [] => return .ok ()
  | element :: rest => do
      match ← addGenesisTransaction serial element with
      | .error exception => return .error exception
      | .ok _ => addGenesisTransactions (serial + 1) rest

def updateGenesis (genesis : List Element) : Prog (Except Exn Unit) := do
  match ← addGenesisTransactions 0 genesis with
  | .error exception => return .error exception
  | .ok _ => updateWalletsState

end Db

namespace Genesis

/-- How an iteration of `fetch_genesis` fails: by an exception, or by a look
into an empty optional. -/
inductive FetchFailure where
  | exception (exception : Exn)
  | emptyOptional
  deriving DecidableEq

/-- The part of an iteration of `fetch_genesis` after the request. -/
def fetchGenesis {Value : Type} (library : Library Value) (body : Option Bytes) :
    Prog (Except FetchFailure Unit) :=
  match body with
  | none => return .ok ()
  | some buffer =>
      match parser library buffer with
      | none => return .error .emptyOptional
      | some genesis => do
          match ← Db.updateGenesis genesis with
          | .error exception => return .error (.exception exception)
          | .ok _ => return .ok ()

/-! ## What the parser makes of a line -/

section Words

def keyword? (word : Bytes) : Option Kind :=
  if toLowerCopy word = bytesOf "transfer" then some .transfer
  else if toLowerCopy word = bytesOf "amount-register-node" then some .registerNode
  else none

def asset? (word : Bytes) : Option Token :=
  if toLowerCopy word = bytesOf "xdr" then some .xdr
  else if toLowerCopy word = bytesOf "mile" then some .mile
  else none

def lastOf {Item : Type} (item? : Bytes → Option Item) (words : List Bytes) : Option Item :=
  (words.filterMap item?).getLast?

theorem lastOf_append {Item : Type} (item? : Bytes → Option Item) (words : List Bytes)
    (word : Bytes) : lastOf item? (words ++ [word]) = (item? word).or (lastOf item? words) := by
  rw [lastOf, List.filterMap_append, List.getLast?_append]
  cases found : item? word <;> simp [found, lastOf]

/-- The third word of a line, if the line is known by then to be one of a
node. -/
def addressOf (words : List Bytes) : Bytes :=
  if lastOf keyword? (words.take 3) = some .registerNode then words[2]?.getD [] else []

variable {Value : Type} (library : Library Value)

/-- A public key that is none of the words the parser knows. -/
def key? (word : Bytes) : Option String :=
  if keyword? word = none ∧ asset? word = none then
    (textOf word).filter library.validatePublicKey
  else none

/-- The amount of a line: its fourth word, printed for the token known by
then. -/
def amountOf (words : List Bytes) : Except Exn String :=
  match words[3]? with
  | none => .ok ""
  | some word =>
      (library.stof word).map
        (library.valueToString ((lastOf asset? (words.take 4)).getD .nill))

def found (words : List Bytes) (amount : String) : Line where
  transactionType := lastOf keyword? words
  asset := (lastOf asset? words).getD .nill
  publicKey := (lastOf (key? library) words).getD ""
  amount := amount
  address := addressOf words
  column := words.length

theorem recognise_eq (line : Line) (word : Bytes) :
    recognise library line word =
      { line with
        transactionType := (keyword? word).or line.transactionType
        asset := (asset? word).getD line.asset
        publicKey := (key? library word).getD line.publicKey } := by
  have transferNeXdr : bytesOf "transfer" ≠ bytesOf "xdr" := by decide +kernel
  have transferNeMile : bytesOf "transfer" ≠ bytesOf "mile" := by decide +kernel
  have nodeNeXdr : bytesOf "amount-register-node" ≠ bytesOf "xdr" := by decide +kernel
  have nodeNeMile : bytesOf "amount-register-node" ≠ bytesOf "mile" := by decide +kernel
  unfold recognise key? keyword? asset?
  generalize toLowerCopy word = lower
  by_cases transfer : lower = bytesOf "transfer"
  · subst transfer
    simp [transferNeXdr, transferNeMile]
  by_cases node : lower = bytesOf "amount-register-node"
  · subst node
    simp [transfer, nodeNeXdr, nodeNeMile]
  by_cases xdr : lower = bytesOf "xdr"
  · subst xdr
    simp [transfer, node]
  by_cases mile : lower = bytesOf "mile"
  · subst mile
    simp [transfer, node, xdr]
  simp only [transfer, node, xdr, mile, if_false]
  cases textOf word with
  | none => simp
  | some text =>
      cases accepted : library.validatePublicKey text <;> simp [Option.filter, accepted]

theorem amountOf_append (words : List Bytes) (word : Bytes) :
    amountOf library (words ++ [word]) =
      if words.length = 3 then
        (library.stof word).map
          (library.valueToString ((lastOf asset? (words ++ [word])).getD .nill))
      else amountOf library words := by
  unfold amountOf
  split_ifs with third
  · have whole : (words ++ [word]).take 4 = words ++ [word] :=
      List.take_of_length_le (by simp [third])
    have last : (words ++ [word])[3]? = some word := by simp [← third]
    rw [whole, last]
  · rcases Nat.lt_or_gt_of_ne third with short | long
    · have missing : words[3]? = none := List.getElem?_eq_none (by omega)
      have stillMissing : (words ++ [word])[3]? = none :=
        List.getElem?_eq_none (by rw [List.length_append, List.length_singleton]; omega)
      rw [missing, stillMissing]
    · rw [List.getElem?_append_left (by omega), List.take_append_of_le_length (by omega)]

theorem addressOf_append (words : List Bytes) (word : Bytes) :
    addressOf (words ++ [word]) =
      if lastOf keyword? (words ++ [word]) = some .registerNode ∧ words.length = 2 then word
      else addressOf words := by
  unfold addressOf
  rcases Nat.lt_trichotomy words.length 2 with short | second | long
  · have missing : words[2]? = none := List.getElem?_eq_none (by omega)
    have stillMissing : (words ++ [word])[2]? = none :=
      List.getElem?_eq_none (by rw [List.length_append, List.length_singleton]; omega)
    rw [missing, stillMissing, if_neg (by omega : ¬ (_ ∧ words.length = 2))]
    simp
  · have whole : (words ++ [word]).take 3 = words ++ [word] :=
      List.take_of_length_le (by simp [second])
    have last : (words ++ [word])[2]? = some word := by simp [← second]
    have missing : words[2]? = none := List.getElem?_eq_none (by omega)
    rw [whole, last, missing]
    simp [second]
  · rw [List.getElem?_append_left (by omega), List.take_append_of_le_length (by omega),
      if_neg (by omega : ¬ (_ ∧ words.length = 2))]

theorem readWord_found (words : List Bytes) (amount : String) (word : Bytes) :
    readWord library (found library words amount) word =
      (if words.length = 3 then
          (library.stof word).map
            (library.valueToString ((lastOf asset? (words ++ [word])).getD .nill))
        else .ok amount).map (found library (words ++ [word])) := by
  have recognised : readAddress (recognise library (found library words amount) word) word =
      { found library (words ++ [word]) amount with column := words.length } := by
    have address := addressOf_append words word
    rw [recognise_eq, readAddress]
    by_cases isNode : lastOf keyword? (words ++ [word]) = some .registerNode ∧ words.length = 2
    · rw [if_pos isNode] at address
      refine (if_pos (by rwa [lastOf_append] at isNode)).trans ?_
      simp only [found, address, lastOf_append, Option.getD_or]
    · rw [if_neg isNode] at address
      refine (if_neg (by rwa [lastOf_append] at isNode)).trans ?_
      simp only [found, address, lastOf_append, Option.getD_or]
  rw [readWord, recognised, readAmount]
  simp only [found]
  split_ifs with third
  · cases library.stof word <;> simp [bind, Except.bind, pure, Except.pure, Except.map, found]
  · simp [bind, Except.bind, pure, Except.pure, Except.map, found]

/-- The loop fails only on the amount, and finds what it should. -/
theorem readWords_eq (words : List Bytes) :
    words.foldlM (readWord library) Line.start =
      (amountOf library words).map (found library words) := by
  induction words using List.reverseRecOn with
  | nil => rfl
  | append_singleton words word ih =>
      rw [List.foldlM_append, ih, amountOf_append]
      cases read : amountOf library words with
      | error exception =>
          have notThird : words.length ≠ 3 := by
            intro third
            have missing : words[3]? = none := List.getElem?_eq_none (by omega)
            simp [amountOf, missing] at read
          rw [if_neg notThird]
          rfl
      | ok amount =>
          rw [← readWord_found]
          exact bind_pure (readWord library (found library words amount) word)

def HasKeyword (words : List Bytes) : Prop := ∃ word ∈ words, keyword? word ≠ none

instance (words : List Bytes) : Decidable (HasKeyword words) :=
  inferInstanceAs (Decidable (∃ word ∈ words, _))

theorem lastOf_keyword_eq_none {words : List Bytes} :
    lastOf keyword? words = none ↔ ¬ HasKeyword words := by
  simp [lastOf, HasKeyword]

end Words

/-! ## What the parser makes of a text -/

section Texts

variable {Value : Type} {library : Library Value} {trxId : Nat}

/-- A line of which a transaction is made that can be stored: it has a keyword
and an amount that is a number and printed as one, and the address of a node is
UTF-8. -/
structure Accepted (library : Library Value) (words : List Bytes) : Prop where
  keyword : HasKeyword words
  amount : ∃ amount value, amountOf library words = .ok amount ∧
    library.stof (bytesOf amount) = .ok value
  address : lastOf keyword? words = some .registerNode → (textOf (addressOf words)).isSome = true

theorem parseLine_eq_ok {line : Bytes} {element : Element} :
    parseLine library trxId line = .ok element ↔
      ∃ amount, amountOf library (wordsOf line) = .ok amount ∧
        elementOf library trxId (found library (wordsOf line) amount) = .ok element := by
  rw [parseLine, readWords_eq]
  cases amountOf library (wordsOf line) <;> simp [Except.map, bind, Except.bind]

/-- What is pushed at the end of a line. -/
theorem elementOf_eq_ok {line : Line} {element : Element} :
    elementOf library trxId line = .ok element ↔
      line.transactionType = none ∧ element = .null ∨
      ∃ value, library.stof (bytesOf line.amount) = .ok value ∧
        (line.transactionType = some .registerNode ∧
          element = .registerNode line.address (library.valueToString .xdr value)
            line.publicKey trxId ∨
        line.transactionType = some .transfer ∧
          element = .transfer (library.valueToString line.asset value) (library.code line.asset)
            (library.valueToString line.asset library.zero) line.publicKey trxId) := by
  unfold elementOf
  cases line.transactionType with
  | none => simp [pure, Except.pure, eq_comm]
  | some kind =>
      cases kind <;> cases library.stof (bytesOf line.amount) <;>
        simp [bind, Except.bind, pure, Except.pure, eq_comm]

/-- A line is accepted exactly if a transaction is made of it that can be
dumped. -/
theorem accepted_iff (trxId : Nat) (line : Bytes) :
    Accepted library (wordsOf line) ↔ ∃ element, parseLine library trxId line = .ok element ∧
      element ≠ .null ∧ element.dumps = true := by
  constructor
  · intro accepted
    obtain ⟨amount, value, amountEq, valueEq⟩ := accepted.amount
    have address := accepted.address
    cases kind : lastOf keyword? (wordsOf line) with
    | none => exact absurd accepted.keyword (lastOf_keyword_eq_none.mp kind)
    | some kind' =>
        cases kind' with
        | transfer =>
            exact ⟨_, parseLine_eq_ok.mpr ⟨amount, amountEq, elementOf_eq_ok.mpr
              (.inr ⟨value, valueEq, .inr ⟨kind, rfl⟩⟩)⟩, by simp, rfl⟩
        | registerNode =>
            exact ⟨_, parseLine_eq_ok.mpr ⟨amount, amountEq, elementOf_eq_ok.mpr
              (.inr ⟨value, valueEq, .inl ⟨kind, rfl⟩⟩)⟩, by simp, address kind⟩
  · rintro ⟨element, parsed, notNull, dumps⟩
    obtain ⟨amount, amountEq, pushed⟩ := parseLine_eq_ok.mp parsed
    rcases elementOf_eq_ok.mp pushed with ⟨-, isNull⟩ | ⟨value, valueEq, made⟩
    · exact absurd isNull notNull
    refine ⟨?_, ⟨amount, value, amountEq, valueEq⟩, ?_⟩
    · by_contra noKeyword
      have none := lastOf_keyword_eq_none.mpr noKeyword
      rcases made with ⟨kind, -⟩ | ⟨kind, -⟩ <;> simp [found, none] at kind
    · intro isNode
      rcases made with ⟨-, rfl⟩ | ⟨kind, -⟩
      · exact dumps
      · simp [found, isNode] at kind

theorem parseLines_cons_eq_ok {line : Bytes} {rest : List Bytes} {elements : List Element} :
    parseLines library trxId (line :: rest) = .ok elements ↔
      ∃ element others, parseLine library trxId line = .ok element ∧
        parseLines library (trxId + 1) rest = .ok others ∧ elements = element :: others := by
  simp only [parseLines, bind_eq_ok, pure, Except.pure, Except.ok.injEq]
  constructor
  · rintro ⟨element, parsed, others, parsedRest, rfl⟩
    exact ⟨element, others, parsed, parsedRest, rfl⟩
  · rintro ⟨element, others, parsed, parsedRest, rfl⟩
    exact ⟨element, parsed, others, parsedRest, rfl⟩

/-- Every line is accepted exactly if the parser returns transactions only, and
ones that can be dumped. -/
theorem accepted_lines_iff (trxId : Nat) (lines : List Bytes) :
    (∀ line ∈ lines, Accepted library (wordsOf line)) ↔
      ∃ elements, parseLines library trxId lines = .ok elements ∧
        ∀ element ∈ elements, element ≠ .null ∧ element.dumps = true := by
  induction lines generalizing trxId with
  | nil => simp [parseLines, pure, Except.pure]
  | cons line rest ih =>
      rw [List.forall_mem_cons, accepted_iff trxId line, ih (trxId + 1)]
      simp only [parseLines_cons_eq_ok]
      constructor
      · rintro ⟨⟨element, parsed, good⟩, others, parsedRest, restGood⟩
        refine ⟨element :: others, ⟨element, others, parsed, parsedRest, rfl⟩, ?_⟩
        exact List.forall_mem_cons.mpr ⟨good, restGood⟩
      · rintro ⟨_, ⟨element, others, parsed, parsedRest, rfl⟩, good⟩
        obtain ⟨elementGood, restGood⟩ := List.forall_mem_cons.mp good
        exact ⟨⟨element, parsed, elementGood⟩, others, parsedRest, restGood⟩

theorem length_parseLines {lines : List Bytes} {elements : List Element}
    (parsed : parseLines library trxId lines = .ok elements) :
    elements.length = lines.length := by
  induction lines generalizing trxId elements with
  | nil =>
      obtain rfl : [] = elements := Except.ok.inj parsed
      rfl
  | cons line rest ih =>
      obtain ⟨element, others, -, parsedRest, rfl⟩ := parseLines_cons_eq_ok.mp parsed
      simp [ih parsedRest]

theorem trxId_of_parseLine {line : Bytes} {element : Element}
    (parsed : parseLine library trxId line = .ok element) (notNull : element ≠ .null) :
    element.trxId = trxId := by
  obtain ⟨amount, -, pushed⟩ := parseLine_eq_ok.mp parsed
  rcases elementOf_eq_ok.mp pushed with ⟨-, isNull⟩ | ⟨value, -, ⟨-, rfl⟩ | ⟨-, rfl⟩⟩
  · exact absurd isNull notNull
  · rfl
  · rfl

theorem trxIds_of_parseLines {lines : List Bytes} {elements : List Element}
    (parsed : parseLines library trxId lines = .ok elements)
    (notNull : ∀ element ∈ elements, element ≠ .null) :
    elements.map Element.trxId = List.range' trxId elements.length := by
  induction lines generalizing trxId elements with
  | nil =>
      obtain rfl : [] = elements := Except.ok.inj parsed
      rfl
  | cons line rest ih =>
      obtain ⟨first, others, parsedFirst, parsedRest, rfl⟩ := parseLines_cons_eq_ok.mp parsed
      obtain ⟨firstNotNull, restNotNull⟩ := List.forall_mem_cons.mp notNull
      rw [List.map_cons, trxId_of_parseLine parsedFirst firstNotNull, ih parsedRest restNotNull,
        List.length_cons, List.range'_succ]

end Texts

end Genesis

end MileExplorer
