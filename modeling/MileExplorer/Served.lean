import MileExplorer.GenuineRows
import MileExplorer.Recovery
import MileExplorer.Replies
import MileExplorer.TransactionKeys

/-!
# From the chain to the reply

The whole way of a transaction: from a block of the chain through the indexer
into the database, and from there into the reply to an HTTP request.  Once
nothing is queued or pending, every request for a transaction of a stored block
is answered with a copy of it.
-/

namespace MileExplorer

/-! ## Requests with a result -/

def requestObject (method : Method) (id params : Json) : Json :=
  .ofMembers [("jsonrpc", .str "2.0"), ("id", id), ("method", .str method.name),
    ("params", params)]

def resultObject (id result : Json) : Json :=
  ((Json.ofMembers [("jsonrpc", .str "2.0")]).set "result" result).set "id" id

/-- What `from_string` makes of such a body. -/
theorem Context.fromJson_requestObject (method : Method) (id params : Json) :
    Context.fromJson (requestObject method id params) =
      ⟨⟨id, method.name, params⟩, ⟨id, .null, none⟩⟩ := by
  have isObj : (requestObject method id params).isObject = true := rfl
  have version : (requestObject method id params).find? "jsonrpc" = some (.str "2.0") := by
    simp [requestObject, Json.find?_ofMembers, Json.member?_setMember]
  have identified : (requestObject method id params).find? "id" = some id := by
    simp [requestObject, Json.find?_ofMembers, Json.member?_setMember]
  have named : (requestObject method id params).find? "method" = some (.str method.name) := by
    simp [requestObject, Json.find?_ofMembers, Json.member?_setMember]
  have noParam : (requestObject method id params).find? "param" = none := by
    simp [requestObject, Json.find?_ofMembers, Json.member?_setMember, Json.member?]
  have given : (requestObject method id params).find? "params" = some params := by
    simp [requestObject, Json.find?_ofMembers, Json.member?_setMember]
  simp [Context.fromJson, Message.isValidVersion, Message.parse, Message.isRequest,
    Message.paramsOf, Message.isJsonrpc, Message.isNotify, Message.contains, isObj, version,
    identified, named, noParam, Json.at?_of_find? version, Json.at?_of_find? identified,
    Json.at?_of_find? named, Json.at?_of_find? given, Json.getString, Json.isString, bind,
    Except.bind, pure, Except.pure, Context.new]

/-- A request whose method answers with a result gets that result. -/
theorem handle_requestObject {library : JsonLibrary} {api : NodeApi} {router : Router}
    {store : Store} {method : Method} {request : HttpRequest} {id params result : Json}
    (found : router.find method.name = some method) (accepts : router.Accepts request)
    (parsed : library.parse request.body = .ok (requestObject method id params))
    (answered : method.call api router.storage params store = .ok (.answers result))
    (notNull : result.isNull = false) :
    handle library api router store request =
      ⟨[method], [⟨200, request.version, some (resultObject id result), true⟩], none⟩ := by
  have context : Context.fromString library request.body =
      ⟨⟨id, method.name, params⟩, ⟨id, .null, none⟩⟩ := by
    rw [Context.fromString, parsed]
    exact Context.fromJson_requestObject method id params
  have applied : router.apply api store ⟨⟨id, method.name, params⟩, ⟨id, .null, none⟩⟩ =
      ⟨true, ⟨⟨id, method.name, params⟩, ⟨id, result, none⟩⟩, [method]⟩ := by
    simp [Router.apply, found, answered, Context.leave]
  have object : Message.responseObject ⟨id, result, none⟩ none = resultObject id result := by
    simp [Message.responseObject, resultObject, notNull]
  rw [handle_of_accepts accepts, context, applied]
  simp only [Applied.reply, Applied.settled, if_true, Message.serialize, object]

theorem Method.name_injective : Function.Injective Method.name := by
  have distinct : (sampleRouter.storage.map Method.name).Nodup := by decide +kernel
  have listed (method : Method) : method ∈ sampleRouter.storage := by cases method <;> decide
  intro first second same
  exact List.inj_on_of_nodup_map distinct (listed first) (listed second) same

/-- A registered method is found by its name. -/
theorem Router.find_of_mem {router : Router} {method : Method}
    (registered : method ∈ router.storage) : router.find method.name = some method := by
  cases found : router.find method.name with
  | none =>
      have unnamed := List.find?_eq_none.mp found method registered
      simp at unnamed
  | some other =>
      have named : other.name = method.name := by simpa using List.find?_some found
      rw [Method.name_injective named]

/-! ## The whole way -/

variable {platform : Platform} {chain : Chain}

theorem Faulty.reaches_of_indexer (around : Surroundings) {restarts snapshots : Store → Prop}
    {start : Start} {world : World}
    (reached : IndexerReaches platform chain restarts snapshots start world) :
    Faulty.Reaches platform around chain (Indexer.firstBoot start) world := by
  induction reached with
  | refl => exact .refl
  | @tail current next move before permitted moved ih =>
      have moved' : Faulty.step platform around chain current (.indexer move) = some next := moved
      exact ih.tail trivial moved'

/-- A run without restarts is one whose restarts are all as they should be. -/
theorem IndexerReaches.of_unrestarted {restarts : Store → Prop} {start : Start} {world : World}
    (reached : IndexerReaches platform chain (fun _ => False) (fun _ => True) start world) :
    IndexerReaches platform chain restarts (fun _ => True) start world := by
  refine reached.mono fun current move permitted => ?_
  cases move with
  | restart start => exact permitted.elim
  | advance position => exact fun _ => trivial
  | _ => trivial

theorem CopyOf.id {number : Nat} {time : Int} {id : String} {trx copy : Json}
    (isCopy : CopyOf platform number time id trx copy) (listed : id ∈ yields number trx) :
    copy.find? "id" = some (.str id) := by
  obtain ⟨clean, built, same⟩ := isCopy
  have numbered : ∃ text, trx.find? "transaction-id" = some (.str text) := by
    unfold yields at listed
    split at listed
    · rename_i entries found
      obtain ⟨entry, member, -⟩ := List.mem_map.mp listed
      exact Db.numbered_of_findPublicKeys found entry member
    · simp at listed
  obtain ⟨text, numbered⟩ := numbered
  rw [same, find?_streamRow_eq numbered built, find?_headed (Json.isObject_of_find? numbered)]
  simp

theorem Db.getDataOf_transactionById {store : Store} {row : Json} {id : String}
    (member : row ∈ (store .transactions).rows) (identified : row.find? "id" = some (.str id)) :
    getDataOf (Db.transactionById id store) = row := by
  rw [getDataOf_eq_document identified]
  have got : (store .transactions).get? (.str id) = some row :=
    KeyedTable.get?_eq_some.mpr ⟨member, docId_of_find? identified⟩
  have yields : Db.transactionById id store =
      .ok (((store .transactions).get? (.str id)).getD .null) := rfl
  rw [yields, got]
  rfl

/-- A transaction of the chain is looked up by one of its addresses. -/
structure Chain.Lists (chain : Chain) (block : Nat) (address : String) (number : Nat) :
    Prop where
  listed : ∃ trx ∈ chain.transactions block,
    trx.find? "transaction-id" = some (.str (toString number)) ∧
      (trx.find? "from" = some (.str address) ∨ trx.find? "public-key" = some (.str address))

theorem Chain.Lists.mem_ids (chainFormed : chain.WellFormed platform) {block number : Nat}
    {address : String} (lists : chain.Lists block address number) :
    rowId address (toString block) (toString number) ∈ chain.ids block := by
  obtain ⟨trx, member, numbered, addressed⟩ := lists.listed
  unfold Chain.transactions at member
  split at member
  · rename_i transactions found
    obtain ⟨entries, keys⟩ :=
      (chainFormed block transactions found trx member).findPublicKeys_ok (toString block)
    rw [Chain.ids, found]
    refine List.mem_flatMap.mpr ⟨trx, member, ?_⟩
    rw [yields, keys]
    exact List.mem_map.mpr ⟨(address, rowId address (toString block) (toString number)),
      (mem_findPublicKeys numbered keys).mpr ⟨addressed, rfl⟩, rfl⟩
  · simp at member

/-- In every run whose restarts all find recoverable tables: whenever nothing
is queued or pending, every form of request for a transaction of a stored block
is answered with a copy of a transaction that has the requested id. -/
theorem indexed_transactions_are_served (chainFormed : chain.WellFormed platform) {start : Start}
    {world : World}
    (reached : IndexerReaches platform chain (Recoverable chain) (fun _ => True) start world)
    (quiet : Quiescent world.shared) {block number : Nat} {address : String}
    (stored : world.shared.Stored block) (lists : chain.Lists block address number)
    (library : JsonLibrary) (api : NodeApi) {router : Router}
    (registered : .getTransaction ∈ router.storage) {request : HttpRequest} {id params : Json}
    (asked : params ∈ requestsFor address block number) (accepts : router.Accepts request)
    (parsed : library.parse request.body = .ok (requestObject .getTransaction id params)) :
    ∃ row, handle library api router world.shared.store request =
        ⟨[.getTransaction], [⟨200, request.version, some (resultObject id row), true⟩], none⟩ ∧
      ∃ (origin : Nat) (trx copy : Json) (time : Int) (serial : Nat),
        trx ∈ chain.transactions origin ∧
        rowId address (toString block) (toString number) ∈ yields origin trx ∧
        CopyOf platform origin time (rowId address (toString block) (toString number)) trx copy ∧
        row = copy.set "serial" (.num serial) := by
  have safe := indexer_safe chainFormed (fun _ recoverable => recoverable) reached
  have running := safe.staffed.not_booting_of_started quiet.1
  have has := quiet.stored (safe.intact running block stored) _ (lists.mem_ids chainFormed)
  obtain ⟨row, member, keyed⟩ := has
  obtain ⟨copy, serial, ⟨origin, trx, own, time, listed, yielded, -, isCopy⟩, rowEq⟩ :=
    (genuine_of_reaches (Faulty.reachesFrom_of_reaches
      (Faulty.reaches_of_indexer sampleSurroundings reached))).rows
      .transactions row member
  have ownId : row.find? "id" = some (.str own) := by
    have copyId := isCopy.id yielded
    rw [rowEq]
    simp [Json.isObject_of_find? copyId, copyId]
  obtain rfl : own = rowId address (toString block) (toString number) := by
    simpa [docId_of_find? ownId] using keyed
  refine ⟨row, ?_, origin, trx, copy, time, serial, listed, yielded, isCopy, rowEq⟩
  have answered : Method.getTransaction.call api router.storage params world.shared.store =
      .ok (.answers row) := by
    rw [← Db.getDataOf_transactionById member ownId]
    exact looksUp_of_mem_requestsFor asked world.shared.store
  refine handle_requestObject ?_ accepts parsed answered ?_
  · exact Router.find_of_mem registered
  · have isObj := Json.isObject_of_find? ownId
    cases row <;> simp_all [Json.isObject, Json.isNull]

/-- A request for the transfer of `alice` in block 1 by its parts. -/
def aliceText : String :=
  "\x7b\"jsonrpc\":\"2.0\",\"id\":\"1\",\"method\":\"get-transaction\"," ++
    "\"params\":\x7b\"id\":\"1:0\",\"public-key\":\"alice\"\x7d\x7d"

def aliceParams : Json := .ofMembers [("id", .str "1:0"), ("public-key", .str "alice")]

def aliceLibrary : JsonLibrary :=
  sampleLibrary [(aliceText, requestObject .getTransaction (.str "1") aliceParams)]

/-- Two blocks are indexed, and the transfer in the second is asked for. -/
theorem indexed_transactions_are_served_once :
    ∃ world row, IndexerReaches samplePlatform sampleChain (Recoverable sampleChain)
        (fun _ => True) ⟨0, 0⟩ world ∧ Quiescent world.shared ∧ world.shared.Stored 1 ∧
      handle aliceLibrary sampleApi sampleRouter world.shared.store
          (samplePost aliceText.toByteArray) =
        ⟨[.getTransaction], [⟨200, 11, some (resultObject (.str "1") row), true⟩], none⟩ := by
  obtain ⟨world, reached, quiet, stored⟩ := Reaches.exists_of_runMoves
    (Indexer.step samplePlatform sampleChain)
    (Indexer.allowed (fun _ => False) (fun _ => True)) (Indexer.firstBoot ⟨0, 0⟩) (catchUp 0 1)
    (fun world => Quiescent world.shared ∧
      (world.shared.store .blocks).Has (.str (toString 1))) (by decide +kernel)
  have recovered : IndexerReaches samplePlatform sampleChain (Recoverable sampleChain)
      (fun _ => True) ⟨0, 0⟩ world := IndexerReaches.of_unrestarted reached
  have lists : sampleChain.Lists 1 "alice" 0 := by
    refine ⟨transfer, ?_, by decide, .inl (by decide)⟩
    have listed : (sampleChain 1).json.find? "transactions" = some (.arr [transfer]) := by decide
    simp [Chain.transactions, listed]
  have parsed : aliceLibrary.parse aliceText.toByteArray =
      .ok (requestObject .getTransaction (.str "1") aliceParams) := by
    simp [aliceLibrary, sampleLibrary]
  obtain ⟨row, replied, -⟩ := indexed_transactions_are_served sampleChain_wellFormed recovered
    quiet stored lists aliceLibrary sampleApi (by decide)
    (show aliceParams ∈ requestsFor "alice" 1 0 by decide) (sampleRouter_accepts _) parsed
  exact ⟨world, row, recovered, quiet, stored, replied⟩

end MileExplorer
