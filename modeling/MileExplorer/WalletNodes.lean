import MileExplorer.NetworkRuns
import MileExplorer.Served

/-!
# The node of a wallet

`get-wallet-node` shows the node that was last listed with the public key of
the wallet.  A later snapshot without the key leaves the row as it is, and a
node that lacks a member hides the nodes after it in the same snapshot.
-/

namespace MileExplorer

structure NodeEntry where
  publicKey : String
  address : Json
  nodeId : Json

namespace NodeEntry

/-- The nodes of a snapshot up to the first that lacks a member. -/
def ofNodes : List Json → List NodeEntry
  | [] => []
  | item :: rest =>
      match item.constText "public-key", item.indexConst "address", item.indexConst "node-id" with
      | .ok publicKey, .ok address, .ok nodeId => ⟨publicKey, address, nodeId⟩ :: ofNodes rest
      | _, _, _ => []

def row (entry : NodeEntry) (call : NodeStates) : Json :=
  Db.nodeWalletRow call entry.address entry.nodeId entry.publicKey

def store (rows : Table) (listing : NodeStates × NodeEntry) : Table :=
  Db.upsert (!decide (rows.Has (.str listing.2.publicKey)) && !decide (rows.Has (.str Db.indexText)))
    listing.2.publicKey (listing.2.row listing.1) rows

/-- The members are no objects, which would be merged with the stored ones, and
the public key is neither the name of a member nor the text of the index
option. -/
structure Plain (entry : NodeEntry) : Prop where
  address : entry.address.isObject = false
  nodeId : entry.nodeId.isObject = false
  named : entry.publicKey ∉ ["address", "node-id", "timestamp", "block-id", "id"]
  option : entry.publicKey ≠ Db.indexText

end NodeEntry

def NodeRows (rows : Table) : Prop :=
  ∀ row ∈ rows.rows, ∃ (entry : NodeEntry) (call : NodeStates), entry.Plain ∧ row = entry.row call

theorem Db.storeNodes_eq (call : NodeStates) (nodes : List Json) (rows : Table) :
    Db.storeNodes call nodes rows =
      ((NodeEntry.ofNodes nodes).map (call, ·)).foldl NodeEntry.store rows := by
  induction nodes generalizing rows with
  | nil => rfl
  | cons item rest ih =>
      unfold Db.storeNodes NodeEntry.ofNodes
      cases item.constText "public-key" with
      | error exception => rfl
      | ok publicKey =>
          cases item.indexConst "address" with
          | error exception => rfl
          | ok address =>
              cases item.indexConst "node-id" with
              | error exception => rfl
              | ok nodeId => exact ih _

namespace NodeEntry

variable {rows : Table} {entry : NodeEntry} {call : NodeStates}

theorem row_id (entry : NodeEntry) (call : NodeStates) :
    (entry.row call).find? "id" = some (.str entry.publicKey) :=
  Db.nodeWalletRow_id call entry.address entry.nodeId entry.publicKey

theorem row_eq (entry : NodeEntry) (call : NodeStates) :
    entry.row call = .obj [("address", entry.address), ("block-id", .str (toString call.blockId)),
      ("id", .str entry.publicKey), ("node-id", entry.nodeId), ("timestamp", .num call.now)] := by
  simp +decide only [row, Db.nodeWalletRow, Json.ofMembers, List.foldl, Json.setMember, if_true,
    if_false]

theorem merge_row {other : NodeEntry} {earlier : NodeStates} (plain : entry.Plain)
    (same : other.publicKey = entry.publicKey) :
    (other.row earlier).merge ((entry.row call).erase entry.publicKey) = entry.row call := by
  have erased : (entry.row call).erase entry.publicKey = entry.row call := by
    have named := plain.named
    simp only [List.mem_cons, List.not_mem_nil, or_false, not_or] at named
    simp [row_eq, Json.erase, Ne.symm named.1, Ne.symm named.2.1, Ne.symm named.2.2.1,
      Ne.symm named.2.2.2.1, Ne.symm named.2.2.2.2]
  rw [erased, row_eq, row_eq, same]
  simp +decide [Json.merge, Json.mergeMembers, Json.member?, Json.setMember,
    Json.merge_of_not_isObject _ plain.address, Json.merge_of_not_isObject _ plain.nodeId]

theorem not_has_indexText (nodeRows : NodeRows rows) : ¬ rows.Has (.str Db.indexText) := by
  rintro ⟨row, member, keyed⟩
  obtain ⟨entry, call, plain, rfl⟩ := nodeRows row member
  rw [docId_of_find? (entry.row_id call)] at keyed
  exact plain.option (Json.str.inj keyed)

theorem get?_store (nodeRows : NodeRows rows) (plain : entry.Plain) (key : Json) :
    (store rows (call, entry)).get? key =
      if key = .str entry.publicKey then some (entry.row call) else rows.get? key := by
  split_ifs with own
  · subst own
    have identified := entry.row_id call
    have keyed := docId_of_find? identified
    cases found : rows.get? (.str entry.publicKey) with
    | none =>
        have absent := KeyedTable.get?_eq_none.mp found
        simp only [store, absent, not_has_indexText nodeRows, decide_false, Bool.not_false,
          Bool.and_self, Db.upsert, if_true]
        rw [← keyed]
        exact KeyedTable.get?_insert_self (by rwa [keyed])
    | some former =>
        obtain ⟨member, formerKey⟩ := KeyedTable.get?_eq_some.mp found
        obtain ⟨other, earlier, -, rfl⟩ := nodeRows former member
        rw [docId_of_find? (other.row_id earlier)] at formerKey
        have merged : (other.row earlier).merge ((entry.row call).erase entry.publicKey) =
            entry.row call := merge_row plain (Json.str.inj formerKey)
        have has : rows.Has (.str entry.publicKey) := KeyedTable.has_iff_get?.mpr ⟨_, found⟩
        simp only [store, has, decide_true, Bool.not_true, Bool.false_and, Db.upsert,
          Bool.false_eq_true, if_false]
        rw [KeyedTable.get?_modify_self found (by rw [merged, keyed]), merged]
  · exact get?_upsert_of_ne _ (entry.row_id call) own

theorem nodeRows_store (nodeRows : NodeRows rows) (plain : entry.Plain) :
    NodeRows (store rows (call, entry)) := by
  intro row member
  have found := KeyedTable.get?_eq_some.mpr ⟨member, rfl⟩
  rw [get?_store nodeRows plain] at found
  split_ifs at found
  · exact ⟨entry, call, plain, (Option.some.inj found).symm⟩
  · exact nodeRows row (KeyedTable.get?_eq_some.mp found).1

/-- A wallet has the row of its last listing. -/
theorem get?_foldl_store {listings : List (NodeStates × NodeEntry)} (nodeRows : NodeRows rows)
    (plain : ∀ listing ∈ listings, listing.2.Plain) (publicKey : String) :
    (listings.foldl store rows).get? (.str publicKey) =
      (((listings.filter fun listing => listing.2.publicKey = publicKey).getLast?.map
        fun listing => listing.2.row listing.1).or (rows.get? (.str publicKey))) := by
  induction listings generalizing rows with
  | nil => simp
  | cons listing rest ih =>
      have first := plain listing (by simp)
      rw [List.foldl_cons, ih (nodeRows_store nodeRows first) fun other member =>
        plain other (List.mem_cons_of_mem _ member), get?_store nodeRows first, List.filter_cons]
      by_cases own : listing.2.publicKey = publicKey
      · simp only [own, decide_true, if_true, List.getLast?_cons]
        cases (rest.filter fun listing => listing.2.publicKey = publicKey).getLast? <;> simp
      · have other : Json.str publicKey ≠ .str listing.2.publicKey := by simpa using Ne.symm own
        simp [own, other]

end NodeEntry

namespace StatesLoop

def listings (calls : List NodeStates) : List (NodeStates × NodeEntry) :=
  calls.flatMap fun call => (NodeEntry.ofNodes call.nodes.elements).map (call, ·)

theorem Follows.listings {before after : Process} {calls : List NodeStates}
    (follows : Follows before after calls) :
    after.store .nodeWallets =
      (StatesLoop.listings calls).foldl NodeEntry.store (before.store .nodeWallets) := by
  rw [follows.wallets, StatesLoop.listings, List.foldl_flatMap]
  simp only [Db.storeNodes_eq]

theorem mem_listings {calls : List NodeStates} {listing : NodeStates × NodeEntry} :
    listing ∈ listings calls ↔
      listing.1 ∈ calls ∧ listing.2 ∈ NodeEntry.ofNodes listing.1.nodes.elements := by
  unfold listings
  constructor
  · intro member
    obtain ⟨call, called, inner⟩ := List.mem_flatMap.mp member
    obtain ⟨entry, entryMem, rfl⟩ := List.mem_map.mp inner
    exact ⟨called, entryMem⟩
  · rintro ⟨called, entryMem⟩
    exact List.mem_flatMap.mpr ⟨listing.1, called, List.mem_map.mpr ⟨listing.2, entryMem, rfl⟩⟩

theorem Records.answer {loop : StatesLoop} {answers : List NodeAnswer} {index : Nat}
    {call : NodeStates} (records : loop.Records answers index call) :
    ∃ answer ∈ answers, answer.network.nodes = some call.nodes := by
  obtain ⟨answer, found, -, network, -⟩ := records.hears
  exact ⟨answer, List.mem_of_getElem? found, by rw [network]⟩

theorem last_listing {calls : List NodeStates} {call : NodeStates} {entry : NodeEntry}
    {earlier later : List NodeEntry}
    (increasing : (calls.map NodeStates.blockId).Pairwise (· < ·)) (called : call ∈ calls)
    (listed : NodeEntry.ofNodes call.nodes.elements = earlier ++ entry :: later)
    (lastInCall : ∀ other ∈ later, other.publicKey ≠ entry.publicKey)
    (lastCall : ∀ other ∈ calls, call.blockId < other.blockId →
      ∀ node ∈ NodeEntry.ofNodes other.nodes.elements, node.publicKey ≠ entry.publicKey) :
    ((listings calls).filter fun listing => listing.2.publicKey = entry.publicKey).getLast? =
      some (call, entry) := by
  obtain ⟨before, after, rfl⟩ := List.append_of_mem called
  have greater : ∀ other ∈ after, call.blockId < other.blockId := by
    rw [List.map_append, List.map_cons, List.pairwise_append, List.pairwise_cons] at increasing
    exact fun other member => increasing.2.1.1 _ (List.mem_map_of_mem member)
  have nothingAfter : (listings after).filter
      (fun listing => listing.2.publicKey = entry.publicKey) = [] := by
    refine List.filter_eq_nil_iff.mpr fun listing member => ?_
    obtain ⟨listingCalled, listingMem⟩ := mem_listings.mp member
    simpa using lastCall listing.1 (by simp [listingCalled]) (greater _ listingCalled) _ listingMem
  have nothingLater : (later.map (call, ·)).filter
      (fun listing => listing.2.publicKey = entry.publicKey) = [] := by
    refine List.filter_eq_nil_iff.mpr fun listing member => ?_
    obtain ⟨other, otherMem, rfl⟩ := List.mem_map.mp member
    simpa using lastInCall other otherMem
  have split : listings (before ++ call :: after) =
      listings before ++ earlier.map (call, ·) ++ (call, entry) ::
        (later.map (call, ·) ++ listings after) := by
    simp [listings, listed]
  rw [split, List.filter_append, List.filter_cons_of_pos (by simp), List.getLast?_append,
    @List.filter_append _ _ (later.map (call, ·)), nothingLater, nothingAfter, List.nil_append]
  rfl

end StatesLoop

/-- A request for the node of a wallet is answered with the row of the last
listing of its key: in the snapshot of the greatest height that lists it, the
last node with the key. -/
theorem wallet_node_of_run (answers : List NodeAnswer) (process : Process)
    (nodeRows : NodeRows (process.store .nodeWallets))
    (plain : ∀ answer ∈ answers, ∀ nodes, answer.network.nodes = some nodes →
      ∀ entry ∈ NodeEntry.ofNodes nodes.elements, entry.Plain)
    {index : Nat} {call : NodeStates} (records : StatesLoop.start.Records answers index call)
    {earlier later : List NodeEntry} {entry : NodeEntry}
    (listed : NodeEntry.ofNodes call.nodes.elements = earlier ++ entry :: later)
    (lastInCall : ∀ other ∈ later, other.publicKey ≠ entry.publicKey)
    (lastCall : ∀ place other, StatesLoop.start.Records answers place other →
      call.blockId < other.blockId →
        ∀ node ∈ NodeEntry.ofNodes other.nodes.elements, node.publicKey ≠ entry.publicKey)
    (library : JsonLibrary) (api : NodeApi) {router : Router}
    (registered : .getWalletNode ∈ router.storage) {request : HttpRequest} (id : Json)
    (accepts : router.Accepts request)
    (parsed : library.parse request.body = .ok (requestObject .getWalletNode id
      (.ofMembers [("public-key", .str entry.publicKey)]))) :
    handle library api router
        ((StatesLoop.start.run answers).run Process.exec process).2.store request =
      ⟨[.getWalletNode], [⟨200, request.version, some (resultObject id (entry.row call)), true⟩],
        none⟩ := by
  have plainListings : ∀ listing ∈ StatesLoop.listings (StatesLoop.start.calls answers),
      listing.2.Plain := by
    intro listing member
    obtain ⟨called, entryMem⟩ := StatesLoop.mem_listings.mp member
    obtain ⟨place, recorded⟩ := StatesLoop.mem_calls.mp called
    obtain ⟨answer, answerMem, nodes⟩ := recorded.answer
    exact plain answer answerMem _ nodes _ entryMem
  have last := StatesLoop.last_listing (StatesLoop.start.calls_increasing answers)
    (StatesLoop.mem_calls.mpr ⟨index, records⟩) listed lastInCall fun other called =>
      have ⟨place, recorded⟩ := StatesLoop.mem_calls.mp called
      lastCall place other recorded
  have stored := NodeEntry.get?_foldl_store nodeRows plainListings entry.publicKey
  rw [last, ← (StatesLoop.run_follows StatesLoop.start answers process).listings] at stored
  have answered : Method.getWalletNode.call api router.storage
      (.ofMembers [("public-key", .str entry.publicKey)])
      ((StatesLoop.start.run answers).run Process.exec process).2.store =
        .ok (.answers (entry.row call)) := by
    have shown : getDataOf (Db.walletNode entry.publicKey
        ((StatesLoop.start.run answers).run Process.exec process).2.store) = entry.row call := by
      rw [getDataOf_eq_document (entry.row_id call)]
      have yields (store : Store) : Db.walletNode entry.publicKey store =
          .ok (((store .nodeWallets).get? (.str entry.publicKey)).getD .null) := rfl
      rw [yields, stored]
      rfl
    rw [← shown]
    rfl
  exact handle_requestObject (Router.find_of_mem registered) accepts parsed answered rfl

def sampleAnswers : List NodeAnswer :=
  [⟨true, none, some 8, some (snapshotAt 8).nodes, 0⟩,
    ⟨true, none, some 9, some (snapshotAt 9).nodes, 0⟩]

def walletNodeText : String :=
  "\x7b\"jsonrpc\":\"2.0\",\"id\":\"1\",\"method\":\"get-wallet-node\"," ++
    "\"params\":\x7b\"public-key\":\"k\"\x7d\x7d"

def walletNodeLibrary : JsonLibrary :=
  sampleLibrary [(walletNodeText, requestObject .getWalletNode (.str "1")
    (.ofMembers [("public-key", .str "k")]))]

theorem ofNodes_snapshotAt (height : Nat) :
    NodeEntry.ofNodes (snapshotAt height).nodes.elements =
      [] ++ [⟨"k", .str "a", .num height⟩] := by
  have key : (Json.ofMembers [("public-key", .str "k"), ("address", .str "a"),
      ("node-id", .num height)]).constText "public-key" = .ok "k" :=
    Json.constText_eq_ok.mpr (by simp [Json.find?_ofMembers, Json.member?_setMember])
  have address : (Json.ofMembers [("public-key", .str "k"), ("address", .str "a"),
      ("node-id", .num height)]).indexConst "address" = .ok (.str "a") :=
    Json.indexConst_of_find? (by simp [Json.find?_ofMembers, Json.member?_setMember])
  have nodeId : (Json.ofMembers [("public-key", .str "k"), ("address", .str "a"),
      ("node-id", .num height)]).indexConst "node-id" = .ok (.num height) :=
    Json.indexConst_of_find? (by simp [Json.find?_ofMembers, Json.member?_setMember])
  simp [snapshotAt, Json.elements, NodeEntry.ofNodes, key, address, nodeId]

theorem wallet_node_of_run_nine :
    NodeRows ((Process.idle Store.empty).store .nodeWallets) ∧
    (∃ index, StatesLoop.start.Records sampleAnswers index (snapshotAt 9)) ∧
    handle walletNodeLibrary sampleApi sampleRouter
        ((StatesLoop.start.run sampleAnswers).run Process.exec (Process.idle Store.empty)).2.store
        (samplePost walletNodeText.toByteArray) =
      ⟨[.getWalletNode], [⟨200, 11, some (resultObject (.str "1")
        (NodeEntry.row ⟨"k", .str "a", .num 9⟩ (snapshotAt 9))), true⟩], none⟩ := by
  have nodeRows : NodeRows ((Process.idle Store.empty).store .nodeWallets) := fun row member =>
    absurd member List.not_mem_nil
  have calls : StatesLoop.start.calls sampleAnswers = [snapshotAt 8, snapshotAt 9] := rfl
  have parsed : walletNodeLibrary.parse walletNodeText.toByteArray = .ok (requestObject
      .getWalletNode (.str "1") (.ofMembers [("public-key", .str "k")])) := by
    simp [walletNodeLibrary, sampleLibrary]
  obtain ⟨index, records⟩ : ∃ index, StatesLoop.start.Records sampleAnswers index (snapshotAt 9) :=
    StatesLoop.mem_calls.mp (by simp [calls])
  refine ⟨nodeRows, ⟨index, records⟩, ?_⟩
  refine wallet_node_of_run sampleAnswers _ nodeRows ?_ records (ofNodes_snapshotAt 9) (by simp) ?_
    walletNodeLibrary sampleApi (by decide) (.str "1") (sampleRouter_accepts _) parsed
  · intro answer member nodes given entry listed
    obtain ⟨height, rfl⟩ : ∃ height, nodes = (snapshotAt height).nodes := by
      simp only [sampleAnswers, List.mem_cons, List.not_mem_nil, or_false] at member
      rcases member with rfl | rfl
      · exact ⟨8, (Option.some.inj given).symm⟩
      · exact ⟨9, (Option.some.inj given).symm⟩
    rw [ofNodes_snapshotAt, List.nil_append, List.mem_singleton] at listed
    subst listed
    exact ⟨rfl, rfl, by simp, show "k" ≠ Db.indexText by decide⟩
  · intro place other recorded higher
    have called := StatesLoop.mem_calls.mpr ⟨place, recorded⟩
    rw [calls] at called
    simp only [List.mem_cons, List.not_mem_nil, or_false] at called
    rcases called with rfl | rfl <;> exact absurd higher (by decide)

end MileExplorer
