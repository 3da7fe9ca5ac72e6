import MileExplorer.GenuineRows
import MileExplorer.Lookups
import MileExplorer.Recovery

/-!
# What is shown comes from the chain

The methods about blocks, transactions and the history of a wallet show what
the tables hold and nothing else, so that whatever they show comes from the
chain, in every run with failing queries and restarts.
-/

namespace MileExplorer

variable {platform : Platform} {around : Surroundings} {chain : Chain} {genesis : Json → Prop}

/-- Whatever a request for blocks or transactions is answered with comes from
the chain, in every run that starts on an empty database, whatever queries fail
and however often the process is restarted. -/
theorem shown_rows_are_genuine (api : NodeApi) (registered : List Method) {start : Start}
    {world : World}
    (reached : Faulty.ReachesFrom platform around chain genesis (Indexer.firstBoot start) world)
    (params : Json) {method : Method} {table : TableName} (shown : method.shows = some table)
    {result : Json}
    (answered : method.call api registered params world.shared.store = .ok (.answers result)) :
    ∀ row ∈ shownRows result, IsGenuine platform chain genesis table row := by
  intro row member
  exact (genuine_of_reaches reached).rows table row
    ((Method.consults api registered params shown).stored answered member)

/-- The first read of the migration fails, then two blocks are indexed. -/
theorem shown_rows_are_genuine_once :
    ∃ world result,
      Faulty.ReachesFrom samplePlatform sampleSurroundings sampleChain (fun _ => True)
        (Indexer.firstBoot ⟨0, 0⟩) world ∧
      Api.getTransaction (.ofMembers [("id", .str "alice:1:0")]) world.shared.store =
        .ok (.answers result) ∧ shownRows result ≠ [] ∧
      ∀ row ∈ shownRows result, 
        IsGenuine samplePlatform sampleChain (fun _ => True) .transactions row := by
  obtain ⟨world, reached, shown⟩ := Reaches.exists_of_runMoves
    (Faulty.step samplePlatform sampleSurroundings sampleChain) (fun _ _ => True)
    (Indexer.firstBoot ⟨0, 0⟩) (.fail 0 false :: ((catchUp 0 1).drop 1).map .indexer)
    (fun world => shownRows (getDataOf (Db.transactionById "alice:1:0" world.shared.store)) ≠ [])
    (by decide +kernel)
  have answered : Method.getTransaction.call sampleApi [] (.ofMembers [("id", .str "alice:1:0")])
      world.shared.store =
        .ok (.answers (getDataOf (Db.transactionById "alice:1:0" world.shared.store))) := rfl
  have reachedFrom := Faulty.reachesFrom_of_reaches reached
  exact ⟨world, _, reachedFrom, answered, shown,
    shown_rows_are_genuine sampleApi [] reachedFrom _ rfl answered⟩

/-! ## The history of a wallet -/

namespace Api

theorem answers_of_check {params result : Json} {param : String} {rest : Except Exn Outcome}
    (answered : check params param rest = .ok (.answers result)) : rest = .ok (.answers result) := by
  unfold check at answered
  split_ifs at answered
  · cases answered
  · exact answered

theorem answers_of_checkLimit {params result : Json} {rest : Except Exn Outcome}
    (answered : checkLimit params rest = .ok (.answers result)) :
    rest = .ok (.answers result) := by
  obtain ⟨value, -, passed⟩ := bind_eq_ok.mp (answers_of_check (answers_of_check answered))
  obtain ⟨limit, -, passed⟩ := bind_eq_ok.mp passed
  split_ifs at passed
  · cases passed
  · exact passed

end Api

theorem Genuine.walletEntries {process : Process}
    (genuine : Genuine platform chain genesis process) (publicKey : String) :
    (∃ error, ((Db.wallet publicKey).field "transactions") process.store = .error error) ∨
      ∃ items, ((Db.wallet publicKey).field "transactions") process.store = .ok (.arr items) ∧
        ∀ entry ∈ items, IsEntry platform chain genesis publicKey entry := by
  have yields : Db.wallet publicKey process.store =
      .ok (((process.store .wallets).get? (.str publicKey)).getD .null) := rfl
  cases found : (process.store .wallets).get? (.str publicKey) with
  | none =>
      refine .inl ⟨⟨"No attribute transactions in object."⟩, ?_⟩
      rw [Cursor.field, yields, found]
      rfl
  | some row =>
      obtain ⟨member, keyed⟩ := KeyedTable.get?_eq_some.mp found
      obtain ⟨address, idEq, -, items, itemsEq, all⟩ := genuine.rows .wallets row member
      obtain rfl : address = publicKey := by simpa [docId_of_find? idEq] using keyed
      refine .inr ⟨items, ?_, all⟩
      obtain ⟨members, rfl⟩ := exists_members_of_docId (show docId row ≠ .null by simp [keyed])
      rw [Cursor.field, yields, found]
      simp [bind, Except.bind, itemsEq, pure, Except.pure]

theorem Genuine.walletHistoryTransactions {process : Process}
    (genuine : Genuine platform chain genesis process) (publicKey : String) (first limit : Nat) :
    ∀ entry ∈ (getDataOf
        (Db.walletHistoryTransactions publicKey first limit process.store)).elements,
      IsEntry platform chain genesis publicKey entry := by
  rcases genuine.walletEntries publicKey with ⟨error, failed⟩ | ⟨items, listed, all⟩
  · simp [Db.walletHistoryTransactions, Cursor.slice, failed, bind, Except.bind, getDataOf,
      Json.elements]
  · intro entry member
    simp only [Db.walletHistoryTransactions, Cursor.slice, listed, bind, Except.bind, Cursor.rows,
      pure, Except.pure, getDataOf, Json.elements] at member
    exact all entry (List.mem_of_mem_drop (List.mem_of_mem_take member))

theorem IsEntry.block {address : String} {entry block : Json}
    (isEntry : IsEntry platform chain genesis address entry)
    (numbered : entry.find? "block-id" = some block) :
    IsHistoryBlock platform chain genesis address block := by
  obtain ⟨number, time, trx, id, recorded, party, -, made⟩ := isEntry
  obtain ⟨digest, -, rest⟩ := bind_eq_ok.mp made
  obtain ⟨type, -, done⟩ := bind_eq_ok.mp rest
  obtain rfl := Except.ok.inj done
  refine ⟨number, time, trx, recorded, party, ?_⟩
  simpa [Json.find?_ofMembers, Json.member?_setMember, eq_comm] using numbered

theorem Genuine.walletHistoryBlocks {process : Process}
    (genuine : Genuine platform chain genesis process) (publicKey : String) (first limit : Nat) :
    ∀ block ∈ (getDataOf (Db.walletHistoryBlocks publicKey first limit process.store)).elements,
      IsHistoryBlock platform chain genesis publicKey block := by
  rcases genuine.walletEntries publicKey with ⟨error, failed⟩ | ⟨items, listed, all⟩
  · have nothing : Db.walletHistoryBlocks publicKey first limit process.store = .error error := by
      rw [Db.walletHistoryBlocks, Cursor.slice, Cursor.field, Cursor.sortField, failed]
      rfl
    simp [nothing, getDataOf, Json.elements]
  · have numbers : ((((Db.wallet publicKey).field "transactions").sortField "block-id").field
        "block-id") process.store =
          .ok (.arr ((items.insertionSort fun first second =>
            Cursor.fieldRank "block-id" first ≤ Cursor.fieldRank "block-id" second).filterMap
              fun entry => entry.find? "block-id")) := by
      rw [Cursor.field, Cursor.sortField, listed]
      rfl
    intro block member
    simp only [Db.walletHistoryBlocks, Cursor.slice, numbers, bind, Except.bind, Cursor.rows,
      pure, Except.pure, getDataOf, Json.elements] at member
    obtain ⟨entry, sorted, numbered⟩ :=
      List.mem_filterMap.mp (List.mem_of_mem_drop (List.mem_of_mem_take member))
    have entryMem := (List.perm_insertionSort _ _).mem_iff.mp sorted
    exact (all entry entryMem).block numbered

/-- Whatever the history of a wallet is answered with was made of transactions
of the chain or of a genesis in which the wallet takes part. -/
theorem shown_history_is_genuine (api : NodeApi) {start : Start} {world : World}
    (reached : Faulty.ReachesFrom platform around chain genesis (Indexer.firstBoot start) world)
    {params : Json} {publicKey : String}
    (named : Api.textOf params "public-key" = .ok publicKey) {result : Json} :
    (Api.getWalletHistoryTransactions params world.shared.store = .ok (.answers result) →
      ∀ entry ∈ result.elements, IsEntry platform chain genesis publicKey entry) ∧
    (Api.getWalletHistoryBlocks api params world.shared.store = .ok (.answers result) →
      ∀ block ∈ result.elements, IsHistoryBlock platform chain genesis publicKey block) := by
  have genuine := genuine_of_reaches reached
  constructor
  · intro answered
    obtain ⟨key, keyEq, rest⟩ :=
      bind_eq_ok.mp (Api.answers_of_checkLimit (Api.answers_of_check answered))
    obtain rfl : publicKey = key := Except.ok.inj (named.symm.trans keyEq)
    obtain ⟨limit, -, rest⟩ := bind_eq_ok.mp rest
    obtain ⟨first, -, done⟩ := bind_eq_ok.mp rest
    obtain rfl := Outcome.answers.inj (Except.ok.inj done)
    exact genuine.walletHistoryTransactions publicKey first limit
  · intro answered
    obtain ⟨key, keyEq, rest⟩ :=
      bind_eq_ok.mp (Api.answers_of_checkLimit (Api.answers_of_check answered))
    obtain rfl : publicKey = key := Except.ok.inj (named.symm.trans keyEq)
    obtain ⟨limit, -, rest⟩ := bind_eq_ok.mp rest
    obtain ⟨⟨blockId, outcome⟩, read, done⟩ := bind_eq_ok.mp rest
    dsimp only at done
    split at done
    · obtain rfl := Except.ok.inj done
      rcases Api.getBlockId_outcome read with silent | ⟨message, failed⟩ <;> contradiction
    · obtain rfl := Outcome.answers.inj (Except.ok.inj done)
      exact genuine.walletHistoryBlocks publicKey _ limit

/-- The first read of the migration fails, then two blocks are indexed and the
history of `alice` is asked for. -/
theorem shown_history_is_genuine_once :
    ∃ world result,
      Faulty.ReachesFrom samplePlatform sampleSurroundings sampleChain (fun _ => True)
        (Indexer.firstBoot ⟨0, 0⟩) world ∧
      Api.getWalletHistoryTransactions (.ofMembers [("public-key", .str "alice"),
          ("first", .num 0), ("limit", .num 10)]) world.shared.store =
        .ok (.answers result) ∧ result.elements.length = 2 ∧
      ∀ entry ∈ result.elements,
        IsEntry samplePlatform sampleChain (fun _ => True) "alice" entry := by
  obtain ⟨world, reached, shown⟩ := Reaches.exists_of_runMoves
    (Faulty.step samplePlatform sampleSurroundings sampleChain) (fun _ _ => True)
    (Indexer.firstBoot ⟨0, 0⟩) (.fail 0 false :: ((catchUp 0 1).drop 1).map .indexer)
    (fun world => (getDataOf (Db.walletHistoryTransactions "alice" 0 10
      world.shared.store)).elements.length = 2) (by decide +kernel)
  have reachedFrom := Faulty.reachesFrom_of_reaches reached
  have answered : Api.getWalletHistoryTransactions (.ofMembers [("public-key", .str "alice"),
      ("first", .num 0), ("limit", .num 10)]) world.shared.store =
        .ok (.answers (getDataOf (Db.walletHistoryTransactions "alice" 0 10
          world.shared.store))) := rfl
  exact ⟨world, _, reachedFrom, answered, shown,
    (shown_history_is_genuine sampleApi reachedFrom rfl).1 answered⟩

end MileExplorer
