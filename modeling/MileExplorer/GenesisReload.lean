import MileExplorer.GenesisLoad

/-!
# Loading the genesis again

Every restart loads the genesis again.  The wallets have its entries by then
and keep them whatever blocks are indexed, and the rows of the genesis are
there, so a second load finds nothing to add.  A wallet that the first load
missed because of the row under the text of the index option is missed again.
-/

namespace MileExplorer

namespace Genesis

/-! ## Calls that have nothing to add -/

/-- The call has nothing to add to its wallet, now or later. -/
def Settled (run : WalletRun) (update : WalletUpdate) : Prop :=
  HoldsCall update.address run.process.store update.call ∨
    Stranded run.table run.running update.address

section Settled

variable {run next : WalletRun} {update : WalletUpdate}

theorem hiddenIn_iff {table : Table} {id : String} (updates : List WalletUpdate) :
    HiddenIn table id updates ↔ ¬ (updates.foldl updatedWallets table).Has (.str id) ∧
      (updates.foldl updatedWallets table).Has (.str Db.indexText) := by
  induction updates generalizing table with
  | nil => simp [HiddenIn, Hidden]
  | cons update rest ih => rw [hiddenIn_cons, List.foldl_cons, ih]

/-- After calls for one block each of them is settled, if no other is under way
or no row under the text of the index option hides a wallet. -/
theorem settled_of_foldl {before : Store} (formed : WalletsFormed (before .wallets))
    {updates : List WalletUpdate} (sameBlock : ∀ first ∈ updates, ∀ second ∈ updates,
      first.call.blockId = second.call.blockId)
    (afterEq : run.table = updates.foldl updatedWallets (before .wallets))
    (alone : run.running = [] ∨ ¬ run.table.Has (.str Db.indexText))
    (member : update ∈ updates) : Settled run update := by
  by_cases hidden : HiddenIn (before .wallets) update.address updates
  · have missing := (hiddenIn_iff updates).mp hidden
    rw [← afterEq] at missing
    have noCalls : run.running = [] := alone.resolve_right (not_not.mpr missing.2)
    refine .inr ⟨missing.1, missing.2, ?_⟩
    intro call isCall
    rw [noCalls] at isCall
    cases isCall
  · refine .inl ((holdsCall_foldl_iff formed ?_ afterEq).mpr ⟨hidden, .inr ?_, .inr member⟩)
    · exact fun other isOther => sameBlock other isOther update member
    · exact List.mem_map_of_mem member

theorem settled_eq_self (formed : run.process.Formed) (settled : Settled run update) :
    updatedWallets run.table update = run.table := by
  rcases settled with held | stranded
  · exact updatedWallets_eq_self formed held
  · rw [updatedWallets, if_pos (.inr stranded.index)]
    apply KeyedTable.modify_eq_self
    intro row found
    exact absurd (KeyedTable.has_iff_get?.mpr ⟨row, found⟩) stranded.absent

theorem HoldsCall.extend {before after : Store} {id : String} {call : WalletCall}
    (held : HoldsCall id before call)
    (extend : WalletsExtend (before .wallets) (after .wallets)) : HoldsCall id after call := by
  rw [HoldsCall, walletList_eq_listIn, walletList_eq_listIn] at held ⊢
  exact ⟨listIn_mono extend (.inl rfl) held.1, listIn_mono extend (.inr rfl) held.2⟩

theorem Settled.congr (settled : Settled run update) {process : Process}
    (wallets : process.store .wallets = run.table) :
    Settled ⟨process, run.running⟩ update := by
  rcases settled with held | stranded
  · refine .inl (HoldsCall.extend held ?_)
    rw [wallets]
    exact .refl _
  · right
    refine ⟨?_, ?_, stranded.noneInserts⟩
    · rw [WalletRun.table, wallets]
      exact stranded.absent
    · rw [WalletRun.table, wallets]
      exact stranded.index

theorem Settled.walletMove {move : WalletMove} (settled : Settled run update)
    (formed : run.process.Formed) (moved : walletStep run move = some next) :
    Settled next update := by
  rcases settled with held | stranded
  · exact .inl (HoldsCall.extend held (extend_move formed moved))
  · right
    cases move with
    | call other =>
        obtain rfl := Option.some.inj moved
        refine ⟨stranded.absent, stranded.index, ?_⟩
        intro call member inserting
        rcases List.mem_append.mp member with old | new
        · exact stranded.noneInserts call old inserting
        · obtain rfl := List.mem_singleton.mp new
          cases inserting
    | advance position =>
        obtain ⟨call, found, rfl⟩ := Option.map_eq_some_iff.mp moved
        obtain ⟨going, callStep, running⟩ := WalletRun.ask_callStep formed position call
        rw [split_running found] at stranded
        rw [running]
        exact stranded.step callStep formed

end Settled

/-! ## The genesis after indexing -/

/-- The indexing of blocks: wallet calls, and steps that leave the wallets and
the table of the genesis alone. -/
def Indexing (run : WalletRun) : Move → Prop
  | .fetch _ => False
  | move => Undisturbed run move

/-- The transactions are in the wallets and in the table of the genesis. -/
structure Loaded (elements : List Element) (run : WalletRun) : Prop where
  formed : RowsFormed run.process
  settled : ∀ element ∈ elements, Settled run element.update
  known : ∀ element ∈ elements,
    (run.process.store .genesisTransactions).Has (.str element.rowKey)

section Loaded

variable {elements : List Element} {Value : Type} {library : Library Value}

theorem wallets_addElements (process : Process) (serial : Nat) (elements : List Element) :
    (addElements process serial elements).store .wallets =
      (elements.map Element.update).foldl updatedWallets (process.store .wallets) := by
  induction elements generalizing process serial with
  | nil => rfl
  | cons element rest ih =>
      rw [addElements, ih, wallets_addElement, List.map_cons, List.foldl_cons]

theorem loaded_of_addElements {process : Process} (formed : RowsFormed process)
    (notNull : ∀ element ∈ elements, element ≠ .null) (stateQueue : List String)
    {running : List RunningCall}
    (alone : running = [] ∨
      ¬ ((addElements process 0 elements).store .wallets).Has (.str Db.indexText)) :
    Loaded elements
      ⟨{ addElements process 0 elements with stateQueue := stateQueue }, running⟩ := by
  refine ⟨(formed.addElements notNull 0).withStateQueue stateQueue, ?_, ?_⟩
  · intro element member
    refine settled_of_foldl formed.wallets ?_ (wallets_addElements process 0 elements) alone
      (List.mem_map_of_mem member)
    intro first firstMem second secondMem
    obtain ⟨one, -, rfl⟩ := List.mem_map.mp firstMem
    obtain ⟨other, -, rfl⟩ := List.mem_map.mp secondMem
    rfl
  · intro element member
    change ((addElements process 0 elements).store .genesisTransactions).Has _
    rw [genesis_addElements, KeyedTable.has_insertMany]
    right
    have listed : Json.str element.rowKey ∈ (genesisRows 0 elements).map docId := by
      rw [map_docId_genesisRows notNull]
      exact List.mem_map_of_mem member
    exact List.mem_map.mp listed

theorem Loaded.move {run next : WalletRun} {move : Move} (loaded : Loaded elements run)
    (indexing : Indexing run move) (moved : step library run move = some next) :
    Loaded elements next := by
  cases move with
  | wallet move =>
      refine ⟨loaded.formed.walletMove moved, ?_, ?_⟩
      · intro element member
        exact (loaded.settled element member).walletMove loaded.formed.wallets moved
      · intro element member
        rw [genesis_walletMove moved]
        exact loaded.known element member
  | fetch body => exact indexing.elim
  | other process =>
      have undisturbed : Undisturbed run (.other process) := indexing
      have kept : RowsFormed next.process := loaded.formed.move undisturbed moved
      obtain rfl := Option.some.inj moved
      obtain ⟨wallets, genesis⟩ := undisturbed
      refine ⟨kept, ?_, ?_⟩
      · intro element member
        exact (loaded.settled element member).congr wallets
      · intro element member
        rw [genesis]
        exact loaded.known element member

/-- A settled transaction only asks for the state of its wallet. -/
theorem addElement_eq {process : Process} {running : List RunningCall} {element : Element}
    (formed : RowsFormed process) (settled : Settled ⟨process, running⟩ element.update)
    (notNull : element ≠ .null)
    (known : (process.store .genesisTransactions).Has (.str element.rowKey)) (serial : Nat) :
    addElement process serial element =
      { process with stateQueue := process.stateQueue ++ [element.update.address] } := by
  have wallets : updatedWallets (process.store .wallets) element.update =
      process.store .wallets := settled_eq_self formed.wallets settled
  have genesis : (process.store .genesisTransactions).insert (genesisRow serial element) =
      process.store .genesisTransactions :=
    KeyedTable.insert_of_has (by rwa [docId_genesisRow notNull])
  have store : (process.updateWallet element.update).store = process.store := by
    rw [Process.updateWallet, wallets, Function.update_eq_self]
  rw [addElement, genesis, Process.withTable, store, Function.update_eq_self]
  rfl

/-- Wallets that have the entries and rows that are there stay as they are. -/
theorem addElements_eq {process : Process} {running : List RunningCall}
    (loaded : Loaded elements ⟨process, running⟩)
    (notNull : ∀ element ∈ elements, element ≠ .null) (serial : Nat) :
    ∃ stateQueue, addElements process serial elements =
      { process with stateQueue := stateQueue } := by
  induction elements generalizing process serial with
  | nil => exact ⟨process.stateQueue, rfl⟩
  | cons element rest ih =>
      rw [addElements, addElement_eq loaded.formed (loaded.settled element (by simp))
        (notNull element (by simp)) (loaded.known element (by simp))]
      apply ih ?_ (fun other member => notNull other (by simp [member]))
      refine ⟨loaded.formed.withStateQueue _, ?_, ?_⟩
      · intro other member
        exact (loaded.settled other (by simp [member])).congr rfl
      · intro other member
        exact loaded.known other (by simp [member])

end Loaded

/-- Whatever is indexed after a complete load of transactions, a second load of
them changes no table.  Wallet calls may be under way at the first load, but
not while a wallet has the text of the index option for its key. -/
theorem reload_changes_nothing {Value : Type} {library : Library Value} {start later : WalletRun}
    (reached : Reaches (step library) Undisturbed quietRun start)
    {elements : List Element} (notNull : ∀ element ∈ elements, element ≠ .null)
    {loaded : Process}
    (complete : (Db.updateGenesis elements).run Process.exec start.process = (.ok (), loaded))
    (alone : start.running = [] ∨ ¬ (loaded.store .wallets).Has (.str Db.indexText))
    (indexed : Reaches (step library) Indexing ⟨loaded, start.running⟩ later) :
    ∃ after, (Db.updateGenesis elements).run Process.exec later.process = (.ok (), after) ∧
      after.store = later.process.store := by
  have formed := RowsFormed.reached reached
  have dumps := dumps_of_updateGenesis formed notNull complete
  have good : ∀ element ∈ elements, element ≠ .null ∧ element.dumps = true :=
    fun element member => ⟨notNull element member, dumps element member⟩
  obtain ⟨stateQueue, first⟩ := updateGenesis_run formed good
  obtain rfl := (Prod.mk.inj (first.symm.trans complete)).2
  have kept : Loaded elements later :=
    indexed.invariant (Loaded elements) (loaded_of_addElements formed notNull stateQueue alone)
      fun _ _ _ current indexing moved => current.move indexing moved
  obtain ⟨asked, second⟩ := updateGenesis_run kept.formed good
  obtain ⟨process, running⟩ := later
  obtain ⟨otherQueue, same⟩ := addElements_eq kept notNull 0
  refine ⟨_, second, ?_⟩
  rw [same]

theorem indexing_of_walletStep {Value : Type} {library : Library Value} {first last : WalletRun}
    (reached : Reaches walletStep JobCall first last) :
    Reaches (step library) Indexing first last := by
  induction reached with
  | refl => exact .refl
  | @tail current next move _ _ moved ih =>
      have indexing : Indexing current (.wallet move) := trivial
      exact ih.tail indexing moved

def sampleGenesis : List Element :=
  [.transfer "1000.00" 0 "0.00" sampleKey 0,
    .registerNode (bytesOf "10.0.0.1") "500.00" sampleKey 1]

def sampleLoaded : Process :=
  ((Db.updateGenesis sampleGenesis).run Process.exec quietRun.process).2

/-- A block is indexed between the two loads. -/
theorem reload_changes_nothing_indexed :
    (Db.updateGenesis sampleGenesis).run Process.exec quietRun.process =
        (.ok (), sampleLoaded) ∧
    ∃ later, Reaches (step sampleLibrary) Indexing ⟨sampleLoaded, []⟩ later ∧
      listIn later.table sampleKey "blocks" = [.num 0, .num 7] ∧
      ∃ after, (Db.updateGenesis sampleGenesis).run Process.exec later.process = (.ok (), after) ∧
        after.store = later.process.store := by
  have complete : (Db.updateGenesis sampleGenesis).run Process.exec quietRun.process =
      (.ok (), sampleLoaded) := by
    have ended : ((Db.updateGenesis sampleGenesis).run Process.exec quietRun.process).1 =
        .ok () := by
      decide +kernel
    exact Prod.ext ended rfl
  obtain ⟨later, moves, blocks⟩ := Reaches.exists_of_runMoves walletStep JobCall
    ⟨sampleLoaded, []⟩
    [.call (transferCall sampleKey 7), .advance 0, .advance 0, .advance 0]
    (fun run => listIn run.table sampleKey "blocks" = [.num 0, .num 7]) (by decide +kernel)
  have indexed : Reaches (step sampleLibrary) Indexing ⟨sampleLoaded, []⟩ later :=
    indexing_of_walletStep moves
  exact ⟨complete, later, indexed, blocks,
    reload_changes_nothing .refl (by simp [sampleGenesis]) complete (.inl rfl) indexed⟩

end Genesis

end MileExplorer
