import MileExplorer.BlockRows
import MileExplorer.IndexerRoles

/-!
# The discipline of the indexer's threads

What every state of the indexer satisfies and what each thread may do to the
others.  A transaction id is covered once it is in `transactions` or
`transactions_processing`; a block is secured once its ids are covered or its
stream job is queued.  No thread ever gives this up, and a block is stored only
when it is secured.
-/

namespace MileExplorer

namespace Process

variable (process : Process)

def Stored (number : Nat) : Prop := HasBlock (process.store .blocks) number

def Pending (number : Nat) : Prop := HasBlock (process.store .blocksProcessing) number

/-- The block has been delivered. -/
def Known (number : Nat) : Prop := process.Stored number ∨ process.Pending number

/-- The row is in `transactions` or on its way in `transactions_processing`. -/
def Covered (id : String) : Prop :=
  (process.store .transactions).Has (.str id) ∨
    (process.store .transactionsProcessing).Has (.str id)

/-- The stream job of the block waits in the queue or is being worked on. -/
def Queued (number : Nat) : Prop :=
  ∃ transactions time, Job.stream transactions number time ∈ process.waiting ++ process.running

/-- Every row of the block is covered or will be by a queued job. -/
def Secured (chain : Chain) (number : Nat) : Prop :=
  process.Queued number ∨ ∀ id ∈ chain.ids number, process.Covered id

/-- The block is the last one, and the gate holds back every pending block
above it. -/
def Closed (number : Nat) : Prop :=
  process.Stored number ∧ (∀ other, process.Stored other → other ≤ number) ∧
    ∀ other, process.Pending other → number < other → Db.isForward number other

/-- The block is the one with which the fetcher will begin after its start. -/
def Awaited (number : Nat) : Prop :=
  (process.fetcher.first = none ∧ process.Closed number) ∨
    (process.fetcher.first = some number ∧ process.fetcher.resumed = false)

/-- The transactions of the block are not lost: the block is secured, or it is
pending again, or it will be. -/
def Kept (chain : Chain) (number : Nat) : Prop :=
  process.Secured chain number ∨ process.Pending number ∨
    number ∈ process.fetcher.fetching ∨ number ∈ process.fetcher.delivering ∨
    process.Awaited number

/-- The transactions of no stored block are lost. -/
def Intact (chain : Chain) : Prop := ∀ number, process.Stored number → process.Kept chain number

end Process

/-! ## The invariant -/

/-- A pending row of a transaction of a block. -/
def IsStreamRow (chain : Chain) (process : Process) (row : Json) : Prop :=
  ∃ number id, id ∈ chain.ids number ∧ process.Known number ∧
    row.find? "id" = some (.str id) ∧ row.find? "block-id" = some (.num number) ∧
    number < 2 ^ 64 ∧
    ∃ type, row.find? "transaction-type" = some type ∧ type ≠ processingType

/-- The row that marks a block without a list of transactions. -/
def IsMarkerRow (chain : Chain) (row : Json) : Prop :=
  ∃ number : Nat, row.find? "id" = some (.str (toString number)) ∧
    row.find? "block-id" = some (.num number) ∧ number < 2 ^ 64 ∧
    row.find? "transaction-type" = some processingType ∧
    ∀ transactions, (chain number).json.find? "transactions" ≠ some (.arr transactions)

/-- What every state satisfies. -/
structure Valid (platform : Platform) (chain : Chain) (process : Process) : Prop where
  blocks : BlockRows platform chain (process.store .blocks)
  pendingBlocks : BlockRows platform chain (process.store .blocksProcessing)
  pending : ∀ row ∈ (process.store .transactionsProcessing).rows,
    IsStreamRow chain process row ∨ IsMarkerRow chain row
  stored : ∀ row ∈ (process.store .transactions).rows,
    ∃ number id, id ∈ chain.ids number ∧ process.Known number ∧ docId row = .str id
  jobs : ∀ transactions number time,
    Job.stream transactions number time ∈ process.waiting ++ process.running →
      process.Known number ∧ number < 2 ^ 64 ∧ ∃ list, transactions = .arr list ∧
        (chain number).json.find? "transactions" = some (.arr list)
  unstarted : process.fetcher.first = none →
    process.fetcher.fetching = [] ∧ process.fetcher.delivering = []

/-- What is left of a process when it is killed. -/
theorem Valid.restart {platform : Platform} {chain : Chain}
    {process : Process} (valid : Valid platform chain process) :
    Valid platform chain (Process.idle process.store) where
  blocks := valid.blocks
  pendingBlocks := valid.pendingBlocks
  pending := valid.pending
  stored := valid.stored
  jobs := by simp [Process.idle]
  unstarted _ := ⟨rfl, rfl⟩

theorem Valid.of_blocks {platform : Platform} {chain : Chain}
    {before after : Process} (valid : Valid platform chain before)
    (sameTransactions : after.store .transactions = before.store .transactions)
    (sameRows : after.store .transactionsProcessing = before.store .transactionsProcessing)
    (sameWaiting : after.waiting = before.waiting) (sameRunning : after.running = before.running)
    (sameFetcher : after.fetcher = before.fetcher)
    (blocks : BlockRows platform chain (after.store .blocks))
    (pendingBlocks : BlockRows platform chain (after.store .blocksProcessing))
    (known : ∀ number, before.Known number → after.Known number) :
    Valid platform chain after := by
  refine ⟨blocks, pendingBlocks, ?_, ?_, ?_, ?_⟩
  · rw [sameRows]
    intro other member
    refine (valid.pending other member).imp_left ?_
    rintro ⟨block, id, idMem, has, rest⟩
    exact ⟨block, id, idMem, known block has, rest⟩
  · rw [sameTransactions]
    intro other member
    obtain ⟨block, id, idMem, has, idEq⟩ := valid.stored other member
    exact ⟨block, id, idMem, known block has, idEq⟩
  · rw [sameWaiting, sameRunning]
    intro transactions block time member
    obtain ⟨has, rest⟩ := valid.jobs transactions block time member
    exact ⟨known block has, rest⟩
  · rw [sameFetcher]
    exact valid.unstarted

/-! ## What no thread gives up -/

/-- The relation that every query of the running indexer respects. -/
structure Grows (chain : Chain) (before after : Process) : Prop where
  transactions : ∀ id, (before.store .transactions).Has id → (after.store .transactions).Has id
  covered : ∀ number, ∀ id ∈ chain.ids number, before.Covered id → after.Covered id
  secured : ∀ number, before.Secured chain number → after.Secured chain number
  stored : ∀ number, before.Stored number → after.Stored number
  known : ∀ number, before.Known number → after.Known number
  retained : ∀ number, before.Secured chain number ∨ before.Pending number →
    after.Secured chain number ∨ after.Pending number
  fresh : ∀ number, after.Stored number → before.Stored number ∨ after.Secured chain number
  started : before.fetcher.first.isSome → after.fetcher.first.isSome
  closed : after.fetcher.first = none → ∀ number, before.Closed number → after.Closed number
  kept : ∀ number, (before.Stored number → before.Kept chain number) →
    after.Stored number → after.Kept chain number

namespace Grows

variable {chain : Chain} {before after : Process}

theorem refl (process : Process) : Grows chain process process where
  transactions _ has := has
  covered _ _ _ has := has
  secured _ has := has
  stored _ has := has
  known _ has := has
  retained _ has := has
  fresh _ has := .inl has
  started has := has
  closed _ _ has := has
  kept _ kept := kept

theorem trans {first second third : Process} (earlier : Grows chain first second)
    (later : Grows chain second third) : Grows chain first third where
  transactions id has := later.transactions id (earlier.transactions id has)
  covered number id member has :=
    later.covered number id member (earlier.covered number id member has)
  secured number has := later.secured number (earlier.secured number has)
  stored number has := later.stored number (earlier.stored number has)
  known number has := later.known number (earlier.known number has)
  retained number has := later.retained number (earlier.retained number has)
  fresh number has := by
    rcases later.fresh number has with old | secured
    · exact (earlier.fresh number old).imp_right (later.secured number)
    · exact .inr secured
  started has := later.started (earlier.started has)
  closed unstarted number closed := by
    refine later.closed unstarted number (earlier.closed ?_ number closed)
    cases found : second.fetcher.first with
    | none => rfl
    | some first => simpa [unstarted] using later.started (by simp [found])
  kept number kept := later.kept number (earlier.kept number kept)

/-- While the fetcher stands still, what keeps a stored block is retained. -/
theorem kept_of_retained (sameFetcher : after.fetcher = before.fetcher)
    (retained : ∀ number, before.Secured chain number ∨ before.Pending number →
      after.Secured chain number ∨ after.Pending number)
    (fresh : ∀ number, after.Stored number → before.Stored number ∨ after.Secured chain number)
    (closed : after.fetcher.first = none → ∀ number, before.Closed number → after.Closed number)
    (number : Nat) (kept : before.Stored number → before.Kept chain number)
    (stored : after.Stored number) : after.Kept chain number := by
  rcases fresh number stored with old | secured
  · rcases kept old with secured | pending | fetching | delivering | awaited
    · exact (retained number (.inl secured)).imp_right .inl
    · exact (retained number (.inr pending)).imp_right .inl
    · exact .inr (.inr (.inl (sameFetcher ▸ fetching)))
    · exact .inr (.inr (.inr (.inl (sameFetcher ▸ delivering))))
    · refine .inr (.inr (.inr (.inr ?_)))
      rcases awaited with ⟨unstarted, isClosed⟩ | begins
      · have stillUnstarted : after.fetcher.first = none := by rw [sameFetcher, unstarted]
        exact .inl ⟨stillUnstarted, closed stillUnstarted number isClosed⟩
      · exact .inr (by rw [sameFetcher]; exact begins)
  · exact .inl secured

/-- A step that leaves the block tables and the fetcher alone. -/
theorem of_stream (sameBlocks : after.store .blocks = before.store .blocks)
    (samePending : after.store .blocksProcessing = before.store .blocksProcessing)
    (sameFetcher : after.fetcher = before.fetcher)
    (transactions : ∀ id, (before.store .transactions).Has id →
      (after.store .transactions).Has id)
    (covered : ∀ number, ∀ id ∈ chain.ids number, before.Covered id → after.Covered id)
    (secured : ∀ number, before.Secured chain number → after.Secured chain number) :
    Grows chain before after := by
  have stored (number : Nat) : after.Stored number ↔ before.Stored number := by
    rw [Process.Stored, Process.Stored, sameBlocks]
  have pending (number : Nat) : after.Pending number ↔ before.Pending number := by
    rw [Process.Pending, Process.Pending, samePending]
  have closed (number : Nat) (isClosed : before.Closed number) : after.Closed number := by
    simpa only [Process.Closed, stored, pending] using isClosed
  have retained (number : Nat) (has : before.Secured chain number ∨ before.Pending number) :
      after.Secured chain number ∨ after.Pending number :=
    has.imp (secured number) (pending number).mpr
  have fresh (number : Nat) (has : after.Stored number) :
      before.Stored number ∨ after.Secured chain number := .inl ((stored number).mp has)
  exact {
    transactions, covered, secured, retained, fresh
    stored := fun number => (stored number).mpr
    known := fun number => Or.imp (stored number).mpr (pending number).mpr
    started := by rw [sameFetcher]; exact fun has => has
    closed := fun _ => closed
    kept := kept_of_retained sameFetcher retained fresh fun _ => closed }

/-- A step that leaves the transaction tables, the jobs and the fetcher
alone. -/
theorem of_blocks (sameTransactions : after.store .transactions = before.store .transactions)
    (sameRows : after.store .transactionsProcessing = before.store .transactionsProcessing)
    (sameWaiting : after.waiting = before.waiting) (sameRunning : after.running = before.running)
    (sameFetcher : after.fetcher = before.fetcher)
    (stored : ∀ number, before.Stored number → after.Stored number)
    (known : ∀ number, before.Known number → after.Known number)
    (retained : ∀ number, before.Secured chain number ∨ before.Pending number →
      before.Secured chain number ∨ after.Pending number)
    (fresh : ∀ number, after.Stored number → before.Stored number ∨ before.Secured chain number)
    (closed : after.fetcher.first = none → ∀ number, before.Closed number →
      after.Closed number) :
    Grows chain before after := by
  have covered (id : String) : after.Covered id ↔ before.Covered id := by
    rw [Process.Covered, Process.Covered, sameTransactions, sameRows]
  have secured (number : Nat) : after.Secured chain number ↔ before.Secured chain number := by
    simp only [Process.Secured, Process.Queued, covered, sameWaiting, sameRunning]
  have retained' (number : Nat) (has : before.Secured chain number ∨ before.Pending number) :
      after.Secured chain number ∨ after.Pending number := by
    rw [secured]
    exact retained number has
  have fresh' (number : Nat) (has : after.Stored number) :
      before.Stored number ∨ after.Secured chain number := by
    rw [secured]
    exact fresh number has
  exact {
    stored, known, closed
    transactions := by rw [sameTransactions]; exact fun _ has => has
    covered := fun _ id _ => (covered id).mpr
    secured := fun number => (secured number).mpr
    retained := retained'
    fresh := fresh'
    started := by rw [sameFetcher]; exact fun has => has
    kept := kept_of_retained sameFetcher retained' fresh' closed }

theorem of_fetcher (sameStore : after.store = before.store)
    (sameWaiting : after.waiting = before.waiting) (sameRunning : after.running = before.running)
    (started : before.fetcher.first.isSome → after.fetcher.first.isSome)
    (kept : ∀ number, before.Stored number → before.Kept chain number →
      after.Kept chain number) :
    Grows chain before after := by
  have stored (number : Nat) : after.Stored number ↔ before.Stored number := by
    rw [Process.Stored, Process.Stored, sameStore]
  have pending (number : Nat) : after.Pending number ↔ before.Pending number := by
    rw [Process.Pending, Process.Pending, sameStore]
  have covered (id : String) : after.Covered id ↔ before.Covered id := by
    rw [Process.Covered, Process.Covered, sameStore]
  have secured (number : Nat) : after.Secured chain number ↔ before.Secured chain number := by
    simp only [Process.Secured, Process.Queued, covered, sameWaiting, sameRunning]
  exact {
    started
    transactions := by rw [sameStore]; exact fun _ has => has
    covered := fun _ id _ => (covered id).mpr
    secured := fun number => (secured number).mpr
    stored := fun number => (stored number).mpr
    known := fun number => Or.imp (stored number).mpr (pending number).mpr
    retained := fun number => Or.imp (secured number).mpr (pending number).mpr
    fresh := fun number has => .inl ((stored number).mp has)
    closed := fun _ number isClosed => by
      simpa only [Process.Closed, stored, pending] using isClosed
    kept := fun number wasKept has =>
      kept number ((stored number).mp has) (wasKept ((stored number).mp has)) }

end Grows

/-! ## The discipline -/

/-- The table of blocks is as it was and no block is taken out of
`blocks_processing`: what only the `blocks_processing` loop may change. -/
def BlocksHeld (before after : Process) : Prop :=
  after.store .blocks = before.store .blocks ∧
    ∀ number, before.Pending number → after.Pending number

def StillUnstarted (before after : Process) : Prop :=
  before.fetcher.first = none → after.fetcher.first = none

/-- Contracts of the threads.  Nothing runs beside the migration. -/
def indexing (platform : Platform) (chain : Chain) :
    Discipline Role Query Process where
  valid := Valid platform chain
  rely role before after :=
    match role with
    | .migrating => after = before
    | .blocks => Grows chain before after ∧ BlocksHeld before after
    | .starter => Grows chain before after ∧ StillUnstarted before after
    | _ => Grows chain before after
  guarantee role before after :=
    match role with
    | .migrating => SameQueues before after ∧ after.store .blocks = before.store .blocks
    | .blocks => Grows chain before after ∧ StillUnstarted before after
    | .starter => Grows chain before after ∧ BlocksHeld before after
    | _ => Grows chain before after ∧ BlocksHeld before after ∧ StillUnstarted before after
  admits _ _ := True
  relyRefl role process := by
    cases role with
    | migrating => rfl
    | blocks => exact ⟨.refl process, rfl, fun _ has => has⟩
    | starter => exact ⟨.refl process, fun has => has⟩
    | _ => exact Grows.refl process
  relyTrans role first second third earlier later := by
    cases role with
    | migrating => exact Eq.trans later earlier
    | blocks =>
        exact ⟨earlier.1.trans later.1, later.2.1.trans earlier.2.1,
          fun number has => later.2.2 number (earlier.2.2 number has)⟩
    | starter => exact ⟨earlier.1.trans later.1, fun has => later.2 (earlier.2 has)⟩
    | _ => exact Grows.trans earlier later
  guaranteeRefl role process := by
    cases role with
    | migrating => exact ⟨⟨rfl, rfl, rfl⟩, rfl⟩
    | blocks => exact ⟨.refl process, fun has => has⟩
    | starter => exact ⟨.refl process, rfl, fun _ has => has⟩
    | _ => exact ⟨.refl process, ⟨rfl, fun _ has => has⟩, fun has => has⟩

/-- What holds when a thread ends: the migration hands over tables in which
the transactions of no stored block are lost. -/
def indexingPost (chain : Chain) (role : Role) (exit : Exit) (process : Process) : Prop :=
  role.exitsAs exit ∧
    (exit = .initialized → process.fetcher.first = none ∧ process.Intact chain)

theorem Role.besides.compatible {platform : Platform} {chain : Chain}
    {first second : Role} (together : first.besides second) :
    (indexing platform chain).Compatible first second := by
  have oneWay : ∀ {actor other : Role}, actor.besides other → ∀ before after,
      (indexing platform chain).guarantee actor before after →
        (indexing platform chain).rely other before after := by
    intro actor other beside before after guaranteed
    cases actor <;> cases other <;> first
      | exact absurd beside (by decide)
      | exact guaranteed
      | exact guaranteed.1
      | exact ⟨guaranteed.1, guaranteed.2.1⟩
      | exact ⟨guaranteed.1, guaranteed.2.2⟩
  exact fun before after _ _ =>
    ⟨oneWay together before after, oneWay together.symm before after⟩

end MileExplorer
