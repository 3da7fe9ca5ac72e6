import MileExplorer.Blocks
import MileExplorer.ThreadPool

/-!
# The indexer

All threads of the indexer beside each other: the migration at the start, the
two processing loops, the workers of `transactions_queue_`, the fetcher with
its deliveries, and the end of the process at any moment.  A run is any
sequence of single queries of these threads.
-/

namespace MileExplorer

/-- A block as the nodes deliver it: an object with the number as its `id`. -/
structure NodeBlock (number : Nat) where
  json : Json
  idEq : json.find? "id" = some (.str (toString number))

/-- The blocks of the chain.  A block has the same content whenever it is
delivered. -/
abbrev Chain := (number : Nat) → NodeBlock number

inductive Role where
  | migrating
  | starter
  | blocks
  | transactions
  | worker
  | delivery
  deriving DecidableEq, Repr

/-- How a thread ends: for good, with the database ready, or with a pass of a
loop over. -/
inductive Exit where
  | ended
  | initialized
  | blocks
  | transactions (prevBid : Nat)
  deriving DecidableEq, Repr

abbrev IndexerThread := Thread Role Query (Except DbError Json) Exit

abbrev World := Pool Role Query (Except DbError Json) Process Exit

namespace Indexer

/-- `Db::init` up to the start of the loops. -/
def migratingThread (start : Start) : IndexerThread where
  role := .migrating
  program := do
    Db.migration start.indexerVersion start.now
    return .initialized

def blocksThread : IndexerThread where
  role := .blocks
  program := do
    Db.blocksProcessing
    return .blocks

def transactionsThread (prevBid : Nat) : IndexerThread where
  role := .transactions
  program := do
    let prevBid ← Db.transactionsProcessing prevBid
    return .transactions prevBid

/-- The end of `main`: the fetcher is started at the last stored block. -/
def starterThread : IndexerThread where
  role := .starter
  program := do
    let first ← Db.getNumber .other Db.lastBlockId
    .request (.run (toUInt64 first)) fun _ => .ended

def workerThread (platform : Platform) (job : Job) : IndexerThread where
  role := .worker
  program := do
    Db.runJob platform job
    return .ended

def deliveryThread (platform : Platform) (block : Json) (number : Nat) (now : Int) :
    IndexerThread where
  role := .delivery
  program := do
    Db.addBlock platform block number now
    .request (.delivered number) fun _ => .ended

/-- The threads that take the place of one that has ended. -/
def resume : Exit → List IndexerThread
  | .ended => []
  | .initialized => [blocksThread, transactionsThread 0, starterThread]
  | .blocks => [blocksThread]
  | .transactions prevBid => [transactionsThread prevBid]

inductive Move where
  /-- The fetcher sees the height of the chain and asks for the blocks from
  where it stands up to it. -/
  | fetch (last : Nat)
  /-- Any other request for a block, such as one it has asked for before. -/
  | request (number : Nat)
  /-- A block has been downloaded and is given to `add_block`. -/
  | deliver (number : Nat) (now : Int)
  /-- A worker takes a job from the queue. -/
  | work (position : Nat)
  /-- A thread makes its next query. -/
  | advance (position : Nat)
  /-- The process is killed and started again. -/
  | restart (start : Start)

variable (platform : Platform) (chain : Chain)

def fetch (first last : Nat) (process : Process) : Process :=
  { process with
    fetcher := { process.fetcher with
      first := some last
      resumed := true
      fetching := process.fetcher.fetching ++ List.range' first (last + 1 - first) } }

def request (number : Nat) (process : Process) : Process :=
  { process with
    fetcher := { process.fetcher with
      fetching := process.fetcher.fetching ++ [number] } }

def deliver (number : Nat) (process : Process) : Process :=
  { process with
    fetcher := { process.fetcher with
      fetching := process.fetcher.fetching.erase number
      delivering := process.fetcher.delivering ++ [number] } }

def take (position : Nat) (job : Job) (process : Process) : Process :=
  { process with
    waiting := process.waiting.eraseIdx position
    running := process.running ++ [job] }

def boot (start : Start) (store : Store) : World :=
  ⟨Process.idle store, [migratingThread start]⟩

/-- One move of the indexer.  Blocks are asked for once the fetcher runs, and
only blocks that were asked for are delivered. -/
def step (world : World) : Move → Option World
  | .fetch last =>
      match world.shared.fetcher.first with
      | none => none
      | some first =>
          if first < last then some { world with shared := fetch first last world.shared }
          else none
  | .request number =>
      if world.shared.fetcher.first.isSome then
        some { world with shared := request number world.shared }
      else none
  | .deliver number now =>
      if number ∈ world.shared.fetcher.fetching then
        some ⟨deliver number world.shared,
          world.threads ++ [deliveryThread platform (chain number).json number now]⟩
      else none
  | .work position =>
      world.shared.waiting[position]?.map fun job =>
        ⟨take position job world.shared, world.threads ++ [workerThread platform job]⟩
  | .advance position => world.advance Process.exec resume position
  | .restart start => some (boot start world.shared.store)

/-- The thread is about to read the pending blocks for a new pass. -/
def takesSnapshot (world : World) (position : Nat) : Bool :=
  match world.threads[position]? with
  | some ⟨_, .ask (.read (.snapshot .blocksProcessing) _) _⟩ => true
  | _ => false

/-- Runs in which the process is restarted only on tables that `restarts`
admits, and in which a pass of `blocks_processing` reads the pending blocks
only when `snapshots` admits the tables. -/
def allowed (restarts snapshots : Store → Prop) (world : World) : Move → Prop
  | .advance position => takesSnapshot world position = true → snapshots world.shared.store
  | .restart _ => restarts world.shared.store
  | _ => True

instance (restarts snapshots : Store → Prop) [DecidablePred restarts] [DecidablePred snapshots]
    (world : World) (move : Move) : Decidable (allowed restarts snapshots world move) :=
  match move with
  | .advance position => inferInstanceAs
      (Decidable (takesSnapshot world position = true → snapshots world.shared.store))
  | .restart _ => inferInstanceAs (Decidable (restarts world.shared.store))
  | .fetch _ | .request _ | .deliver _ _ | .work _ => inferInstanceAs (Decidable True)

def firstBoot (start : Start) : World := boot start Store.empty

end Indexer

/-- The run reaches the state from an empty database. -/
abbrev IndexerReaches (platform : Platform) (chain : Chain) (restarts snapshots : Store → Prop)
    (start : Start) : World → Prop :=
  Reaches (Indexer.step platform chain) (Indexer.allowed restarts snapshots)
    (Indexer.firstBoot start)

end MileExplorer
