import MileExplorer.StoreRules

/-!
# Start-up of the indexer

`db::migration`, which every start of the indexer runs before the loops: it
brings the version rows up to date and flushes pending transactions that the
stored state counts as done.
-/

namespace MileExplorer

/-- What a start of the indexer depends on: its version and the clock. -/
structure Start where
  indexerVersion : Nat
  now : Int

namespace Db

/-- Conversion of the `double` of `get_number` to `unsigned int`.  It is
undefined outside of the range: here a negative number becomes 0 and a greater
one wraps. -/
def toUInt32 (number : Rat) : Nat := (Json.truncate number).toNat % 2 ^ 32

def getVersion : Prog Nat := do
  let version ← getNumber .other (((cursor .metadata).max "id").field "version")
  return toUInt32 version

def updateVersion (version : Nat) (now : Int) : Prog Unit := do
  let restarts ← getNumber .other (((cursor .metadata).max "id").field "id")
  let previousVersion ← getVersion
  insert .other .metadata (.ofMembers
    [("id", .num ((toUInt32 restarts + 1) % 2 ^ 32 : Nat)),
      ("version", .num version),
      ("previous_version", .num previousVersion),
      ("timestamp", .num now)])

def lastProcessedBlockId : Cursor :=
  ((cursor .transactionsState).get "state").field "block-id"

def lastBlockId : Cursor :=
  ((cursor .blocks).max "block-id").field "block-id"

/-- The smallest block id of a pending transaction. -/
def processingBlockId : Cursor :=
  ((cursor .transactionsProcessing).min "block-id").field "block-id"

def removeBetweenEffect (table : TableName) (first limit : Nat) (index : String)
    (store : Store) : Except DbError Store :=
  .ok (Function.update store table
    ((store table).eraseWhere (Cursor.between.inRange first limit index)))

/-- The last part of `db::migration`: remove the pending transactions from the
smallest pending block on, when the stored state is past that block. -/
def flush : Prog Unit := do
  let state ← getNumber .other lastProcessedBlockId
  let processing ← getNumber .other processingBlockId
  let stateBlockId := toUInt64 state
  let processingBlockId := toUInt64 processing
  if stateBlockId > processingBlockId ∧ processingBlockId > 0 then
    .request (.write .other (removeBetweenEffect .transactionsProcessing processingBlockId
      stateBlockId "block-id")) fun _ => ()
  else
    return ()

def Flushes (store : Store) (row : Json) : Prop :=
  let state := toUInt64 (getNumberOf (lastProcessedBlockId store))
  let processing := toUInt64 (getNumberOf (processingBlockId store))
  (state > processing ∧ processing > 0) ∧
    Cursor.between.inRange processing state "block-id" row = true

instance (store : Store) (row : Json) : Decidable (Flushes store row) :=
  inferInstanceAs (Decidable (_ ∧ _))

def removeOldVersion (old : Rat) : Prog Unit :=
  if old ≤ 122 then remove .other .metadata "version" else return ()

/-- The version row of a newer indexer. -/
def upgrade (indexerVersion : Nat) (now : Int) : Prog Unit := do
  let version ← getVersion
  if indexerVersion > version then updateVersion indexerVersion now else return ()

/-- `db::migration`.  The step `m127` only writes to the log. -/
def migration (indexerVersion : Nat) (now : Int) : Prog Unit := do
  let _ ← getVersion
  let old ← getNumber .other (((cursor .metadata).get "version").field "current")
  removeOldVersion old
  upgrade indexerVersion now
  flush

/-! ## What the migration keeps -/

section Rules

variable {contract : Contract Query Process} {before after : Process → Prop} {process : Process}
  (stable : ∀ current later, contract.rely current later → before current → before later)
  (metadata : ∀ current rows, contract.valid current → before current →
    contract.valid (current.withTable .metadata rows) ∧
      contract.guarantee current (current.withTable .metadata rows) ∧
      before (current.withTable .metadata rows))

include stable

theorem getVersion_holds (initially : before process) :
    getVersion.Holds Process.exec contract (fun _ => before) process :=
  getNumber_bind_holds fun _ moved _ => stable _ _ moved initially

include metadata

theorem removeOldVersion_holds (old : Rat) (initially : before process) :
    (removeOldVersion old).Holds Process.exec contract (fun _ => before) process := by
  unfold removeOldVersion
  split_ifs
  · exact remove_bind_holds fun current moved valid =>
      metadata current _ valid (stable _ _ moved initially)
  · exact initially

theorem updateVersion_holds (version : Nat) (now : Int) (initially : before process) :
    (updateVersion version now).Holds Process.exec contract (fun _ => before) process := by
  refine getNumber_bind_holds fun first moved _ => ?_
  refine (getVersion_holds stable (stable _ _ moved initially)).bind fun _ second holds => ?_
  exact insert_bind_holds rfl fun third movedAgain valid =>
    metadata third _ valid (stable _ _ movedAgain holds)

theorem upgrade_holds (version : Nat) (now : Int) (initially : before process) :
    (upgrade version now).Holds Process.exec contract (fun _ => before) process := by
  refine (getVersion_holds stable initially).bind fun _ current holds => ?_
  split_ifs
  · exact updateVersion_holds stable metadata _ _ holds
  · exact holds

variable (before) in
/-- The version half of the migration changes the version rows only, so what
survives such changes is still there for the flush. -/
theorem migration_holds (indexerVersion : Nat) (now : Int)
    (flushes : ∀ current, before current →
      flush.Holds Process.exec contract (fun _ => after) current)
    (initially : before process) :
    (migration indexerVersion now).Holds Process.exec contract (fun _ => after) process := by
  refine (getVersion_holds stable initially).bind fun _ first holds => ?_
  refine getNumber_bind_holds fun second moved _ => ?_
  refine (removeOldVersion_holds stable metadata _ (stable _ _ moved holds)).bind
    fun _ third thirdHolds => ?_
  exact (upgrade_holds stable metadata _ _ thirdHolds).bind fun _ => flushes

variable (before) in
omit metadata in
/-- The flush reads twice and removes pending rows at most once. -/
theorem flush_holds
    (unflushed : ∀ current, before current → after current)
    (removes : ∀ first second third, contract.rely first second → contract.rely second third →
      contract.valid third → before first →
      toUInt64 (getNumberOf (processingBlockId second.store)) <
        toUInt64 (getNumberOf (lastProcessedBlockId first.store)) →
      0 < toUInt64 (getNumberOf (processingBlockId second.store)) →
      let rows := (third.store .transactionsProcessing).eraseWhere
        (Cursor.between.inRange (toUInt64 (getNumberOf (processingBlockId second.store)))
          (toUInt64 (getNumberOf (lastProcessedBlockId first.store))) "block-id")
      contract.valid (third.withTable .transactionsProcessing rows) ∧
        contract.guarantee third (third.withTable .transactionsProcessing rows) ∧
        after (third.withTable .transactionsProcessing rows))
    (initially : before process) :
    flush.Holds Process.exec contract (fun _ => after) process := by
  refine getNumber_bind_holds fun first moved _ => ?_
  have firstHolds := stable _ _ moved initially
  refine getNumber_bind_holds fun second movedSecond _ => ?_
  dsimp only
  split_ifs with flushed
  · intro third movedThird thirdValid _
    exact removes first second third movedSecond movedThird thirdValid firstHolds
      flushed.1 flushed.2
  · exact unflushed second (stable _ _ movedSecond firstHolds)

end Rules

end Db

end MileExplorer
