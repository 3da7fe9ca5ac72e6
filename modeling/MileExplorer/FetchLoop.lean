import Mathlib.Algebra.Group.Nat.Defs
import Mathlib.Tactic.Common
import MileExplorer.TransitionSystem

/-!
# The loop of the fetcher

The main loop of `Fetcher::run` and the tasks it queues on the block fetcher.
They share the variable `first`, from which a range of blocks is fetched, and
the flag `is_active_`.  The loop looks at the flag and at `first`, and a task
sets the flag only when a worker has taken it, so several tasks may be queued
or run at once, and the height of the chain may go down between two of them.
A run is any order of the single reads and writes.
-/

namespace MileExplorer

/-- Where the main loop is: before it asks a node for the height, with a height
before it looks at `is_active`, before it compares the height with `first`, and
before it queues a task. -/
inductive LoopStage where
  | asking
  | checking (last : Nat)
  | comparing (last : Nat)
  | queueing (last : Nat)
  deriving DecidableEq, Repr

/-- A task that a worker has taken: before it reads `first`, in the loop of
`fetch_blocks` from `first` to `last` at the id `next`, and after it has
written `first`. -/
inductive FetchTask where
  | taken (last : Nat)
  | fetching (first last next : Nat)
  | written
  deriving DecidableEq, Repr

/-- What the loop and the tasks share, with the ids that were handed to
`rpc_fetching_block_task_`. -/
structure FetchState where
  first : Nat
  active : Bool
  stage : LoopStage
  queued : List Nat
  tasks : List FetchTask
  handed : List Nat
  deriving DecidableEq, Repr

inductive FetchMove where
  /-- A node reports the height of the chain. -/
  | height (last : Nat)
  /-- The loop looks at `is_active`. -/
  | check
  /-- The loop compares `first` with the height. -/
  | compare
  /-- The loop queues a task. -/
  | queue
  /-- An exception ends the iteration of the loop. -/
  | retry
  /-- A worker takes a task and sets `is_active_`. -/
  | take (position : Nat)
  /-- A task reads `first`. -/
  | read (position : Nat)
  /-- A task hands the next id to the tasks that download blocks. -/
  | hand (position : Nat)
  /-- A task that is through its range writes `first`. -/
  | write (position : Nat)
  /-- A task ends and clears `is_active_`. -/
  | leave (position : Nat)

namespace FetchLoop

/-- `run(block_id)`. -/
def start (blockId : Nat) : FetchState := ⟨blockId, false, .asking, [], [], []⟩

def withTask (state : FetchState) (position : Nat) (task : FetchTask) : FetchState :=
  { state with tasks := state.tasks.set position task }

/-- One read or write of the loop or of a task.  The ids are 256-bit numbers,
so the increment of the loop over a range wraps around. -/
def step (state : FetchState) : FetchMove → Option FetchState
  | .height last =>
      match state.stage with
      | .asking => some { state with stage := .checking last }
      | _ => none
  | .check =>
      match state.stage with
      | .checking last =>
          some { state with stage := if state.active then .asking else .comparing last }
      | _ => none
  | .compare =>
      match state.stage with
      | .comparing last =>
          some { state with stage := if state.first < last then .queueing last else .asking }
      | _ => none
  | .queue =>
      match state.stage with
      | .queueing last => some { state with stage := .asking, queued := state.queued ++ [last] }
      | _ => none
  | .retry => some { state with stage := .asking }
  | .take position =>
      match state.queued[position]? with
      | some last => some { state with
          active := true
          queued := state.queued.eraseIdx position
          tasks := state.tasks ++ [.taken last] }
      | none => none
  | .read position =>
      match state.tasks[position]? with
      | some (.taken last) =>
          some (withTask state position (.fetching state.first last state.first))
      | _ => none
  | .hand position =>
      match state.tasks[position]? with
      | some (.fetching first last next) =>
          if next ≤ last then
            some { withTask state position (.fetching first last ((next + 1) % 2 ^ 256)) with
              handed := state.handed ++ [next] }
          else none
      | _ => none
  | .write position =>
      match state.tasks[position]? with
      | some (.fetching _ last next) =>
          if next ≤ last then none
          else some { withTask state position .written with first := last }
      | _ => none
  | .leave position =>
      match state.tasks[position]? with
      | some .written =>
          some { state with active := false, tasks := state.tasks.eraseIdx position }
      | _ => none

abbrev FetchReaches (blockId : Nat) : FetchState → Prop :=
  Reaches step (fun _ _ => True) (start blockId)

/-- Every id from the start up to `last` was handed on, or `last` is the start
and perhaps none was. -/
def CoveredTo (blockId last : Nat) (handed : List Nat) : Prop :=
  last = blockId ∨ ∀ id, blockId ≤ id → id ≤ last → id ∈ handed

/-- What is known of a task.  The range of a task begins at a covered id and
ends above the start. -/
def TaskSound (blockId : Nat) (handed : List Nat) : FetchTask → Prop
  | .taken last => blockId < last
  | .fetching first last next =>
      blockId < last ∧ CoveredTo blockId first handed ∧
        ∀ id, first ≤ id → id < next → id ∈ handed
  | .written => True

structure Sound (blockId : Nat) (state : FetchState) : Prop where
  least : blockId ≤ state.first
  covered : CoveredTo blockId state.first state.handed
  stage : ∀ last, state.stage = .queueing last → blockId < last
  queued : ∀ last ∈ state.queued, blockId < last
  tasks : ∀ task ∈ state.tasks, TaskSound blockId state.handed task

variable {blockId : Nat}

theorem CoveredTo.mono {last : Nat} {handed more : List Nat}
    (covered : CoveredTo blockId last handed) : CoveredTo blockId last (handed ++ more) :=
  covered.imp_right fun all id lower upper => List.mem_append_left more (all id lower upper)

theorem TaskSound.mono {task : FetchTask} {handed more : List Nat}
    (sound : TaskSound blockId handed task) : TaskSound blockId (handed ++ more) task := by
  cases task with
  | taken last => exact sound
  | fetching first last next =>
      obtain ⟨above, covered, done⟩ := sound
      exact ⟨above, covered.mono, fun id lower upper =>
        List.mem_append_left more (done id lower upper)⟩
  | written => trivial

theorem sound_start : Sound blockId (start blockId) where
  least := Nat.le_refl _
  covered := .inl rfl
  stage := nofun
  queued := nofun
  tasks := nofun

theorem TaskSound.coveredTo {first last next : Nat} {handed : List Nat}
    (sound : TaskSound blockId handed (.fetching first last next)) (through : last < next) :
    CoveredTo blockId last handed := by
  obtain ⟨-, covered, done⟩ := sound
  refine .inr fun id lower upper => ?_
  by_cases reached : first ≤ id
  · exact done id reached (by omega)
  · rcases covered with atStart | below
    · omega
    · exact below id lower (by omega)

theorem Sound.withTask {state : FetchState} {task : FetchTask} (sound : Sound blockId state)
    (position : Nat) (taskSound : TaskSound blockId state.handed task) :
    Sound blockId (withTask state position task) where
  least := sound.least
  covered := sound.covered
  stage := sound.stage
  queued := sound.queued
  tasks other member := by
    rcases List.mem_or_eq_of_mem_set member with old | rfl
    · exact sound.tasks other old
    · exact taskSound

/-! ## One move -/

section Moves

variable {state : FetchState} {position : Nat}

/-- The loop goes on to a stage where it queues nothing below the start. -/
theorem Sound.withStage (sound : Sound blockId state) {stage : LoopStage}
    (above : ∀ last, stage = .queueing last → blockId < last) :
    Sound blockId { state with stage := stage } :=
  ⟨sound.least, sound.covered, above, sound.queued, sound.tasks⟩

theorem Sound.compare (sound : Sound blockId state) (last : Nat) :
    Sound blockId
      { state with stage := if state.first < last then .queueing last else .asking } := by
  apply sound.withStage
  intro other stage
  split at stage
  · rename_i above
    obtain rfl := LoopStage.queueing.inj stage
    exact Nat.lt_of_le_of_lt sound.least above
  · cases stage

theorem Sound.queue (sound : Sound blockId state) {last : Nat}
    (stage : state.stage = .queueing last) :
    Sound blockId { state with stage := .asking, queued := state.queued ++ [last] } := by
  refine ⟨sound.least, sound.covered, nofun, fun other member => ?_, sound.tasks⟩
  rcases List.mem_append.mp member with old | new
  · exact sound.queued other old
  · exact List.mem_singleton.mp new ▸ sound.stage last stage

theorem Sound.take (sound : Sound blockId state) {last : Nat}
    (found : state.queued[position]? = some last) :
    Sound blockId { state with
      active := true
      queued := state.queued.eraseIdx position
      tasks := state.tasks ++ [.taken last] } := by
  refine ⟨sound.least, sound.covered, sound.stage, fun other member => ?_, fun task member => ?_⟩
  · exact sound.queued other (List.mem_of_mem_eraseIdx member)
  · rcases List.mem_append.mp member with old | new
    · exact sound.tasks task old
    · obtain rfl := List.mem_singleton.mp new
      exact sound.queued last (List.mem_of_getElem? found)

theorem Sound.read (sound : Sound blockId state) {last : Nat}
    (found : state.tasks[position]? = some (.taken last)) :
    Sound blockId
      (FetchLoop.withTask state position (.fetching state.first last state.first)) := by
  have above : blockId < last := sound.tasks _ (List.mem_of_getElem? found)
  refine sound.withTask position ⟨above, sound.covered, ?_⟩
  intro id lower upper
  omega

theorem Sound.hand (sound : Sound blockId state) {first last next : Nat}
    (found : state.tasks[position]? = some (.fetching first last next)) :
    Sound blockId { FetchLoop.withTask state position
      (.fetching first last ((next + 1) % 2 ^ 256)) with handed := state.handed ++ [next] } := by
  obtain ⟨above, covered, done⟩ := sound.tasks _ (List.mem_of_getElem? found)
  have extended : Sound blockId { state with handed := state.handed ++ [next] } :=
    ⟨sound.least, sound.covered.mono, sound.stage, sound.queued,
      fun task member => (sound.tasks task member).mono⟩
  refine extended.withTask position ⟨above, covered.mono, ?_⟩
  intro id lower upper
  -- The incremented id may have wrapped around to zero.
  have bound : (next + 1) % 2 ^ 256 ≤ next + 1 := Nat.mod_le _ _
  rcases Nat.lt_or_ge id next with before | same
  · exact List.mem_append_left _ (done id lower before)
  · obtain rfl : id = next := by omega
    simp

theorem Sound.write (sound : Sound blockId state) {first last next : Nat}
    (found : state.tasks[position]? = some (.fetching first last next)) (through : last < next) :
    Sound blockId { FetchLoop.withTask state position .written with first := last } := by
  have task := sound.tasks _ (List.mem_of_getElem? found)
  have finished : Sound blockId (FetchLoop.withTask state position .written) :=
    sound.withTask position trivial
  exact ⟨Nat.le_of_lt task.1, task.coveredTo through, finished.stage, finished.queued,
    finished.tasks⟩

theorem Sound.leave (sound : Sound blockId state) (position : Nat) :
    Sound blockId { state with active := false, tasks := state.tasks.eraseIdx position } :=
  ⟨sound.least, sound.covered, sound.stage, sound.queued,
    fun task member => sound.tasks task (List.mem_of_mem_eraseIdx member)⟩

end Moves

theorem sound_step {state next : FetchState} {move : FetchMove} (sound : Sound blockId state)
    (moved : step state move = some next) : Sound blockId next := by
  cases move with
  | height last =>
      simp only [step] at moved
      split at moved
      · exact Option.some.inj moved ▸ sound.withStage nofun
      · cases moved
  | check =>
      simp only [step] at moved
      split at moved
      · rw [← Option.some.inj moved]
        apply sound.withStage
        intro other stage
        split at stage <;> cases stage
      · cases moved
  | compare =>
      simp only [step] at moved
      split at moved
      · exact Option.some.inj moved ▸ sound.compare _
      · cases moved
  | queue =>
      simp only [step] at moved
      split at moved
      · rename_i stage
        exact Option.some.inj moved ▸ sound.queue stage
      · cases moved
  | retry => exact Option.some.inj moved ▸ sound.withStage nofun
  | take position =>
      simp only [step] at moved
      split at moved
      · rename_i found
        exact Option.some.inj moved ▸ sound.take found
      · cases moved
  | read position =>
      simp only [step] at moved
      split at moved
      · rename_i found
        exact Option.some.inj moved ▸ sound.read found
      · cases moved
  | hand position =>
      simp only [step] at moved
      split at moved
      · rename_i found
        split at moved
        · exact Option.some.inj moved ▸ sound.hand found
        · cases moved
      · cases moved
  | write position =>
      simp only [step] at moved
      split at moved
      · rename_i found
        split at moved
        · cases moved
        · exact Option.some.inj moved ▸ sound.write found (by omega)
      · cases moved
  | leave position =>
      simp only [step] at moved
      split at moved
      · exact Option.some.inj moved ▸ sound.leave position
      · cases moved

/-- The fetcher skips no block id: in every state of every run in which the
range start has moved up, every id from the start of the run on was handed to
the tasks that download blocks. -/
theorem fetcher_skips_none {state : FetchState} (reached : FetchReaches blockId state)
    (moved : blockId < state.first) :
    ∀ id, blockId ≤ id → id ≤ state.first → id ∈ state.handed := by
  have sound : Sound blockId state :=
    reached.invariant (Sound blockId) sound_start fun _ _ _ sound _ => sound_step sound
  rcases sound.covered with same | all
  · omega
  · exact all

/-- Two tasks are queued before one of them runs.  The second was queued for a
lower height, so `first` moves back. -/
def regressingRun : List FetchMove :=
  [.height 2, .check, .compare, .queue, .height 1, .check, .compare, .queue, .take 0, .take 0,
    .read 0, .hand 0, .hand 0, .hand 0, .read 1, .write 0, .hand 1, .hand 1, .write 1]

theorem fetcher_skips_none_regressing :
    ∃ state, FetchReaches 0 state ∧ state.first = 1 ∧ 0 ∈ state.handed ∧ 1 ∈ state.handed := by
  obtain ⟨state, reached, firstEq⟩ := Reaches.exists_of_runMoves step (fun _ _ => True) (start 0)
    regressingRun (fun state => state.first = 1) (by decide +kernel)
  have all := fetcher_skips_none reached (by omega)
  exact ⟨state, reached, firstEq, all 0 (by omega) (by omega), all 1 (by omega) (by omega)⟩

end FetchLoop

end MileExplorer
