import Mathlib.Data.List.Basic
import MileExplorer.QueryProgram
import MileExplorer.TransitionSystem

/-!
# Two programs at the ends of a pair of streams

A program reads and writes a stream in whatever pieces the stream takes and
gives.  It *follows* a script when, for every such division into pieces, it
sends and receives the symbols of the script in order and ends with one and
the same result.  Two programs that follow dual scripts over a pair of
first-in-first-out streams cannot block each other: in every order of steps
both come to their results, within a number of steps that the script bounds.
If instead a read or a write of the first fails, it ends with a result that it
names itself.
-/

namespace MileExplorer

inductive StreamCall (Symbol : Type) where
  | read (size : Nat)
  | write (data : List Symbol)

/-- What a stream answers: some symbols, the number of symbols it took, or a
failure. -/
inductive StreamAnswer (Symbol : Type) where
  | got (data : List Symbol)
  | wrote (count : Nat)
  | failed (reason : String)

/-- A program at one end of a pair of streams. -/
abbrev Endpoint (Symbol Result : Type) :=
  Program (StreamCall Symbol) (StreamAnswer Symbol) Result

/-- One symbol of a conversation, from the view of one end. -/
inductive Turn (Symbol : Type) where
  | sends (symbol : Symbol)
  | receives (symbol : Symbol)

namespace Turn

variable {Symbol : Type}

/-- The same symbol from the view of the other end. -/
def dual : Turn Symbol → Turn Symbol
  | .sends symbol => .receives symbol
  | .receives symbol => .sends symbol

@[simp]
theorem dual_dual (turn : Turn Symbol) : turn.dual.dual = turn := by
  cases turn <;> rfl

@[simp]
theorem dual_comp_dual : (dual ∘ dual : Turn Symbol → Turn Symbol) = id := funext dual_dual

@[simp]
theorem dual_comp_sends : (dual ∘ sends : Symbol → Turn Symbol) = receives := rfl

theorem map_receives_injective : Function.Injective (List.map (@receives Symbol)) :=
  List.map_injective_iff.mpr fun _ _ equal => receives.inj equal

end Turn

namespace Endpoint

variable {Symbol Result Other : Type}

/-- The program sends and receives the symbols of the script, in whatever
pieces its calls are answered, and ends with `result`.  Once a call fails, or a
read finds the end of the stream, every further end is an `aborted` one. -/
def Follows (aborted : Result → Prop) (result : Result) :
    List (Turn Symbol) → Endpoint Symbol Result → Prop
  | script, .done value => script = [] ∧ value = result
  | script, .ask (.write data) next =>
      data ≠ [] ∧ data.map .sends <+: script ∧
        (∀ count, 0 < count → count ≤ data.length →
          Follows aborted result (script.drop count) (next (.wrote count))) ∧
        ∀ reason, (next (.failed reason)).Ends aborted
  | script, .ask (.read size) next =>
      ∃ data : List Symbol, 0 < size ∧ data.length = size ∧ data.map .receives <+: script ∧
        (∀ count, 0 < count → count ≤ size →
          Follows aborted result (script.drop count) (next (.got (data.take count)))) ∧
        (next (.got [])).Ends aborted ∧ ∀ reason, (next (.failed reason)).Ends aborted

variable {aborted : Result → Prop} {result : Result} {script : List (Turn Symbol)}

/-- A program that follows the script, one symbol at a time. -/
def ofScript (result : Result) : List (Turn Symbol) → Endpoint Symbol Result
  | [] => .done result
  | .sends symbol :: script =>
      .ask (.write [symbol]) fun
        | .wrote _ => ofScript result script
        | _ => .done result
  | .receives _ :: script =>
      .ask (.read 1) fun
        | .got [_] => ofScript result script
        | _ => .done result

theorem Follows.write {data : List Symbol} {next : StreamAnswer Symbol → Endpoint Symbol Result}
    (nonempty : data ≠ []) (starts : data.map .sends <+: script)
    (continues : ∀ count, 0 < count → count ≤ data.length →
      Follows aborted result (script.drop count) (next (.wrote count)))
    (fails : ∀ reason, (next (.failed reason)).Ends aborted) :
    Follows aborted result script (.ask (.write data) next) :=
  ⟨nonempty, starts, continues, fails⟩

theorem Follows.read {data : List Symbol} {next : StreamAnswer Symbol → Endpoint Symbol Result}
    (nonempty : data ≠ []) (starts : data.map .receives <+: script)
    (continues : ∀ count, 0 < count → count ≤ data.length →
      Follows aborted result (script.drop count) (next (.got (data.take count))))
    (ends : (next (.got [])).Ends aborted)
    (fails : ∀ reason, (next (.failed reason)).Ends aborted) :
    Follows aborted result script (.ask (.read data.length) next) :=
  ⟨data, List.length_pos_iff.mpr nonempty, rfl, starts, continues, ends, fails⟩

theorem ofScript_follows (result : Result) (script : List (Turn Symbol)) :
    (ofScript result script).Follows (fun _ => True) result script := by
  induction script with
  | nil => exact ⟨rfl, rfl⟩
  | cons turn script ih =>
      cases turn with
      | sends symbol =>
          refine .write (List.cons_ne_nil symbol []) (List.prefix_append _ script) ?_
            fun reason => trivial
          intro count positive fits
          obtain rfl : count = 1 := Nat.le_antisymm fits positive
          exact ih
      | receives symbol =>
          refine .read (List.cons_ne_nil symbol []) (List.prefix_append _ script) ?_ trivial
            fun reason => trivial
          intro count positive fits
          obtain rfl : count = 1 := Nat.le_antisymm fits positive
          exact ih

theorem Follows.bind {final : Other → Prop} {value : Result} {other : Other}
    {program : Endpoint Symbol Result} {rest : Result → Endpoint Symbol Other}
    {first second : List (Turn Symbol)} (follows : Follows aborted value first program)
    (aborts : ∀ outcome, aborted outcome → (rest outcome).Ends final)
    (continues : Follows final other second (rest value)) :
    Follows final other (first ++ second) (program >>= rest) := by
  induction program generalizing first with
  | done outcome =>
      obtain ⟨rfl, rfl⟩ := follows
      exact continues
  | ask call next ih =>
      cases call with
      | write data =>
          obtain ⟨nonempty, starts, written, fails⟩ := follows
          refine .write nonempty (starts.trans (List.prefix_append _ _)) ?_
            fun reason => (fails reason).bind aborts
          intro count positive fits
          have within : count ≤ first.length := Nat.le_trans fits (by simpa using starts.length_le)
          rw [List.drop_append_of_le_length within]
          exact ih _ (written count positive fits)
      | read size =>
          obtain ⟨data, positive, rfl, starts, read, ends, fails⟩ := follows
          refine .read (List.length_pos_iff.mp positive)
            (starts.trans (List.prefix_append _ _)) ?_ (ends.bind aborts)
            fun reason => (fails reason).bind aborts
          intro count positive fits
          have within : count ≤ first.length := Nat.le_trans fits (by simpa using starts.length_le)
          rw [List.drop_append_of_le_length within]
          exact ih _ (read count positive fits)

/-! ## One end takes a step -/

/-- The program writes some symbols or reads some of those that have arrived.
The result is the program that is left, the number of symbols read and the
symbols written. -/
def advance (count : Nat) (incoming : List Symbol) :
    Endpoint Symbol Result → Option (Endpoint Symbol Result × Nat × List Symbol)
  | .done _ => none
  | .ask (.write data) next =>
      if 0 < count ∧ count ≤ data.length then
        some (next (.wrote count), 0, data.take count)
      else none
  | .ask (.read size) next =>
      if 0 < count ∧ count ≤ size ∧ count ≤ incoming.length then
        some (next (.got (incoming.take count)), count, [])
      else none

theorem ends_of_advance {program after : Endpoint Symbol Result} {incoming sent : List Symbol}
    {count taken : Nat} (ends : program.Ends aborted)
    (moved : program.advance count incoming = some (after, taken, sent)) :
    after.Ends aborted := by
  cases program with
  | done value => simp [Endpoint.advance] at moved
  | ask call next =>
      cases call <;>
        simp only [Endpoint.advance, Option.ite_none_right_eq_some, Option.some.injEq,
          Prod.mk.injEq] at moved
      all_goals
        obtain ⟨-, rfl, -⟩ := moved
        exact ends _

/-- What a step of a program does that follows a script: it takes the first
symbols of the script, either all sent or all received. -/
theorem Follows.advance {program after : Endpoint Symbol Result} {incoming sent : List Symbol}
    {count taken : Nat} {rest : List (Turn Symbol)}
    (follows : Follows aborted result (incoming.map .receives ++ rest) program)
    (moved : program.advance count incoming = some (after, taken, sent)) :
    0 < count ∧ ((taken = 0 ∧ incoming = [] ∧ sent.length = count ∧
        ∃ left, rest = sent.map .sends ++ left ∧ Follows aborted result left after) ∨
      (taken = count ∧ sent = [] ∧ count ≤ incoming.length ∧
        Follows aborted result ((incoming.drop count).map .receives ++ rest) after)) := by
  cases program with
  | done value => simp [Endpoint.advance] at moved
  | ask call next =>
      cases call with
      | write data =>
          obtain ⟨nonempty, starts, written, -⟩ := follows
          simp only [Endpoint.advance, Option.ite_none_right_eq_some, Option.some.injEq,
            Prod.mk.injEq] at moved
          obtain ⟨⟨positive, fits⟩, rfl, rfl, rfl⟩ := moved
          refine ⟨positive, .inl ⟨rfl, ?_⟩⟩
          -- a script that starts with a symbol to send has nothing to receive
          have silent : incoming = [] := by
            cases incoming with
            | nil => rfl
            | cons symbol incoming =>
                cases data with
                | nil => exact absurd rfl nonempty
                | cons first data => simp at starts
          subst silent
          obtain ⟨left, rfl⟩ := starts
          refine ⟨rfl, List.length_take_of_le fits, (data.drop count).map .sends ++ left, ?_, ?_⟩
          · rw [← List.append_assoc, ← List.map_append, List.take_append_drop]
          · have continued := written count positive fits
            simpa [List.drop_append_of_le_length, fits, List.map_drop] using continued
      | read size =>
          obtain ⟨data, -, rfl, starts, read, -⟩ := follows
          simp only [Endpoint.advance, Option.ite_none_right_eq_some, Option.some.injEq,
            Prod.mk.injEq] at moved
          obtain ⟨⟨positive, fits, available⟩, rfl, rfl, rfl⟩ := moved
          refine ⟨positive, .inr ⟨rfl, rfl, available, ?_⟩⟩
          -- what has arrived and what the program expects are both the script's start
          have same : incoming.take count = data.take count := by
            obtain ⟨left, equal⟩ := starts
            apply Turn.map_receives_injective
            have taken := congrArg (List.take count) equal
            rw [List.take_append_of_le_length (by simpa using fits),
              List.take_append_of_le_length (by simpa using available)] at taken
            rw [List.map_take, List.map_take, taken]
          have continued := read count positive fits
          rw [List.drop_append_of_le_length (by simpa using available)] at continued
          rw [same, List.map_drop]
          exact continued

theorem Follows.eq_done {program : Endpoint Symbol Result}
    (follows : Follows aborted result [] program) : program = .done result := by
  cases program with
  | done value => rw [follows.2]
  | ask call next =>
      cases call with
      | write data =>
          have empty : data = [] := by simpa using follows.2.1
          exact absurd empty follows.1
      | read size =>
          obtain ⟨data, positive, rfl, starts, -⟩ := follows
          have empty : data = [] := by simpa using starts
          simp [empty] at positive

/-- A program that has received symbols, or has one to send next, can take a
step. -/
theorem Follows.exists_advance {program : Endpoint Symbol Result} {incoming : List Symbol}
    {rest : List (Turn Symbol)}
    (follows : Follows aborted result (incoming.map .receives ++ rest) program)
    (ready : incoming = [] → ∃ symbol left, rest = .sends symbol :: left) :
    (program.advance 1 incoming).isSome := by
  cases program with
  | done value =>
      obtain ⟨silent, ended⟩ : incoming = [] ∧ rest = [] := by simpa using follows.1
      obtain ⟨symbol, left, more⟩ := ready silent
      rw [ended] at more
      exact absurd more (by simp)
  | ask call next =>
      cases call with
      | write data =>
          have nonempty : 0 < data.length := List.length_pos_iff.mpr follows.1
          simp only [Endpoint.advance]
          rw [if_pos ⟨Nat.one_pos, nonempty⟩]
          rfl
      | read size =>
          obtain ⟨data, positive, rfl, starts, -⟩ := follows
          have arrived : 0 < incoming.length := by
            refine List.length_pos_iff.mpr fun silent => ?_
            obtain ⟨symbol, left, rfl⟩ := ready silent
            cases data with
            | nil => simp at positive
            | cons first data => simp [silent] at starts
          simp only [Endpoint.advance]
          rw [if_pos ⟨Nat.one_pos, positive, arrived⟩]
          rfl

end Endpoint

/-! ## Both ends -/

/-- Two programs, and the symbols under way between them. -/
structure Link (Symbol Result Other : Type) where
  client : Endpoint Symbol Result
  server : Endpoint Symbol Other
  toServer : List Symbol
  toClient : List Symbol

/-- One end reads or writes so many symbols, or the client's next call fails or
finds the end of the stream. -/
inductive LinkMove where
  | client (count : Nat)
  | server (count : Nat)
  | clientFails (reason : String)
  | clientEnds

namespace Link

variable {Symbol Result Other : Type}

def start (client : Endpoint Symbol Result) (server : Endpoint Symbol Other) :
    Link Symbol Result Other := ⟨client, server, [], []⟩

def step (link : Link Symbol Result Other) : LinkMove → Option (Link Symbol Result Other)
  | .client count =>
      (link.client.advance count link.toClient).map fun (after, taken, sent) =>
        { link with
          client := after
          toServer := link.toServer ++ sent
          toClient := link.toClient.drop taken }
  | .server count =>
      (link.server.advance count link.toServer).map fun (after, taken, sent) =>
        { link with
          server := after
          toClient := link.toClient ++ sent
          toServer := link.toServer.drop taken }
  | .clientFails reason =>
      match link.client with
      | .done _ => none
      | .ask _ next => some { link with client := next (.failed reason) }
  | .clientEnds =>
      match link.client with
      | .ask (.read _) next => some { link with client := next (.got []) }
      | _ => none

/-- A move of an undisturbed link. -/
def Undisturbed (_ : Link Symbol Result Other) : LinkMove → Prop
  | .client _ | .server _ => True
  | .clientFails _ | .clientEnds => False

instance (link : Link Symbol Result Other) : DecidablePred link.Undisturbed
  | .client _ | .server _ => .isTrue trivial
  | .clientFails _ | .clientEnds => .isFalse id

/-- Both programs are at the same place of one conversation, up to the symbols
under way in one of the directions. -/
structure Joint (aborted : Result → Prop) (result : Result) (other : Other)
    (link : Link Symbol Result Other) (rest : List (Turn Symbol)) : Prop where
  client : link.client.Follows aborted result (link.toClient.map .receives ++ rest)
  server : link.server.Follows (fun _ => True) other
    (link.toServer.map .receives ++ rest.map .dual)
  oneWay : link.toServer = [] ∨ link.toClient = []

variable {aborted : Result → Prop} {result : Result} {other : Other}
  {link after : Link Symbol Result Other} {rest : List (Turn Symbol)}

/-- The symbols that the two programs have still to send or to receive. -/
def remaining (link : Link Symbol Result Other) (rest : List (Turn Symbol)) : Nat :=
  link.toServer.length + link.toClient.length + 2 * rest.length

/-- A step of either program takes both further along the same conversation. -/
theorem Joint.step {move : LinkMove} (joint : link.Joint aborted result other rest)
    (permitted : link.Undisturbed move) (moved : link.step move = some after) :
    ∃ left, after.Joint aborted result other left ∧
      after.remaining left < link.remaining rest := by
  cases move with
  | client count =>
      obtain ⟨⟨program, taken, sent⟩, advanced, rfl⟩ := Option.map_eq_some_iff.mp moved
      obtain ⟨positive, ⟨rfl, silent, size, left, rfl, follows⟩ | ⟨rfl, rfl, fits, follows⟩⟩ :=
        joint.client.advance advanced
      · refine ⟨left, ⟨by simpa [silent] using follows, ?_, .inr (by simp [silent])⟩, ?_⟩
        · simpa using joint.server
        · simp only [remaining, List.length_append, List.length_map, List.drop_zero]
          omega
      · have quiet : link.toServer = [] := by
          refine joint.oneWay.resolve_right fun empty => ?_
          simp only [empty, List.length_nil] at fits
          omega
        refine ⟨rest, ⟨follows, by simpa [quiet] using joint.server, .inl (by simp [quiet])⟩, ?_⟩
        simp only [remaining, List.length_append, List.length_drop, List.length_nil]
        omega
  | server count =>
      obtain ⟨⟨program, taken, sent⟩, advanced, rfl⟩ := Option.map_eq_some_iff.mp moved
      obtain ⟨positive, ⟨rfl, silent, size, left, dual, follows⟩ | ⟨rfl, rfl, fits, follows⟩⟩ :=
        joint.server.advance advanced
      · have split : rest = sent.map .receives ++ left.map .dual := by
          simpa using congrArg (List.map Turn.dual) dual
        refine ⟨left.map .dual, ⟨?_, by simpa [silent] using follows, .inl (by simp [silent])⟩, ?_⟩
        · simpa [split] using joint.client
        · simp only [remaining, split, List.length_append, List.length_map, List.drop_zero]
          omega
      · have quiet : link.toClient = [] := by
          refine joint.oneWay.resolve_left fun empty => ?_
          simp only [empty, List.length_nil] at fits
          omega
        refine ⟨rest, ⟨by simpa [quiet] using joint.client, follows, .inr (by simp [quiet])⟩, ?_⟩
        simp only [remaining, List.length_append, List.length_drop, List.length_nil]
        omega
  | clientFails reason => exact absurd permitted id
  | clientEnds => exact absurd permitted id

/-- The conversation is over and both programs have their results. -/
def Finished (result : Result) (other : Other) (link : Link Symbol Result Other) : Prop :=
  link.client = .done result ∧ link.server = .done other ∧
    link.toServer = [] ∧ link.toClient = []

/-- Programs in the middle of one conversation never wait for each other. -/
theorem Joint.progress (joint : link.Joint aborted result other rest) :
    link.Finished result other ∨
      ∃ move, link.Undisturbed move ∧ (link.step move).isSome := by
  by_cases clientReady : link.toClient = [] → ∃ symbol left, rest = .sends symbol :: left
  · refine .inr ⟨.client 1, trivial, ?_⟩
    simpa only [Link.step, Option.isSome_map] using joint.client.exists_advance clientReady
  by_cases serverReady :
      link.toServer = [] → ∃ symbol left, rest.map Turn.dual = .sends symbol :: left
  · refine .inr ⟨.server 1, trivial, ?_⟩
    simpa only [Link.step, Option.isSome_map] using joint.server.exists_advance serverReady
  -- nothing is under way and nothing is left to send, so the script is empty
  obtain ⟨heard, noneSent⟩ := Classical.not_imp.mp clientReady
  obtain ⟨told, noneReceived⟩ := Classical.not_imp.mp serverReady
  have ended : rest = [] := by
    cases rest with
    | nil => rfl
    | cons turn left =>
        cases turn with
        | sends symbol => exact absurd ⟨symbol, left, rfl⟩ noneSent
        | receives symbol => exact absurd ⟨symbol, left.map .dual, rfl⟩ noneReceived
  subst ended
  have client := joint.client
  have server := joint.server
  simp only [heard, told, List.map_nil, List.append_nil] at client server
  exact .inl ⟨client.eq_done, server.eq_done, told, heard⟩

/-- Every step of an undisturbed run brings the end of the conversation
nearer. -/
theorem Joint.run {moves : List LinkMove} (joint : link.Joint aborted result other rest)
    (ran : runMoves Link.step Undisturbed link moves = some after) :
    ∃ left, after.Joint aborted result other left ∧
      moves.length + after.remaining left ≤ link.remaining rest := by
  induction moves generalizing link rest with
  | nil =>
      obtain rfl : link = after := by simpa [runMoves] using ran
      exact ⟨rest, joint, by simp⟩
  | cons move moves ih =>
      by_cases permitted : link.Undisturbed move
      · simp only [runMoves, permitted, if_true] at ran
        obtain ⟨next, moved, continued⟩ := Option.bind_eq_some_iff.mp ran
        obtain ⟨left, between, nearer⟩ := joint.step permitted moved
        obtain ⟨last, final, bound⟩ := ih between continued
        refine ⟨last, final, ?_⟩
        rw [List.length_cons]
        omega
      · simp [runMoves, permitted] at ran

/-- A failed call of the client takes it off the script, to an aborted end. -/
theorem Joint.ends_of_disturbed {move : LinkMove} (joint : link.Joint aborted result other rest)
    (disturbed : ¬ link.Undisturbed move) (moved : link.step move = some after) :
    after.client.Ends aborted := by
  have follows := joint.client
  cases move with
  | client count => exact absurd trivial disturbed
  | server count => exact absurd trivial disturbed
  | clientFails reason =>
      simp only [Link.step] at moved
      cases program : link.client with
      | done value => simp [program] at moved
      | ask call next =>
          simp only [program, Option.some.injEq] at moved
          rw [program] at follows
          subst moved
          cases call with
          | write data => exact follows.2.2.2 reason
          | read size =>
              obtain ⟨-, -, -, -, -, -, fails⟩ := follows
              exact fails reason
  | clientEnds =>
      simp only [Link.step] at moved
      split at moved
      · rename_i size next program
        rw [program] at follows
        obtain ⟨-, -, -, -, -, ends, -⟩ := follows
        obtain rfl := Option.some.inj moved
        exact ends
      · cases moved

theorem ends_step {move : LinkMove} (ends : link.client.Ends aborted)
    (moved : link.step move = some after) : after.client.Ends aborted := by
  cases move with
  | client count =>
      obtain ⟨⟨program, taken, sent⟩, advanced, rfl⟩ := Option.map_eq_some_iff.mp moved
      exact Endpoint.ends_of_advance ends advanced
  | server count =>
      obtain ⟨⟨program, taken, sent⟩, advanced, rfl⟩ := Option.map_eq_some_iff.mp moved
      exact ends
  | clientFails reason =>
      simp only [Link.step] at moved
      split at moved
      · cases moved
      · rename_i call next program
        rw [program] at ends
        obtain rfl := Option.some.inj moved
        exact ends _
  | clientEnds =>
      simp only [Link.step] at moved
      split at moved
      · rename_i size next program
        rw [program] at ends
        obtain rfl := Option.some.inj moved
        exact ends _
      · cases moved

section Runs

variable {script : List (Turn Symbol)} {client : Endpoint Symbol Result}
  {server : Endpoint Symbol Other} (follows : client.Follows aborted result script)
  (served : server.Follows (fun _ => True) other (script.map .dual))

include follows served

theorem joint_start : (start client server).Joint aborted result other script :=
  ⟨follows, served, .inl rfl⟩

/-- Two programs with dual scripts come to their results in every order of
steps, after at most two steps for each symbol. -/
theorem completes {moves : List LinkMove}
    (ran : runMoves step Undisturbed (start client server) moves = some after) :
    moves.length ≤ 2 * script.length ∧
      (after.Finished result other ∨
        ∃ move, after.Undisturbed move ∧ (after.step move).isSome) := by
  obtain ⟨rest, joint, bound⟩ := (joint_start follows served).run ran
  have size : (start client server).remaining script = 2 * script.length := by
    simp [remaining, start]
  exact ⟨by omega, joint.progress⟩

/-- However the client's calls fail, it ends with the script's result or with
an aborted one. -/
theorem result_of_reaches (reached : Reaches step (fun _ _ => True) (start client server) after)
    {value : Result} (ended : after.client = .done value) : value = result ∨ aborted value := by
  have kept : (∃ rest, after.Joint aborted result other rest) ∨ after.client.Ends aborted := by
    refine reached.invariant
      (fun link => (∃ rest, link.Joint aborted result other rest) ∨ link.client.Ends aborted)
      (.inl ⟨script, joint_start follows served⟩) ?_
    intro current move next before _ moved
    obtain ⟨rest, joint⟩ | ends := before
    · by_cases undisturbed : current.Undisturbed move
      · obtain ⟨left, between, -⟩ := joint.step undisturbed moved
        exact .inl ⟨left, between⟩
      · exact .inr (joint.ends_of_disturbed undisturbed moved)
    · exact .inr (ends_step ends moved)
  rw [ended] at kept
  obtain ⟨rest, joint⟩ | ends := kept
  · have follows := joint.client
    rw [ended] at follows
    exact .inl follows.2
  · exact .inr ends

end Runs

end Link

end MileExplorer
