import MileExplorer.BlockRows
import MileExplorer.Getters
import MileExplorer.IndexerRoles

/-!
# The stored blocks as the beginning of the chain

The gate of the `blocks_processing` loop takes a last id of zero for an empty
table as well as for a table that holds block 0 alone, and lets every block
through in both cases.  As long as each pass begins with pending blocks that
connect to the stored ones there, the stored numbers have no holes, whatever
the order of deliveries and however the threads interleave.
-/

namespace MileExplorer

open Indexer (Move)

variable {platform : Platform} {chain : Chain}

/-- The numbers of the blocks of the table are the first ones. -/
def Gapless (table : Table) : Prop := ∃ count, ∀ number, HasBlock table number ↔ number < count

namespace Db

/-- The pending blocks that a pass works on unless the gate ends it: those
before the first with which it ends in an exception. -/
def workable (store : Store) : List Json :=
  (Cursor.ordered "block-id" (store .blocksProcessing).rows).takeWhile fun item =>
    (itemWork item).isOk

end Db

/-- Where the gate does not look, the pending blocks follow on the stored
ones: on an empty table block 0 is the first, and block 1 is the first after
block 0. -/
def Connectable (store : Store) : Prop :=
  ((store .blocks).rows = [] → Db.workable store ≠ [] →
    ∃ row ∈ Db.workable store, row.find? "block-id" = some (.num 0)) ∧
  ((∀ row ∈ (store .blocks).rows, row.find? "block-id" = some (.num 0)) →
    (∃ row ∈ Db.workable store, row.find? "block-id" ≠ some (.num 0)) →
    ∃ row ∈ Db.workable store, row.find? "block-id" = some (.num 1))

instance : DecidablePred Connectable := fun _ =>
  inferInstanceAs (Decidable (_ ∧ _))

/-! ## Numbers -/

/-- The pending numbers that are left connect to the first `count` numbers:
where the gate lets everything through, the next number is the first left. -/
def Follows (count : Nat) (numbers : List Nat) : Prop :=
  (count = 0 → numbers ≠ [] → 0 ∈ numbers) ∧
    (count ≤ 1 → (∃ number ∈ numbers, 0 < number) → 1 ∈ numbers)

namespace Follows

variable {count number : Nat} {rest : List Nat}

/-- A block that the gate lets through and that is not stored is the next. -/
theorem next {last : Nat} (follows : Follows count (number :: rest)) (small : number < 2 ^ 64)
    (least : ∀ other ∈ rest, number < other) (gate : ¬ Db.isForward last number)
    (lastEq : count = 0 ∧ last = 0 ∨ count = last + 1) (absent : ¬ number < count) :
    number = count := by
  rw [isForward_iff small] at gate
  have zeroFirst : count = 0 → number = 0 := by
    intro none
    rcases List.mem_cons.mp (follows.1 none (by simp)) with rfl | later
    · rfl
    · exact absurd (least 0 later) (by omega)
  have oneFirst : count ≤ 1 → 0 < number → number ≤ 1 := by
    intro few positive
    rcases List.mem_cons.mp (follows.2 few ⟨number, by simp, positive⟩) with rfl | later
    · exact le_rfl
    · exact (least 1 later).le
  omega

theorem tail (follows : Follows count (number :: rest)) (stored : number < count) :
    Follows count rest := by
  refine ⟨fun none => by omega, fun few ⟨other, member, positive⟩ => ?_⟩
  rcases List.mem_cons.mp (follows.2 few ⟨other, by simp [member], positive⟩) with rfl | later
  · omega
  · exact later

theorem succ (follows : Follows count (count :: rest)) : Follows (count + 1) rest := by
  refine ⟨fun none => by omega, fun few ⟨other, member, positive⟩ => ?_⟩
  rcases List.mem_cons.mp (follows.2 (by omega) ⟨other, by simp [member], positive⟩) with
    one | later
  · omega
  · exact later

end Follows

theorem count_eq_zero {table : Table} {count : Nat}
    (counted : ∀ other, HasBlock table other ↔ other < count) (empty : table.rows = []) :
    count = 0 := by
  by_contra positive
  obtain ⟨row, member, -⟩ := (counted 0).mpr (by omega)
  simp [empty] at member

theorem count_eq_succ {table : Table} {count last : Nat}
    (counted : ∀ other, HasBlock table other ↔ other < count) (stored : HasBlock table last)
    (greatest : ∀ other, HasBlock table other → other ≤ last) : count = last + 1 := by
  have below := (counted last).mp stored
  have above : ¬ last + 1 < count := fun next => by
    have := greatest (last + 1) ((counted (last + 1)).mpr next)
    omega
  omega

/-- The gate's number against the first `count` numbers. -/
theorem lastBlockId_of_gapless {store : Store} {count : Nat}
    (rows : BlockRows platform chain (store .blocks))
    (counted : ∀ other, HasBlock (store .blocks) other ↔ other < count) :
    count = 0 ∧ toUInt64 (getNumberOf (Db.lastBlockId store)) = 0 ∨
      count = toUInt64 (getNumberOf (Db.lastBlockId store)) + 1 := by
  rcases lastBlockId_cases rows with ⟨empty, zero⟩ | ⟨last, stored, greatest, lastEq⟩
  · exact .inl ⟨count_eq_zero counted empty, zero⟩
  · rw [lastEq]
    exact .inr (count_eq_succ counted stored greatest)

/-! ## The discipline -/

/-- The block tables hold blocks, and the stored ones have no holes. -/
structure Prefixed (platform : Platform) (chain : Chain) (process : Process) : Prop where
  blocks : BlockRows platform chain (process.store .blocks)
  pending : BlockRows platform chain (process.store .blocksProcessing)
  gapless : Gapless (process.store .blocks)

theorem Prefixed.of_same {before after : Process} (valid : Prefixed platform chain before)
    (sameBlocks : after.store .blocks = before.store .blocks)
    (samePending : after.store .blocksProcessing = before.store .blocksProcessing) :
    Prefixed platform chain after :=
  ⟨sameBlocks ▸ valid.blocks, samePending ▸ valid.pending, sameBlocks ▸ valid.gapless⟩

def Query.isBlockSnapshot : Query → Bool
  | .read (.snapshot .blocksProcessing) _ => true
  | _ => false

/-- Only the `blocks_processing` loop touches the table of blocks. -/
def prefixing (platform : Platform) (chain : Chain) : Discipline Role Query Process where
  valid := Prefixed platform chain
  rely role before after := role = .blocks → after.store .blocks = before.store .blocks
  guarantee role before after := role ≠ .blocks → after.store .blocks = before.store .blocks
  admits query process := query.isBlockSnapshot = true → Connectable process.store
  relyRefl _ _ _ := rfl
  relyTrans _ _ _ _ earlier later isBlocks := (later isBlocks).trans (earlier isBlocks)
  guaranteeRefl _ _ _ := rfl

theorem prefixing_compatible {first second : Role} (together : first.besides second) :
    (prefixing platform chain).Compatible first second := fun _ _ _ _ =>
  ⟨fun guaranteed isBlocks => guaranteed fun both => together.2.2.1 both isBlocks,
    fun guaranteed isBlocks => guaranteed (together.2.2.1 isBlocks)⟩

/-- A program that touches neither of the block tables. -/
theorem prefixing_of_writes {Result : Type} {program : Prog Result} {tables : List TableName}
    {process : Process} (role : Role) (steps : program.Steps Process.exec (Writes tables))
    (notBlocks : .blocks ∉ tables) (notPending : .blocksProcessing ∉ tables) :
    program.Holds Process.exec ((prefixing platform chain).contract role)
      (fun _ final => role = .blocks → final.store .blocks = process.store .blocks) process := by
  refine steps.holds (fun before after writes valid => ?_) ?_ ?_ fun _ => rfl
  · have kept : Prefixed platform chain before := valid
    exact ⟨kept.of_same (writes _ notBlocks) (writes _ notPending), fun _ => writes _ notBlocks⟩
  · exact fun before after interference kept isBlocks =>
      (interference isBlocks).trans (kept isBlocks)
  · exact fun before after writes kept isBlocks => (writes _ notBlocks).trans (kept isBlocks)

/-! ## The `blocks_processing` loop -/

namespace Db

variable {process : Process} {number count : Nat} {Result : Type}
  {post : Result → Process → Prop}

theorem removeBlock_prefixed {site : Site} {id : String} {rest : Unit → Prog Result}
    (continues : ∀ final, final.store .blocks = process.store .blocks →
      (rest ()).Holds Process.exec ((prefixing platform chain).contract .blocks) post final) :
    (remove site .blocksProcessing id >>= rest).Holds Process.exec
      ((prefixing platform chain).contract .blocks) post process := by
  refine remove_bind_holds fun current moved (valid : Prefixed platform chain current) => ?_
  exact ⟨⟨valid.blocks, valid.pending.erase _, valid.gapless⟩, fun absurd => (absurd rfl).elim,
    continues _ (moved rfl)⟩

theorem insertBlock_prefixed {site : Site} {item : Json} {rest : Unit → Prog Result}
    (rowOf : BlockRowOf platform chain count item)
    (counted : ∀ other, HasBlock (process.store .blocks) other ↔ other < count)
    (continues : ∀ final,
      (∀ other, HasBlock (final.store .blocks) other ↔ other < count + 1) →
      (rest ()).Holds Process.exec ((prefixing platform chain).contract .blocks) post final) :
    (insert site .blocks item >>= rest).Holds Process.exec
      ((prefixing platform chain).contract .blocks) post process := by
  refine insert_bind_holds (Json.isObject_of_find? rowOf.id) fun current moved
    (valid : Prefixed platform chain current) => ?_
  have extended (other : Nat) : HasBlock ((current.store .blocks).insert item) other ↔
      other < count + 1 := by
    rw [hasBlock_insert rowOf, moved rfl, counted]
    omega
  exact ⟨⟨valid.blocks.insert rowOf, valid.pending, count + 1, extended⟩,
    fun absurd => (absurd rfl).elim, continues _ extended⟩

theorem storeBlock_prefixed {item : Json} {id : String} {found : Bool} {rest : Unit → Prog Result}
    (foundEq : found = true ↔ number < count) (rowOf : BlockRowOf platform chain number item)
    (next : ¬ number < count → number = count)
    (counted : ∀ other, HasBlock (process.store .blocks) other ↔ other < count)
    (continues : ∀ final total, (∀ other, HasBlock (final.store .blocks) other ↔ other < total) →
      (number < count ∧ total = count ∨ number = count ∧ total = count + 1) →
      (rest ()).Holds Process.exec ((prefixing platform chain).contract .blocks) post final) :
    (storeBlock item id found >>= rest).Holds Process.exec
      ((prefixing platform chain).contract .blocks) post process := by
  unfold storeBlock
  cases found with
  | true =>
      have stored := foundEq.mp rfl
      refine removeBlock_prefixed fun final same => continues final count ?_ (.inl ⟨stored, rfl⟩)
      rw [same]
      exact counted
  | false =>
      obtain rfl := next fun stored => nomatch foundEq.mpr stored
      simp only [Bool.false_eq_true, if_false, Program.bind_assoc]
      refine insertBlock_prefixed rowOf counted fun middle extended => ?_
      refine removeBlock_prefixed fun final same =>
        continues final (number + 1) ?_ (.inr ⟨rfl, rfl⟩)
      rw [same]
      exact extended

/-- One iteration. -/
theorem processBlock_prefixed {item : Json} {rest : Bool → Prog Result}
    (rowOf : BlockRowOf platform chain number item)
    (counted : ∀ other, HasBlock (process.store .blocks) other ↔ other < count)
    (next : (itemWork item).isOk = true → ∀ last, ¬ isForward last number →
      (count = 0 ∧ last = 0 ∨ count = last + 1) → ¬ number < count → number = count)
    (stops : ∀ final, (rest false).Holds Process.exec
      ((prefixing platform chain).contract .blocks) post final)
    (continues : ∀ final total, (∀ other, HasBlock (final.store .blocks) other ↔ other < total) →
      (itemWork item).isOk = true →
      (number < count ∧ total = count ∨ number = count ∧ total = count + 1) →
      (rest true).Holds Process.exec ((prefixing platform chain).contract .blocks) post final) :
    (processBlock item number >>= rest).Holds Process.exec
      ((prefixing platform chain).contract .blocks) post process := by
  rw [processBlock, Program.bind_assoc]
  refine getNumber_bind_holds fun gated moved (valid : Prefixed platform chain gated) => ?_
  have gatedCounted : ∀ other, HasBlock (gated.store .blocks) other ↔ other < count := by
    rw [moved rfl]
    exact counted
  split_ifs with forward
  · exact stops _
  rw [Program.bind_assoc]
  refine getData_bind_holds fun looked movedAgain _ => ?_
  have lookedCounted : ∀ other, HasBlock (looked.store .blocks) other ↔ other < count := by
    rw [movedAgain rfl]
    exact gatedCounted
  split
  · exact stops _
  rename_i time transactions work
  have works : (itemWork item).isOk = true := by rw [work]; rfl
  rw [Program.bind_assoc]
  -- Queueing the transactions leaves the table of blocks alone.
  refine (prefixing_of_writes .blocks (addTransactions_steps transactions number time
    (List.mem_singleton_self _)) (by decide) (by decide)).bind fun _ queued same => ?_
  rw [Program.bind_assoc]
  refine storeBlock_prefixed ?_ rowOf (next works _ forward
    (lastBlockId_of_gapless valid.blocks gatedCounted)) ?_ fun final total totalled advanced =>
      continues final total totalled works advanced
  · rw [decide_eq_true_iff, Cursor.count_get]
    exact lookedCounted number
  · rw [same rfl]
    exact lookedCounted

/-- The item loop, over rows in increasing order of which those up to the first
that ends the pass connect to the stored blocks. -/
theorem processBlocks_prefixed {numbers : List Nat} {items stuck : List Json}
    (rowsOf : List.Forall₂ (BlockRowOf platform chain) numbers items)
    (sorted : numbers.Pairwise (· < ·)) (follows : Follows count numbers)
    (stuckAt : ∀ item ∈ stuck.head?, (itemWork item).isOk = false)
    (stuckOf : ∀ item ∈ stuck, ∃ number, BlockRowOf platform chain number item)
    (counted : ∀ other, HasBlock (process.store .blocks) other ↔ other < count) :
    (processBlocks (items ++ stuck)).Holds Process.exec
      ((prefixing platform chain).contract .blocks) (fun _ _ => True) process := by
  induction rowsOf generalizing process count with
  | nil =>
      cases stuck with
      | nil => trivial
      | cons item rest =>
          obtain ⟨number, rowOf⟩ := stuckOf item (by simp)
          have stops := stuckAt item (by simp)
          rw [List.nil_append, processBlocks, rowOf.index_blockId]
          exact processBlock_prefixed rowOf counted (fun works => by simp [stops] at works)
            (fun _ => trivial) fun _ _ _ works => by simp [stops] at works
  | @cons number item numbers items rowOf _ ih =>
      obtain ⟨least, restSorted⟩ := List.pairwise_cons.mp sorted
      rw [List.cons_append, processBlocks, rowOf.index_blockId]
      refine processBlock_prefixed rowOf counted
        (fun _ last gate lastEq => follows.next rowOf.members.1 least gate lastEq)
        (fun _ => trivial) fun final total totalled _ advanced => ?_
      rcases advanced with ⟨stored, rfl⟩ | ⟨rfl, rfl⟩
      · exact ih restSorted (follows.tail stored) totalled
      · exact ih restSorted follows.succ totalled

theorem exists_workable {store : Store}
    (rows : BlockRows platform chain (store .blocksProcessing)) :
    ∃ numbers, List.Forall₂ (BlockRowOf platform chain) numbers (workable store) ∧
      numbers.Pairwise (· < ·) := by
  obtain ⟨numbers, rowsOf, increasing, -⟩ := rows.snapshot
  have isPrefix : workable store <+: Cursor.ordered "block-id" (store .blocksProcessing).rows :=
    List.takeWhile_prefix _
  refine ⟨numbers.take (workable store).length, ?_, increasing.take⟩
  have taken := List.forall₂_take (workable store).length rowsOf
  rwa [← List.prefix_iff_eq_take.mp isPrefix] at taken

/-- The workable rows of a connectable snapshot follow on the stored blocks. -/
theorem Connectable.follows {store : Store} {numbers : List Nat}
    (connectable : Connectable store) (blocks : BlockRows platform chain (store .blocks))
    (counted : ∀ other, HasBlock (store .blocks) other ↔ other < count)
    (rowsOf : List.Forall₂ (BlockRowOf platform chain) numbers (workable store)) :
    Follows count numbers := by
  obtain ⟨zero, one⟩ := connectable
  refine ⟨fun none some => (mem_numbers rowsOf).mpr (zero ?_ ?_),
    fun few ⟨other, member, positive⟩ => (mem_numbers rowsOf).mpr (one ?_ ?_)⟩
  · refine List.eq_nil_iff_forall_not_mem.mpr fun row member => ?_
    obtain ⟨number, rowOf⟩ := blocks row member
    have := (counted number).mp (blocks.hasBlock_iff.mpr ⟨row, member, rowOf⟩)
    omega
  · rintro empty
    rw [empty] at rowsOf
    exact some (List.forall₂_nil_right_iff.mp rowsOf)
  · intro row member
    obtain ⟨number, rowOf⟩ := blocks row member
    have below := (counted number).mp (blocks.hasBlock_iff.mpr ⟨row, member, rowOf⟩)
    obtain rfl : number = 0 := by omega
    exact rowOf.blockId
  · obtain ⟨row, rowMem, bidEq⟩ := (mem_numbers rowsOf).mp member
    refine ⟨row, rowMem, fun isZero => ?_⟩
    rw [bidEq] at isZero
    simp at isZero
    omega

/-- A whole pass. -/
theorem blocksProcessing_prefixed :
    blocksProcessing.Holds Process.exec ((prefixing platform chain).contract .blocks)
      (fun _ _ => True) process := by
  intro current _ (valid : Prefixed platform chain current) admitted
  refine ⟨valid, fun _ => rfl, ?_⟩
  obtain ⟨count, counted⟩ := valid.gapless
  obtain ⟨numbers, rowsOf, increasing⟩ := exists_workable valid.pending
  have follows := Connectable.follows (admitted rfl) valid.blocks counted rowsOf
  have split : Cursor.ordered "block-id" (current.store .blocksProcessing).rows =
      workable current.store ++ (Cursor.ordered "block-id"
        (current.store .blocksProcessing).rows).dropWhile fun item => (itemWork item).isOk :=
    List.takeWhile_append_dropWhile.symm
  change (processBlocks (Cursor.ordered "block-id" _)).Holds _ _ _ _
  rw [split]
  refine processBlocks_prefixed rowsOf increasing follows (fun item isHead => ?_)
    (fun item member => ?_) counted
  · have stops := List.head?_dropWhile_not (fun item => (itemWork item).isOk)
      (Cursor.ordered "block-id" (current.store .blocksProcessing).rows)
    rw [Option.mem_def.mp isHead] at stops
    simpa using stops
  · have listed := (List.dropWhile_sublist _).subset member
    exact valid.pending item (Cursor.mem_ordered.mp listed).1

end Db

/-! ## The other threads -/

theorem addBlock_prefixed {process : Process} (number : Nat) (now : Int) :
    (Db.addBlock platform (chain number).json number now).Holds Process.exec
      ((prefixing platform chain).contract .delivery) (fun _ _ => True) process := by
  refine Db.getData_bind_holds fun current _ _ => ?_
  split_ifs
  · trivial
  · split
    · trivial
    · rename_i row built
      have rowOf : BlockRowOf platform chain number row := ⟨now, built⟩
      refine Db.insert_bind_holds (Json.isObject_of_find? rowOf.id)
        fun found _ (valid : Prefixed platform chain found) => ?_
      exact ⟨⟨valid.blocks, valid.pending.insert rowOf, valid.gapless⟩, fun _ => rfl, trivial⟩

/-- Every thread but a delivery keeps the discipline by what it writes. -/
theorem Regular.prefixed {thread : IndexerThread} {process : Process} (regular : Regular thread)
    (notBlocks : thread.role ≠ .blocks) (notDelivery : thread.role ≠ .delivery) :
    thread.program.Holds Process.exec ((prefixing platform chain).contract thread.role)
      (fun _ _ => True) process := by
  have steps := regular.steps
  suffices written : ∃ tables : List TableName, .blocks ∉ tables ∧ .blocksProcessing ∉ tables ∧
      thread.program.Steps Process.exec (Writes tables) by
    obtain ⟨tables, apart, apartPending, writes⟩ := written
    exact (prefixing_of_writes thread.role writes apart apartPending).mono fun _ _ _ => trivial
  cases roleEq : thread.role <;> rw [roleEq] at steps
  case migrating => exact ⟨_, by decide, by decide, steps.mono fun _ _ => And.left⟩
  case blocks => exact absurd roleEq notBlocks
  case delivery => exact absurd roleEq notDelivery
  all_goals exact ⟨_, by decide, by decide, steps⟩

theorem resume_prefixed {process : Process} (exit : Exit) :
    ∀ thread ∈ Indexer.resume exit, thread.program.Holds Process.exec
      ((prefixing platform chain).contract thread.role) (fun _ _ => True) process := by
  intro thread member
  have regular := Indexer.regular_resumable.resume exit thread member
  by_cases isBlocks : thread.role = .blocks
  · obtain rfl : thread = Indexer.blocksThread := by
      cases exit <;> simp only [Indexer.resume, List.mem_cons, List.not_mem_nil, or_false] at member
      case initialized => rcases member with rfl | rfl | rfl <;> first | rfl | cases isBlocks
      all_goals subst member; first | rfl | cases isBlocks
    exact Db.blocksProcessing_prefixed.bind fun _ _ _ => trivial
  · refine regular.prefixed isBlocks fun isDelivery => ?_
    cases exit <;> simp only [Indexer.resume, List.mem_cons, List.not_mem_nil, or_false] at member
    case initialized => rcases member with rfl | rfl | rfl <;> cases isDelivery
    all_goals subst member; cases isDelivery

/-! ## Runs -/

/-- The threads keep to their roles and to the discipline. -/
structure PrefixSafe (platform : Platform) (chain : Chain) (world : World) : Prop where
  staffed : Staffed world
  safe : world.Safe Process.exec (prefixing platform chain) fun _ _ _ => True

namespace PrefixSafe

variable {world next : World}

theorem boot (start : Start) {store : Store}
    (valid : Prefixed platform chain (Process.idle store)) :
    PrefixSafe platform chain (Indexer.boot start store) := by
  refine ⟨.boot start store, valid, fun thread member => ?_⟩
  obtain rfl := List.mem_singleton.mp member
  exact (Indexer.migratingThread_regular start).prefixed nofun nofun

/-- The queues change and the tables do not. -/
theorem event (safe : PrefixSafe platform chain world) (shared : Process)
    (sameStore : shared.store = world.shared.store) :
    Pool.Safe Process.exec (prefixing platform chain) (fun _ _ _ => True)
      { world with shared := shared } :=
  safe.safe.event (fun _ _ _ _ _ _ => trivial) (fun _ _ _ => by rw [sameStore])
    (safe.safe.valid.of_same (by rw [sameStore]) (by rw [sameStore]))

theorem step (safe : PrefixSafe platform chain world) {restarts : Store → Prop}
    {move : Indexer.Move} (permitted : Indexer.allowed restarts Connectable world move)
    (moved : Indexer.step platform chain world move = some next) :
    PrefixSafe platform chain next := by
  refine ⟨safe.staffed.step moved, ?_⟩
  obtain ⟨first, last, -, -, rfl⟩ | ⟨number, -, rfl⟩ | ⟨number, now, -, rfl⟩ |
    ⟨position, job, -, rfl⟩ | ⟨position, rfl, advanced⟩ | ⟨start, -, rfl⟩ :=
      Indexer.step_cases moved
  · exact safe.event _ rfl
  · exact safe.event _ rfl
  · refine (safe.event (Indexer.deliver number world.shared) rfl).spawn ?_
    exact (addBlock_prefixed number now).bind fun _ _ _ =>
      fun current _ valid _ => ⟨Prefixed.of_same valid rfl rfl, fun _ => rfl, trivial⟩
  · exact (safe.event (Indexer.take position job world.shared) rfl).spawn
      ((Indexer.workerThread_regular platform job).prefixed nofun nofun)
  · refine (safe.safe.advance (fun _ _ _ _ _ _ => trivial)
      (List.pairwise_map.mp (safe.staffed.besides.imp prefixing_compatible)) ?_
      (fun _ exit _ => resume_prefixed exit) advanced).1
    intro thread query following found programEq isSnapshot
    refine permitted ?_
    obtain ⟨role, program⟩ := thread
    obtain rfl : program = .ask query following := programEq
    unfold Query.isBlockSnapshot at isSnapshot
    split at isSnapshot
    · simp [Indexer.takesSnapshot, found]
    · simp at isSnapshot
  · exact (boot start (safe.safe.valid.of_same rfl rfl)).safe

end PrefixSafe

theorem prefixed_of_reaches {restarts : Store → Prop} {start : Start} {world : World}
    (reached : IndexerReaches platform chain restarts Connectable start world) :
    Prefixed platform chain world.shared := by
  refine (reached.invariant (PrefixSafe platform chain) (.boot start ⟨?_, ?_, 0, ?_⟩)
    fun _ _ _ safe permitted moved => safe.step permitted moved).safe.valid
  all_goals simp [BlockRows, Process.idle, Store.empty, HasBlock, KeyedTable.Has]

/-- The rows of a table of blocks without holes, by number. -/
theorem Gapless.perm_range {table : Table} {count : Nat}
    (rows : BlockRows platform chain table)
    (counted : ∀ number, HasBlock table number ↔ number < count) :
    (table.rows.map fun row => row.find? "block-id").Perm
      ((List.range count).map fun number => some (.num number)) := by
  obtain ⟨numbers, rowsOf, increasing, members⟩ := rows.snapshot
  have numbersPerm : numbers.Perm (List.range count) := by
    refine (List.perm_ext_iff_of_nodup (increasing.imp ne_of_lt) List.nodup_range).mpr ?_
    intro number
    rw [members, counted, List.mem_range]
  have indexed : table.rows.filter (fun row => (row.find? "block-id").isSome) = table.rows := by
    refine List.filter_eq_self.mpr fun row member => ?_
    obtain ⟨number, rowOf⟩ := rows row member
    simp [rowOf.blockId]
  have ordered := Cursor.ordered_perm "block-id" table.rows
  rw [indexed] at ordered
  refine ((ordered.map _).symm.trans ?_).trans (numbersPerm.map _)
  rw [map_blockId rowsOf]

/-- In every state of every run whose passes begin with connectable blocks, the
numbers of the stored blocks are the first `count` ones, the fetcher would be
started at the last of them, and `get-block-history-state` reports their
number. -/
theorem stored_blocks_without_holes {restarts : Store → Prop} {start : Start} {world : World}
    (reached : IndexerReaches platform chain restarts Connectable start world) :
    ∃ count, ((world.shared.store .blocks).rows.map fun row => row.find? "block-id").Perm
        ((List.range count).map fun number => some (.num number)) ∧
      (count = 0 ∨
        toUInt64 (getNumberOf (Db.lastBlockId world.shared.store)) + 1 = count ∧
        Db.blockHistoryCount (getDataOf (Db.blockHistoryState world.shared.store)) =
          .ok (count % 2 ^ 64)) := by
  have valid := prefixed_of_reaches reached
  obtain ⟨count, counted⟩ := valid.gapless
  refine ⟨count, Gapless.perm_range valid.blocks counted, ?_⟩
  rcases blockHistoryState_cases valid.blocks with ⟨empty, -⟩ |
    ⟨number, last, stored, greatest, lastOf, found⟩
  · exact .inl (count_eq_zero counted empty)
  · have countEq := count_eq_succ counted stored greatest
    refine .inr ⟨?_, ?_⟩
    · rcases lastBlockId_of_gapless valid.blocks counted with ⟨none, -⟩ | lastEq
      · omega
      · exact lastEq.symm
    · have rowEq : getDataOf (.ok last) = last := by
        cases last <;> first | rfl | nomatch Json.isObject_of_find? lastOf.id
      rw [found, rowEq, Db.blockHistoryCount, Json.index_of_find? lastOf.blockId, countEq]
      simp [bind, Except.bind, Json.getUInt64_num]
      rfl

/-- The indexer starts, the fetcher asks for three blocks, two of them are
delivered, and a pass of `blocks_processing` works on both. -/
def twoBlocksRun (second : Nat) : List Indexer.Move :=
  List.replicate 7 (Move.advance 0) ++ List.replicate 3 (Move.advance 2) ++
    [Move.fetch 2, Move.deliver 0 5] ++ List.replicate 4 (Move.advance 2) ++
    [Move.deliver second 5] ++ List.replicate 4 (Move.advance 2) ++
    List.replicate 13 (Move.advance 0)

theorem stored_blocks_without_holes_two :
    ∃ world, IndexerReaches samplePlatform sampleChain (fun _ => False) Connectable ⟨0, 0⟩ world ∧
      (world.shared.store .blocks).rows.length = 2 ∧
      ∃ count, ((world.shared.store .blocks).rows.map fun row => row.find? "block-id").Perm
          ((List.range count).map fun number => some (.num number)) ∧
        (count = 0 ∨
          toUInt64 (getNumberOf (Db.lastBlockId world.shared.store)) + 1 = count ∧
          Db.blockHistoryCount (getDataOf (Db.blockHistoryState world.shared.store)) =
            .ok (count % 2 ^ 64)) := by
  obtain ⟨world, reached, two⟩ :=
    Reaches.exists_of_runMoves (Indexer.step samplePlatform sampleChain)
      (Indexer.allowed (fun _ => False) Connectable) (Indexer.firstBoot ⟨0, 0⟩) (twoBlocksRun 1)
      (fun world => (world.shared.store .blocks).rows.length = 2) (by decide +kernel)
  exact ⟨world, reached, two, stored_blocks_without_holes reached⟩

/-- Block 1 is late: the pass stores block 2 on top of block 0. -/
theorem stored_blocks_with_hole :
    ∃ world, IndexerReaches samplePlatform sampleChain (fun _ => False) (fun _ => True) ⟨0, 0⟩
        world ∧
      ¬ ∃ count, ((world.shared.store .blocks).rows.map fun row => row.find? "block-id").Perm
        ((List.range count).map fun number => some (.num number)) := by
  obtain ⟨world, reached, stored⟩ :=
    Reaches.exists_of_runMoves (Indexer.step samplePlatform sampleChain)
      (Indexer.allowed (fun _ => False) (fun _ => True)) (Indexer.firstBoot ⟨0, 0⟩)
      (twoBlocksRun 2)
      (fun world => (world.shared.store .blocks).rows.map (fun row => row.find? "block-id") =
        [some (.num 0), some (.num 2)]) (by decide +kernel)
  refine ⟨world, reached, ?_⟩
  rintro ⟨count, perm⟩
  rw [stored] at perm
  have two : 2 = count := by simpa using perm.length_eq
  have member : some (Json.num 2) ∈ (List.range count).map fun number => some (.num number) :=
    perm.mem_iff.mp (by simp)
  obtain ⟨number, below, same⟩ := List.mem_map.mp member
  have numberEq : (number : Int) = 2 := by simpa using same
  have := List.mem_range.mp below
  omega

end MileExplorer
