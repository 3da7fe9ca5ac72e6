import MileExplorer.BlockPass

/-!
# The blocks that one pass takes

On a table that holds an unbroken interval of blocks a pass of
`blocks_processing` takes the pending blocks of the interval and the longest
unbroken run that follows on it, and leaves every other pending block.  The
blocks that arrive between two passes can come in any order: the table holds
an unbroken interval after every pass.
-/

namespace MileExplorer

/-! ## The end of the run -/

/-- The end of the unbroken run of increasing numbers that follows on `last`. -/
def reach (last : Nat) (numbers : List Nat) : Nat :=
  numbers.foldl (fun last number => if number ≤ last + 1 then max last number else last) last

section Reach

variable {last number : Nat} {rest numbers : List Nat}

theorem reach_near (near : number ≤ last + 1) :
    reach last (number :: rest) = reach (max last number) rest := by
  simp [reach, near]

theorem reach_far (far : ∀ number ∈ numbers, last + 1 < number) : reach last numbers = last := by
  induction numbers with
  | nil => rfl
  | cons number rest ih =>
      have beyond := far number (by simp)
      have skipped : reach last (number :: rest) = reach last rest := by
        simp [reach, show ¬ number ≤ last + 1 by omega]
      rw [skipped]
      exact ih fun other member => far other (by simp [member])

theorem le_reach (last : Nat) (numbers : List Nat) : last ≤ reach last numbers := by
  induction numbers generalizing last with
  | nil => exact le_rfl
  | cons number rest ih =>
      unfold reach
      rw [List.foldl_cons]
      split_ifs
      · exact (le_max_left last number).trans (ih _)
      · exact ih last

/-- A list in increasing order goes on from `last`, or all of it is beyond. -/
theorem near_or_far (last : Nat) (sorted : (number :: rest).Pairwise (· < ·)) :
    number ≤ last + 1 ∨ ∀ other ∈ number :: rest, last + 1 < other := by
  by_cases near : number ≤ last + 1
  · exact .inl near
  · refine .inr fun other member => ?_
    rcases List.mem_cons.mp member with rfl | later
    · omega
    · have := (List.pairwise_cons.mp sorted).1 other later
      omega

theorem mem_of_le_reach (sorted : numbers.Pairwise (· < ·)) {wanted : Nat} (above : last < wanted)
    (within : wanted ≤ reach last numbers) : wanted ∈ numbers := by
  induction numbers generalizing last with
  | nil => exact absurd within (by simpa [reach] using above)
  | cons number rest ih =>
      rcases near_or_far last sorted with near | far
      · rw [reach_near near] at within
        by_cases later : max last number < wanted
        · exact List.mem_cons_of_mem _ (ih (List.pairwise_cons.mp sorted).2 later within)
        · have same : wanted = number := by omega
          exact same ▸ List.mem_cons_self
      · rw [reach_far far] at within
        omega

theorem reach_succ_not_mem (last : Nat) (sorted : numbers.Pairwise (· < ·)) :
    reach last numbers + 1 ∉ numbers := by
  induction numbers generalizing last with
  | nil => simp
  | cons number rest ih =>
      rcases near_or_far last sorted with near | far
      · rw [reach_near near]
        have further := le_reach (max last number) rest
        intro member
        rcases List.mem_cons.mp member with same | later
        · omega
        · exact ih (max last number) (List.pairwise_cons.mp sorted).2 later
      · rw [reach_far far]
        intro member
        have := far _ member
        omega

end Reach

namespace Db

variable {first last : Nat}

/-- Without failures the pass works on the blocks up to the end of the run. -/
theorem workedOn_eq {items : List Json} (positive : 0 < last)
    (numbered : ∀ item ∈ items, IsNumbered item (blockOf item))
    (works : ∀ item ∈ items, (itemWork item).isOk = true)
    (sorted : (items.map blockOf).Pairwise (· < ·)) :
    workedOn (fun _ => false) last items =
      items.filter fun item => blockOf item ≤ reach last (items.map blockOf) := by
  induction items generalizing last with
  | nil => rfl
  | cons item rest ih =>
      have small := (numbered item (by simp)).1
      have work := works item (by simp)
      have restSorted := (List.pairwise_cons.mp sorted).2
      rcases near_or_far last sorted with near | far
      · have passes : Passes (fun _ => false) last item := by
          refine ⟨work, .inr fun forward => ?_⟩
          have := (isForward_iff small).mp forward
          omega
        have within := le_reach (max last (blockOf item)) (rest.map blockOf)
        rw [workedOn, if_pos passes, List.map_cons, reach_near near, List.filter_cons_of_pos]
        · rw [ih (by omega) (fun other member => numbered other (by simp [member]))
            (fun other member => works other (by simp [member])) restSorted]
        · simp only [decide_eq_true_eq]
          omega
      · have beyond := far (blockOf item) (by simp)
        have stops : ¬ Passes (fun _ => false) last item := by
          rintro ⟨-, fails | passes⟩
          · simp at fails
          · exact passes ((isForward_iff small).mpr ⟨positive, beyond⟩)
        rw [workedOn, if_neg stops, List.map_cons, reach_far far]
        symm
        apply List.filter_eq_nil_iff.mpr
        intro other member
        have := far (blockOf other) (List.mem_map_of_mem member)
        simp only [decide_eq_true_eq]
        omega

/-! ## The process after a pass -/

theorem blockChanges_withTable (process : Process) (item : Json) {table : TableName}
    (rows : Table) (other : table ≠ .transactionsProcessing) :
    blockChanges (process.withTable table rows) item =
      (blockChanges process item).withTable table rows := by
  cases work : itemWork item with
  | error exception => simp [blockChanges, work]
  | ok found =>
      obtain ⟨time, transactions⟩ := found
      rw [blockChanges_eq work, blockChanges_eq work]
      split_ifs
      · rfl
      · simp only [Process.withTable, Function.update_of_ne other.symm]
        rw [Function.update_comm other]

theorem foldl_blockChanges_withTable (items : List Json) (process : Process) {table : TableName}
    (rows : Table) (other : table ≠ .transactionsProcessing) :
    items.foldl blockChanges (process.withTable table rows) =
      (items.foldl blockChanges process).withTable table rows := by
  induction items generalizing process with
  | nil => rfl
  | cons item rest ih =>
      rw [List.foldl_cons, List.foldl_cons, blockChanges_withTable _ _ _ other, ih]

/-- The iterations call `block_changes` for one block after the other, and
change the block tables besides. -/
theorem foldl_moveBlock_eq (items : List Json) (process : Process) :
    let final := items.foldl moveBlock process
    final = ((items.foldl blockChanges process).withTable .blocks (final.store .blocks)).withTable
      .blocksProcessing (final.store .blocksProcessing) := by
  induction items generalizing process with
  | nil => simp [Process.withTable]
  | cons item rest ih =>
      refine (ih (moveBlock process item)).trans ?_
      have pushed : rest.foldl blockChanges (moveBlock process item) =
          ((rest.foldl blockChanges (blockChanges process item)).withTable .blocks
            ((moveBlock process item).store .blocks)).withTable .blocksProcessing
              ((moveBlock process item).store .blocksProcessing) := by
        rw [← foldl_blockChanges_withTable _ _ _ (by decide),
          ← foldl_blockChanges_withTable _ _ _ (by decide)]
        congr 1
      rw [pushed]
      simp only [List.foldl_cons, Process.withTable]
      congr 1
      funext table
      by_cases isPending : table = .blocksProcessing
      · simp [isPending]
      · by_cases isBlocks : table = .blocks
        · simp [isBlocks]
        · simp [isPending, isBlocks]

end Db

/-! ## One pass -/

structure StoresInterval (first last : Nat) (store : Store) : Prop where
  rows : NumberedRows (store .blocks)
  nonempty : first ≤ last
  exactly : ∀ number, HasBlock (store .blocks) number ↔ first ≤ number ∧ number ≤ last

/-- The pending blocks are of the interval or above it, and have what an
iteration reads: a time, which `add_block` writes, and transactions. -/
structure Queued (first : Nat) (store : Store) : Prop where
  rows : NumberedRows (store .blocksProcessing)
  above : ∀ row ∈ (store .blocksProcessing).rows, first ≤ blockOf row
  timed : ∀ row ∈ (store .blocksProcessing).rows, ∃ time, row.find? "timestamp" = some (.num time)
  listed : ∀ row ∈ (store .blocksProcessing).rows,
    ∃ transactions, row.find? "transactions" = some transactions

/-- A pass takes the pending blocks up to `last + run` and no others: it stores
those above `last`, which follow on it without a gap, removes all of them from
the queue, and calls `block_changes` once for each in ascending order. -/
structure TakesRun (last run : Nat) (before after : Process) : Prop where
  unbroken : ∀ number, last < number → number ≤ last + run →
    HasBlock (before.store .blocksProcessing) number
  maximal : ¬ HasBlock (before.store .blocksProcessing) (last + run + 1)
  stored : ∀ row, row ∈ (after.store .blocks).rows ↔ row ∈ (before.store .blocks).rows ∨
    row ∈ (before.store .blocksProcessing).rows ∧ last < blockOf row ∧ blockOf row ≤ last + run
  left : ∀ row, row ∈ (after.store .blocksProcessing).rows ↔
    row ∈ (before.store .blocksProcessing).rows ∧ last + run < blockOf row
  changes : ∃ removed : List Json,
    (∀ row, row ∈ removed ↔
      row ∈ (before.store .blocksProcessing).rows ∧ row ∉ (after.store .blocksProcessing).rows) ∧
    (removed.Pairwise fun earlier later => blockOf earlier < blockOf later) ∧
    after = ((removed.foldl Db.blockChanges before).withTable .blocks
      (after.store .blocks)).withTable .blocksProcessing (after.store .blocksProcessing)

theorem Db.itemWork_of_find? {item transactions : Json} {time : Int}
    (timed : item.find? "timestamp" = some (.num time))
    (listed : item.find? "transactions" = some transactions) :
    Db.itemWork item = .ok (time, transactions) := by
  rw [Db.itemWork, Json.index_of_find? timed, Json.at?_of_find? listed]
  rfl

variable {first last : Nat} {process : Process}

theorem Queued.works {store : Store} (queued : Queued first store) :
    ∀ item ∈ (store .blocksProcessing).rows, (Db.itemWork item).isOk = true := by
  intro item member
  obtain ⟨time, timed⟩ := queued.timed item member
  obtain ⟨transactions, listed⟩ := queued.listed item member
  rw [Db.itemWork_of_find? timed listed]
  rfl

theorem StoresInterval.gateNumber_eq {store : Store} (interval : StoresInterval first last store) :
    Db.gateNumber store = last := by
  apply interval.rows.lastBlockId_eq ((interval.exactly last).mpr ⟨interval.nonempty, le_rfl⟩)
  exact fun other stored => ((interval.exactly other).mp stored).2

/-- A pass over any pending blocks. -/
theorem exists_takesRun (interval : StoresInterval first last process.store) (positive : 0 < last)
    (queued : Queued first process.store) :
    ∃ run, TakesRun last run process (Db.blocksProcessing.run Process.exec process).2 := by
  let items := Cursor.ordered "block-id" (process.store .blocksProcessing).rows
  let limit := reach last (items.map blockOf)
  let removed := items.filter fun item => blockOf item ≤ limit
  have sorted := queued.rows.increasing
  have numbers : (items.map blockOf).Pairwise (· < ·) := List.pairwise_map.mpr sorted
  have listed (row : Json) : row ∈ items ↔ row ∈ (process.store .blocksProcessing).rows :=
    queued.rows.mem_ordered
  have final : (Db.blocksProcessing.run Process.exec process).2 =
      removed.foldl Db.moveBlock process := by
    have passed := Db.blocksProcessing_eq Db.failsReads_none interval.rows queued.rows
    rw [interval.gateNumber_eq] at passed
    simp only [Bool.false_eq_true, if_false] at passed
    rw [Db.workedOn_eq positive (fun item member => queued.rows.numbered ((listed item).mp member))
      (fun item member => queued.works item ((listed item).mp member)) numbers] at passed
    exact congrArg Prod.snd passed
  have inRemoved (row : Json) : row ∈ removed ↔
      row ∈ (process.store .blocksProcessing).rows ∧ blockOf row ≤ limit := by
    simp only [removed, List.mem_filter, listed, decide_eq_true_eq]
  obtain ⟨blocksEq, pendingEq⟩ := Db.store_foldl_moveBlock removed process
  have above := le_reach last (items.map blockOf)
  obtain ⟨run, limitEq⟩ : ∃ run, limit = last + run := ⟨limit - last, by omega⟩
  have left (row : Json) : row ∈ ((removed.foldl Db.moveBlock process).store
      .blocksProcessing).rows ↔
        row ∈ (process.store .blocksProcessing).rows ∧ last + run < blockOf row := by
    rw [pendingEq, KeyedTable.mem_foldl_erase, ← limitEq]
    refine and_congr_right fun member => ⟨fun kept => ?_, fun beyond item itemMem same => ?_⟩
    · by_contra within
      exact kept row ((inRemoved row).mpr ⟨member, by omega⟩) rfl
    · obtain ⟨itemIn, within⟩ := (inRemoved item).mp itemMem
      have sameRow := KeyedTable.eq_of_key_eq member itemIn same
      rw [sameRow] at beyond
      omega
  have distinct : (removed.map docId).Nodup :=
    (Cursor.nodup_ordered _ _).sublist (List.filter_sublist.map docId)
  rw [final]
  refine ⟨run, ?_, ?_, fun row => ?_, left, removed, fun row => ?_, ?_, ?_⟩
  · intro number higher within
    rw [← limitEq] at within
    obtain ⟨row, member, rfl⟩ := List.mem_map.mp (mem_of_le_reach numbers higher within)
    exact queued.rows.hasBlock_of_mem ((listed row).mp member)
  · intro stored
    obtain ⟨row, member, numbered⟩ := queued.rows.hasBlock_iff.mp stored
    refine reach_succ_not_mem last numbers (List.mem_map.mpr ⟨row, (listed row).mpr member, ?_⟩)
    rw [numbered.blockOf_eq, ← limitEq]
  · rw [blocksEq, KeyedTable.mem_insertMany distinct, inRemoved, limitEq]
    refine or_congr_right ?_
    constructor
    · rintro ⟨⟨member, within⟩, absent⟩
      refine ⟨member, ?_, within⟩
      by_contra stored
      apply absent
      rw [(queued.rows.numbered member).docId_eq]
      exact (interval.exactly _).mpr ⟨queued.above row member, by omega⟩
    · rintro ⟨member, higher, within⟩
      refine ⟨⟨member, within⟩, fun present => ?_⟩
      rw [(queued.rows.numbered member).docId_eq] at present
      have := (interval.exactly _).mp present
      omega
  · rw [inRemoved, left, limitEq]
    constructor
    · rintro ⟨member, within⟩
      exact ⟨member, fun still => by omega⟩
    · rintro ⟨member, gone⟩
      refine ⟨member, ?_⟩
      by_contra beyond
      exact gone ⟨member, by omega⟩
  · exact sorted.sublist List.filter_sublist
  · exact Db.foldl_moveBlock_eq removed process

/-! ## Any number of passes -/

theorem TakesRun.interval {run : Nat} {after : Process} (takes : TakesRun last run process after)
    (interval : StoresInterval first last process.store) (queued : Queued first process.store) :
    StoresInterval first (last + run) after.store := by
  have nonempty := interval.nonempty
  have rows : NumberedRows (after.store .blocks) := by
    intro row member
    rcases (takes.stored row).mp member with old | ⟨pending, -⟩
    · exact interval.rows row old
    · exact queued.rows row pending
  refine ⟨rows, by omega, fun number => ⟨fun stored => ?_, fun inside => ?_⟩⟩
  · obtain ⟨row, member, numbered⟩ := rows.hasBlock_iff.mp stored
    rcases (takes.stored row).mp member with old | ⟨pending, -, within⟩
    · have := (interval.exactly number).mp (interval.rows.hasBlock_iff.mpr ⟨row, old, numbered⟩)
      omega
    · have := queued.above row pending
      rw [numbered.blockOf_eq] at this within
      omega
  · rw [rows.hasBlock_iff]
    by_cases old : number ≤ last
    · obtain ⟨row, member, numbered⟩ :=
        interval.rows.hasBlock_iff.mp ((interval.exactly number).mpr ⟨inside.1, old⟩)
      exact ⟨row, (takes.stored row).mpr (.inl member), numbered⟩
    · obtain ⟨row, member, numbered⟩ :=
        queued.rows.hasBlock_iff.mp (takes.unbroken number (by omega) inside.2)
      refine ⟨row, (takes.stored row).mpr (.inr ⟨member, ?_⟩), numbered⟩
      rw [numbered.blockOf_eq]
      omega

theorem Queued.of_subset {before after : Store} (queued : Queued first before)
    (fewer : ∀ row ∈ (after .blocksProcessing).rows, row ∈ (before .blocksProcessing).rows) :
    Queued first after :=
  ⟨fun row member => queued.rows row (fewer row member),
    fun row member => queued.above row (fewer row member),
    fun row member => queued.timed row (fewer row member),
    fun row member => queued.listed row (fewer row member)⟩

/-- A pass, or a block that arrives between two passes. -/
inductive BlockMove where
  | pass
  | arrive (block : Json) (number : Nat) (now : Int)

def blockStep (platform : Platform) (process : Process) : BlockMove → Option Process
  | .pass => some (Db.blocksProcessing.run Process.exec process).2
  | .arrive block number now =>
      some ((Db.addBlock platform block number now).run Process.exec process).2

/-- The blocks that arrive are of the interval or above it and have
transactions. -/
def arrivesFrom (first : Nat) (_ : Process) : BlockMove → Prop
  | .pass => True
  | .arrive block number _ =>
      first ≤ number ∧ block.find? "id" = some (.str (toString number)) ∧
        ∃ transactions, block.find? "transactions" = some transactions

theorem addBlock_cases (platform : Platform) {block : Json} {number : Nat} (now : Int)
    (process : Process) (idEq : block.find? "id" = some (.str (toString number))) :
    ((Db.addBlock platform block number now).run Process.exec process).2 = process ∨
      ∃ row, blockRow platform block number now = .ok row ∧
        ((Db.addBlock platform block number now).run Process.exec process).2 =
          process.withTable .blocksProcessing ((process.store .blocksProcessing).insert row) := by
  rw [Db.addBlock, Program.run_bind, Db.run_getData]
  dsimp only
  split_ifs
  · exact .inl rfl
  · cases built : blockRow platform block number now with
    | error exception => exact .inl rfl
    | ok row =>
        have isObj := (blockRow_members idEq built).1.isObject
        exact .inr ⟨row, rfl, congrArg Prod.snd (Db.run_insert _ _ isObj process)⟩

theorem Queued.arrive (platform : Platform) {block : Json} {number : Nat} (now : Int)
    (queued : Queued first process.store)
    (arrives : arrivesFrom first process (.arrive block number now)) :
    let after := ((Db.addBlock platform block number now).run Process.exec process).2
    Queued first after.store ∧ after.store .blocks = process.store .blocks := by
  obtain ⟨above, idEq, transactions, listed⟩ := arrives
  rcases addBlock_cases platform now process idEq with same | ⟨row, built, added⟩
  · simp only [same]
    exact ⟨queued, trivial⟩
  · obtain ⟨numbered, timed, listedEq⟩ := blockRow_members idEq built
    simp only [added, Process.store_withTable]
    refine ⟨?_, Function.update_of_ne (by decide) _ _⟩
    have rows (other : Json)
        (member : other ∈ ((process.store .blocksProcessing).insert row).rows) :
        other ∈ (process.store .blocksProcessing).rows ∨ other = row :=
      (KeyedTable.mem_insert.mp member).imp_right And.left
    constructor <;> rw [Function.update_self]
    · exact queued.rows.insert numbered
    · intro other member
      rcases rows other member with old | rfl
      · exact queued.above other old
      · rwa [numbered.blockOf_eq]
    · intro other member
      rcases rows other member with old | rfl
      · exact queued.timed other old
      · exact timed
    · intro other member
      rcases rows other member with old | rfl
      · exact queued.listed other old
      · exact ⟨transactions, listedEq.trans listed⟩

/-- What every move keeps. -/
theorem blockStep_interval {platform : Platform} {next : Process} {move : BlockMove}
    (interval : StoresInterval first last process.store) (positive : 0 < last)
    (queued : Queued first process.store) (permitted : arrivesFrom first process move)
    (moved : blockStep platform process move = some next) :
    (∃ later, last ≤ later ∧ StoresInterval first later next.store) ∧ Queued first next.store := by
  cases move with
  | pass =>
      obtain rfl := Option.some.inj moved
      obtain ⟨run, takes⟩ := exists_takesRun interval positive queued
      exact ⟨⟨last + run, by omega, takes.interval interval queued⟩,
        queued.of_subset fun row member => ((takes.left row).mp member).1⟩
  | arrive block number now =>
      obtain rfl := Option.some.inj moved
      obtain ⟨stillQueued, same⟩ := queued.arrive platform now permitted
      refine ⟨⟨last, le_rfl, ?_⟩, stillQueued⟩
      exact ⟨same ▸ interval.rows, interval.nonempty, same ▸ interval.exactly⟩

/-- A pass takes exactly the blocks that connect to an interval, and after any
passes and arrivals the stored blocks are an unbroken interval with the same
beginning. -/
theorem pass_takes_connectable (interval : StoresInterval first last process.store)
    (positive : 0 < last) (queued : Queued first process.store) :
    (∃ run, TakesRun last run process (Db.blocksProcessing.run Process.exec process).2) ∧
      ∀ platform final, Reaches (blockStep platform) (arrivesFrom first) process final →
        ∃ later, last ≤ later ∧ StoresInterval first later final.store := by
  refine ⟨exists_takesRun interval positive queued, fun platform final reached => ?_⟩
  refine (reached.invariant (fun state => (∃ later, last ≤ later ∧
    StoresInterval first later state.store) ∧ Queued first state.store)
    ⟨⟨last, le_rfl, interval⟩, queued⟩ ?_).1
  rintro current move next ⟨⟨later, further, stored⟩, pending⟩ permitted moved
  obtain ⟨⟨latest, beyond, storedNext⟩, pendingNext⟩ :=
    blockStep_interval stored (by omega) pending permitted moved
  exact ⟨⟨latest, by omega, storedNext⟩, pendingNext⟩

def gapProcess : Process :=
  Process.idle (Function.update (Function.update Store.empty .blocks
    (KeyedTable.empty.insertMany [Db.pendingBlock 5, Db.pendingBlock 6])) .blocksProcessing
      (KeyedTable.empty.insertMany [Db.pendingBlock 9, Db.pendingBlock 7]))

theorem gapProcess_interval : StoresInterval 5 6 gapProcess.store := by
  have numbered (number : Nat) (small : number < 2 ^ 64) := Db.pendingBlock_numbered small
  have none : NumberedRows KeyedTable.empty := by simp [NumberedRows]
  refine ⟨(none.insert (numbered 5 (by decide))).insert (numbered 6 (by decide)), by decide,
    fun number => ?_⟩
  change HasBlock ((KeyedTable.empty.insert (Db.pendingBlock 5)).insert (Db.pendingBlock 6))
    number ↔ _
  rw [(numbered 6 (by decide)).hasBlock_insert, (numbered 5 (by decide)).hasBlock_insert]
  simp only [HasBlock, KeyedTable.not_has_empty, false_or]
  omega

theorem gapProcess_queued : Queued 5 gapProcess.store := by
  have listed : (gapProcess.store .blocksProcessing).rows =
      [Db.pendingBlock 9, Db.pendingBlock 7] := by
    decide +kernel
  have shape (row : Json) (member : row ∈ (gapProcess.store .blocksProcessing).rows) :
      ∃ number, 5 ≤ number ∧ number < 2 ^ 64 ∧ row = Db.pendingBlock number := by
    rw [listed] at member
    rcases List.mem_pair.mp member with rfl | rfl
    · exact ⟨9, by decide, by decide, rfl⟩
    · exact ⟨7, by decide, by decide, rfl⟩
  constructor <;> intro row member <;> obtain ⟨number, above, small, rfl⟩ := shape row member
  · exact ⟨number, Db.pendingBlock_numbered small⟩
  · rwa [(Db.pendingBlock_numbered small).blockOf_eq]
  · exact ⟨0, by simp [Db.pendingBlock, Json.find?_ofMembers, Json.member?_setMember]⟩
  · exact ⟨.arr [], by simp [Db.pendingBlock, Json.find?_ofMembers, Json.member?_setMember]⟩

/-- A pass stores block 7 and leaves block 9. -/
theorem pass_takes_connectable_gap :
    StoresInterval 5 6 gapProcess.store ∧ Queued 5 gapProcess.store ∧
      ∃ run, TakesRun 6 run gapProcess (Db.blocksProcessing.run Process.exec gapProcess).2 :=
  ⟨gapProcess_interval, gapProcess_queued,
    (pass_takes_connectable gapProcess_interval (by decide) gapProcess_queued).1⟩

end MileExplorer
