import Mathlib.Data.List.TakeWhile
import Mathlib.Logic.Function.Iterate
import MileExplorer.Handover

/-!
# Repeated passes over the queue of blocks

Run alone, a pass of `blocks_processing` comes to the rows of a beginning of
its snapshot: up to the first row that throws or that is more than one above
the last block.  It removes the rows whose id is the text of one of their
numbers, be they among them or not.  A row that throws therefore ends every
pass until an earlier row removes it, while a pass that the gate ends is the
last one to store anything.
-/

namespace MileExplorer

def HasWork (row : Json) : Prop := (Db.itemWork row).isOk = true

instance : DecidablePred HasWork := fun _ => inferInstanceAs (Decidable (_ = true))

theorem hasWork_iff {row : Json} : HasWork row ↔ ∃ found, Db.itemWork row = .ok found := by
  unfold HasWork
  cases Db.itemWork row <;> simp [Except.isOk, Except.toBool]

/-- The id of the row is the text of the number of one that was visited. -/
def Removes (visited : List Json) (row : Json) : Prop :=
  ∃ other ∈ visited, docId row = .str (toString (blockOf other))

instance (visited : List Json) : DecidablePred (Removes visited) :=
  fun _ => inferInstanceAs (Decidable (∃ other ∈ visited, _))

/-- The rows that are left after a visit of the others. -/
def remaining (visited rows : List Json) : List Json :=
  rows.filter fun row => ¬ Removes visited row

instance (blocks : Table) (number : Nat) : Decidable (HasBlock blocks number) :=
  inferInstanceAs (Decidable (blocks.Has _))

namespace Db

variable {blocks : Table} {item : Json} {items : List Json}

/-! ## The gate -/

theorem gateOf_cases (indexed : IndexedRows blocks) :
    (blocks.rows = [] ∧ gateOf blocks = 0) ∨
      ∃ last ∈ blocks.rows, (∀ row ∈ blocks.rows, blockOf row ≤ blockOf last) ∧
        gateOf blocks = blockOf last := by
  have stored : Function.update Store.empty .blocks blocks .blocks = blocks :=
    Function.update_self _ _ _
  have read := @IndexedRows.lastBlockId_cases (Function.update Store.empty .blocks blocks)
  rw [stored] at read
  exact read indexed

theorem le_gateOf (indexed : IndexedRows blocks) {row : Json} (member : row ∈ blocks.rows) :
    blockOf row ≤ gateOf blocks := by
  rcases gateOf_cases indexed with ⟨empty, -⟩ | ⟨last, -, greatest, gateEq⟩
  · simp [empty] at member
  · exact gateEq ▸ greatest row member

theorem exists_of_gateOf_pos (indexed : IndexedRows blocks) (positive : 0 < gateOf blocks) :
    ∃ row ∈ blocks.rows, gateOf blocks = blockOf row := by
  rcases gateOf_cases indexed with ⟨-, zero⟩ | ⟨last, member, -, gateEq⟩
  · omega
  · exact ⟨last, member, gateEq⟩

theorem gateOf_mono {more : Table} (indexed : IndexedRows blocks) (moreIndexed : IndexedRows more)
    (kept : ∀ row ∈ blocks.rows, row ∈ more.rows) : gateOf blocks ≤ gateOf more := by
  rcases gateOf_cases indexed with ⟨-, zero⟩ | ⟨last, member, -, gateEq⟩
  · omega
  · exact gateEq ▸ le_gateOf moreIndexed (kept last member)

/-! ## The rows that a pass comes to -/

/-- The rows that a pass comes to if nothing fails. -/
def reached (items : List Json) (blocks : Table) : List Json :=
  (visits (fun _ => false) items blocks).map Visit.item

def grown (items : List Json) (blocks : Table) : Table :=
  (visits (fun _ => false) items blocks).foldl Visit.blocks blocks

/-- The table of blocks after the pass has come to the row. -/
def withRow (blocks : Table) (row : Json) : Table :=
  if HasBlock blocks (blockOf row) then blocks else blocks.insert row

theorem visits_of_passes (numbered : HasNumber item) (works : HasWork item)
    (near : ¬ isForward (gateOf blocks) (blockOf item)) :
    reached (item :: items) blocks = item :: reached items (withRow blocks item) ∧
      grown (item :: items) blocks = grown items (withRow blocks item) := by
  have read := numbered.index_blockId
  have inserts : Inserts (fun _ => false) blocks (blockOf item) ↔
      ¬ HasBlock blocks (blockOf item) := by
    simp [Inserts, HasBlock]
  obtain ⟨found, work⟩ := hasWork_iff.mp works
  have next : (if Inserts (fun _ => false) blocks (blockOf item) then blocks.insert item
      else blocks) = withRow blocks item := by
    rw [if_congr inserts rfl rfl, ite_not, withRow]
  constructor
  · rw [reached, visits, read, work]
    simp only [near, and_false, if_false, List.map_cons, next]
    rfl
  · rw [grown, visits, read, work]
    simp only [near, and_false, if_false, List.foldl_cons, next]
    simp only [Visit.blocks, decide_eq_true_eq, next]
    rfl

theorem visits_of_stops (numbered : HasNumber item)
    (stops : ¬ HasWork item ∨ isForward (gateOf blocks) (blockOf item)) :
    reached (item :: items) blocks = [] ∧ grown (item :: items) blocks = blocks := by
  have none : visits (fun _ => false) (item :: items) blocks = [] := by
    rw [visits, numbered.index_blockId]
    cases work : itemWork item with
    | error exception => rfl
    | ok found =>
        have works : HasWork item := hasWork_iff.mpr ⟨found, work⟩
        exact if_pos ⟨rfl, stops.resolve_left (not_not.mpr works)⟩
  simp [reached, grown, none]

/-- The row has no reason to be stored again. -/
def Settled (blocks : Table) (row : Json) : Prop :=
  HasBlock blocks (blockOf row) ∨ blocks.Has (docId row)

/-- What a pass does to the table of blocks, and where it ends. -/
structure ComesTo (items : List Json) (blocks : Table) (visited : List Json) (after : Table) :
    Prop where
  split : ∃ rest, items = visited ++ rest ∧
    ∀ row ∈ rest.head?, ¬ HasWork row ∨ isForward (gateOf after) (blockOf row)
  works : ∀ row ∈ visited, HasWork row
  near : ∀ row ∈ visited, ¬ isForward (gateOf after) (blockOf row)
  settled : ∀ row ∈ visited, Settled after row
  kept : ∀ row ∈ blocks.rows, row ∈ after.rows
  new : ∀ row ∈ after.rows, row ∈ blocks.rows ∨ row ∈ visited

theorem ComesTo.mem {visited : List Json} {after : Table}
    (came : ComesTo items blocks visited after) {row : Json} (member : row ∈ visited) :
    row ∈ items := by
  obtain ⟨rest, split, -⟩ := came.split
  exact split ▸ List.mem_append_left _ member

theorem ComesTo.indexed {visited : List Json} {after : Table}
    (came : ComesTo items blocks visited after) (indexed : IndexedRows blocks)
    (numbered : ∀ item ∈ items, HasNumber item) : IndexedRows after := by
  intro row member
  rcases came.new row member with old | new
  · exact indexed row old
  · exact numbered row (came.mem new)

theorem mem_withRow {row other : Json} (member : other ∈ (withRow blocks row).rows) :
    other ∈ blocks.rows ∨ other = row := by
  unfold withRow at member
  split_ifs at member with stored
  · exact .inl member
  · exact (KeyedTable.mem_insert.mp member).imp_right fun new => new.1

theorem kept_withRow {row other : Json} (member : other ∈ blocks.rows) :
    other ∈ (withRow blocks row).rows := by
  unfold withRow
  split_ifs with stored
  · exact member
  · exact KeyedTable.mem_insert.mpr (.inl member)

theorem settled_withRow (blocks : Table) (row : Json) : Settled (withRow blocks row) row := by
  unfold withRow
  split_ifs with stored
  · exact .inl stored
  · exact .inr (KeyedTable.has_insert.mpr (.inr rfl))

theorem Settled.mono {more : Table} {row : Json} (settled : Settled blocks row)
    (kept : ∀ row ∈ blocks.rows, row ∈ more.rows) : Settled more row := by
  rcases settled with ⟨other, member, same⟩ | ⟨other, member, same⟩
  · exact .inl ⟨other, kept other member, same⟩
  · exact .inr ⟨other, kept other member, same⟩

theorem indexedRows_withRow (indexed : IndexedRows blocks) (numbered : HasNumber item) :
    IndexedRows (withRow blocks item) := by
  intro row member
  rcases mem_withRow member with old | rfl
  · exact indexed row old
  · exact numbered

/-- Rows from the number on do not close the gate for it. -/
theorem near_of_grows {after : Table} {number : Nat} (small : number < 2 ^ 64)
    (indexed : IndexedRows blocks) (afterIndexed : IndexedRows after)
    (kept : ∀ row ∈ blocks.rows, row ∈ after.rows)
    (new : ∀ row ∈ after.rows, row ∈ blocks.rows ∨ number ≤ blockOf row)
    (near : ¬ isForward (gateOf blocks) number) : ¬ isForward (gateOf after) number := by
  rw [isForward_iff small] at near ⊢
  rintro ⟨positive, above⟩
  obtain ⟨row, member, gateEq⟩ := exists_of_gateOf_pos afterIndexed positive
  have grows := gateOf_mono indexed afterIndexed kept
  rcases new row member with old | later
  · have below := le_gateOf indexed old
    omega
  · omega

theorem comesTo (indexed : IndexedRows blocks) (numbered : ∀ item ∈ items, HasNumber item)
    (sorted : items.Pairwise fun first second => blockOf first ≤ blockOf second) :
    ComesTo items blocks (reached items blocks) (grown items blocks) := by
  induction items generalizing blocks with
  | nil =>
      refine ⟨⟨[], rfl, by simp⟩, ?_, ?_, ?_, fun _ => id, fun _ => .inl⟩ <;>
        simp [reached, visits]
  | cons item rest ih =>
      have isNumbered := numbered item (by simp)
      obtain ⟨first, restSorted⟩ := List.pairwise_cons.mp sorted
      by_cases stops : ¬ HasWork item ∨ isForward (gateOf blocks) (blockOf item)
      · obtain ⟨nothing, same⟩ := @visits_of_stops blocks item rest isNumbered stops
        rw [nothing, same]
        exact ⟨⟨item :: rest, rfl, by simpa using stops⟩, by simp, by simp, by simp,
          fun _ => id, fun _ => .inl⟩
      · obtain ⟨works, near⟩ := not_or.mp stops
        obtain ⟨more, same⟩ := @visits_of_passes blocks item rest isNumbered (not_not.mp works) near
        have nextIndexed := indexedRows_withRow indexed isNumbered
        have restNumbered : ∀ other ∈ rest, HasNumber other :=
          fun other member => numbered other (by simp [member])
        have later := ih nextIndexed restNumbered restSorted
        obtain ⟨left, splitEq, ends⟩ := later.split
        have kept : ∀ row ∈ blocks.rows, row ∈ (grown rest (withRow blocks item)).rows :=
          fun row member => later.kept row (kept_withRow member)
        have new : ∀ row ∈ (grown rest (withRow blocks item)).rows,
            row ∈ blocks.rows ∨ row ∈ item :: reached rest (withRow blocks item) := by
          intro row member
          rcases later.new row member with old | new
          · rcases mem_withRow old with old | rfl
            · exact .inl old
            · exact .inr (by simp)
          · exact .inr (by simp [new])
        have afterIndexed := later.indexed nextIndexed restNumbered
        rw [more, same]
        constructor
        · exact ⟨left, by rw [List.cons_append, ← splitEq], ends⟩
        · exact List.forall_mem_cons.mpr ⟨not_not.mp works, later.works⟩
        · refine List.forall_mem_cons.mpr ⟨?_, later.near⟩
          refine near_of_grows isNumbered.1 indexed afterIndexed kept ?_ near
          intro row member
          refine (new row member).imp_right fun listed => ?_
          rcases List.mem_cons.mp listed with rfl | visited
          · exact le_rfl
          · exact first row (later.mem visited)
        · exact List.forall_mem_cons.mpr ⟨(settled_withRow blocks item).mono later.kept, later.settled⟩
        · exact kept
        · exact new

theorem number_of_mem_visits (numbered : ∀ item ∈ items, HasNumber item) {visit : Visit}
    (visited : visit ∈ visits (fun _ => false) items blocks) :
    visit.number = blockOf visit.item := by
  induction items generalizing blocks with
  | nil => simp [visits] at visited
  | cons item rest ih =>
      rw [visits, (numbered item (by simp)).index_blockId] at visited
      cases work : itemWork item with
      | error exception => simp [work] at visited
      | ok found =>
          simp only [work] at visited
          split_ifs at visited with forward inserts
          · simp at visited
          all_goals
            rcases List.mem_cons.mp visited with rfl | later
            · rfl
            · exact ih (fun other member => numbered other (by simp [member])) later

theorem rows_foldl_pending (pending : Table) (visited : List Visit) :
    (visited.foldl (Visit.pending fun _ => false) pending).rows =
      pending.rows.filter fun row =>
        decide (∀ visit ∈ visited, docId row ≠ .str (toString visit.number)) := by
  induction visited generalizing pending with
  | nil => simp
  | cons visit rest ih =>
      rw [List.foldl_cons, ih, Visit.pending, if_neg (by simp), KeyedTable.erase,
        KeyedTable.eraseWhere, List.filter_filter]
      apply List.filter_congr
      intro row _
      simp only [List.forall_mem_cons, Bool.decide_and, decide_not]
      exact Bool.and_comm _ _

end Db

/-! ## One pass -/

def blockPass (process : Process) : Process :=
  (Db.blocksProcessing.run Process.exec process).2

def queued (process : Process) : List Json :=
  Cursor.ordered "block-id" (process.store .blocksProcessing).rows

def visited (process : Process) : List Json := Db.reached (queued process) (process.store .blocks)

structure IsIndexed (process : Process) : Prop where
  blocks : IndexedRows (process.store .blocks)
  queue : IndexedRows (process.store .blocksProcessing)

variable {process : Process}

theorem IsIndexed.mem_queued (indexed : IsIndexed process) {row : Json} :
    row ∈ queued process ↔ row ∈ (process.store .blocksProcessing).rows :=
  indexed.queue.mem_ordered

theorem IsIndexed.numbered (indexed : IsIndexed process) {row : Json}
    (member : row ∈ queued process) : HasNumber row :=
  indexed.queue row (indexed.mem_queued.mp member)

theorem blockPass_tables (indexed : IsIndexed process) :
    (blockPass process).store .blocks = Db.grown (queued process) (process.store .blocks) ∧
      ((blockPass process).store .blocksProcessing).rows =
        remaining (visited process) (process.store .blocksProcessing).rows := by
  have pass : blockPass process =
      runFaulty (fun _ => false) (Db.processBlocks (queued process)) process := by
    have started := @Db.runFaulty_getData_bind (fun _ => false) process Unit
      (.snapshot .blocksProcessing) ((cursor .blocksProcessing).sort "block-id")
      fun items => Db.processBlocks items.elements
    rw [Db.elements_snapshot] at started
    exact started
  obtain ⟨stored, pending⟩ := @Db.tables_processBlocks (fun _ => false) (queued process) process
  rw [pass, stored, pending, Db.rows_foldl_pending]
  refine ⟨rfl, List.filter_congr fun row _ => ?_⟩
  simp only [Removes, visited, Db.reached, not_exists, not_and, List.forall_mem_map]
  apply decide_eq_decide.mpr
  refine forall₂_congr fun visit isVisited => ?_
  rw [Db.number_of_mem_visits (fun _ => indexed.numbered) isVisited]

theorem IsIndexed.comesTo (indexed : IsIndexed process) :
    Db.ComesTo (queued process) (process.store .blocks) (visited process)
      ((blockPass process).store .blocks) := by
  rw [(blockPass_tables indexed).1]
  exact Db.comesTo indexed.blocks (fun _ => indexed.numbered) indexed.queue.sorted

theorem IsIndexed.blockPass (indexed : IsIndexed process) : IsIndexed (blockPass process) where
  blocks := indexed.comesTo.indexed indexed.blocks fun _ => indexed.numbered
  queue := by
    intro row member
    rw [(blockPass_tables indexed).2] at member
    exact indexed.queue row (List.mem_filter.mp member).1

/-- The block is at most one above the last block after some of the passes. -/
def ComesNear (process : Process) (block : Json) : Prop :=
  ∃ passes, blockOf block ≤ Db.gateOf ((blockPass^[passes] process).store .blocks) + 1

section Front

variable {front rest : List Json} {malformed block : Json}

end Front

/-! ## The way of a block through the queue -/

section WayIsClear

variable {isStored : Prop} {number : Nat} {rows front rest : List Json} {malformed : Json}

end WayIsClear

section Moves

variable {block : Json}

theorem ComesNear.blockPass (indexed : IsIndexed process) (near : ComesNear process block) :
    ComesNear (blockPass process) block := by
  obtain ⟨passes, close⟩ := near
  cases passes with
  | zero =>
      have grows := Db.gateOf_mono indexed.blocks indexed.blockPass.blocks indexed.comesTo.kept
      exact ⟨0, close.trans (Nat.add_le_add_right grows 1)⟩
  | succ passes => exact ⟨passes, by rwa [Function.iterate_succ_apply] at close⟩

end Moves

end MileExplorer
