import MileExplorer.NumberedRows

/-!
# The rows of the block tables

What `add_block` stores of a block of the chain, which block the gate of the
`blocks_processing` loop takes for the last one, and in which order a pass
sees the pending blocks.
-/

namespace MileExplorer

variable {platform : Platform} {chain : Chain}

structure BlockRowOf (platform : Platform) (chain : Chain) (number : Nat) (row : Json) :
    Prop where
  built : ∃ now, blockRow platform (chain number).json number now = .ok row

namespace BlockRowOf

variable {number : Nat} {row : Json}

theorem members (rowOf : BlockRowOf platform chain number row) :
    number < 2 ^ 64 ∧ row.find? "id" = some (.str (toString number)) ∧
      row.find? "block-id" = some (.num number) ∧
      (∃ time, row.find? "timestamp" = some (.num time)) ∧
      row.find? "transactions" = (chain number).json.find? "transactions" := by
  obtain ⟨now, built⟩ := rowOf.built
  obtain ⟨⟨small, idEq, blockIdEq⟩, timed, listed⟩ := blockRow_members (chain number).idEq built
  exact ⟨small, idEq, blockIdEq, timed, listed⟩

theorem id (rowOf : BlockRowOf platform chain number row) :
    row.find? "id" = some (.str (toString number)) := rowOf.members.2.1

theorem docId_eq (rowOf : BlockRowOf platform chain number row) :
    docId row = .str (toString number) := docId_of_find? rowOf.id

theorem blockId (rowOf : BlockRowOf platform chain number row) :
    row.find? "block-id" = some (.num number) := rowOf.members.2.2.1

theorem numbered (rowOf : BlockRowOf platform chain number row) : Db.IsNumbered row number :=
  ⟨rowOf.members.1, rowOf.id, rowOf.blockId⟩

/-- The number under which the item loop works on the row. -/
theorem index_blockId (rowOf : BlockRowOf platform chain number row) :
    row.index "block-id" >>= Json.getUInt64 = .ok number :=
  rowOf.numbered.index_blockId

/-- Whether a block has a row does not depend on when it arrives. -/
theorem rebuilt (rowOf : BlockRowOf platform chain number row) (now : Int) :
    ∃ other, blockRow platform (chain number).json number now = .ok other := by
  obtain ⟨before, built⟩ := rowOf.built
  obtain ⟨stored, numbered, rest⟩ := bind_eq_ok.mp built
  cases json : (chain number).json with
  | obj entries =>
      rw [json] at rest
      obtain ⟨time, timeEq, -⟩ := bind_eq_ok.mp rest
      have again : ∃ later, blockTime platform (.obj entries) now = .ok later := by
        unfold blockTime at timeEq ⊢
        cases found : (Json.obj entries).find? "timestamp" with
        | none => exact ⟨now, rfl⟩
        | some timestamp => exact ⟨time, by simpa only [found] using timeEq⟩
      obtain ⟨later, laterEq⟩ := again
      exact ⟨_, bind_eq_ok.mpr ⟨stored, numbered, bind_eq_ok.mpr ⟨later, laterEq, rfl⟩⟩⟩
  | null => exact ⟨_, bind_eq_ok.mpr ⟨stored, numbered, rfl⟩⟩
  | _ => simp [json] at rest

end BlockRowOf

def BlockRows (platform : Platform) (chain : Chain) (table : Table) : Prop :=
  ∀ row ∈ table.rows, ∃ number, BlockRowOf platform chain number row

namespace BlockRows

variable {table : Table}

theorem numberedRows (rows : BlockRows platform chain table) : NumberedRows table := by
  intro row member
  obtain ⟨number, rowOf⟩ := rows row member
  exact ⟨number, rowOf.numbered⟩

/-- A row of the table is the row of the block whose number it carries. -/
theorem rowOf (rows : BlockRows platform chain table) {row : Json} (member : row ∈ table.rows) :
    BlockRowOf platform chain (blockOf row) row := by
  obtain ⟨number, rowOf⟩ := rows row member
  rw [rowOf.numbered.blockOf_eq]
  exact rowOf

theorem hasBlock_iff (rows : BlockRows platform chain table) {number : Nat} :
    HasBlock table number ↔ ∃ row ∈ table.rows, BlockRowOf platform chain number row := by
  rw [rows.numberedRows.hasBlock_iff]
  constructor
  · rintro ⟨row, member, numbered⟩
    exact ⟨row, member, numbered.blockOf_eq ▸ rows.rowOf member⟩
  · rintro ⟨row, member, rowOf⟩
    exact ⟨row, member, rowOf.numbered⟩

theorem insert (rows : BlockRows platform chain table) {row : Json} {number : Nat}
    (rowOf : BlockRowOf platform chain number row) :
    BlockRows platform chain (table.insert row) := by
  intro other member
  rcases KeyedTable.mem_insert.mp member with old | ⟨rfl, -⟩
  · exact rows other old
  · exact ⟨number, rowOf⟩

theorem erase (rows : BlockRows platform chain table) (id : Json) :
    BlockRows platform chain (table.erase id) :=
  fun row member => rows row (KeyedTable.mem_erase.mp member).1

end BlockRows

theorem hasBlock_insert {table : Table} {row : Json} {number other : Nat}
    (rowOf : BlockRowOf platform chain number row) :
    HasBlock (table.insert row) other ↔ HasBlock table other ∨ number = other :=
  rowOf.numbered.hasBlock_insert

/-! ## The last block -/

/-- What `get_block_history_state` reads: nothing from an empty table, else
the row of the greatest number stored. -/
theorem blockHistoryState_cases {store : Store}
    (rows : BlockRows platform chain (store .blocks)) :
    ((store .blocks).rows = [] ∧
      Db.blockHistoryState store = .error ⟨"Cannot take the max of an empty stream."⟩) ∨
      ∃ number last, HasBlock (store .blocks) number ∧
        (∀ other, HasBlock (store .blocks) other → other ≤ number) ∧
        BlockRowOf platform chain number last ∧ Db.blockHistoryState store = .ok last := by
  rcases rows.numberedRows.indexed.blockHistoryState_cases with ⟨empty, failed⟩ |
    ⟨last, member, greatest, found⟩
  · exact .inl ⟨empty, failed⟩
  · refine .inr ⟨blockOf last, last, rows.numberedRows.hasBlock_of_mem member, ?_,
      rows.rowOf member, found⟩
    intro other stored
    obtain ⟨row, rowMem, numbered⟩ := rows.numberedRows.hasBlock_iff.mp stored
    rw [← numbered.blockOf_eq]
    exact greatest row rowMem

/-- The number that `get_last_block_id` reads: zero from an empty table, else
the greatest number stored. -/
theorem lastBlockId_cases {store : Store} (rows : BlockRows platform chain (store .blocks)) :
    ((store .blocks).rows = [] ∧ toUInt64 (getNumberOf (Db.lastBlockId store)) = 0) ∨
      ∃ number, HasBlock (store .blocks) number ∧
        (∀ other, HasBlock (store .blocks) other → other ≤ number) ∧
        toUInt64 (getNumberOf (Db.lastBlockId store)) = number :=
  rows.numberedRows.lastBlockId_cases

/-! ## The snapshot of a pass -/

theorem map_blockId {numbers : List Nat} {rows : List Json}
    (rowsOf : List.Forall₂ (BlockRowOf platform chain) numbers rows) :
    rows.map (fun row => row.find? "block-id") = numbers.map fun number => some (.num number) := by
  induction rowsOf with
  | nil => rfl
  | cons rowOf _ ih => rw [List.map_cons, List.map_cons, rowOf.blockId, ih]

theorem mem_numbers {numbers : List Nat} {rows : List Json} {number : Nat}
    (rowsOf : List.Forall₂ (BlockRowOf platform chain) numbers rows) :
    number ∈ numbers ↔ ∃ row ∈ rows, row.find? "block-id" = some (.num number) := by
  have listed := List.mem_map (f := fun row : Json => row.find? "block-id") (l := rows)
    (b := some (.num number))
  rw [← listed, map_blockId rowsOf]
  simp

theorem BlockRows.snapshot {table : Table} (rows : BlockRows platform chain table) :
    ∃ numbers, List.Forall₂ (BlockRowOf platform chain) numbers
        (Cursor.ordered "block-id" table.rows) ∧
      numbers.Pairwise (· < ·) ∧ ∀ number, number ∈ numbers ↔ HasBlock table number := by
  refine ⟨(Cursor.ordered "block-id" table.rows).map blockOf, ?_,
    List.pairwise_map.mpr rows.numberedRows.increasing,
    fun number => rows.numberedRows.mem_map_blockOf⟩
  rw [List.forall₂_map_left_iff, List.forall₂_same]
  exact fun row member => rows.rowOf (rows.numberedRows.mem_ordered.mp member)

end MileExplorer
