import MileExplorer.Chain
import MileExplorer.Getters

/-!
# Rows by the number of their block

The rows of `blocks` and of `blocks_processing` carry the number of a block
twice: its text is their primary key, and the member `block-id` is what the
index orders them by.  The gate of the `blocks_processing` loop reads the
greatest of these numbers, and a pass sees the pending blocks in their order.
-/

namespace MileExplorer

/-- The row is indexed by the number of a block, whatever its id. -/
def HasNumber (row : Json) : Prop :=
  blockOf row < 2 ^ 64 ∧ row.find? "block-id" = some (.num (blockOf row))

/-- The number under which the item loop works on the row. -/
theorem HasNumber.index_blockId {row : Json} (numbered : HasNumber row) :
    row.index "block-id" >>= Json.getUInt64 = .ok (blockOf row) := by
  rw [Json.index_of_find? numbered.2]
  exact Json.getUInt64_num _

/-- The id of the row is the text of its block id. -/
def Db.IsNumbered (row : Json) (number : Nat) : Prop :=
  number < 2 ^ 64 ∧ row.find? "id" = some (.str (toString number)) ∧
    row.find? "block-id" = some (.num number)

namespace Db.IsNumbered

variable {row : Json} {number : Nat}

theorem docId_eq (numbered : IsNumbered row number) : docId row = .str (toString number) :=
  docId_of_find? numbered.2.1

theorem isObject (numbered : IsNumbered row number) : row.isObject = true :=
  Json.isObject_of_find? numbered.2.1

theorem blockOf_eq (numbered : IsNumbered row number) : blockOf row = number :=
  MileExplorer.blockOf_eq numbered.2.2

theorem hasNumber (numbered : IsNumbered row number) : HasNumber row := by
  rw [HasNumber, numbered.blockOf_eq]
  exact ⟨numbered.1, numbered.2.2⟩

theorem index_blockId (numbered : IsNumbered row number) :
    row.index "block-id" >>= Json.getUInt64 = .ok number := by
  rw [numbered.hasNumber.index_blockId, numbered.blockOf_eq]

end Db.IsNumbered

theorem blockRow_members {platform : Platform} {block row : Json} {number : Nat} {now : Int}
    (idEq : block.find? "id" = some (.str (toString number)))
    (built : blockRow platform block number now = .ok row) :
    Db.IsNumbered row number ∧ (∃ time, row.find? "timestamp" = some (.num time)) ∧
      row.find? "transactions" = block.find? "transactions" := by
  have isObj := Json.isObject_of_find? idEq
  obtain ⟨stored, numbered, rest⟩ := bind_eq_ok.mp built
  unfold stoull at numbered
  split_ifs at numbered with small
  obtain rfl := Except.ok.inj numbered
  cases block with
  | obj entries =>
      obtain ⟨time, -, done⟩ := bind_eq_ok.mp rest
      obtain rfl := Except.ok.inj done
      refine ⟨⟨small, ?_, ?_⟩, ⟨time, ?_⟩, ?_⟩ <;> simp [isObj, idEq]
  | _ => simp [Json.isObject] at isObj

def IndexedRows (table : Table) : Prop := ∀ row ∈ table.rows, HasNumber row

def NumberedRows (table : Table) : Prop :=
  ∀ row ∈ table.rows, ∃ number, Db.IsNumbered row number

theorem NumberedRows.indexed {table : Table} (rows : NumberedRows table) : IndexedRows table := by
  intro row member
  obtain ⟨number, numbered⟩ := rows row member
  exact numbered.hasNumber

def HasBlock (table : Table) (number : Nat) : Prop := table.Has (.str (toString number))

theorem rank_eq_num {row : Json} {number : Nat} {index : String}
    (found : row.find? index = some (.num number)) :
    Cursor.rank index row = (Json.num number).sortKey := by
  simp [Cursor.rank, found]

theorem hasBlock_erase {table : Table} {number other : Nat} :
    HasBlock (table.erase (.str (toString number))) other ↔
      HasBlock table other ∧ other ≠ number := by
  rw [HasBlock, KeyedTable.has_erase]
  simp only [HasBlock, ne_eq, Json.str.injEq]
  refine and_congr_right fun _ => not_congr ⟨toString_injective, congrArg _⟩

/-- The gate against a last block below it. -/
theorem isForward_iff {prevBid bid : Nat} (small : bid < 2 ^ 64) :
    Db.isForward prevBid bid ↔ 0 < prevBid ∧ prevBid + 1 < bid := by
  unfold Db.isForward sub64
  constructor
  · rintro ⟨positive, apart, above⟩
    have difference : (bid + 2 ^ 64 - prevBid) % 2 ^ 64 = bid - prevBid := by omega
    omega
  · rintro ⟨positive, above⟩
    have difference : (bid + 2 ^ 64 - prevBid) % 2 ^ 64 = bid - prevBid := by omega
    omega

theorem Db.IsNumbered.hasBlock_insert {table : Table} {row : Json} {number other : Nat}
    (numbered : Db.IsNumbered row number) :
    HasBlock (table.insert row) other ↔ HasBlock table other ∨ number = other := by
  rw [HasBlock, KeyedTable.has_insert, numbered.docId_eq]
  simp only [HasBlock, Json.str.injEq]
  exact or_congr_right ⟨toString_injective, congrArg _⟩

theorem Db.IsNumbered.greatest_insert {table : Table} {row : Json} {number last : Nat}
    (numbered : Db.IsNumbered row number) (stored : HasBlock table last)
    (greatest : ∀ other, HasBlock table other → other ≤ last) :
    HasBlock (table.insert row) (max last number) ∧
      ∀ other, HasBlock (table.insert row) other → other ≤ max last number := by
  constructor
  · rw [numbered.hasBlock_insert]
    rcases le_total last number with below | above
    · exact .inr (max_eq_right below).symm
    · rw [max_eq_left above]
      exact .inl stored
  · intro other isStored
    rcases numbered.hasBlock_insert.mp isStored with old | same
    · exact (greatest other old).trans (le_max_left _ _)
    · exact same ▸ le_max_right _ _

/-! ## Rows indexed by their number -/

namespace IndexedRows

variable {table : Table} {store : Store}

theorem mem_ordered (rows : IndexedRows table) {row : Json} :
    row ∈ Cursor.ordered "block-id" table.rows ↔ row ∈ table.rows := by
  rw [Cursor.mem_ordered]
  refine and_iff_left_of_imp fun member => ?_
  simp [(rows row member).2]

theorem rank_le_iff (rows : IndexedRows table) {first second : Json}
    (firstMem : first ∈ table.rows) (secondMem : second ∈ table.rows) :
    Cursor.rank "block-id" first ≤ Cursor.rank "block-id" second ↔
      blockOf first ≤ blockOf second := by
  rw [rank_eq_num (rows first firstMem).2, rank_eq_num (rows second secondMem).2,
    Json.sortKey_num_le, Nat.cast_le]

/-- A snapshot lists the rows by their numbers. -/
theorem sorted (rows : IndexedRows table) :
    (Cursor.ordered "block-id" table.rows).Pairwise fun first second =>
      blockOf first ≤ blockOf second := by
  apply (Cursor.ordered_pairwise "block-id" table.rows).imp_of_mem
  intro first second firstMem secondMem
  exact (rows.rank_le_iff (rows.mem_ordered.mp firstMem) (rows.mem_ordered.mp secondMem)).mp

/-- What `get_block_history_state` reads: nothing from an empty table, else
the row of the greatest number stored. -/
theorem blockHistoryState_cases (rows : IndexedRows (store .blocks)) :
    ((store .blocks).rows = [] ∧
      Db.blockHistoryState store = .error ⟨"Cannot take the max of an empty stream."⟩) ∨
      ∃ last ∈ (store .blocks).rows,
        (∀ row ∈ (store .blocks).rows, blockOf row ≤ blockOf last) ∧
        Db.blockHistoryState store = .ok last := by
  rw [Db.blockHistoryState, Cursor.max_eq]
  cases lastEq : (Cursor.ordered "block-id" (store .blocks).rows).getLast? with
  | none =>
      refine .inl ⟨List.eq_nil_iff_forall_not_mem.mpr fun row member => ?_, rfl⟩
      have listed := rows.mem_ordered.mpr member
      simp [List.getLast?_eq_none_iff.mp lastEq] at listed
  | some last =>
      have lastMem := rows.mem_ordered.mp (List.mem_of_getLast? lastEq)
      refine .inr ⟨last, lastMem, fun row member => ?_, rfl⟩
      exact (rows.rank_le_iff member lastMem).mp
        (Cursor.rank_le_getLast lastEq (rows.mem_ordered.mpr member))

/-- The number that `get_last_block_id` reads: zero from an empty table, else
the greatest number stored. -/
theorem lastBlockId_cases (rows : IndexedRows (store .blocks)) :
    ((store .blocks).rows = [] ∧ toUInt64 (getNumberOf (Db.lastBlockId store)) = 0) ∨
      ∃ last ∈ (store .blocks).rows,
        (∀ row ∈ (store .blocks).rows, blockOf row ≤ blockOf last) ∧
        toUInt64 (getNumberOf (Db.lastBlockId store)) = blockOf last := by
  have yields : Db.lastBlockId store = Db.blockHistoryState.field "block-id" store := rfl
  rw [yields]
  rcases rows.blockHistoryState_cases with ⟨empty, failed⟩ | ⟨last, member, greatest, found⟩
  · exact .inl ⟨empty, by rw [Cursor.field, failed]; rfl⟩
  · refine .inr ⟨last, member, greatest, ?_⟩
    rw [Cursor.field_of_find? found (rows last member).2]
    exact toUInt64_natCast _

end IndexedRows

namespace NumberedRows

variable {table : Table}

theorem numbered (rows : NumberedRows table) {row : Json} (member : row ∈ table.rows) :
    Db.IsNumbered row (blockOf row) := by
  obtain ⟨number, numbered⟩ := rows row member
  rw [numbered.blockOf_eq]
  exact numbered

theorem hasBlock_iff (rows : NumberedRows table) {number : Nat} :
    HasBlock table number ↔ ∃ row ∈ table.rows, Db.IsNumbered row number := by
  constructor
  · rintro ⟨row, member, idEq⟩
    have numbered := rows.numbered member
    rw [numbered.docId_eq] at idEq
    exact ⟨row, member, toString_injective (Json.str.inj idEq) ▸ numbered⟩
  · rintro ⟨row, member, numbered⟩
    exact ⟨row, member, numbered.docId_eq⟩

theorem hasBlock_of_mem (rows : NumberedRows table) {row : Json} (member : row ∈ table.rows) :
    HasBlock table (blockOf row) :=
  rows.hasBlock_iff.mpr ⟨row, member, rows.numbered member⟩

theorem insert (rows : NumberedRows table) {row : Json} {number : Nat}
    (numbered : Db.IsNumbered row number) : NumberedRows (table.insert row) := by
  intro other member
  rcases KeyedTable.mem_insert.mp member with old | ⟨rfl, -⟩
  · exact rows other old
  · exact ⟨number, numbered⟩

theorem erase (rows : NumberedRows table) (id : Json) : NumberedRows (table.erase id) :=
  fun row member => rows row (KeyedTable.mem_erase.mp member).1

theorem eq_of_blockOf_eq (rows : NumberedRows table) {first second : Json}
    (firstMem : first ∈ table.rows) (secondMem : second ∈ table.rows)
    (same : blockOf first = blockOf second) : first = second := by
  apply KeyedTable.eq_of_key_eq firstMem secondMem
  rw [(rows.numbered firstMem).docId_eq, (rows.numbered secondMem).docId_eq, same]

/-! ## The snapshot of a pass -/

theorem mem_ordered (rows : NumberedRows table) {row : Json} :
    row ∈ Cursor.ordered "block-id" table.rows ↔ row ∈ table.rows :=
  rows.indexed.mem_ordered

theorem mem_map_blockOf (rows : NumberedRows table) {number : Nat} :
    number ∈ (Cursor.ordered "block-id" table.rows).map blockOf ↔ HasBlock table number := by
  rw [List.mem_map, rows.hasBlock_iff]
  constructor
  · rintro ⟨row, member, rfl⟩
    have stored := rows.mem_ordered.mp member
    exact ⟨row, stored, rows.numbered stored⟩
  · rintro ⟨row, member, numbered⟩
    exact ⟨row, rows.mem_ordered.mpr member, numbered.blockOf_eq⟩

theorem increasing (rows : NumberedRows table) :
    (Cursor.ordered "block-id" table.rows).Pairwise fun first second =>
      blockOf first < blockOf second := by
  have distinct : (Cursor.ordered "block-id" table.rows).Pairwise fun first second =>
      docId first ≠ docId second :=
    List.pairwise_map.mp (Cursor.nodup_ordered table "block-id")
  refine (rows.indexed.sorted.and distinct).imp_of_mem ?_
  rintro first second firstMem secondMem ⟨ranked, apart⟩
  refine lt_of_le_of_ne ranked fun same => apart ?_
  rw [rows.eq_of_blockOf_eq (rows.mem_ordered.mp firstMem) (rows.mem_ordered.mp secondMem) same]

/-! ## The last block -/

variable {store : Store}

/-- The number that `get_last_block_id` reads: zero from an empty table, else
the greatest number stored. -/
theorem lastBlockId_cases (rows : NumberedRows (store .blocks)) :
    ((store .blocks).rows = [] ∧ toUInt64 (getNumberOf (Db.lastBlockId store)) = 0) ∨
      ∃ number, HasBlock (store .blocks) number ∧
        (∀ other, HasBlock (store .blocks) other → other ≤ number) ∧
        toUInt64 (getNumberOf (Db.lastBlockId store)) = number := by
  rcases rows.indexed.lastBlockId_cases with empty | ⟨last, member, greatest, found⟩
  · exact .inl empty
  · refine .inr ⟨blockOf last, rows.hasBlock_of_mem member, fun other stored => ?_, found⟩
    obtain ⟨row, rowMem, numbered⟩ := rows.hasBlock_iff.mp stored
    rw [← numbered.blockOf_eq]
    exact greatest row rowMem

/-- The gate reads the greatest number, if there is one. -/
theorem lastBlockId_eq (rows : NumberedRows (store .blocks)) {last : Nat}
    (stored : HasBlock (store .blocks) last)
    (greatest : ∀ other, HasBlock (store .blocks) other → other ≤ last) :
    toUInt64 (getNumberOf (Db.lastBlockId store)) = last := by
  rcases rows.lastBlockId_cases with ⟨empty, -⟩ | ⟨number, isStored, isGreatest, numberEq⟩
  · obtain ⟨row, member, -⟩ := stored
    simp [empty] at member
  · rw [numberEq]
    exact le_antisymm (greatest number isStored) (isGreatest last stored)

end NumberedRows

/-- What the gate sees depends on the table of blocks alone. -/
theorem lastBlockId_congr {first second : Store} (same : first .blocks = second .blocks) :
    Db.lastBlockId first = Db.lastBlockId second := by
  simp only [Db.lastBlockId, cursor, Cursor.max, Cursor.field, same]

end MileExplorer
