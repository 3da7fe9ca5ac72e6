import Mathlib.Data.List.Nodup

/-!
# Tables with a primary key

A table is a list of rows in arrival order whose primary keys are pairwise
distinct.  Inserting a row whose key is taken changes nothing; an update may
not move a row to another key.  Both rules are part of the operations, so
that distinctness of the keys never has to be proved again by a caller.
-/

namespace MileExplorer

/-- Rows with pairwise distinct primary keys, in arrival order. -/
structure KeyedTable {Row Key : Type} (key : Row → Key) where
  rows : List Row
  keysNodup : (rows.map key).Nodup

namespace KeyedTable

variable {Row Key : Type} {key : Row → Key}

def empty : KeyedTable key := ⟨[], by simp⟩

theorem eq_of_rows_eq {first second : KeyedTable key} (same : first.rows = second.rows) :
    first = second := by
  obtain ⟨rows, nodup⟩ := first
  obtain ⟨others, otherNodup⟩ := second
  obtain rfl : rows = others := same
  rfl

def Has (table : KeyedTable key) (wanted : Key) : Prop :=
  ∃ row ∈ table.rows, key row = wanted

theorem has_of_mem {table : KeyedTable key} {row : Row} (member : row ∈ table.rows) :
    table.Has (key row) :=
  ⟨row, member, rfl⟩

@[simp]
theorem rows_empty : (empty : KeyedTable key).rows = [] := rfl

@[simp]
theorem not_has_empty (wanted : Key) : ¬ (empty : KeyedTable key).Has wanted := by
  simp [Has]

theorem eq_of_key_eq {table : KeyedTable key} {first second : Row}
    (firstMem : first ∈ table.rows) (secondMem : second ∈ table.rows)
    (same : key first = key second) : first = second :=
  List.inj_on_of_nodup_map table.keysNodup firstMem secondMem same

def eraseWhere (table : KeyedTable key) (drop : Row → Bool) : KeyedTable key where
  rows := table.rows.filter fun row => !drop row
  keysNodup := table.keysNodup.sublist (List.filter_sublist.map key)

theorem mem_eraseWhere {table : KeyedTable key} {drop : Row → Bool} {row : Row} :
    row ∈ (table.eraseWhere drop).rows ↔ row ∈ table.rows ∧ drop row = false := by
  simp [eraseWhere]

variable [DecidableEq Key]

instance (table : KeyedTable key) (wanted : Key) : Decidable (table.Has wanted) :=
  inferInstanceAs (Decidable (∃ row ∈ table.rows, key row = wanted))

def get? (table : KeyedTable key) (wanted : Key) : Option Row :=
  table.rows.find? fun row => key row = wanted

theorem get?_eq_some {table : KeyedTable key} {wanted : Key} {row : Row} :
    table.get? wanted = some row ↔ row ∈ table.rows ∧ key row = wanted := by
  constructor
  · intro found
    exact ⟨List.mem_of_find?_eq_some found, by simpa using List.find?_some found⟩
  · rintro ⟨member, rfl⟩
    cases found : table.get? (key row) with
    | none =>
        have absent := List.find?_eq_none.mp found row member
        simp at absent
    | some other =>
        have otherMem := List.mem_of_find?_eq_some found
        have otherKey : key other = key row := by simpa using List.find?_some found
        rw [eq_of_key_eq otherMem member otherKey]

theorem get?_eq_none {table : KeyedTable key} {wanted : Key} :
    table.get? wanted = none ↔ ¬ table.Has wanted := by
  simp [get?, Has]

theorem has_iff_get? {table : KeyedTable key} {wanted : Key} :
    table.Has wanted ↔ ∃ row, table.get? wanted = some row := by
  simp only [get?_eq_some, Has]

def insert (table : KeyedTable key) (row : Row) : KeyedTable key :=
  if taken : table.Has (key row) then table
  else
    { rows := table.rows ++ [row]
      keysNodup := by
        rw [List.map_append, List.nodup_append]
        refine ⟨table.keysNodup, by simp, ?_⟩
        intro first firstMem second secondMem same
        obtain ⟨old, oldMem, rfl⟩ := List.mem_map.mp firstMem
        obtain rfl : second = key row := by simpa using secondMem
        exact taken ⟨old, oldMem, same⟩ }

theorem insert_of_has {table : KeyedTable key} {row : Row} (taken : table.Has (key row)) :
    table.insert row = table := by
  simp [insert, taken]

theorem get?_insert_of_ne {table : KeyedTable key} {row : Row} {wanted : Key}
    (other : key row ≠ wanted) : (table.insert row).get? wanted = table.get? wanted := by
  unfold insert
  split_ifs with taken
  · rfl
  · simp [get?, other]

theorem rows_insert_of_not_has {table : KeyedTable key} {row : Row}
    (fresh : ¬ table.Has (key row)) : (table.insert row).rows = table.rows ++ [row] := by
  simp [insert, fresh]

theorem mem_insert {table : KeyedTable key} {row other : Row} :
    other ∈ (table.insert row).rows ↔
      other ∈ table.rows ∨ (other = row ∧ ¬ table.Has (key row)) := by
  by_cases taken : table.Has (key row)
  · simp [insert_of_has taken, taken]
  · simp [rows_insert_of_not_has taken, taken]

theorem get?_insert_self {table : KeyedTable key} {row : Row} (fresh : ¬ table.Has (key row)) :
    (table.insert row).get? (key row) = some row :=
  get?_eq_some.mpr ⟨mem_insert.mpr (.inr ⟨rfl, fresh⟩), rfl⟩

@[simp]
theorem has_insert {table : KeyedTable key} {row : Row} {wanted : Key} :
    (table.insert row).Has wanted ↔ table.Has wanted ∨ key row = wanted := by
  constructor
  · rintro ⟨other, member, rfl⟩
    rcases mem_insert.mp member with old | ⟨rfl, _⟩
    · exact Or.inl (has_of_mem old)
    · exact Or.inr rfl
  · rintro (⟨other, member, rfl⟩ | rfl)
    · exact has_of_mem (mem_insert.mpr (Or.inl member))
    · by_cases taken : table.Has (key row)
      · rw [insert_of_has taken]
        exact taken
      · exact has_of_mem (mem_insert.mpr (Or.inr ⟨rfl, taken⟩))

def insertMany (table : KeyedTable key) (rows : List Row) : KeyedTable key :=
  rows.foldl insert table

@[simp]
theorem insertMany_nil (table : KeyedTable key) : table.insertMany [] = table := rfl

@[simp]
theorem insertMany_cons (table : KeyedTable key) (row : Row) (rows : List Row) :
    table.insertMany (row :: rows) = (table.insert row).insertMany rows := rfl

theorem has_insertMany {table : KeyedTable key} {rows : List Row} {wanted : Key} :
    (table.insertMany rows).Has wanted ↔
      table.Has wanted ∨ ∃ row ∈ rows, key row = wanted := by
  induction rows generalizing table with
  | nil => simp
  | cons row rows ih => simp [ih, or_assoc]

theorem mem_of_mem_insertMany {table : KeyedTable key} {rows : List Row} {other : Row}
    (member : other ∈ (table.insertMany rows).rows) :
    other ∈ table.rows ∨ other ∈ rows := by
  induction rows generalizing table with
  | nil => exact Or.inl member
  | cons row rows ih =>
      rcases ih member with inInsert | inRows
      · rcases mem_insert.mp inInsert with old | ⟨rfl, _⟩
        · exact Or.inl old
        · exact Or.inr (by simp)
      · exact Or.inr (by simp [inRows])

theorem mem_insertMany_of_mem {table : KeyedTable key} {rows : List Row} {other : Row}
    (member : other ∈ table.rows) : other ∈ (table.insertMany rows).rows := by
  induction rows generalizing table with
  | nil => exact member
  | cons row rows ih => exact ih (mem_insert.mpr (Or.inl member))

theorem mem_insertMany {table : KeyedTable key} {rows : List Row}
    (distinct : (rows.map key).Nodup) {other : Row} :
    other ∈ (table.insertMany rows).rows ↔
      other ∈ table.rows ∨ other ∈ rows ∧ ¬ table.Has (key other) := by
  induction rows generalizing table with
  | nil => simp
  | cons row rest ih =>
      obtain ⟨fresh, restDistinct⟩ := List.nodup_cons.mp distinct
      rw [insertMany_cons, ih restDistinct, mem_insert, has_insert]
      have apart (listed : other ∈ rest) : key row ≠ key other := by
        intro same
        exact fresh (same ▸ List.mem_map_of_mem listed)
      constructor
      · rintro ((old | ⟨rfl, absent⟩) | ⟨listed, absent⟩)
        · exact .inl old
        · exact .inr ⟨by simp, absent⟩
        · exact .inr ⟨by simp [listed], fun present => absent (.inl present)⟩
      · rintro (old | ⟨listed, absent⟩)
        · exact .inl (.inl old)
        · rcases List.mem_cons.mp listed with rfl | later
          · exact .inl (.inr ⟨rfl, absent⟩)
          · refine .inr ⟨later, ?_⟩
            rintro (present | same)
            · exact absent present
            · exact apart later same

def erase (table : KeyedTable key) (wanted : Key) : KeyedTable key :=
  table.eraseWhere fun row => key row = wanted

theorem mem_erase {table : KeyedTable key} {wanted : Key} {row : Row} :
    row ∈ (table.erase wanted).rows ↔ row ∈ table.rows ∧ key row ≠ wanted := by
  simp [erase, mem_eraseWhere]

@[simp]
theorem has_erase {table : KeyedTable key} {wanted other : Key} :
    (table.erase wanted).Has other ↔ table.Has other ∧ other ≠ wanted := by
  constructor
  · rintro ⟨row, member, rfl⟩
    obtain ⟨old, differ⟩ := mem_erase.mp member
    exact ⟨has_of_mem old, differ⟩
  · rintro ⟨⟨row, member, rfl⟩, differ⟩
    exact has_of_mem (mem_erase.mpr ⟨member, differ⟩)

/-- What is left when several keys are removed. -/
theorem mem_foldl_erase {table : KeyedTable key} {items : List Row} {row : Row} :
    row ∈ (items.foldl (fun table item => table.erase (key item)) table).rows ↔
      row ∈ table.rows ∧ ∀ item ∈ items, key row ≠ key item := by
  induction items generalizing table with
  | nil => simp
  | cons item rest ih => simp [ih, mem_erase, and_assoc]

theorem rows_foldl_erase (table : KeyedTable key) (items : List Row) :
    (items.foldl (fun table item => table.erase (key item)) table).rows =
      table.rows.filter fun row => decide (key row ∉ items.map key) := by
  induction items generalizing table with
  | nil => simp
  | cons item rest ih =>
      rw [List.foldl_cons, ih, erase, eraseWhere, List.filter_filter]
      apply List.filter_congr
      intro row _
      apply Bool.eq_iff_iff.mpr
      simp only [List.map_cons, List.mem_cons, not_or, Bool.and_eq_true, Bool.not_eq_true',
        decide_eq_true_eq, decide_eq_false_iff_not]
      exact and_comm

def replace (table : KeyedTable key) (row : Row) : KeyedTable key :=
  (table.erase (key row)).insert row

theorem mem_replace {table : KeyedTable key} {row other : Row} :
    other ∈ (table.replace row).rows ↔
      other = row ∨ other ∈ table.rows ∧ key other ≠ key row := by
  have fresh : ¬ (table.erase (key row)).Has (key row) := by simp
  rw [replace, mem_insert, mem_erase]
  constructor
  · rintro (old | ⟨rfl, -⟩)
    · exact .inr old
    · exact .inl rfl
  · rintro (rfl | old)
    · exact .inr ⟨rfl, fresh⟩
    · exact .inl old

def replaceMany (table : KeyedTable key) (rows : List Row) : KeyedTable key :=
  rows.foldl replace table

theorem mem_replaceMany {table : KeyedTable key} {rows : List Row}
    (distinct : (rows.map key).Nodup) {other : Row} :
    other ∈ (table.replaceMany rows).rows ↔
      other ∈ rows ∨ other ∈ table.rows ∧ key other ∉ rows.map key := by
  induction rows generalizing table with
  | nil => simp [replaceMany]
  | cons row rest ih =>
      obtain ⟨fresh, restDistinct⟩ := List.nodup_cons.mp distinct
      rw [replaceMany, List.foldl_cons, ← replaceMany, ih restDistinct, mem_replace, List.map_cons,
        List.mem_cons, List.mem_cons, not_or]
      constructor
      · rintro (later | ⟨rfl | ⟨old, differ⟩, notLater⟩)
        · exact .inl (.inr later)
        · exact .inl (.inl rfl)
        · exact .inr ⟨old, differ, notLater⟩
      · rintro ((rfl | later) | ⟨old, differ, notLater⟩)
        · exact .inr ⟨.inl rfl, fresh⟩
        · exact .inl later
        · exact .inr ⟨.inr ⟨old, differ⟩, notLater⟩

/-- Change the row with a given key.  A change of the key itself is refused. -/
def modify (table : KeyedTable key) (wanted : Key) (change : Row → Row) : KeyedTable key where
  rows := table.rows.map fun row =>
    if key row = wanted ∧ key (change row) = wanted then change row else row
  keysNodup := by
    have sameKeys : (table.rows.map fun row =>
        if key row = wanted ∧ key (change row) = wanted then change row else row).map key =
          table.rows.map key := by
      rw [List.map_map]
      apply List.map_congr_left
      intro row _
      by_cases changed : key row = wanted ∧ key (change row) = wanted
      · simp [changed]
      · simp [changed]
    rw [sameKeys]
    exact table.keysNodup

theorem rows_modify (table : KeyedTable key) (wanted : Key) (change : Row → Row) :
    (table.modify wanted change).rows = table.rows.map fun row =>
      if key row = wanted ∧ key (change row) = wanted then change row else row := rfl

@[simp]
theorem has_modify {table : KeyedTable key} {wanted other : Key} {change : Row → Row} :
    (table.modify wanted change).Has other ↔ table.Has other := by
  constructor
  · rintro ⟨row, member, rfl⟩
    obtain ⟨old, oldMem, rfl⟩ := List.mem_map.mp member
    split_ifs with changed
    · exact ⟨old, oldMem, changed.1.trans changed.2.symm⟩
    · exact has_of_mem oldMem
  · rintro ⟨row, member, rfl⟩
    refine ⟨_, List.mem_map.mpr ⟨row, member, rfl⟩, ?_⟩
    split_ifs with changed
    · exact changed.2.trans changed.1.symm
    · rfl

theorem get?_modify_self {table : KeyedTable key} {wanted : Key} {change : Row → Row}
    {row : Row} (found : table.get? wanted = some row) (keeps : key (change row) = wanted) :
    (table.modify wanted change).get? wanted = some (change row) := by
  obtain ⟨member, rowKey⟩ := get?_eq_some.mp found
  refine get?_eq_some.mpr ⟨?_, keeps⟩
  exact List.mem_map.mpr ⟨row, member, by simp [rowKey, keeps]⟩

theorem get?_modify_of_ne {table : KeyedTable key} {wanted other : Key} {change : Row → Row}
    (differ : other ≠ wanted) : (table.modify wanted change).get? other = table.get? other := by
  apply Option.ext
  intro row
  simp only [get?_eq_some, rows_modify, List.mem_map]
  constructor
  · rintro ⟨⟨old, oldMem, rfl⟩, rowKey⟩
    split_ifs at rowKey ⊢ with changed
    · exact absurd (rowKey.symm.trans changed.2) differ
    · exact ⟨oldMem, rowKey⟩
  · rintro ⟨member, rowKey⟩
    refine ⟨⟨row, member, if_neg ?_⟩, rowKey⟩
    exact fun changed => differ (rowKey.symm.trans changed.1)

/-- Only the row with the key is changed. -/
theorem modify_congr {table : KeyedTable key} {wanted : Key} {first second : Row → Row}
    (same : ∀ row, table.get? wanted = some row → first row = second row) :
    table.modify wanted first = table.modify wanted second := by
  apply eq_of_rows_eq
  apply List.map_congr_left
  intro row member
  by_cases rowKey : key row = wanted
  · rw [same row (get?_eq_some.mpr ⟨member, rowKey⟩)]
  · simp [rowKey]

theorem modify_eq_self {table : KeyedTable key} {wanted : Key} {change : Row → Row}
    (same : ∀ row, table.get? wanted = some row → change row = row) :
    table.modify wanted change = table := by
  rw [modify_congr same]
  apply eq_of_rows_eq
  exact List.map_id'' (fun row => by simp) _

/-- The second of two changes of a row remains. -/
theorem modify_modify {table : KeyedTable key} {wanted : Key} {first second : Row}
    (firstKey : key first = wanted) (secondKey : key second = wanted) :
    ((table.modify wanted fun _ => first).modify wanted fun _ => second) =
      table.modify wanted fun _ => second := by
  apply eq_of_rows_eq
  rw [rows_modify, rows_modify, rows_modify, List.map_map]
  apply List.map_congr_left
  intro row _
  by_cases rowKey : key row = wanted
  · simp [rowKey, firstKey, secondKey]
  · simp [rowKey]

end KeyedTable

end MileExplorer
