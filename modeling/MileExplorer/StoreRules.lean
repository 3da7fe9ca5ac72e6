import MileExplorer.RelyGuarantee
import MileExplorer.Store

/-!
# Rules for the table operations

What each table operation does to a process whose database does not fail, in
the form the programs use it: one rule for each operation followed by the rest
of the program.
-/

namespace MileExplorer

def Process.withTable (process : Process) (table : TableName) (rows : Table) : Process :=
  { process with store := Function.update process.store table rows }

namespace Process

@[simp]
theorem store_withTable (process : Process) (table : TableName) (rows : Table) :
    (process.withTable table rows).store = Function.update process.store table rows := rfl

@[simp]
theorem waiting_withTable (process : Process) (table : TableName) (rows : Table) :
    (process.withTable table rows).waiting = process.waiting := rfl

@[simp]
theorem running_withTable (process : Process) (table : TableName) (rows : Table) :
    (process.withTable table rows).running = process.running := rfl

@[simp]
theorem fetcher_withTable (process : Process) (table : TableName) (rows : Table) :
    (process.withTable table rows).fetcher = process.fetcher := rfl

@[simp]
theorem exec_read (site : Site) (cursor : Cursor) (process : Process) :
    exec (.read site cursor) process = (cursor process.store, process) := rfl

theorem exec_write_of_ok {site : Site} {effect : Store → Except DbError Store}
    {process : Process} {store : Store} (succeeds : effect process.store = .ok store) :
    exec (.write site effect) process = (.ok .null, { process with store := store }) := by
  simp [exec, execFaulty, succeeds]

end Process

/-! ## What the reads yield -/

def blockOf (row : Json) : Nat :=
  match row.find? "block-id" with
  | some (.num blockId) => blockId.toNat
  | _ => 0

theorem blockOf_eq {row : Json} {blockId : Nat}
    (indexed : row.find? "block-id" = some (.num blockId)) : blockOf row = blockId := by
  simp [blockOf, indexed]

def keyText (row : Json) : String :=
  match row.find? "id" with
  | some (.str id) => id
  | _ => ""

theorem keyText_eq {row : Json} {id : String} (idEq : row.find? "id" = some (.str id)) :
    keyText row = id := by
  simp [keyText, idEq]

theorem find?_id_of_docId {document : Json} {id : String} (idEq : docId document = .str id) :
    document.find? "id" = some (.str id) := by
  cases found : document.find? "id" with
  | none => simp [docId, found] at idEq
  | some value => simpa [docId, found] using idEq

/-- A row with a key is an object. -/
theorem exists_members_of_docId {document : Json} (keyed : docId document ≠ .null) :
    ∃ members, document = .obj members := by
  cases document with
  | obj members => exact ⟨members, rfl⟩
  | _ => exact absurd rfl keyed

namespace Cursor

theorem mem_ordered {index : String} {rows : List Json} {row : Json} :
    row ∈ ordered index rows ↔ row ∈ rows ∧ (row.find? index).isSome := by
  simp [ordered]

/-- The place of a row in an index. -/
def rank (index : String) (row : Json) : Lex (Nat × Lex (Rat × String)) :=
  ((row.find? index).getD .null).sortKey

/-- The rows of an index are sorted by their place and then by primary key. -/
theorem ordered_sorted (index : String) (rows : List Json) :
    (ordered index rows).Pairwise fun first second =>
      toLex (rank index first, (docId first).sortKey) ≤
        toLex (rank index second, (docId second).sortKey) := by
  let precedes (first second : Json) : Prop :=
    toLex (rank index first, (docId first).sortKey) ≤
      toLex (rank index second, (docId second).sortKey)
  have total : Std.Total precedes := ⟨fun first second => le_total _ _⟩
  have transitive : IsTrans Json precedes := ⟨fun first second third => le_trans⟩
  exact List.pairwise_insertionSort precedes _

theorem ordered_pairwise (index : String) (rows : List Json) :
    (ordered index rows).Pairwise fun first second => rank index first ≤ rank index second := by
  refine List.Pairwise.imp ?_ (ordered_sorted index rows)
  intro first second before
  rcases Prod.Lex.toLex_le_toLex.mp before with less | ⟨same, _⟩
  · exact le_of_lt less
  · exact le_of_eq same

theorem ordered_perm (index : String) (rows : List Json) :
    (ordered index rows).Perm (rows.filter fun row => (row.find? index).isSome) :=
  List.perm_insertionSort _ _

theorem nodup_ordered (table : Table) (index : String) :
    ((ordered index table.rows).map docId).Nodup :=
  ((ordered_perm index table.rows).map docId).nodup_iff.mpr
    (table.keysNodup.sublist (List.filter_sublist.map docId))

section Filter
variable {Row : Type} {before : Row → Row → Prop} [DecidableRel before]

theorem filter_orderedInsert [IsTrans Row before] (keep : Row → Bool) (row : Row)
    {rows : List Row} (sorted : rows.Pairwise before) :
    (rows.orderedInsert before row).filter keep =
      if keep row then (rows.filter keep).orderedInsert before row else rows.filter keep := by
  induction rows with
  | nil => simp [List.filter_cons]
  | cons head rest ih =>
      obtain ⟨first, restSorted⟩ := List.pairwise_cons.mp sorted
      by_cases earlier : before row head
      · rw [List.orderedInsert_cons_of_le _ _ earlier, List.filter_cons]
        split_ifs with kept
        · -- The row comes first among those that are kept as well.
          have least : ∀ other ∈ (head :: rest).filter keep, before row other := by
            intro other member
            rcases List.mem_cons.mp (List.mem_filter.mp member).1 with rfl | later
            · exact earlier
            · exact Trans.trans earlier (first other later)
          cases left : (head :: rest).filter keep with
          | nil => rfl
          | cons next others =>
              exact (List.orderedInsert_cons_of_le _ _ (least next (by simp [left]))).symm
        · rfl
      · rw [List.orderedInsert_of_not_le _ _ earlier, List.filter_cons, ih restSorted,
          List.filter_cons]
        by_cases keepsHead : keep head = true
        · by_cases keepsRow : keep row = true
          · simp only [keepsHead, keepsRow, if_true]
            rw [List.orderedInsert_of_not_le _ _ earlier]
          · simp [keepsHead, keepsRow]
        · simp [keepsHead]

theorem filter_insertionSort [Std.Total before] [IsTrans Row before] (keep : Row → Bool)
    (rows : List Row) :
    (rows.insertionSort before).filter keep = (rows.filter keep).insertionSort before := by
  induction rows with
  | nil => rfl
  | cons row rest ih =>
      rw [List.insertionSort_cons, filter_orderedInsert keep row (List.pairwise_insertionSort _ _),
        ih, List.filter_cons]
      split_ifs <;> rfl

end Filter

/-- Rows that are left when others are removed keep their order in an index. -/
theorem ordered_filter (index : String) (keep : Json → Bool) (rows : List Json) :
    ordered index (rows.filter keep) = (ordered index rows).filter keep := by
  let precedes (first second : Json) : Prop :=
    toLex (rank index first, (docId first).sortKey) ≤
      toLex (rank index second, (docId second).sortKey)
  have total : Std.Total precedes := ⟨fun first second => le_total _ _⟩
  have transitive : IsTrans Json precedes := ⟨fun first second third => le_trans⟩
  have sorted := @filter_insertionSort Json precedes
    (fun _ _ => inferInstanceAs (Decidable (_ ≤ _))) total transitive keep
    (rows.filter fun row => (row.find? index).isSome)
  rw [List.filter_comm] at sorted
  exact sorted.symm

/-- The row that `max` picks has the greatest index value. -/
theorem rank_le_getLast {index : String} {rows : List Json} {last row : Json}
    (lastEq : (ordered index rows).getLast? = some last)
    (member : row ∈ ordered index rows) : rank index row ≤ rank index last := by
  obtain ⟨before, split⟩ := List.getLast?_eq_some_iff.mp lastEq
  have sorted := ordered_pairwise index rows
  rw [split] at member sorted
  rcases List.mem_append.mp member with earlier | found
  · exact (List.pairwise_append.mp sorted).2.2 row earlier last (by simp)
  · exact le_of_eq (by rw [List.mem_singleton.mp found])

/-- A member of the document that a cursor yields. -/
theorem field_of_find? {cursor : Cursor} {store : Store} {document value : Json} {name : String}
    (yields : cursor store = .ok document) (found : document.find? name = some value) :
    cursor.field name store = .ok value := by
  have isObj := Json.isObject_of_find? found
  rw [field, yields]
  cases document with
  | obj members => simp only [bind, Except.bind, found]; rfl
  | _ => simp [Json.isObject] at isObj

theorem max_eq (table : TableName) (index : String) (store : Store) :
    (cursor table).max index store =
      match (ordered index (store table).rows).getLast? with
      | some row => .ok row
      | none => .error ⟨"Cannot take the max of an empty stream."⟩ :=
  rfl

theorem toDouble_of_lt {number : Nat} (small : number < 2 ^ 53) : toDouble number = number := by
  have unit : number.log2 - 52 = 0 := by
    rw [Nat.sub_eq_zero_iff_le]
    by_cases zero : number = 0
    · simp [zero]
    · have := (Nat.log2_lt zero).mpr small
      omega
  simp [toDouble, unit, Nat.mod_one]

theorem toDouble_of_le {number : Nat} (small : number ≤ 2 ^ 53) : toDouble number = number := by
  rcases small.lt_or_eq with below | rfl
  · exact toDouble_of_lt below
  · decide +kernel

theorem le_toDouble {number : Nat} (large : 2 ^ 53 ≤ number) : 2 ^ 53 ≤ toDouble number := by
  have positive : number ≠ 0 := by omega
  have bits : 53 ≤ number.log2 := (Nat.le_log2 positive).mpr large
  have lower : 2 ^ number.log2 ≤ number := Nat.log2_self_le positive
  have split : 2 ^ number.log2 = 2 ^ 52 * 2 ^ (number.log2 - 52) := by
    rw [← pow_add]
    congr 1
    omega
  have quotient : 2 ^ 52 ≤ number / 2 ^ (number.log2 - 52) := by
    rw [Nat.le_div_iff_mul_le (by positivity), ← split]
    exact lower
  have below : 2 ^ 53 ≤ number / 2 ^ (number.log2 - 52) * 2 ^ (number.log2 - 52) := by
    calc 2 ^ 53 ≤ 2 ^ number.log2 := Nat.pow_le_pow_right (by decide) bits
      _ = 2 ^ 52 * 2 ^ (number.log2 - 52) := split
      _ ≤ number / 2 ^ (number.log2 - 52) * 2 ^ (number.log2 - 52) :=
        Nat.mul_le_mul_right _ quotient
  unfold toDouble
  dsimp only
  split_ifs
  · exact below
  · exact below.trans (Nat.le_add_right _ _)

/-- The rounding moves no end past a number that a double represents exactly. -/
theorem lt_toDouble_iff {number bound : Nat} (small : number < 2 ^ 53) :
    number < toDouble bound ↔ number < bound := by
  by_cases large : 2 ^ 53 ≤ bound
  · have := le_toDouble large
    omega
  · rw [toDouble_of_lt (by omega)]

theorem inRange_iff {index : String} {row : Json} {number first limit : Nat}
    (indexed : row.find? index = some (.num number)) :
    between.inRange first limit index row = true ↔
      toDouble first ≤ number ∧ number < toDouble ((first + limit) % 2 ^ 64) := by
  simp only [between.inRange, indexed, Bool.and_eq_true, decide_eq_true_eq, ← not_le,
    Json.sortKey_num_le, Nat.cast_le]

theorem inRange_iff_of_lt {index : String} {row : Json} {number first limit : Nat}
    (indexed : row.find? index = some (.num number)) (small : number < 2 ^ 53) :
    between.inRange first limit index row = true ↔
      first ≤ number ∧ number < (first + limit) % 2 ^ 64 := by
  rw [inRange_iff indexed, ← not_lt, lt_toDouble_iff small, lt_toDouble_iff small, not_lt]

/-- The rows of a snapshot of a table by an index. -/
theorem elements_sort (table : TableName) (index : String) (store : Store) :
    (getDataOf ((cursor table).sort index store)).elements =
      ordered index (store table).rows := rfl

/-- A lookup by primary key finds a row with an `id` member exactly if the
table has the key. -/
theorem count_get (table : TableName) (id : String) (store : Store) :
    (getDataOf ((cursor table).get id store)).count "id" > 0 ↔ (store table).Has (.str id) := by
  have yields : (cursor table).get id store =
      .ok (((store table).get? (.str id)).getD .null) := rfl
  rw [yields]
  cases found : (store table).get? (.str id) with
  | none =>
      have absent := KeyedTable.get?_eq_none.mp found
      simp [getDataOf, Json.count, Json.find?, absent]
  | some row =>
      obtain ⟨member, rowId⟩ := KeyedTable.get?_eq_some.mp found
      have idEq := find?_id_of_docId rowId
      have present : (store table).Has (.str id) := ⟨row, member, rowId⟩
      have rowEq : getDataOf (.ok ((some row).getD .null)) = row := by
        cases row <;> simp_all [Json.find?, getDataOf]
      rw [rowEq]
      simp [Json.count, idEq, present]

end Cursor

namespace Db

theorem insertEffect_of_isObject {table : TableName} {document : Json} {store : Store}
    (isObj : document.isObject = true) :
    insertEffect table document store =
      .ok (Function.update store table ((store table).insert document)) := by
  cases document with
  | obj members => rfl
  | _ => simp [Json.isObject] at isObj

variable {contract : Contract Query Process} {Result : Type} {post : Result → Process → Prop}
  {process : Process}

theorem getData_bind_holds {site : Site} {cursor : Cursor} {rest : Json → Prog Result}
    (continues : ∀ current, contract.rely process current → contract.valid current →
      (rest (getDataOf (cursor current.store))).Holds Process.exec contract post current) :
    (getData site cursor >>= rest).Holds Process.exec contract post process :=
  fun current moved valid _ =>
    ⟨valid, contract.guaranteeRefl current, continues current moved valid⟩

theorem getNumber_bind_holds {site : Site} {cursor : Cursor} {rest : Rat → Prog Result}
    (continues : ∀ current, contract.rely process current → contract.valid current →
      (rest (getNumberOf (cursor current.store))).Holds Process.exec contract post current) :
    (getNumber site cursor >>= rest).Holds Process.exec contract post process :=
  fun current moved valid _ =>
    ⟨valid, contract.guaranteeRefl current, continues current moved valid⟩

theorem insert_bind_holds {site : Site} {table : TableName} {document : Json}
    {rest : Unit → Prog Result} (isObj : document.isObject = true)
    (continues : ∀ current, contract.rely process current → contract.valid current →
      contract.valid (current.withTable table ((current.store table).insert document)) ∧
      contract.guarantee current
        (current.withTable table ((current.store table).insert document)) ∧
      (rest ()).Holds Process.exec contract post
        (current.withTable table ((current.store table).insert document))) :
    (insert site table document >>= rest).Holds Process.exec contract post process := by
  intro current moved valid _
  rw [Process.exec_write_of_ok (insertEffect_of_isObject isObj)]
  exact continues current moved valid

theorem remove_bind_holds {site : Site} {table : TableName} {id : String}
    {rest : Unit → Prog Result}
    (continues : ∀ current, contract.rely process current → contract.valid current →
      contract.valid (current.withTable table ((current.store table).erase (.str id))) ∧
      contract.guarantee current
        (current.withTable table ((current.store table).erase (.str id))) ∧
      (rest ()).Holds Process.exec contract post
        (current.withTable table ((current.store table).erase (.str id)))) :
    (remove site table id >>= rest).Holds Process.exec contract post process := by
  intro current moved valid _
  have succeeds : removeEffect table id current.store =
      .ok (Function.update current.store table ((current.store table).erase (.str id))) := rfl
  rw [Process.exec_write_of_ok succeeds]
  exact continues current moved valid

/-- The table after the writing query of `Table::update`, which inserts when
the emptiness check before it found nothing. -/
def upsert (absent : Bool) (id : String) (data : Json) (rows : Table) : Table :=
  if absent then rows.insert data
  else rows.modify (.str id) fun row => row.merge (data.erase id)

/-- What the emptiness check of `Table::update` finds. -/
def absentIn (process : Process) (table : TableName) (id : String) : Bool :=
  !decide ((process.store table).Has (.str id)) &&
    !decide ((process.store table).Has (.str indexText))

theorem update_bind_holds {row id : String} {table : TableName} {data : Json}
    {rest : Except Exn Unit → Prog Result} (idEq : data.find? "id" = some (.str id))
    (continues : ∀ checked current, contract.rely process checked → contract.valid checked →
      contract.rely checked current → contract.valid current →
      contract.valid (current.withTable table
        (upsert (absentIn checked table id) id data (current.store table))) ∧
      contract.guarantee current (current.withTable table
        (upsert (absentIn checked table id) id data (current.store table))) ∧
      (rest (.ok ())).Holds Process.exec contract post (current.withTable table
        (upsert (absentIn checked table id) id data (current.store table)))) :
    (update row table data >>= rest).Holds Process.exec contract post process := by
  have head : data.indexConst "id" >>= Json.getString = .ok id := by
    rw [Json.indexConst_of_find? idEq]
    rfl
  simp only [update, head, Program.ask_bind]
  intro checked moved valid _
  refine ⟨valid, contract.guaranteeRefl checked, ?_⟩
  have isObj := Json.isObject_of_find? idEq
  have kept := fun current => continues checked current moved valid
  cases absent : absentIn checked table id with
  | true =>
      have status : isEmpty table id checked.store = .ok (.bool true) := by
        simpa [isEmpty, absentIn] using absent
      simp only [Process.exec_read, status]
      intro current movedAgain currentValid _
      rw [Process.exec_write_of_ok (insertEffect_of_isObject isObj)]
      have result := kept current movedAgain currentValid
      simp only [absent, upsert, if_true] at result
      exact result
  | false =>
      have status : isEmpty table id checked.store = .ok (.bool false) := by
        simpa only [isEmpty, absentIn, Except.ok.injEq, Json.bool.injEq] using absent
      simp only [Process.exec_read, status]
      intro current movedAgain currentValid _
      have succeeds : updateEffect table id (data.erase id) current.store =
          .ok (Function.update current.store table ((current.store table).modify (.str id)
            fun row => row.merge (data.erase id))) := rfl
      rw [Process.exec_write_of_ok succeeds]
      have result := kept current movedAgain currentValid
      simp only [absent, upsert, Bool.false_eq_true, if_false] at result
      exact result

/-! ## Operations run alone -/

theorem run_getData (site : Site) (cursor : Cursor) (process : Process) :
    (getData site cursor).run Process.exec process =
      (getDataOf (cursor process.store), process) := rfl

theorem run_getNumber (site : Site) (cursor : Cursor) (process : Process) :
    (getNumber site cursor).run Process.exec process =
      (getNumberOf (cursor process.store), process) := rfl

theorem run_insert (site : Site) (table : TableName) {document : Json}
    (isObj : document.isObject = true) (process : Process) :
    (insert site table document).run Process.exec process =
      ((), process.withTable table ((process.store table).insert document)) := by
  rw [insert, Program.request, Program.run_ask,
    Process.exec_write_of_ok (insertEffect_of_isObject isObj)]
  rfl

theorem run_update (row : String) (table : TableName) {data : Json} {id : String}
    (idEq : data.find? "id" = some (.str id)) (process : Process) :
    (update row table data).run Process.exec process =
      (.ok (), process.withTable table
        (upsert (absentIn process table id) id data (process.store table))) := by
  have head : data.indexConst "id" >>= Json.getString = .ok id := by
    rw [Json.indexConst_of_find? idEq]
    rfl
  have isObj := Json.isObject_of_find? idEq
  simp only [update, head, Program.run_ask, Process.exec_read]
  cases absent : absentIn process table id with
  | true =>
      have status : isEmpty table id process.store = .ok (.bool true) := by
        simpa [isEmpty, absentIn] using absent
      simp only [status, Program.run_ask,
        Process.exec_write_of_ok (insertEffect_of_isObject isObj), upsert, if_true]
      rfl
  | false =>
      have status : isEmpty table id process.store = .ok (.bool false) := by
        simpa only [isEmpty, absentIn, Except.ok.injEq, Json.bool.injEq] using absent
      simp only [status, upsert, Bool.false_eq_true, if_false]
      rfl

theorem run_remove (site : Site) (table : TableName) (id : String) (process : Process) :
    (remove site table id).run Process.exec process =
      ((), process.withTable table ((process.store table).erase (.str id))) := rfl

/-! ## A single row -/

/-- The tables with one row in one of them. -/
def lonely (table : TableName) (row : Json) : Process :=
  Process.idle (Function.update Store.empty table (KeyedTable.empty.insert row))

theorem rows_lonely (table : TableName) (row : Json) :
    ((lonely table row).store table).rows = [row] := by
  simp [lonely, Process.idle, KeyedTable.rows_insert_of_not_has]

end Db

end MileExplorer
