import MileExplorer.StoreRules

/-!
# `Table::update` as an upsert

`Table::update(data)` inserts a row or merges into the stored one.  It does so
with two slips.  The emptiness check takes the text of the index option for a
second key, so that a row under that text passes for the one that is looked
for.  And the member it takes out before it merges is not `id` but the one
whose name is the value of `id`.
-/

namespace MileExplorer

/-! ## Merging objects in key order -/

namespace Json

/-- All objects in the value have their members in key order. -/
inductive Formed : Json → Prop where
  | atom {value : Json} (notArray : value.isArray = false) (notObject : value.isObject = false) :
      Formed value
  | array {elements : List Json} (each : ∀ element ∈ elements, Formed element) :
      Formed (.arr elements)
  | object {members : List (String × Json)} (ordered : Ordered members)
      (each : ∀ entry ∈ members, Formed entry.2) : Formed (.obj members)

theorem mem_of_member? {key : String} {value : Json} {members : List (String × Json)}
    (found : member? key members = some value) : (key, value) ∈ members := by
  induction members with
  | nil => simp [member?] at found
  | cons head rest ih =>
      obtain ⟨name, old⟩ := head
      simp only [member?] at found
      split_ifs at found with same
      · obtain rfl := Option.some.inj found
        simp [same]
      · exact List.mem_cons_of_mem _ (ih found)

/-- Members in key order are determined by what is found under each key. -/
theorem Ordered.ext {first second : List (String × Json)} (firstOrdered : Ordered first)
    (secondOrdered : Ordered second)
    (same : ∀ key, member? key first = member? key second) : first = second := by
  induction first generalizing second with
  | nil =>
      cases second with
      | nil => rfl
      | cons head rest =>
          have found := same head.1
          simp [member?] at found
  | cons head rest ih =>
      obtain ⟨name, value⟩ := head
      cases second with
      | nil =>
          have found := same name
          simp [member?] at found
      | cons other others =>
          obtain ⟨otherName, otherValue⟩ := other
          obtain ⟨least, restOrdered⟩ := List.pairwise_cons.mp firstOrdered
          obtain ⟨otherLeast, othersOrdered⟩ := List.pairwise_cons.mp secondOrdered
          have listed {key : String} {members : List (String × Json)} {found : Json}
              (isFound : member? key members = some found) : key ∈ members.map Prod.fst := by
            exact List.mem_map_of_mem (mem_of_member? isFound)
          obtain rfl : name = otherName := by
            by_contra differ
            have here := same name
            have there := same otherName
            simp only [member?, if_true, Ne.symm differ, differ, if_false] at here there
            have after := otherLeast name (listed here.symm)
            have before := least otherName (listed there)
            exact lt_asymm before after
          have here := same name
          simp only [member?, if_true] at here
          obtain rfl := Option.some.inj here
          have fresh {members : List (String × Json)}
              (above : ∀ key ∈ members.map Prod.fst, name < key) :
              member? name members = none :=
            member?_eq_none.mpr fun found => lt_irrefl name (above name found)
          rw [ih restOrdered othersOrdered]
          intro key
          by_cases isName : name = key
          · rw [← isName, fresh least, fresh otherLeast]
          · simpa [member?, isName] using same key

theorem Ordered.mergeMembers {old : List (String × Json)} (ordered : Ordered old)
    (new : List (String × Json)) : Ordered (mergeMembers old new) := by
  induction new generalizing old with
  | nil => simpa [Json.mergeMembers] using ordered
  | cons head rest ih =>
      rw [Json.mergeMembers]
      exact ih (ordered.setMember _ _)

theorem Formed.ordered {members : List (String × Json)} (formed : (Json.obj members).Formed) :
    Ordered members := by
  cases formed with
  | atom notArray notObject => simp [isObject] at notObject
  | object ordered each => exact ordered

theorem Formed.member {members : List (String × Json)} (formed : (Json.obj members).Formed)
    {key : String} {value : Json} (found : member? key members = some value) :
    value.Formed := by
  cases formed with
  | atom notArray notObject => simp [isObject] at notObject
  | object ordered each => exact each _ (mem_of_member? found)

theorem merge_of_not_isObject (old : Json) {new : Json} (notObject : new.isObject = false) :
    old.merge new = new := by
  cases new with
  | obj members => simp [isObject] at notObject
  | _ => cases old <;> rfl

theorem Formed.merge_self {value : Json} (formed : value.Formed) : value.merge value = value := by
  induction formed with
  | atom notArray notObject => exact merge_of_not_isObject _ notObject
  | array each ih => exact merge_of_not_isObject _ rfl
  | @object members ordered each ih =>
      rw [merge]
      apply congrArg Json.obj
      apply (ordered.mergeMembers members).ext ordered
      intro key
      rw [member?_mergeMembers ordered.nodup]
      cases found : member? key members with
      | none => rfl
      | some value => simp [ih _ (mem_of_member? found)]

theorem Formed.merge_merge {old new : Json} (oldFormed : old.Formed) (newFormed : new.Formed) :
    (old.merge new).merge new = old.merge new := by
  induction newFormed generalizing old with
  | atom notArray notObject =>
      rw [merge_of_not_isObject _ notObject, merge_of_not_isObject _ notObject]
  | array each ih => rw [merge_of_not_isObject _ rfl, merge_of_not_isObject _ rfl]
  | @object members ordered each ih =>
      cases old with
      | obj stored =>
          have mergedOrdered := oldFormed.ordered.mergeMembers members
          rw [merge, merge]
          apply congrArg Json.obj
          apply (mergedOrdered.mergeMembers members).ext mergedOrdered
          intro key
          rw [member?_mergeMembers ordered.nodup, member?_mergeMembers ordered.nodup]
          cases found : member? key members with
          | none => rfl
          | some value =>
              cases storedFound : member? key stored with
              | none => simp [(each _ (mem_of_member? found)).merge_self]
              | some storedValue =>
                  simp [ih _ (mem_of_member? found) (oldFormed.member storedFound)]
      | _ => exact (Formed.object ordered each).merge_self

theorem Formed.empty_merge {members : List (String × Json)}
    (formed : (Json.obj members).Formed) :
    (Json.obj []).merge (.obj members) = .obj members := by
  have ordered := formed.ordered
  have start : Ordered [] := List.Pairwise.nil
  rw [merge]
  apply congrArg Json.obj
  apply (start.mergeMembers members).ext ordered
  intro key
  rw [member?_mergeMembers ordered.nodup]
  cases member? key members <;> rfl

theorem Formed.erase {value : Json} (formed : value.Formed) (key : String) :
    (value.erase key).Formed := by
  cases formed with
  | atom notArray notObject =>
      cases value with
      | obj members => simp [isObject] at notObject
      | _ => exact .atom notArray notObject
  | array each => exact .array each
  | object ordered each =>
      refine .object (List.Pairwise.sublist (List.filter_sublist.map Prod.fst) ordered) ?_
      intro entry member
      exact each entry (List.mem_filter.mp member).1

theorem null_merge (value : Json) : Json.null.merge value = value := by
  cases value <;> rfl

theorem Formed.find?_merge {old : List (String × Json)} {new : Json} (formed : new.Formed)
    {name : String} {value : Json} (found : new.find? name = some value) :
    ((Json.obj old).merge new).find? name =
      some ((((Json.obj old).find? name).getD .null).merge value) := by
  cases new with
  | obj members =>
      have isMember : member? name members = some value := found
      have merged := member?_mergeMembers formed.ordered.nodup old name
      rw [isMember] at merged
      change member? name (mergeMembers old members) =
        some (((member? name old).getD .null).merge value)
      rw [merged]
      cases member? name old with
      | none => simp [null_merge]
      | some stored => rfl
  | _ => simp [find?] at found

/-- An object has what a part of it would add. -/
theorem Formed.merge_erase_self {value : Json} (formed : value.Formed) (name : String) :
    value.merge (value.erase name) = value := by
  cases value with
  | obj members =>
      have erased := (formed.erase name).ordered
      rw [Json.erase, merge]
      apply congrArg Json.obj
      apply (formed.ordered.mergeMembers _).ext formed.ordered
      intro key
      rw [member?_mergeMembers erased.nodup, member?_filter_ne]
      by_cases same : name = key
      · simp [same]
      · rw [if_neg same]
        cases found : member? key members with
        | none => rfl
        | some stored => simp [(formed.member found).merge_self]
  | _ => exact merge_of_not_isObject _ rfl

/-- Leaving a member out makes no difference exactly if it would not change
the stored one. -/
theorem Formed.merge_erase_eq_iff {old : List (String × Json)} {new : Json}
    (oldFormed : (Json.obj old).Formed) (formed : new.Formed) (name : String) :
    (Json.obj old).merge (new.erase name) = (Json.obj old).merge new ↔
      ∀ value, new.find? name = some value →
        ∃ stored, (Json.obj old).find? name = some stored ∧ stored.merge value = stored := by
  constructor
  · intro same value found
    have kept : ((Json.obj old).merge (new.erase name)).find? name =
        (Json.obj old).find? name := by
      cases new with
      | obj members =>
          have merged := find?_merge_erase_of_ordered formed.ordered old name name
          rw [if_pos rfl] at merged
          exact merged
      | _ => simp [find?] at found
    rw [same, formed.find?_merge found] at kept
    cases storedEq : (Json.obj old).find? name with
    | none => simp [storedEq] at kept
    | some stored =>
        rw [storedEq] at kept
        exact ⟨stored, rfl, Option.some.inj kept⟩
  · intro present
    cases new with
    | obj members =>
        have erased := (formed.erase name).ordered
        rw [Json.erase, merge, merge]
        apply congrArg Json.obj
        apply (oldFormed.ordered.mergeMembers _).ext (oldFormed.ordered.mergeMembers _)
        intro key
        rw [member?_mergeMembers erased.nodup, member?_mergeMembers formed.ordered.nodup,
          member?_filter_ne]
        by_cases same : name = key
        · subst same
          cases found : member? name members with
          | none => simp
          | some value =>
              obtain ⟨stored, storedEq, unchanged⟩ := present value found
              have isStored : member? name old = some stored := storedEq
              simp [isStored, unchanged]
        · rw [if_neg same]
    | _ => rfl

end Json

/-! ## The upsert -/

/-- The row with the id is the former row, or the empty object, merged with the
data, every member of the data is in it, and no other row has changed. -/
structure Upserted (before after : Table) (id : String) (data : Json) : Prop where
  row : after.get? (.str id) = some (((before.get? (.str id)).getD (.obj [])).merge data)
  members : ∀ row, after.get? (.str id) = some row →
    ∀ name value, data.find? name = some value →
      row.find? name =
        some (((((before.get? (.str id)).getD (.obj [])).find? name).getD .null).merge value)
  others : ∀ key, key ≠ .str id → after.get? key = before.get? key

/-- A call of `Table::update` is an upsert, and a second call with the same data
changes nothing. -/
structure IsUpsert (process : Process) (label : String) (table : TableName) (id : String)
    (data : Json) : Prop where
  upserted : Upserted (process.store table)
    (((Db.update label table data).run Process.exec process).2.store table) id data
  otherTables : ∀ other, other ≠ table →
    ((Db.update label table data).run Process.exec process).2.store other = process.store other
  again : let once := ((Db.update label table data).run Process.exec process).2
    ((Db.update label table data).run Process.exec once).2.store = once.store

/-- The check looks at the row alone and what is taken out of the data is there
already: a new row needs that none has the text of the index option for its
id, a stored one that merging the member named like the id would not change
it. -/
def Upsertable (rows : Table) (id : String) (data : Json) : Prop :=
  match rows.get? (.str id) with
  | none => ¬ rows.Has (.str Db.indexText)
  | some former => ∀ value, data.find? id = some value →
      ∃ stored, former.find? id = some stored ∧ stored.merge value = stored

section Upsert

variable {rows : Table} {id : String} {data former : Json}

theorem docId_merge_erase (formed : data.Formed) (idEq : data.find? "id" = some (.str id))
    (former : List (String × Json)) (formerId : docId (.obj former) = .str id) :
    docId ((Json.obj former).merge (data.erase id)) = .str id := by
  by_cases named : id = "id"
  · cases data with
    | obj members =>
        have found := Json.find?_merge_erase_of_ordered formed.ordered former id "id"
        rw [if_pos named] at found
        rw [docId, found]
        exact formerId
    | _ => simp [Json.find?] at idEq
  · have kept : (data.erase id).find? "id" = some (.str id) := by
      rw [Json.find?_erase, if_neg named, idEq]
    rw [docId, (formed.erase id).find?_merge kept, Json.merge_str]
    rfl

theorem get?_upsert_stored (formed : data.Formed) (idEq : data.find? "id" = some (.str id))
    (found : rows.get? (.str id) = some former) :
    (Db.upsert false id data rows).get? (.str id) = some (former.merge (data.erase id)) := by
  have formerId := (KeyedTable.get?_eq_some.mp found).2
  obtain ⟨members, rfl⟩ := exists_members_of_docId (by simp [formerId] : docId former ≠ .null)
  exact KeyedTable.get?_modify_self found (docId_merge_erase formed idEq members formerId)

theorem get?_upsert_of_ne (absent : Bool) (idEq : data.find? "id" = some (.str id)) {key : Json}
    (differ : key ≠ .str id) : (Db.upsert absent id data rows).get? key = rows.get? key := by
  unfold Db.upsert
  split_ifs
  · apply KeyedTable.get?_insert_of_ne
    rw [docId_of_find? idEq]
    exact differ.symm
  · exact KeyedTable.get?_modify_of_ne differ

theorem upsert_stored_again (formed : data.Formed) (idEq : data.find? "id" = some (.str id))
    (rowsFormed : ∀ row ∈ rows.rows, row.Formed) :
    Db.upsert false id data (Db.upsert false id data rows) = Db.upsert false id data rows := by
  apply KeyedTable.modify_eq_self
  intro row found
  cases stored : rows.get? (.str id) with
  | none =>
      have absent : ¬ (Db.upsert false id data rows).Has (.str id) := by
        rw [Db.upsert, if_neg (by decide), KeyedTable.has_modify]
        exact KeyedTable.get?_eq_none.mp stored
      exact absurd (KeyedTable.has_iff_get?.mpr ⟨row, found⟩) absent
  | some former =>
      rw [get?_upsert_stored formed idEq stored] at found
      obtain rfl := Option.some.inj found
      have formerFormed := rowsFormed former (KeyedTable.get?_eq_some.mp stored).1
      exact formerFormed.merge_merge (formed.erase id)

theorem upsert_new_again (formed : data.Formed) (idEq : data.find? "id" = some (.str id))
    (fresh : ¬ rows.Has (.str id)) :
    Db.upsert false id data (Db.upsert true id data rows) = Db.upsert true id data rows := by
  apply KeyedTable.modify_eq_self
  intro row found
  have key := docId_of_find? idEq
  have inserted : (rows.insert data).get? (docId data) = some data :=
    KeyedTable.get?_insert_self (by rwa [key])
  rw [key] at inserted
  obtain rfl := Option.some.inj (inserted.symm.trans found)
  exact formed.merge_erase_self id

/-- A second call finds the row or passes over it again. -/
theorem upsert_again {process : Process} {table : TableName} (formed : data.Formed)
    (idEq : data.find? "id" = some (.str id))
    (rowsFormed : ∀ row ∈ (process.store table).rows, row.Formed) :
    let once := process.withTable table
      (Db.upsert (Db.absentIn process table id) id data (process.store table))
    Db.upsert (Db.absentIn once table id) id data (once.store table) = once.store table := by
  intro once
  have tableEq : once.store table =
      Db.upsert (Db.absentIn process table id) id data (process.store table) := by
    simp [once]
  cases absent : Db.absentIn process table id with
  | true =>
      have fresh : ¬ (process.store table).Has (.str id) := by
        simp only [Db.absentIn, Bool.and_eq_true, Bool.not_eq_true', decide_eq_false_iff_not]
          at absent
        exact absent.1
      rw [absent] at tableEq
      have now : Db.absentIn once table id = false := by
        have has : (once.store table).Has (.str id) := by
          rw [tableEq, Db.upsert, if_pos rfl, KeyedTable.has_insert]
          exact .inr (docId_of_find? idEq)
        simp [Db.absentIn, has]
      rw [now, tableEq]
      exact upsert_new_again formed idEq fresh
  | false =>
      rw [absent] at tableEq
      have still : Db.absentIn once table id = false := by
        rw [Db.absentIn, tableEq, Db.upsert, if_neg (by decide)]
        simpa [Db.absentIn] using absent
      rw [still, tableEq]
      exact upsert_stored_again formed idEq rowsFormed

theorem Upserted.of_row {after : Table} (formed : data.Formed)
    (row : after.get? (.str id) = some (((rows.get? (.str id)).getD (.obj [])).merge data))
    (others : ∀ key, key ≠ .str id → after.get? key = rows.get? key) :
    Upserted rows after id data := by
  refine ⟨row, ?_, others⟩
  intro stored found name value isMember
  obtain rfl := Option.some.inj (row.symm.trans found)
  cases formerFound : rows.get? (.str id) with
  | none => exact formed.find?_merge isMember
  | some former =>
      have formerId := (KeyedTable.get?_eq_some.mp formerFound).2
      obtain ⟨members, rfl⟩ := exists_members_of_docId (by simp [formerId] : docId former ≠ .null)
      exact formed.find?_merge isMember

theorem upserted_new_iff {process : Process} {table : TableName} (formed : data.Formed)
    (idEq : data.find? "id" = some (.str id))
    (fresh : ¬ (process.store table).Has (.str id)) :
    Upserted (process.store table)
        (Db.upsert (Db.absentIn process table id) id data (process.store table)) id data ↔
      ¬ (process.store table).Has (.str Db.indexText) := by
  have key := docId_of_find? idEq
  have noRow := KeyedTable.get?_eq_none.mpr fresh
  constructor
  · intro upserted has
    have hidden : Db.absentIn process table id = false := by
      simp [Db.absentIn, has]
    have row := upserted.row
    have missing : (Db.upsert false id data (process.store table)).get? (.str id) = none := by
      rw [KeyedTable.get?_eq_none, Db.upsert, if_neg (by decide), KeyedTable.has_modify]
      exact fresh
    rw [hidden, missing] at row
    cases row
  · intro notHidden
    have absent : Db.absentIn process table id = true := by
      simp [Db.absentIn, fresh, notHidden]
    refine .of_row formed ?_ fun other differ => get?_upsert_of_ne _ idEq differ
    obtain ⟨members, rfl⟩ := exists_members_of_docId (by simp [key] : docId data ≠ .null)
    rw [absent, noRow, Option.getD_none, formed.empty_merge, Db.upsert, if_pos rfl, ← key]
    exact KeyedTable.get?_insert_self (by rwa [key])

/-- A stored row is merged with all of the data unless what is taken out would
change it. -/
theorem upserted_stored_iff {process : Process} {table : TableName} (formed : data.Formed)
    (idEq : data.find? "id" = some (.str id))
    (found : (process.store table).get? (.str id) = some former) (formerFormed : former.Formed) :
    Upserted (process.store table)
        (Db.upsert (Db.absentIn process table id) id data (process.store table)) id data ↔
      ∀ value, data.find? id = some value →
        ∃ stored, former.find? id = some stored ∧ stored.merge value = stored := by
  have has : (process.store table).Has (.str id) := KeyedTable.has_iff_get?.mpr ⟨former, found⟩
  have present : Db.absentIn process table id = false := by
    simp [Db.absentIn, has]
  have formerId := (KeyedTable.get?_eq_some.mp found).2
  have row := get?_upsert_stored formed idEq found
  obtain ⟨members, rfl⟩ := exists_members_of_docId (by simp [formerId] : docId former ≠ .null)
  rw [present, ← formerFormed.merge_erase_eq_iff formed id]
  constructor
  · intro upserted
    have merged := upserted.row
    rw [row, found, Option.getD_some] at merged
    exact Option.some.inj merged
  · intro same
    refine .of_row formed ?_ fun other differ => get?_upsert_of_ne _ idEq differ
    rw [row, found, Option.getD_some, same]

theorem upserted_iff {process : Process} {table : TableName} (formed : data.Formed)
    (idEq : data.find? "id" = some (.str id))
    (rowsFormed : ∀ row ∈ (process.store table).rows, row.Formed) :
    Upserted (process.store table)
        (Db.upsert (Db.absentIn process table id) id data (process.store table)) id data ↔
      Upsertable (process.store table) id data := by
  cases found : (process.store table).get? (.str id) with
  | none =>
      rw [Upsertable, found]
      exact upserted_new_iff formed idEq (KeyedTable.get?_eq_none.mp found)
  | some former =>
      rw [Upsertable, found]
      exact upserted_stored_iff formed idEq found
        (rowsFormed former (KeyedTable.get?_eq_some.mp found).1)

/-- A call is an upsert exactly on an upsertable row. -/
theorem isUpsert_iff {process : Process} {label : String} {table : TableName}
    (formed : data.Formed) (idEq : data.find? "id" = some (.str id))
    (rowsFormed : ∀ row ∈ (process.store table).rows, row.Formed) :
    IsUpsert process label table id data ↔ Upsertable (process.store table) id data := by
  have once := Db.run_update label table idEq process
  have tableEq : ((Db.update label table data).run Process.exec process).2.store table =
      Db.upsert (Db.absentIn process table id) id data (process.store table) := by
    simp [once]
  rw [← upserted_iff formed idEq rowsFormed, ← tableEq]
  constructor
  · exact fun upsert => upsert.upserted
  · intro upserted
    refine ⟨upserted, ?_, ?_⟩
    · intro other differ
      simp [once, differ]
    · have same := upsert_again formed idEq rowsFormed
      dsimp only at same ⊢
      rw [once, Db.run_update label table idEq, same]
      simp

end Upsert

def balanceState (key : String) (amount : Int) : Json :=
  .obj [("balance", .num amount), ("id", .str key)]

theorem balanceState_formed (key : String) (amount : Int) : (balanceState key amount).Formed := by
  refine .object ?_ ?_
  · change ["balance", "id"].Pairwise (· < ·)
    decide
  · intro entry member
    rcases List.mem_cons.mp member with rfl | later
    · exact .atom rfl rfl
    · rw [List.mem_singleton.mp later]
      exact .atom rfl rfl

theorem lonelyBalance_formed (key : String) (amount : Int) :
    ∀ row ∈ ((Db.lonely .walletsState (balanceState key amount)).store .walletsState).rows,
      row.Formed := by
  intro row member
  rw [Db.rows_lonely] at member
  rw [List.mem_singleton.mp member]
  exact balanceState_formed key amount

/-- The balance of a wallet is replaced. -/
theorem isUpsert_iff_stored :
    IsUpsert (Db.lonely .walletsState (balanceState "alice" 5)) "" .walletsState "alice" (balanceState "alice" 7) := by
  refine (isUpsert_iff (balanceState_formed _ _) (by decide) (lonelyBalance_formed _ _)).mpr ?_
  have found : ((Db.lonely .walletsState (balanceState "alice" 5)).store .walletsState).get? (.str "alice") =
      some (balanceState "alice" 5) := by
    decide
  have noMember : (balanceState "alice" 7).find? "alice" = none := by decide
  rw [Upsertable, found]
  intro value isMember
  rw [noMember] at isMember
  cases isMember

/-- The balance of the wallet `balance` stays as it was. -/
theorem own_member_not_updated :
    ¬ IsUpsert (Db.lonely .walletsState (balanceState "balance" 5)) "" .walletsState "balance"
      (balanceState "balance" 7) := by
  intro upsert
  have kept : (((Db.update "" .walletsState (balanceState "balance" 7)).run Process.exec
      (Db.lonely .walletsState (balanceState "balance" 5))).2.store .walletsState).get? (.str "balance") =
        some (balanceState "balance" 5) := by
    decide
  have merged := upsert.upserted.row
  rw [kept] at merged
  revert merged
  decide

end MileExplorer
