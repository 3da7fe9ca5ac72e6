import Mathlib.Data.List.Induction
import MileExplorer.Store

/-!
# Updating the fields of a row

`Table::update(id, data)`, which adds entries to the array fields of a row: an
emptiness check, and then either an insert of a new row or one `set_union`
query for each field.
-/

namespace MileExplorer

namespace Json

/-- `set_union`: the elements of both arrays, each kept where it first occurs. -/
def setUnion (first second : List Json) : List Json :=
  (first ++ second).foldl (fun kept value => if value ∈ kept then kept else kept ++ [value]) []

theorem mem_setUnion {first second : List Json} {value : Json} :
    value ∈ setUnion first second ↔ value ∈ first ∨ value ∈ second := by
  suffices gathers : ∀ values kept : List Json,
      value ∈ values.foldl (fun kept new => if new ∈ kept then kept else kept ++ [new]) kept ↔
        value ∈ kept ∨ value ∈ values by
    simp [setUnion, gathers]
  intro values
  induction values with
  | nil => simp
  | cons head rest ih =>
      intro kept
      rw [List.foldl_cons, ih]
      split_ifs with present
      · constructor
        · rintro (old | later)
          · exact .inl old
          · exact .inr (by simp [later])
        · rintro (old | found)
          · exact .inl old
          · rcases List.mem_cons.mp found with rfl | later
            · exact .inl present
            · exact .inr later
      · simp [or_assoc]

/-- One more value at the end, unless it occurs already. -/
theorem setUnion_append (first second : List Json) (value : Json) :
    setUnion first (second ++ [value]) =
      if value ∈ setUnion first second then setUnion first second
      else setUnion first second ++ [value] := by
  simp [setUnion, ← List.append_assoc]

theorem setUnion_nodup (first second : List Json) : (setUnion first second).Nodup := by
  suffices distinct : ∀ values, (setUnion [] values).Nodup from distinct (first ++ second)
  intro values
  induction values using List.reverseRecOn with
  | nil => exact List.nodup_nil
  | append_singleton values value ih =>
      rw [setUnion_append]
      split_ifs with present
      · exact ih
      · exact List.nodup_append.mpr ⟨ih, List.nodup_singleton _, by grind⟩

/-- Distinct values are kept as they are. -/
theorem setUnion_of_nodup {values : List Json} (nodup : values.Nodup) :
    setUnion [] values = values := by
  induction values using List.reverseRecOn with
  | nil => rfl
  | append_singleton values value ih =>
      obtain ⟨old, -, apart⟩ := List.nodup_append.mp nodup
      have fresh : value ∉ values := fun member => apart value member value (by simp) rfl
      rw [setUnion_append, ih old, if_neg fresh]

theorem setUnion_singleton {values : List Json} (nodup : values.Nodup) (value : Json) :
    setUnion values [value] = if value ∈ values then values else values ++ [value] := by
  have joined : setUnion values [value] = setUnion [] (values ++ [value]) := rfl
  rw [joined, setUnion_append, setUnion_of_nodup nodup]

/-- `coerce_to("array")`. -/
def coerceToArray : Json → Except DbError (List Json)
  | .arr elements => .ok elements
  | .obj members => .ok (members.map fun entry => .arr [.str entry.1, entry.2])
  | other => .error ⟨"Cannot coerce " ++ other.typeName ++ " to ARRAY."⟩

end Json

namespace Db

/-- The row with entries added to one of its fields. -/
def unionField (field : String) (value row : Json) : Except DbError Json :=
  match row.find? field with
  | none => .error ⟨"No attribute " ++ field ++ " in object."⟩
  | some stored => do
      let elements ← stored.coerceToArray
      match value with
      | .arr added => return row.set field (.arr (Json.setUnion elements added))
      | other => .error ⟨"Expected type ARRAY but found " ++ other.typeName ++ "."⟩

/-- Effect of the update of one field of a row.  If there is no row, the update
is skipped. -/
def unionEffect (table : TableName) (id field : String) (value : Json) (store : Store) :
    Except DbError Store :=
  match (store table).get? (.str id) with
  | none => .ok store
  | some row => do
      let row ← unionField field value row
      return Function.update store table ((store table).modify (.str id) fun _ => row)

/-- The updates of the fields one after the other, up to the first that fails. -/
def unionFields (row : String) (table : TableName) (id : String) :
    List (String × Json) → Prog Unit
  | [] => return ()
  | (field, value) :: rest =>
      .ask (.write (.update table row) (unionEffect table id field value)) fun answer =>
        match answer with
        | .ok _ => unionFields row table id rest
        | .error _ => return ()

def fieldRow (id : String) (data : List (String × Json)) : Json :=
  .ofMembers (("id", .str id) :: data)

/-- `Table::update(id, data)`. -/
def updateFields (row : String) (table : TableName) (id : String)
    (data : List (String × Json)) : Prog Unit :=
  .ask (.read (.check table row) (isEmpty table id)) fun status =>
    match status with
    | .ok (.bool true) =>
        .ask (.write (.update table row) (insertEffect table (fieldRow id data))) fun _ =>
          return ()
    | .ok _ => unionFields row table id data
    | .error _ => return ()

end Db

end MileExplorer
