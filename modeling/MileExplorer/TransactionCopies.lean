import MileExplorer.Descriptions
import MileExplorer.TransactionHalves

/-!
# Copies of a transaction

`add_stream_transaction` changes the transaction in place from one address to
the next, so the row for the second address is built from the row for the
first.  Every step of it is idempotent, and the second row has the same members
as one that is built from the transaction itself.
-/

namespace MileExplorer

def SameMembers (first second : Json) : Prop := ∀ key, first.find? key = second.find? key

def cutDescription (maxLength : Nat) : Json → Json
  | .str text => .str (String.ofList ((truncateBytes maxLength text.toList).getD []))
  | other => other

theorem cutDescription_cutDescription (maxLength : Nat) (description : Json) :
    cutDescription maxLength (cutDescription maxLength description) =
      cutDescription maxLength description := by
  cases description with
  | str text =>
      cases cut : truncateBytes maxLength text.toList with
      | none => cases maxLength <;> simp [cutDescription, cut, truncateBytes]
      | some kept => simp [cutDescription, cut, truncateBytes_truncated cut]
  | _ => rfl

section Rows

variable {platform : Platform} {blockId : Nat} {time : Int} {uniqId : String} {trx row : Json}

theorem find?_description_of_truncated {maxLength : Nat} (isObj : trx.isObject = true)
    (truncated : truncateDescription maxLength trx = .ok row) :
    row.find? "description" = (trx.find? "description").map (cutDescription maxLength) := by
  unfold truncateDescription at truncated
  split at truncated
  · rename_i absent
    obtain rfl := Except.ok.inj truncated
    simp [absent]
  · rename_i description found
    obtain ⟨text, textEq, rest⟩ := bind_eq_ok.mp truncated
    obtain rfl : description = .str text := by
      cases description <;> simp_all [Json.getString]
    split at rest
    · rename_i kept cut
      obtain rfl := Except.ok.inj rest
      simp [isObj, found, cutDescription, cut]
    · cases rest

theorem find?_streamRow_eq {number : String}
    (numbered : trx.find? "transaction-id" = some (.str number))
    (built : streamRow platform blockId time uniqId trx = .ok row) (key : String) :
    row.find? key =
      if key = "transaction-name" then none
      else if key = "transaction-type" then typeOf trx
      else if key = "description" then
        (trx.find? key).map (cutDescription platform.descriptionMaxLength)
      else (headed blockId time uniqId trx).find? key := by
  have isObj := Json.isObject_of_find? numbered
  obtain ⟨typeEq, noName⟩ := find?_type_streamRow isObj built
  obtain ⟨-, textual, converted, truncated⟩ := streamRow_steps built
  have unconverted : textual = headed blockId time uniqId trx := by
    have numberAt : (headed blockId time uniqId trx).find? "transaction-id" =
        some (.str number) := by
      simp [find?_headed isObj, numbered]
    have kept : textualId (headed blockId time uniqId trx) =
        .ok (headed blockId time uniqId trx) := by
      simp [textualId, Json.index_of_find? numberAt, bind, Except.bind, pure, Except.pure]
    exact Except.ok.inj (converted.symm.trans kept)
  subst unconverted
  have headedObj : (headed blockId time uniqId trx).isObject = true := by simp [headed, isObj]
  have renamedObj := (find?_replaceKeys headedObj
    (show "description" ≠ "transaction-name" by decide)
    (show "description" ≠ "transaction-type" by decide))
  split_ifs with isName isType isText
  · exact isName ▸ noName
  · exact isType ▸ typeEq
  · subst isText
    rw [find?_description_of_truncated renamedObj.1 truncated, renamedObj.2, find?_headed isObj]
    simp
  · rw [find?_truncateDescription renamedObj.1 truncated isText,
      (find?_replaceKeys headedObj isName isType).2]

/-- Whether a row can be built does not depend on its id. -/
theorem streamRow_any_id (isObj : trx.isObject = true)
    (built : streamRow platform blockId time uniqId trx = .ok row) (other : String) :
    ∃ another, streamRow platform blockId time other trx = .ok another := by
  obtain ⟨small, -⟩ := streamRow_steps built
  obtain ⟨first, -, firstText, firstEq⟩ :=
    streamRow_eq_truncateDescription platform time uniqId isObj small
  obtain ⟨second, -, secondText, secondEq⟩ :=
    streamRow_eq_truncateDescription platform time other isObj small
  rw [firstEq, truncateDescription, firstText] at built
  rw [secondEq, truncateDescription, secondText]
  cases found : trx.find? "description" with
  | none => exact ⟨second, rfl⟩
  | some description =>
      rw [found] at built
      obtain ⟨text, textEq, rest⟩ := bind_eq_ok.mp built
      split at rest
      · rename_i kept cut
        exact ⟨_, bind_eq_ok.mpr ⟨text, textEq, by rw [cut]; rfl⟩⟩
      · cases rest

/-- The row is, member by member, the one built from the transaction for the
id. -/
def CopyOf (platform : Platform) (blockId : Nat) (time : Int) (uniqId : String)
    (trx row : Json) : Prop :=
  ∃ clean, streamRow platform blockId time uniqId trx = .ok clean ∧ SameMembers row clean

theorem CopyOf.again {number first second : String} {copy : Json}
    (numbered : trx.find? "transaction-id" = some (.str number))
    (isCopy : CopyOf platform blockId time first trx copy)
    (built : streamRow platform blockId time second copy = .ok row) :
    CopyOf platform blockId time second trx row := by
  obtain ⟨clean, cleanBuilt, same⟩ := isCopy
  have isObj := Json.isObject_of_find? numbered
  obtain ⟨fresh, freshBuilt⟩ := streamRow_any_id isObj cleanBuilt second
  have members (key : String) := (same key).trans (find?_streamRow_eq numbered cleanBuilt key)
  have numberedCopy : copy.find? "transaction-id" = some (.str number) := by
    rw [members]
    simp [find?_headed isObj, numbered]
  have copyObj := Json.isObject_of_find? numberedCopy
  have sameType : typeOf copy = typeOf trx := by
    simp [typeOf, members]
  refine ⟨fresh, freshBuilt, fun key => ?_⟩
  rw [find?_streamRow_eq numberedCopy built, find?_streamRow_eq numbered freshBuilt, sameType]
  split_ifs with isName isType isText
  · rfl
  · rfl
  · subst isText
    rw [members]
    simp only [↓reduceIte, String.reduceEq, Option.map_map]
    congr 1
    funext description
    exact cutDescription_cutDescription _ description
  · rw [find?_headed isObj, find?_headed copyObj]
    split_ifs with isTime isBlock isId
    · rfl
    · rfl
    · rfl
    · rw [members, if_neg isName, if_neg isType, if_neg isText, find?_headed isObj,
        if_neg isTime, if_neg isBlock, if_neg isId]

end Rows

end MileExplorer
