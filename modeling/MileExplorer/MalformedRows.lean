import MileExplorer.ConnectableBlocks
import MileExplorer.QueuePasses
import MileExplorer.StreamPass

/-!
# Rows that a loop cannot read

A queued block without transactions makes `block_changes` throw, and a pending
row without a type makes the item loop throw.  Neither exception is caught
inside the item loop, and the next pass reads the rows in the same order: what
comes after the row is held up for ever.
-/

namespace MileExplorer

/-! ## The queue of blocks -/

/-- The document as it is stored: the database gives it the key if it has no id. -/
def withKey (key : String) (document : Json) : Json :=
  if (document.find? "id").isSome then document else document.set "id" (.str key)

/-- The rows that `add_block` has made of blocks with whatever members. -/
def AddedBlocks (platform : Platform) (table : Table) : Prop :=
  ∀ row ∈ table.rows, ∃ (block built : Json) (number : Nat) (now : Int) (key : String),
    blockRow platform block number now = .ok built ∧ row = withKey key built

theorem find?_withKey {key name : String} {document : Json} (isObj : document.isObject = true)
    (other : name ≠ "id") : (withKey key document).find? name = document.find? name := by
  unfold withKey
  split_ifs
  · rfl
  · rw [Json.find?_set _ isObj, if_neg (Ne.symm other)]

theorem blockRow_indexed {platform : Platform} {block built : Json} {number : Nat} {now : Int}
    (made : blockRow platform block number now = .ok built) :
    number < 2 ^ 64 ∧ built.find? "block-id" = some (.num number) ∧
      ∃ time, built.find? "timestamp" = some (.num time) := by
  obtain ⟨stored, numbered, rest⟩ := bind_eq_ok.mp made
  unfold stoull at numbered
  split_ifs at numbered with small
  obtain rfl := Except.ok.inj numbered
  refine ⟨small, ?_⟩
  cases block with
  | obj entries =>
      obtain ⟨time, -, done⟩ := bind_eq_ok.mp rest
      obtain rfl := Except.ok.inj done
      have isObj : (Json.obj entries).isObject = true := rfl
      refine ⟨?_, time, ?_⟩ <;> simp [isObj]
  | null =>
      obtain rfl := Except.ok.inj rest
      refine ⟨?_, now, ?_⟩ <;> simp [Json.find?_ofMembers, Json.member?_setMember]
  | _ => cases rest

theorem AddedBlocks.members {platform : Platform} {table : Table}
    (added : AddedBlocks platform table) {row : Json} (member : row ∈ table.rows) :
    HasNumber row ∧ ∃ time, row.find? "timestamp" = some (.num time) := by
  obtain ⟨block, built, number, now, key, made, rfl⟩ := added row member
  obtain ⟨small, indexed, time, timed⟩ := blockRow_indexed made
  have isObj := Json.isObject_of_find? indexed
  have bidEq : (withKey key built).find? "block-id" = some (.num number) := by
    rw [find?_withKey isObj (by decide), indexed]
  rw [HasNumber, blockOf_eq bidEq]
  exact ⟨⟨small, bidEq⟩, time, by rw [find?_withKey isObj (by decide), timed]⟩

theorem AddedBlocks.hasWork_iff {platform : Platform} {table : Table}
    (added : AddedBlocks platform table) {row : Json} (member : row ∈ table.rows) :
    HasWork row ↔ ∃ transactions, row.find? "transactions" = some transactions := by
  obtain ⟨-, time, timed⟩ := added.members member
  constructor
  · intro works
    obtain ⟨_, work⟩ := MileExplorer.hasWork_iff.mp works
    obtain ⟨_, -, rest⟩ := bind_eq_ok.mp work
    obtain ⟨_, -, rest⟩ := bind_eq_ok.mp rest
    obtain ⟨transactions, found, -⟩ := bind_eq_ok.mp rest
    exact ⟨transactions, Json.find?_of_at? found⟩
  · rintro ⟨transactions, listed⟩
    exact MileExplorer.hasWork_iff.mpr ⟨_, Db.itemWork_of_find? timed listed⟩

/-- The rows that `add_transactions` has made: of transactions with whatever
members, and markers. -/
def AddedRows (platform : Platform) (table : Table) : Prop :=
  ∀ row ∈ table.rows,
    (∃ (trx : Json) (blockId : Nat) (time : Int) (uniqId : String),
      streamRow platform blockId time uniqId trx = .ok row) ∨
    ∃ (blockId : Nat) (time : Int), row = Db.markerRow blockId time

theorem AddedRows.keyed {platform : Platform} {store : Store}
    (added : AddedRows platform (store .transactionsProcessing)) : PendingKeyed store := by
  intro row member
  rcases added row member with ⟨trx, blockId, time, uniqId, built⟩ | ⟨blockId, time, rfl⟩
  · exact ⟨blockId, streamRow_isRowOf built⟩
  · refine ⟨blockId, toString blockId, ?_, ?_⟩ <;>
      simp [Db.markerRow, Json.find?_ofMembers, Json.member?_setMember]

section Stream

variable {process : Process} {store : Store}

theorem PendingKeyed.isSound_iff (keyed : PendingKeyed store) {row : Json}
    (member : row ∈ (store .transactionsProcessing).rows) :
    isSound row = true ↔ row.find? "transaction-type" ≠ none := by
  obtain ⟨number, id, idEq, bidEq⟩ := keyed row member
  rw [MileExplorer.isSound_iff]
  constructor
  · rintro ⟨⟨bid, trxid, type⟩, head⟩
    rw [(find?_of_itemHead head).2]
    simp
  · intro typed
    obtain ⟨type, typeEq⟩ := Option.ne_none_iff_exists'.mp typed
    exact ⟨_, itemHead_eq idEq bidEq typeEq⟩

end Stream

end MileExplorer
