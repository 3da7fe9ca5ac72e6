import MileExplorer.Chain
import MileExplorer.Footprints
import MileExplorer.Getters

/-!
# Snapshots of the network

`fetch_states` stores a snapshot of the nodes whenever the height of the chain
has grown, under the decimal text of the height.  The getters of the backend
read the snapshot with the greatest key, and keys are compared as texts.
-/

namespace MileExplorer

namespace Db

def addNodeWallets (id : String) (now : Int) : List Json → Prog (Except Exn Unit)
  | [] => return .ok ()
  | item :: rest =>
      match item.constText "public-key", item.indexConst "address", item.indexConst "node-id" with
      | .ok publicKey, .ok address, .ok nodeId => do
          let _ ← update publicKey .nodeWallets (.ofMembers
            [("address", address), ("node-id", nodeId), ("timestamp", .num now),
              ("block-id", .str id), ("id", .str publicKey)])
          addNodeWallets id now rest
      | .error exception, _, _ => return .error exception
      | _, .error exception, _ => return .error exception
      | _, _, .error exception => return .error exception

def nodeStatesRow (nodes : Json) (blockId : Nat) : Json :=
  .ofMembers [("nodes", nodes), ("id", .str (toString blockId))]

def addNodeStates (nodes : Json) (blockId : Nat) (now : Int) : Prog (Except Exn Unit) := do
  insert (.insert .nodeStates (toString blockId)) .nodeStates (nodeStatesRow nodes blockId)
  addNodeWallets (toString blockId) now nodes.elements

end Db

def Json.isEmpty : Json → Bool
  | .null => true
  | .arr elements => elements.isEmpty
  | .obj members => members.isEmpty
  | _ => false

structure NodeStates where
  nodes : Json
  blockId : Nat
  now : Int

def NodeStates.row (call : NodeStates) : Json := Db.nodeStatesRow call.nodes call.blockId

/-- What one iteration of `fetch_states` gets from a node: the height and the
nodes, where it gets them. -/
structure NetworkAnswer where
  blockId : Option Nat
  nodes : Option Json
  now : Int

/-- The calls that `fetch_states` makes.  A height is used once. -/
def fetchStates (blockId : Nat) : List NetworkAnswer → List NodeStates
  | [] => []
  | answer :: rest =>
      match answer.blockId, answer.nodes with
      | some next, some nodes =>
          if next ≤ blockId then fetchStates blockId rest
          else if nodes.isEmpty then fetchStates next rest
          else ⟨nodes, next, answer.now⟩ :: fetchStates next rest
      | _, _ => fetchStates blockId rest

/-- The heights of the calls of one run only grow. -/
theorem fetchStates_increasing (blockId : Nat) (answers : List NetworkAnswer) :
    ((blockId :: (fetchStates blockId answers).map NodeStates.blockId)).Pairwise (· < ·) := by
  induction answers generalizing blockId with
  | nil => simp [fetchStates]
  | cons answer rest ih =>
      unfold fetchStates
      split
      · rename_i next nodes _ _
        split_ifs with known empty
        · exact ih blockId
        · refine List.pairwise_cons.mpr ⟨fun later member => ?_, (ih next).tail⟩
          exact lt_trans (not_le.mp known) ((List.pairwise_cons.mp (ih next)).1 later member)
        · refine List.pairwise_cons.mpr ⟨fun later member => ?_, ih next⟩
          rcases List.mem_cons.mp member with rfl | after
          · exact not_le.mp known
          · exact lt_trans (not_le.mp known) ((List.pairwise_cons.mp (ih next)).1 later after)
      · exact ih blockId

def addAllNodeStates (process : Process) (calls : List NodeStates) : Process :=
  calls.foldl (fun process call =>
    ((Db.addNodeStates call.nodes call.blockId call.now).run Process.exec process).2) process

namespace Db

theorem addNodeWallets_steps (id : String) (now : Int) (nodes : List Json) :
    (addNodeWallets id now nodes).Steps Process.exec (Writes [.nodeWallets]) := by
  induction nodes with
  | nil => trivial
  | cons item rest ih =>
      unfold addNodeWallets
      split
      · refine Program.Steps.bind ?_ fun _ => ih
        exact (update_steps _ _ (by simp)).mono fun _ _ writes => writes.1
      · trivial
      · trivial
      · trivial

/-- A call inserts its snapshot and leaves the others. -/
theorem addNodeStates_run (nodes : Json) (blockId : Nat) (now : Int) (process : Process) :
    ((addNodeStates nodes blockId now).run Process.exec process).2.store .nodeStates =
      (process.store .nodeStates).insert (nodeStatesRow nodes blockId) := by
  rw [addNodeStates, Program.run_bind]
  refine (Writes.run (addNodeWallets_steps _ _ _) _ .nodeStates (by decide)).trans ?_
  simp [insert, Program.request, Process.exec, Process.execFaulty, insertEffect, nodeStatesRow,
    Json.ofMembers]

end Db

theorem addAllNodeStates_store (process : Process) (calls : List NodeStates) :
    (addAllNodeStates process calls).store .nodeStates =
      (process.store .nodeStates).insertMany (calls.map NodeStates.row) := by
  induction calls generalizing process with
  | nil => simp [addAllNodeStates]
  | cons call rest ih =>
      rw [List.map_cons, KeyedTable.insertMany_cons, NodeStates.row,
        ← Db.addNodeStates_run _ _ call.now process]
      exact ih _

/-! ## The snapshot that is shown -/

def Shows (store : Store) (call : NodeStates) : Prop :=
  getDataOf (Db.networkState store) = call.row ∧
  ∀ first limit, getDataOf (Db.nodes first limit store) =
    getDataOf (Cursor.slice (fun _ => .ok call.nodes) first limit store)

theorem NodeStates.find?_id (call : NodeStates) :
    call.row.find? "id" = some (.str (toString call.blockId)) := by
  rw [row, Db.nodeStatesRow, Json.find?_ofMembers]
  simp only [List.foldl, Json.member?_setMember]
  rfl

theorem NodeStates.find?_nodes (call : NodeStates) :
    call.row.find? "nodes" = some call.nodes := by
  rw [row, Db.nodeStatesRow, Json.find?_ofMembers]
  simp only [List.foldl, Json.member?_setMember]
  rfl

theorem NodeStates.docId_row (call : NodeStates) :
    docId call.row = .str (toString call.blockId) :=
  docId_of_find? call.find?_id

/-- The row that is shown has a key that no other key exceeds. -/
theorem shows_iff {store : Store} {call : NodeStates} :
    Shows store call ↔ call.row ∈ (store .nodeStates).rows ∧
      ∀ row ∈ (store .nodeStates).rows,
        (docId row).sortKey ≤ (Json.str (toString call.blockId)).sortKey := by
  constructor
  · rintro ⟨shown, -⟩
    rw [getDataOf_eq_document call.find?_id, Db.networkState, Cursor.max_eq] at shown
    split at shown
    · rename_i last lastEq
      obtain rfl := Except.ok.inj shown
      have stored := Cursor.mem_ordered.mp (List.mem_of_getLast? lastEq)
      refine ⟨stored.1, fun row member => ?_⟩
      rw [← call.docId_row]
      cases idEq : row.find? "id" with
      | none => simp [docId, idEq, call.find?_id, Json.sortKey, Prod.Lex.toLex_le_toLex]
      | some id =>
          exact Cursor.rank_le_getLast lastEq (Cursor.mem_ordered.mpr ⟨member, by simp [idEq]⟩)
    · simp at shown
  · rintro ⟨stored, greatest⟩
    have yields : Db.networkState store = .ok call.row := by
      rw [Db.networkState, Cursor.max_eq]
      have member : call.row ∈ Cursor.ordered "id" (store .nodeStates).rows :=
        Cursor.mem_ordered.mpr ⟨stored, by simp [call.find?_id]⟩
      cases lastEq : (Cursor.ordered "id" (store .nodeStates).rows).getLast? with
      | none => simp [List.getLast?_eq_none_iff.mp lastEq] at member
      | some last =>
          have lastStored := (Cursor.mem_ordered.mp (List.mem_of_getLast? lastEq)).1
          have above : (docId call.row).sortKey ≤ (docId last).sortKey :=
            Cursor.rank_le_getLast lastEq member
          rw [call.docId_row] at above
          have same := Json.sortKey_eq_str (le_antisymm (greatest last lastStored) above)
          rw [KeyedTable.eq_of_key_eq lastStored stored (same.trans call.docId_row.symm)]
    refine ⟨(getDataOf_eq_document call.find?_id).mpr yields, fun first limit => ?_⟩
    have nodes := Cursor.field_of_find? yields call.find?_nodes
    simp [Db.nodes, Cursor.slice, nodes]

/-- The call is the newest by its key: no earlier call and no row that was
there has a greater text, and a row under the same text is the snapshot. -/
def NewestByText (before : Table) (earlier : List NodeStates) (call : NodeStates) : Prop :=
  (∀ other ∈ earlier, toString other.blockId ≤ toString call.blockId) ∧
  ∀ row ∈ before.rows,
    (docId row).sortKey ≤ (Json.str (toString call.blockId)).sortKey ∧
      (docId row = .str (toString call.blockId) → row = call.row)

/-- After calls with growing heights the getters answer from the last snapshot
exactly if it is the newest by its text. -/
theorem newest_shown_iff (process : Process) (earlier : List NodeStates) (call : NodeStates)
    (increasing : ((earlier ++ [call]).map NodeStates.blockId).Pairwise (· < ·)) :
    Shows (addAllNodeStates process (earlier ++ [call])).store call ↔
      NewestByText (process.store .nodeStates) earlier call := by
  have below : ∀ other ∈ earlier, other.blockId < call.blockId := by
    rw [List.map_append, List.pairwise_append] at increasing
    intro other member
    exact increasing.2.2 _ (List.mem_map_of_mem member) _ (by simp)
  have known : ∀ other ∈ earlier ++ [call], ((process.store .nodeStates).insertMany
      ((earlier ++ [call]).map NodeStates.row)).Has (docId other.row) := fun other member =>
    KeyedTable.has_insertMany.mpr (.inr ⟨other.row, List.mem_map_of_mem member, rfl⟩)
  rw [shows_iff, addAllNodeStates_store]
  constructor
  · rintro ⟨stored, greatest⟩
    refine ⟨fun other member => ?_, fun row member => ?_⟩
    · obtain ⟨row, rowMem, keyEq⟩ := known other (List.mem_append_left _ member)
      have before := greatest row rowMem
      rwa [keyEq, other.docId_row, Json.sortKey_str_le] at before
    · have kept : row ∈ ((process.store .nodeStates).insertMany
          ((earlier ++ [call]).map NodeStates.row)).rows := KeyedTable.mem_insertMany_of_mem member
      refine ⟨greatest row kept, fun same => ?_⟩
      exact KeyedTable.eq_of_key_eq kept stored (same.trans call.docId_row.symm)
  · rintro ⟨afterCalls, afterRows⟩
    have cases : ∀ row ∈ ((process.store .nodeStates).insertMany
        ((earlier ++ [call]).map NodeStates.row)).rows,
        row ∈ (process.store .nodeStates).rows ∨ (∃ other ∈ earlier, row = other.row) ∨
          row = call.row := by
      intro row member
      rcases KeyedTable.mem_of_mem_insertMany member with old | new
      · exact .inl old
      · obtain ⟨other, otherMem, rfl⟩ := List.mem_map.mp new
        rcases List.mem_append.mp otherMem with isEarlier | isCall
        · exact .inr (.inl ⟨other, isEarlier, rfl⟩)
        · exact .inr (.inr (by rw [List.mem_singleton.mp isCall]))
    refine ⟨?_, fun row member => ?_⟩
    · obtain ⟨row, member, keyEq⟩ := known call (by simp)
      rw [call.docId_row] at keyEq
      rcases cases row member with old | ⟨other, isEarlier, rfl⟩ | rfl
      · exact (afterRows row old).2 keyEq ▸ member
      · rw [other.docId_row] at keyEq
        have sameId := toString_injective (Json.str.inj keyEq)
        exact absurd sameId (below other isEarlier).ne
      · exact member
    · rcases cases row member with old | ⟨other, isEarlier, rfl⟩ | rfl
      · exact (afterRows row old).1
      · rw [other.docId_row, Json.sortKey_str_le]
        exact afterCalls other isEarlier
      · rw [call.docId_row]

def snapshotAt (height : Nat) : NodeStates :=
  ⟨.arr [.ofMembers [("public-key", .str "k"), ("address", .str "a"), ("node-id", .num height)]],
    height, 0⟩

theorem newest_shown_iff_nine :
    (([snapshotAt 8] ++ [snapshotAt 9]).map NodeStates.blockId).Pairwise (· < ·) ∧
    Shows (addAllNodeStates (Process.idle Store.empty) ([snapshotAt 8] ++ [snapshotAt 9])).store
      (snapshotAt 9) := by
  have increasing : (([snapshotAt 8] ++ [snapshotAt 9]).map NodeStates.blockId).Pairwise
      (· < ·) := by decide
  refine ⟨increasing, (newest_shown_iff _ [snapshotAt 8] (snapshotAt 9) increasing).mpr ⟨?_, ?_⟩⟩
  · decide +kernel
  · intro row member
    simp [Process.idle, Store.empty] at member

/-- The text of 10 is below that of 9. -/
theorem older_snapshot_shown :
    ¬ ∀ (process : Process) (earlier : List NodeStates) (call : NodeStates),
      ((earlier ++ [call]).map NodeStates.blockId).Pairwise (· < ·) →
        Shows (addAllNodeStates process (earlier ++ [call])).store call := by
  intro always
  have shown := (always (Process.idle Store.empty) [snapshotAt 9] (snapshotAt 10) (by decide)).1
  exact absurd shown (by decide +kernel)

end MileExplorer
