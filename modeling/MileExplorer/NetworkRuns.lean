import MileExplorer.FetchStates
import MileExplorer.Upsert

/-!
# Runs of the loop of the network states

Which snapshots of the network a run of `fetch_states` stores, and which node
`get-wallet-node` then shows for a wallet.  A snapshot is stored exactly when
the height is greater than every height the loop has got before, and as long as
an info that cannot be stored keeps coming, nothing is.
-/

namespace MileExplorer

/-- `update_info` does not throw: the assets can be named, and the version is a
text. -/
def Db.storesInfo (info : Json) : Bool :=
  match Db.infoRow info with
  | .error _ => false
  | .ok row => (row.indexConst "id" >>= Json.getString).isOk

namespace Db

/-! ## The nodes of wallets -/

def nodeWalletRow (call : NodeStates) (address nodeId : Json) (publicKey : String) : Json :=
  .ofMembers [("address", address), ("node-id", nodeId), ("timestamp", .num call.now),
    ("block-id", .str (toString call.blockId)), ("id", .str publicKey)]

/-- The table after the rows of the nodes are stored, up to the first node that
lacks a member. -/
def storeNodes (call : NodeStates) : List Json → Table → Table
  | [], rows => rows
  | item :: rest, rows =>
      match item.constText "public-key", item.indexConst "address", item.indexConst "node-id" with
      | .ok publicKey, .ok address, .ok nodeId =>
          storeNodes call rest (upsert
            (!decide (rows.Has (.str publicKey)) && !decide (rows.Has (.str indexText))) publicKey
            (nodeWalletRow call address nodeId publicKey) rows)
      | _, _, _ => rows

theorem nodeWalletRow_id (call : NodeStates) (address nodeId : Json) (publicKey : String) :
    (nodeWalletRow call address nodeId publicKey).find? "id" = some (.str publicKey) := by
  simp [nodeWalletRow, Json.find?_ofMembers, Json.member?_setMember]

theorem addNodeWallets_run (call : NodeStates) (nodes : List Json) (process : Process) :
    ((addNodeWallets (toString call.blockId) call.now nodes).run Process.exec process).2.store
        .nodeWallets = storeNodes call nodes (process.store .nodeWallets) := by
  induction nodes generalizing process with
  | nil => rfl
  | cons item rest ih =>
      unfold addNodeWallets storeNodes
      cases item.constText "public-key" with
      | error exception => rfl
      | ok publicKey =>
          cases item.indexConst "address" with
          | error exception => rfl
          | ok address =>
              cases item.indexConst "node-id" with
              | error exception => rfl
              | ok nodeId =>
                  dsimp only
                  rw [Program.run_bind, ih, ← nodeWalletRow, run_update publicKey .nodeWallets
                    (nodeWalletRow_id call address nodeId publicKey)]
                  simp [absentIn]

end Db

namespace StatesLoop

/-! ## One iteration -/

/-- The iteration gets as far as the height and the nodes. -/
def passes (loop : StatesLoop) (answer : NodeAnswer) : Bool :=
  answer.connected && (loop.bchInfoGot || answer.info.all Db.storesInfo)

/-- The call of `add_node_states` that an iteration makes. -/
def call (loop : StatesLoop) (answer : NodeAnswer) : Option NodeStates :=
  match answer.network.blockId, answer.network.nodes with
  | some height, some nodes =>
      if loop.passes answer && decide (loop.blockId < height) && !nodes.isEmpty then
        some ⟨nodes, height, answer.network.now⟩
      else none
  | _, _ => none

/-- The variables after an iteration on a database that does not fail. -/
def next (loop : StatesLoop) (answer : NodeAnswer) : StatesLoop :=
  if loop.passes answer then
    ⟨match answer.network.blockId, answer.network.nodes with
      | some height, some _ => max loop.blockId height
      | _, _ => loop.blockId,
      loop.bchInfoGot || answer.info.isSome⟩
  else loop

def calls (loop : StatesLoop) : List NodeAnswer → List NodeStates
  | [] => []
  | answer :: rest => (loop.call answer).toList ++ (loop.next answer).calls rest

/-- The tables about the nodes are what the calls make of them. -/
structure Follows (before after : Process) (calls : List NodeStates) : Prop where
  states : after.store .nodeStates =
    (before.store .nodeStates).insertMany (calls.map NodeStates.row)
  wallets : after.store .nodeWallets =
    calls.foldl (fun rows call => Db.storeNodes call call.nodes.elements rows)
      (before.store .nodeWallets)

theorem Follows.trans {first second third : Process} {earlier later : List NodeStates}
    (before : Follows first second earlier) (after : Follows second third later) :
    Follows first third (earlier ++ later) where
  states := by
    rw [after.states, before.states, List.map_append, KeyedTable.insertMany, KeyedTable.insertMany,
      KeyedTable.insertMany, List.foldl_append]
  wallets := by rw [after.wallets, before.wallets, List.foldl_append]

theorem Follows.refl (process : Process) : Follows process process [] := ⟨rfl, rfl⟩

theorem Follows.of_writes {tables : List TableName} {before after : Process}
    (apart : ∀ table ∈ [TableName.nodeStates, .nodeWallets], table ∉ tables)
    (writes : Writes tables before after) : Follows before after [] :=
  ⟨writes _ (apart _ (by simp)), writes _ (apart _ (by simp))⟩

theorem follows_addNodeStates (call : NodeStates) (process : Process) :
    Follows process ((Db.addNodeStates call.nodes call.blockId call.now).run Process.exec
      process).2 [call] where
  states := Db.addNodeStates_run call.nodes call.blockId call.now process
  wallets := by
    rw [Db.addNodeStates, Program.run_bind, Db.addNodeWallets_run]
    rfl

theorem updateInfo_run (info : Json) (process : Process) :
    ((Db.updateInfo info).run Process.exec process).1.isOk = Db.storesInfo info := by
  unfold Db.updateInfo Db.storesInfo
  cases Db.infoRow info with
  | error exception => rfl
  | ok row =>
      dsimp only
      cases head : row.indexConst "id" >>= Json.getString with
      | error exception =>
          simp only [Db.update, head]
          rfl
      | ok id =>
          rw [Db.run_update "" .blockchainInfo (Json.constText_eq_ok.mp head)]
          rfl

/-- The part about the info ends in an exception or with the new value of
`bch_info_got`. -/
theorem updateInfo_result (loop : StatesLoop) (answer : NodeAnswer) (process : Process) :
    if loop.bchInfoGot || answer.info.all Db.storesInfo then
      ((loop.updateInfo answer).run Process.exec process).1 =
        .ok (loop.bchInfoGot || answer.info.isSome)
    else ∃ exception, ((loop.updateInfo answer).run Process.exec process).1 = .error exception := by
  unfold StatesLoop.updateInfo
  cases got : loop.bchInfoGot with
  | true => simp
  | false =>
      cases given : answer.info with
      | none => simp
      | some info =>
          have stores := updateInfo_run info process
          simp only [Bool.false_or, Option.all_some, Option.isSome_some, Bool.false_eq_true,
            if_false, Program.run_bind]
          cases result : (Db.updateInfo info).run Process.exec process with
          | mk outcome after =>
              rw [result] at stores
              cases outcome with
              | error exception =>
                  simp only [Except.isOk, Except.toBool] at stores
                  simp [← stores]
              | ok _ =>
                  simp only [Except.isOk, Except.toBool] at stores
                  simp [← stores]

theorem updateInfo_writes (loop : StatesLoop) (answer : NodeAnswer) (process : Process) :
    Writes [.blockchainInfo] process ((loop.updateInfo answer).run Process.exec process).2 := by
  refine Writes.run ?_ process
  unfold StatesLoop.updateInfo
  split
  · trivial
  · split
    · trivial
    · refine Program.Steps.bind ?_ fun stored => ?_
      · unfold Db.updateInfo
        split
        · trivial
        · exact (Db.update_steps _ _ (by decide)).mono fun _ _ => And.left
      · split <;> trivial

/-- The part about the nodes, once the info is dealt with. -/
theorem addStates_run (loop : StatesLoop) (got : Bool) (answer : NodeAnswer) (process : Process)
    (passed : loop.passes answer = true) :
    ((addStates { loop with bchInfoGot := got } answer.network).run Process.exec process).1 =
        { loop.next answer with bchInfoGot := got } ∧
      Follows process ((addStates { loop with bchInfoGot := got } answer.network).run Process.exec
        process).2 (loop.call answer).toList := by
  unfold addStates call next
  rw [if_pos passed]
  cases answer.network.blockId with
  | none => exact ⟨rfl, .refl process⟩
  | some height =>
      cases answer.network.nodes with
      | none => exact ⟨rfl, .refl process⟩
      | some nodes =>
          dsimp only
          by_cases known : height ≤ loop.blockId
          · simpa [known, not_lt.mpr known, max_eq_left known] using Follows.refl process
          · have higher := not_le.mp known
            cases empty : nodes.isEmpty with
            | true => simpa [known, max_eq_right higher.le] using Follows.refl process
            | false =>
                simp only [known, passed, higher, max_eq_right higher.le, if_false, decide_true,
                  Bool.and_self, Bool.not_false, if_true, Bool.false_eq_true, Program.run_bind]
                exact ⟨rfl, follows_addNodeStates ⟨nodes, height, answer.network.now⟩ process⟩

theorem iteration_run (loop : StatesLoop) (answer : NodeAnswer) (process : Process) :
    ((loop.iteration answer).run Process.exec process).1 = loop.next answer ∧
      Follows process ((loop.iteration answer).run Process.exec process).2
        (loop.call answer).toList := by
  have skipped (passed : loop.passes answer = false) :
      loop.next answer = loop ∧ loop.call answer = none := by
    constructor
    · simp [next, passed]
    · unfold call
      split <;> simp [passed]
  unfold iteration
  cases connected : answer.connected with
  | false =>
      obtain ⟨same, none⟩ := skipped (by simp [passes, connected])
      rw [same, none]
      exact ⟨rfl, .refl process⟩
  | true =>
      have infoWrites := Follows.of_writes (by decide) (loop.updateInfo_writes answer process)
      have result := loop.updateInfo_result answer process
      simp only [if_true, Program.run_bind]
      split at result
      · rename_i stores
        have passed : loop.passes answer = true := by simpa [passes, connected] using stores
        rw [result]
        obtain ⟨nextEq, follows⟩ := addStates_run loop (loop.bchInfoGot || answer.info.isSome)
          answer ((loop.updateInfo answer).run Process.exec process).2 passed
        refine ⟨?_, infoWrites.trans follows⟩
        rw [nextEq, next, if_pos passed]
      · rename_i stores
        have passed : loop.passes answer = false := by simpa [passes, connected] using stores
        obtain ⟨exception, failed⟩ := result
        obtain ⟨same, none⟩ := skipped passed
        rw [failed, same, none]
        exact ⟨rfl, infoWrites⟩

theorem run_follows (loop : StatesLoop) (answers : List NodeAnswer) (process : Process) :
    Follows process ((loop.run answers).run Process.exec process).2 (loop.calls answers) := by
  induction answers generalizing loop process with
  | nil => exact .refl process
  | cons answer rest ih =>
      obtain ⟨nextEq, follows⟩ := loop.iteration_run answer process
      rw [StatesLoop.run, Program.run_bind, nextEq]
      exact follows.trans (ih _ _)

/-! ## Which snapshots are stored -/

/-- An info that can be stored has come before the position. -/
def InfoBefore (answers : List NodeAnswer) (index : Nat) : Prop :=
  ∃ earlier < index, ∃ answer, answers[earlier]? = some answer ∧ answer.connected = true ∧
    ∃ info, answer.info = some info ∧ Db.storesInfo info = true

/-- The loop looks at the height and the nodes that come at the position. -/
def Hears (loop : StatesLoop) (answers : List NodeAnswer) (index : Nat) (heard : NodeStates) :
    Prop :=
  ∃ answer, answers[index]? = some answer ∧ answer.connected = true ∧
    answer.network = ⟨some heard.blockId, some heard.nodes, heard.now⟩ ∧
    (answer.info.all Db.storesInfo = true ∨ loop.bchInfoGot = true ∨ InfoBefore answers index)

/-- The height is greater than every height the loop has looked at before, and
there are nodes. -/
structure Records (loop : StatesLoop) (answers : List NodeAnswer) (index : Nat)
    (call : NodeStates) : Prop where
  hears : loop.Hears answers index call
  above : loop.blockId < call.blockId
  higher : ∀ earlier < index, ∀ other, loop.Hears answers earlier other →
    other.blockId < call.blockId
  nonempty : call.nodes.isEmpty = false

section Step

variable {loop : StatesLoop} {answer : NodeAnswer} {rest : List NodeAnswer} {index : Nat}
  {call : NodeStates}

theorem infoBefore_succ :
    InfoBefore (answer :: rest) (index + 1) ↔
      (answer.connected = true ∧ ∃ info, answer.info = some info ∧ Db.storesInfo info = true) ∨
        InfoBefore rest index := by
  constructor
  · rintro ⟨earlier, before, other, found, stored⟩
    cases earlier with
    | zero =>
        obtain rfl : answer = other := by simpa using found
        exact .inl stored
    | succ earlier => exact .inr ⟨earlier, by omega, other, by simpa using found, stored⟩
  · rintro (stored | ⟨earlier, before, other, found, stored⟩)
    · exact ⟨0, by omega, answer, rfl, stored⟩
    · exact ⟨earlier + 1, by omega, other, by simpa using found, stored⟩

theorem hears_zero :
    loop.Hears (answer :: rest) 0 call ↔
      loop.passes answer = true ∧
        answer.network = ⟨some call.blockId, some call.nodes, call.now⟩ := by
  have nothing : ¬ InfoBefore (answer :: rest) 0 := by
    rintro ⟨earlier, before, -⟩
    omega
  simp only [Hears, List.getElem?_cons_zero, Option.some.injEq, exists_eq_left', nothing, or_false,
    passes, Bool.and_eq_true, Bool.or_eq_true]
  tauto

theorem next_got :
    (loop.next answer).bchInfoGot = true ↔ loop.bchInfoGot = true ∨
      (answer.connected = true ∧ ∃ info, answer.info = some info ∧ Db.storesInfo info = true) := by
  unfold next
  cases got : loop.bchInfoGot <;> cases connected : answer.connected <;>
    cases given : answer.info <;> simp [passes, got, connected, given]
  rename_i info
  cases Db.storesInfo info <;> simp [got]

theorem hears_succ :
    loop.Hears (answer :: rest) (index + 1) call ↔
      (loop.next answer).Hears rest index call := by
  simp only [Hears, List.getElem?_cons_succ, infoBefore_succ, next_got, or_assoc]

theorem next_blockId_lt {height : Nat} :
    (loop.next answer).blockId < height ↔ loop.blockId < height ∧
      ∀ other, loop.Hears (answer :: rest) 0 other → other.blockId < height := by
  simp only [hears_zero]
  cases passed : loop.passes answer with
  | false => simp [next, passed]
  | true =>
      simp only [next, passed, if_true, true_and]
      obtain ⟨blockId, nodes, now⟩ := answer.network
      cases blockId with
      | none => simp
      | some first =>
          cases nodes with
          | none => simp
          | some nodes =>
              rw [max_lt_iff]
              refine and_congr_right fun _ => ⟨?_, fun above => above ⟨nodes, first, now⟩ rfl⟩
              rintro below other same
              obtain ⟨rfl, -⟩ : first = other.blockId ∧ _ := by simpa using same
              exact below

theorem records_succ :
    loop.Records (answer :: rest) (index + 1) call ↔
      (loop.next answer).Records rest index call := by
  constructor
  · rintro ⟨hears, above, higher, nonempty⟩
    refine ⟨hears_succ.mp hears, next_blockId_lt.mpr ⟨above, higher 0 (by omega)⟩, ?_, nonempty⟩
    exact fun earlier before other heard => higher (earlier + 1) (by omega) other
      (hears_succ.mpr heard)
  · rintro ⟨hears, above, higher, nonempty⟩
    obtain ⟨abovePrevious, aboveFirst⟩ := next_blockId_lt.mp above
    refine ⟨hears_succ.mpr hears, abovePrevious, fun earlier before other heard => ?_, nonempty⟩
    cases earlier with
    | zero => exact aboveFirst other heard
    | succ earlier => exact higher earlier (by omega) other (hears_succ.mp heard)

theorem records_zero :
    loop.Records (answer :: rest) 0 call ↔ loop.call answer = some call := by
  have unfolded : loop.Records (answer :: rest) 0 call ↔
      (loop.passes answer = true ∧
        answer.network = ⟨some call.blockId, some call.nodes, call.now⟩) ∧
        loop.blockId < call.blockId ∧ call.nodes.isEmpty = false := by
    rw [← hears_zero]
    constructor
    · rintro ⟨hears, above, -, nonempty⟩
      exact ⟨hears, above, nonempty⟩
    · rintro ⟨hears, above, nonempty⟩
      exact ⟨hears, above, fun earlier before => absurd before (by omega), nonempty⟩
  rw [unfolded, StatesLoop.call]
  obtain ⟨blockId, nodes, now⟩ := answer.network
  cases blockId with
  | none => simp
  | some height =>
      cases nodes with
      | none => simp
      | some nodes =>
          obtain ⟨called, calledHeight, calledNow⟩ := call
          simp only [NetworkAnswer.mk.injEq, Option.some.injEq, Bool.and_eq_true,
            decide_eq_true_eq, Bool.not_eq_true', Option.ite_none_right_eq_some,
            NodeStates.mk.injEq]
          grind

end Step

theorem mem_calls {loop : StatesLoop} {answers : List NodeAnswer} {call : NodeStates} :
    call ∈ loop.calls answers ↔ ∃ index, loop.Records answers index call := by
  induction answers generalizing loop with
  | nil =>
      simp only [calls, List.not_mem_nil, false_iff, not_exists]
      rintro index ⟨⟨answer, found, -⟩, -⟩
      simp at found
  | cons answer rest ih =>
      rw [calls, List.mem_append, Option.mem_toList, ih]
      constructor
      · rintro (first | ⟨index, later⟩)
        · exact ⟨0, records_zero.mpr first⟩
        · exact ⟨index + 1, records_succ.mpr later⟩
      · rintro ⟨index, records⟩
        cases index with
        | zero => exact .inl (records_zero.mp records)
        | succ index => exact .inr ⟨index, records_succ.mp records⟩

theorem calls_increasing (loop : StatesLoop) (answers : List NodeAnswer) :
    ((loop.calls answers).map NodeStates.blockId).Pairwise (· < ·) := by
  induction answers generalizing loop with
  | nil => simp [calls]
  | cons answer rest ih =>
      rw [calls, List.map_append, List.pairwise_append]
      refine ⟨?_, ih _, ?_⟩
      · cases loop.call answer <;> simp
      · intro first firstMem later laterMem
        obtain ⟨call, called, rfl⟩ := List.mem_map.mp firstMem
        obtain ⟨other, otherMem, rfl⟩ := List.mem_map.mp laterMem
        obtain ⟨index, records⟩ := mem_calls.mp otherMem
        have heard : loop.Records (answer :: rest) 0 call :=
          records_zero.mpr (Option.mem_toList.mp called)
        exact (records_succ.mpr records).higher 0 (by omega) call heard.hears

/-- The table of the snapshots after a run: a snapshot is added for every height
that is greater than all the loop has looked at before, unless the table has
one under that height. -/
theorem snapshots_of_run (answers : List NodeAnswer) (process : Process) (row : Json) :
    row ∈ (((start.run answers).run Process.exec process).2.store .nodeStates).rows ↔
      row ∈ (process.store .nodeStates).rows ∨
        ∃ index call, start.Records answers index call ∧ row = call.row ∧
          ¬ (process.store .nodeStates).Has (.str (toString call.blockId)) := by
  have keysEq : (start.calls answers).map (fun call => docId call.row) =
      ((start.calls answers).map NodeStates.blockId).map fun height =>
        Json.str (toString height) := by
    simp [NodeStates.docId_row]
  have distinct : (((start.calls answers).map NodeStates.row).map docId).Nodup := by
    rw [List.map_map]
    refine (congrArg List.Nodup keysEq).mpr (List.Nodup.map ?_ ?_)
    · exact fun first second same => toString_injective (Json.str.inj same)
    · exact (start.calls_increasing answers).imp Nat.ne_of_lt
  rw [(run_follows start answers process).states, KeyedTable.mem_insertMany distinct,
    List.mem_map]
  refine or_congr_right ⟨?_, ?_⟩
  · rintro ⟨⟨call, called, rfl⟩, absent⟩
    obtain ⟨index, records⟩ := mem_calls.mp called
    exact ⟨index, call, records, rfl, call.docId_row ▸ absent⟩
  · rintro ⟨index, call, records, rfl, absent⟩
    exact ⟨⟨call, mem_calls.mpr ⟨index, records⟩, rfl⟩, call.docId_row.symm ▸ absent⟩

end StatesLoop

end MileExplorer
