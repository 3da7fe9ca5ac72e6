import MileExplorer.StreamThreads

/-!
# The workers of the transaction queue

A stream job puts a row for every id of its block into
`transactions_processing` before it is completed.  The check for a known row
asks for the block id, which no row of a block with a list of transactions
has, so no transaction is left out.
-/

namespace MileExplorer

variable {platform : Platform} {chain : Chain}

structure Gathered (chain : Chain) (process : Process) (ids : List String)
    (rows : List Json) : Prop where
  isStream : ∀ row ∈ rows, IsStreamRow chain process row
  complete : ∀ id ∈ ids, ∃ row ∈ rows, docId row = .str id

theorem Gathered.mono {before after : Process} {ids : List String} {rows : List Json}
    (gathered : Gathered chain before ids rows) (grows : Grows chain before after) :
    Gathered chain after ids rows :=
  ⟨fun row member => (gathered.isStream row member).mono grows, gathered.complete⟩

theorem Gathered.push {process : Process} {ids : List String} {rows : List Json}
    (gathered : Gathered chain process ids rows) {row : Json} {id : String}
    (isStream : IsStreamRow chain process row) (idEq : row.find? "id" = some (.str id)) :
    Gathered chain process (ids ++ [id]) (rows ++ [row]) where
  isStream other member := by
    rcases List.mem_append.mp member with old | new
    · exact gathered.isStream other old
    · rw [List.mem_singleton.mp new]
      exact isStream
  complete other member := by
    rcases List.mem_append.mp member with old | new
    · obtain ⟨found, foundMem, foundId⟩ := gathered.complete other old
      exact ⟨found, by simp [foundMem], foundId⟩
    · rw [List.mem_singleton.mp new]
      exact ⟨row, by simp, docId_of_find? idEq⟩

theorem Valid.not_has_marker {process : Process} (valid : Valid platform chain process)
    {number : Nat} {list : List Json}
    (listed : (chain number).json.find? "transactions" = some (.arr list)) :
    ¬ (process.store .transactionsProcessing).Has (.str (toString number)) := by
  rintro ⟨row, member, rowId⟩
  have idEq := find?_id_of_docId rowId
  rcases valid.pending row member with
    ⟨other, id, idMem, -, otherId, -⟩ | ⟨other, otherId, -, -, -, unlisted⟩
  · rw [otherId] at idEq
    exact Chain.ids_ne_toString idMem (Json.str.inj (Option.some.inj idEq))
  · rw [otherId] at idEq
    obtain rfl := toString_injective (Json.str.inj (Option.some.inj idEq))
    exact unlisted list listed

namespace Db

variable {process : Process} {number : Nat} {list : List Json}

/-- The rows for the addresses of one transaction. -/
theorem addStreamEntries_holds (small : number < 2 ^ 64)
    (listed : (chain number).json.find? "transactions" = some (.arr list)) (time : Int)
    (entries : List (String × String)) {trx : Json} {output : List Json} {ids : List String}
    (streamable : Streamable platform trx)
    (members : ∀ entry ∈ entries, entry.2 ∈ chain.ids number)
    (known : process.Known number) (gathered : Gathered chain process ids output) :
    (addStreamEntries platform number time trx output entries).Holds Process.exec
      ((indexing platform chain).contract .worker)
      (fun result final => ∃ rows, result = .ok rows ∧ Grows chain process final ∧
        Gathered chain final (ids ++ entries.map Prod.snd) rows) process := by
  induction entries generalizing trx output ids process with
  | nil => exact ⟨output, rfl, .refl process, by simpa using gathered⟩
  | cons entry rest ih =>
      obtain ⟨address, id⟩ := entry
      refine getData_bind_holds fun current (moved : Grows chain process current)
        (valid : Valid platform chain current) => ?_
      simp only [Cursor.count_get, valid.not_has_marker listed, if_false]
      obtain ⟨row, built, rowStreamable, idEq, bidEq, typed⟩ :=
        streamable.streamRow small time id
      have currentKnown := moved.known number known
      have isStream : IsStreamRow chain current row :=
        ⟨number, id, members (address, id) (by simp), currentKnown, idEq, bidEq, small, typed⟩
      rw [built]
      refine (ih rowStreamable (fun entry member => members entry (by simp [member]))
        currentKnown ((gathered.mono moved).push isStream idEq)).mono ?_
      rintro result final ⟨rows, rfl, grows, complete⟩
      exact ⟨rows, rfl, moved.trans grows, by simpa using complete⟩

/-- The rows for a list of well-formed transactions of the block. -/
theorem addStreamTransactions_holds (small : number < 2 ^ 64)
    (listed : (chain number).json.find? "transactions" = some (.arr list)) (time : Int)
    (rest : List Json) {output : List Json} {ids : List String}
    (wellFormed : ∀ trx ∈ rest, WellFormed platform trx) (inside : ∀ trx ∈ rest, trx ∈ list)
    (known : process.Known number) (gathered : Gathered chain process ids output) :
    (addStreamTransactions platform number time output rest).Holds Process.exec
      ((indexing platform chain).contract .worker)
      (fun result final => ∃ rows, result = .ok rows ∧ Grows chain process final ∧
        Gathered chain final (ids ++ rest.flatMap (yields number)) rows) process := by
  induction rest generalizing output ids process with
  | nil => exact ⟨output, rfl, .refl process, by simpa using gathered⟩
  | cons trx rest ih =>
      have trxFormed := wellFormed trx (by simp)
      obtain ⟨entries, found⟩ := trxFormed.findPublicKeys_ok (toString number)
      have yielded : yields number trx = entries.map Prod.snd := by rw [yields, found]
      have members : ∀ entry ∈ entries, entry.2 ∈ chain.ids number := by
        intro entry member
        rw [Chain.ids, listed]
        refine List.mem_flatMap.mpr ⟨trx, inside trx (by simp), ?_⟩
        rw [yielded]
        exact List.mem_map_of_mem member
      simp only [addStreamTransactions, addStreamTransaction, found]
      refine (addStreamEntries_holds small listed time entries trxFormed.toStreamable members
        known gathered).bind ?_
      rintro result middle ⟨rows, rfl, grows, complete⟩
      refine (ih (fun other member => wellFormed other (by simp [member]))
        (fun other member => inside other (by simp [member])) (grows.known number known)
        complete).mono ?_
      rintro result final ⟨allRows, rfl, later, allComplete⟩
      refine ⟨allRows, rfl, grows.trans later, ?_⟩
      simpa [yielded] using allComplete

theorem streamJob_holds (chainFormed : chain.WellFormed platform) (small : number < 2 ^ 64)
    (listed : (chain number).json.find? "transactions" = some (.arr list)) (time : Int)
    (known : process.Known number) :
    (streamJob platform (.arr list) number time).Holds Process.exec
      ((indexing platform chain).contract .worker)
      (fun _ final => ∀ id ∈ chain.ids number, final.Covered id) process := by
  have idsEq : chain.ids number = list.flatMap (yields number) := by
    rw [Chain.ids, listed]
    rfl
  have nothing : Gathered chain process [] [] := ⟨by simp, by simp⟩
  refine (addStreamTransactions_holds small listed time list (chainFormed number list listed)
    (fun _ member => member) known nothing).bind ?_
  rintro result middle ⟨rows, rfl, grows, complete⟩
  rw [List.nil_append, ← idsEq] at complete
  intro current (moved : Grows chain middle current)
    (valid : Valid platform chain current) _
  by_cases empty : rows = []
  · have unchanged : (Process.exec (.write (.insert .transactionsProcessing (toString number))
        (insertEffect .transactionsProcessing (streamValue rows))) current).2 = current := by
      simp [Process.exec, Process.execFaulty, insertEffect, streamValue, empty]
    rw [unchanged]
    refine ⟨valid, (indexing platform chain).guaranteeRefl .worker current, ?_⟩
    intro id member
    obtain ⟨row, rowMem, -⟩ := complete.complete id member
    simp [empty] at rowMem
  · have stored : insertEffect .transactionsProcessing (streamValue rows) current.store =
        .ok (Function.update current.store .transactionsProcessing
          ((current.store .transactionsProcessing).insertMany rows)) := by
      simp [insertEffect, streamValue, empty]
    rw [Process.exec_write_of_ok stored]
    have nowGathered := complete.mono moved
    refine ⟨valid.withPending fun row member => ?_, ⟨.withPending ?_, ⟨rfl, fun _ has => has⟩,
      fun has => has⟩, fun id member => .inr ?_⟩
    · rcases KeyedTable.mem_of_mem_insertMany member with old | new
      · exact valid.pending row old
      · exact .inl (nowGathered.isStream row new)
    · exact fun _ id _ covered => covered.imp_right fun pending =>
        KeyedTable.has_insertMany.mpr (.inl pending)
    · obtain ⟨row, rowMem, rowId⟩ := complete.complete id member
      exact KeyedTable.has_insertMany.mpr (.inr ⟨row, rowMem, rowId⟩)

/-- Completing a job whose block is covered. -/
theorem finish_holds {Result : Type} {post : Result → Process → Prop} {job : Job}
    {rest : Except DbError Json → Prog Result}
    (covers : ∀ transactions number time, job = .stream transactions number time →
      ∀ id ∈ chain.ids number, process.Covered id)
    (continues : ∀ answer final, (rest answer).Holds Process.exec
      ((indexing platform chain).contract .worker) post final) :
    (Program.ask (.finish job) rest).Holds Process.exec
      ((indexing platform chain).contract .worker) post process := by
  intro current (moved : Grows chain process current)
    (valid : Valid platform chain current) _
  let after : Process := { current with running := current.running.erase job }
  have grows : Grows chain current after := by
    refine .of_stream rfl rfl rfl (fun _ has => has) (fun _ _ _ has => has) ?_
    rintro number (⟨transactions, time, queued⟩ | covered)
    · by_cases same : Job.stream transactions number time = job
      · refine .inr fun id member => ?_
        exact moved.covered number id member (covers _ _ _ same.symm id member)
      · refine .inl ⟨transactions, time, ?_⟩
        simpa [after, List.mem_erase_of_ne same] using queued
    · exact .inr covered
  refine ⟨{ valid with jobs := ?_ }, ⟨grows, ⟨rfl, fun _ has => has⟩, fun has => has⟩,
    continues _ _⟩
  intro transactions number time member
  refine valid.jobs transactions number time ?_
  rcases List.mem_append.mp member with waiting | running
  · exact List.mem_append_left _ waiting
  · exact List.mem_append_right _ (List.mem_of_mem_erase running)

end Db

theorem workerThread_holds (chainFormed : chain.WellFormed platform) {process : Process}
    (valid : Valid platform chain process) {job : Job}
    (member : job ∈ process.waiting ++ process.running) :
    (Indexer.workerThread platform job).program.Holds Process.exec
      ((indexing platform chain).contract .worker) (indexingPost chain .worker)
      process := by
  have job_holds : (Db.runJob platform job).Holds Process.exec
      ((indexing platform chain).contract .worker) (fun _ _ => True) process := by
    cases job with
    | wallet transactions blockId time =>
        refine (SameIndex.holds (fun _ => True) (Db.walletJob_steps blockId time
          transactions.elements) (by decide) (fun _ _ _ _ => trivial)
          (fun _ _ _ _ => trivial) trivial).bind fun _ final _ => ?_
        exact Db.finish_holds (fun _ _ _ absurd => nomatch absurd) fun _ _ => trivial
    | stream transactions blockId time =>
        obtain ⟨known, small, list, rfl, listed⟩ := valid.jobs transactions blockId time member
        refine (Db.streamJob_holds chainFormed small listed time known).bind
          fun _ final covered => ?_
        refine Db.finish_holds ?_ fun _ _ => trivial
        rintro other number otherTime same id idMem
        obtain ⟨-, rfl, -⟩ := Job.stream.inj same
        exact covered id idMem
  exact job_holds.bind fun _ final _ => ⟨trivial, fun absurd => nomatch absurd⟩

end MileExplorer
