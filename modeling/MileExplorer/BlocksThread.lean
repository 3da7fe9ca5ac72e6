import MileExplorer.StreamThreads

/-!
# The `blocks_processing` loop in the indexer

A pass queues the work on the transactions of a block before it stores the
block, and removes the pending row only afterwards.  It stores no block that
the gate holds back.
-/

namespace MileExplorer

variable {platform : Platform} {chain : Chain}

namespace Db

variable {process : Process} {number : Nat}

variable {Result : Type} {post : Result → Process → Prop} {rest : Unit → Prog Result}

/-- A job is queued; a stream job is one of a known block. -/
theorem async_holds {job : Job} {next : Except DbError Json → Prog Result}
    (jobOf : ∀ transactions other time, job = .stream transactions other time →
      process.Known other ∧ other < 2 ^ 64 ∧ ∃ list, transactions = .arr list ∧
        (chain other).json.find? "transactions" = some (.arr list))
    (continues : ∀ answer final, Grows chain process final → BlocksHeld process final →
      job ∈ final.waiting →
      (next answer).Holds Process.exec ((indexing platform chain).contract .blocks) post final) :
    (Program.ask (.async job) next).Holds Process.exec
      ((indexing platform chain).contract .blocks) post process := by
  intro current (moved : Grows chain process current ∧ BlocksHeld process current)
    (valid : Valid platform chain current) _
  let queued : Process := { current with waiting := current.waiting ++ [job] }
  have kept (other : Job) (member : other ∈ current.waiting ++ current.running) :
      other ∈ queued.waiting ++ queued.running := by
    simp only [queued, List.mem_append] at member ⊢
    exact member.imp_left .inl
  have grows : Grows chain current queued := by
    refine .of_stream rfl rfl rfl (fun _ has => has) (fun _ _ _ has => has) ?_
    intro other secured
    refine secured.imp_left ?_
    rintro ⟨transactions, time, member⟩
    exact ⟨transactions, time, kept _ member⟩
  have queuedValid : Valid platform chain queued := { valid with
    jobs := by
      intro transactions other time member
      simp only [queued, List.mem_append, List.mem_singleton] at member
      rcases member with (old | new) | running
      · exact valid.jobs transactions other time (List.mem_append_left _ old)
      · obtain ⟨known, rest⟩ := jobOf transactions other time new.symm
        exact ⟨moved.1.known other known, rest⟩
      · exact valid.jobs transactions other time (List.mem_append_right _ running) }
  exact ⟨queuedValid, ⟨grows, fun has => has⟩,
    continues _ queued (moved.1.trans grows) moved.2 (by simp [queued])⟩

/-- Queueing the work on a block's transactions secures the block. -/
theorem addTransactions_bind_holds {transactions : Json} {time : Int} (small : number < 2 ^ 64)
    (found : (chain number).json.find? "transactions" = some transactions)
    (pending : process.Pending number)
    (continues : ∀ final, Grows chain process final → BlocksHeld process final →
      final.Secured chain number →
      (rest ()).Holds Process.exec ((indexing platform chain).contract .blocks) post final) :
    (addTransactions transactions number time >>= rest).Holds Process.exec
      ((indexing platform chain).contract .blocks) post process := by
  unfold addTransactions
  split_ifs with isList
  · obtain ⟨list, rfl⟩ : ∃ list, transactions = .arr list := by
      cases transactions <;> simp_all [Json.isArray]
    refine async_holds (by simp) fun _ middle grows held _ => ?_
    refine async_holds ?_ fun _ final later stillHeld member => ?_
    · rintro _ _ _ ⟨⟩
      exact ⟨.inr (held.2 number pending), small, list, rfl, found⟩
    · refine continues final (grows.trans later) ⟨stillHeld.1.trans held.1, ?_⟩
        (.inl ⟨.arr list, time, List.mem_append_left _ member⟩)
      exact fun other has => stillHeld.2 other (held.2 other has)
  · have unlisted : ∀ list, (chain number).json.find? "transactions" ≠ some (.arr list) := by
      rintro list listed
      rw [found] at listed
      cases Option.some.inj listed
      simp [Json.isArray] at isList
    refine insert_bind_holds rfl fun current
      (moved : Grows chain process current ∧ BlocksHeld process current)
      (valid : Valid platform chain current) => ?_
    have grows : Grows chain current (current.withTable .transactionsProcessing
        ((current.store .transactionsProcessing).insert (markerRow number time))) :=
      .withPending fun _ id _ => Or.imp_right fun has => KeyedTable.has_insert.mpr (.inl has)
    refine ⟨valid.withPending fun row member => ?_, ⟨grows, fun has => has⟩,
      continues _ (moved.1.trans grows) moved.2 (.inr fun id member => ?_)⟩
    · rcases KeyedTable.mem_insert.mp member with old | ⟨rfl, -⟩
      · exact valid.pending row old
      · refine .inr ⟨number, ?_, ?_, small, ?_, unlisted⟩ <;>
          simp [markerRow, Json.find?_ofMembers, Json.member?_setMember]
    · have noIds : chain.ids number = [] := by
        unfold Chain.ids blockIds
        split
        · rename_i list listed
          exact absurd listed (unlisted list)
        · rfl
      simp [noIds] at member

theorem removeBlock_holds {site : Site} (stored : process.Stored number)
    (secured : process.Secured chain number)
    (continues : ∀ final,
      (∀ other ≠ number, process.Pending other → final.Pending other) →
      (rest ()).Holds Process.exec ((indexing platform chain).contract .blocks) post
        final) :
    (remove site .blocksProcessing (toString number) >>= rest).Holds Process.exec
      ((indexing platform chain).contract .blocks) post process := by
  refine remove_bind_holds fun current
    (moved : Grows chain process current ∧ BlocksHeld process current)
    (valid : Valid platform chain current) => ?_
  let after := current.withTable .blocksProcessing
    ((current.store .blocksProcessing).erase (.str (toString number)))
  have pending (other : Nat) : after.Pending other ↔ current.Pending other ∧ other ≠ number :=
    hasBlock_erase
  have known (other : Nat) (has : current.Known other) : after.Known other := by
    by_cases same : other = number
    · exact .inl (same ▸ moved.1.stored number stored)
    · exact has.imp_right fun isPending => (pending other).mpr ⟨isPending, same⟩
  have grows : Grows chain current after := by
    refine .of_blocks rfl rfl rfl rfl rfl (fun _ has => has) known ?_ (fun _ has => .inl has) ?_
    · intro other has
      by_cases same : other = number
      · exact .inl (same ▸ moved.1.secured number secured)
      · exact has.imp_right fun isPending => (pending other).mpr ⟨isPending, same⟩
    · rintro - other ⟨isStored, greatest, held⟩
      exact ⟨isStored, greatest, fun above has => held above ((pending above).mp has).1⟩
  refine ⟨valid.of_blocks rfl rfl rfl rfl rfl valid.blocks (valid.pendingBlocks.erase _)
    known, ⟨grows, fun has => has⟩, continues _ fun other same has => ?_⟩
  exact (pending other).mpr ⟨moved.2.2 other has, same⟩

/-- Storing a block that is secured and that the gate lets through. -/
theorem insertBlock_holds {site : Site} {item : Json}
    (rowOf : BlockRowOf platform chain number item) (pending : process.Pending number)
    (secured : process.Secured chain number)
    (gate : ¬ isForward (toUInt64 (getNumberOf (lastBlockId process.store))) number)
    (continues : ∀ final, Grows chain process final →
      (∀ other, process.Pending other → final.Pending other) → final.Stored number →
      (rest ()).Holds Process.exec ((indexing platform chain).contract .blocks) post
        final) :
    (insert site .blocks item >>= rest).Holds Process.exec
      ((indexing platform chain).contract .blocks) post process := by
  refine insert_bind_holds (Json.isObject_of_find? rowOf.id) fun current
    (moved : Grows chain process current ∧ BlocksHeld process current)
    (valid : Valid platform chain current) => ?_
  let after := current.withTable .blocks ((current.store .blocks).insert item)
  have stored (other : Nat) : after.Stored other ↔ current.Stored other ∨ number = other :=
    hasBlock_insert rowOf
  have known (other : Nat) : current.Known other → after.Known other :=
    Or.imp_left fun has => (stored other).mpr (.inl has)
  have currentPending := moved.2.2 number pending
  have closed (other : Nat) (isClosed : current.Closed other) : after.Closed other := by
    obtain ⟨isStored, greatest, held⟩ := isClosed
    refine ⟨(stored other).mpr (.inl isStored), fun another has => ?_, held⟩
    rcases (stored another).mp has with old | rfl
    · exact greatest another old
    · by_contra above
      rcases lastBlockId_cases valid.blocks with
        ⟨empty, -⟩ | ⟨last, lastStored, lastGreatest, lastEq⟩
      · obtain ⟨row, member, -⟩ := isStored
        simp [empty] at member
      · have lastIs : last = other :=
          le_antisymm (greatest last lastStored) (lastGreatest other isStored)
        rw [lastBlockId_congr moved.2.1.symm, lastEq, lastIs] at gate
        exact gate (held number currentPending (not_le.mp above))
  have grows : Grows chain current after := by
    refine .of_blocks rfl rfl rfl rfl rfl (fun other has => (stored other).mpr (.inl has)) known
      (fun _ has => has) ?_ fun _ => closed
    intro other has
    rcases (stored other).mp has with old | rfl
    · exact .inl old
    · exact .inr (moved.1.secured number secured)
  exact ⟨valid.of_blocks rfl rfl rfl rfl rfl (valid.blocks.insert rowOf) valid.pendingBlocks
    known, ⟨grows, fun has => has⟩,
    continues _ (moved.1.trans grows) moved.2.2 ((stored number).mpr (.inr rfl))⟩

/-- The second half of an iteration. -/
theorem storeBlock_holds {item : Json} {found : Bool}
    (foundEq : found = true ↔ process.Stored number)
    (rowOf : BlockRowOf platform chain number item) (pending : process.Pending number)
    (secured : process.Secured chain number)
    (gate : ¬ isForward (toUInt64 (getNumberOf (lastBlockId process.store))) number)
    (continues : ∀ final,
      (∀ other ≠ number, process.Pending other → final.Pending other) →
      (rest ()).Holds Process.exec ((indexing platform chain).contract .blocks) post
        final) :
    (storeBlock item (toString number) found >>= rest).Holds Process.exec
      ((indexing platform chain).contract .blocks) post process := by
  unfold storeBlock
  cases found with
  | true =>
      exact removeBlock_holds (foundEq.mp rfl) secured continues
  | false =>
      change (insert (.insert .blocks (toString number)) .blocks item >>= fun _ =>
        remove (.remove .blocksProcessing (toString number)) .blocksProcessing
          (toString number) >>= rest).Holds _ _ _ _
      refine insertBlock_holds rowOf pending secured gate fun middle grows kept stored => ?_
      refine removeBlock_holds stored (grows.secured number secured) fun final others => ?_
      exact continues final fun other different has => others other different (kept other has)

/-! ## The item loop -/

theorem itemWork_transactions {item transactions : Json} {time : Int}
    (work : itemWork item = .ok (time, transactions)) :
    item.find? "transactions" = some transactions := by
  obtain ⟨stamp, -, rest⟩ := bind_eq_ok.mp work
  obtain ⟨converted, -, rest⟩ := bind_eq_ok.mp rest
  obtain ⟨found, foundEq, done⟩ := bind_eq_ok.mp rest
  obtain ⟨-, rfl⟩ := Prod.mk.inj (Except.ok.inj done)
  exact Json.find?_of_at? foundEq

theorem processBlock_bind_holds {item : Json} {rest : Bool → Prog Result}
    (rowOf : BlockRowOf platform chain number item) (pending : process.Pending number)
    (stops : ∀ final, (rest false).Holds Process.exec
      ((indexing platform chain).contract .blocks) post final)
    (continues : ∀ final, (∀ other ≠ number, process.Pending other → final.Pending other) →
      (rest true).Holds Process.exec ((indexing platform chain).contract .blocks) post final) :
    (processBlock item number >>= rest).Holds Process.exec
      ((indexing platform chain).contract .blocks) post process := by
  obtain ⟨small, -, -, -, transactionsEq⟩ := rowOf.members
  rw [processBlock, Program.bind_assoc]
  refine getNumber_bind_holds fun gated
    (moved : Grows chain process gated ∧ BlocksHeld process gated) _ => ?_
  split_ifs with forward
  · exact stops _
  rw [Program.bind_assoc]
  refine getData_bind_holds fun looked
    (movedAgain : Grows chain gated looked ∧ BlocksHeld gated looked) _ => ?_
  split
  · exact stops _
  rename_i time transactions work
  have listed : (chain number).json.find? "transactions" = some transactions :=
    transactionsEq.symm.trans (itemWork_transactions work)
  have stillPending (other : Nat) (has : process.Pending other) : looked.Pending other :=
    movedAgain.2.2 other (moved.2.2 other has)
  rw [Program.bind_assoc]
  refine addTransactions_bind_holds small listed (stillPending number pending)
    fun queued _ held secured => ?_
  rw [Program.bind_assoc]
  refine storeBlock_holds ?_ rowOf (held.2 number (stillPending number pending)) secured ?_
    fun final others => ?_
  · rw [decide_eq_true_iff, Cursor.count_get, Process.Stored, HasBlock, held.1]
  · rw [lastBlockId_congr (held.1.trans movedAgain.2.1)]
    exact forward
  · refine continues final fun other different has => ?_
    exact others other different (held.2 other (stillPending other has))

/-- The item loop, over pending blocks in increasing order. -/
theorem processBlocks_holds {numbers : List Nat} {items : List Json}
    (rowsOf : List.Forall₂ (BlockRowOf platform chain) numbers items)
    (sorted : numbers.Pairwise (· < ·)) (pending : ∀ other ∈ numbers, process.Pending other) :
    (processBlocks items).Holds Process.exec
      ((indexing platform chain).contract .blocks) (fun _ _ => True) process := by
  induction rowsOf generalizing process with
  | nil => trivial
  | @cons number item numbers items rowOf _ ih =>
      obtain ⟨least, restSorted⟩ := List.pairwise_cons.mp sorted
      simp only [processBlocks, rowOf.index_blockId]
      refine processBlock_bind_holds rowOf (pending number (by simp)) (fun _ => trivial)
        fun final others => ?_
      refine ih restSorted fun other member => ?_
      exact others other (least other member).ne' (pending other (by simp [member]))

/-- A whole pass.  Its snapshot lists the pending blocks in increasing order. -/
theorem blocksProcessing_holds :
    blocksProcessing.Holds Process.exec
      ((indexing platform chain).contract .blocks) (fun _ _ => True) process := by
  intro current _ (valid : Valid platform chain current) _
  refine ⟨valid, (indexing platform chain).guaranteeRefl .blocks current, ?_⟩
  obtain ⟨numbers, rowsOf, increasing, members⟩ := valid.pendingBlocks.snapshot
  exact processBlocks_holds rowsOf increasing fun other member => (members other).mp member

end Db

theorem blocksThread_holds {process : Process} :
    Indexer.blocksThread.program.Holds Process.exec
      ((indexing platform chain).contract .blocks) (indexingPost chain .blocks)
      process :=
  Db.blocksProcessing_holds.bind fun _ _ _ => ⟨trivial, fun absurd => nomatch absurd⟩

end MileExplorer
