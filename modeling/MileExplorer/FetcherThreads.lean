import MileExplorer.StreamThreads

/-!
# The deliveries and the start of the fetcher

A delivery ends with the block pending, or with nothing to deliver because the
block cannot be stored at all.  The fetcher is started at the block that was
the last one when `main` asked for it, so a last block whose transactions are
not secured is the first to be fetched again.
-/

namespace MileExplorer

variable {platform : Platform} {chain : Chain}

/-- The block needs no further delivery: it is secured or pending, or no row
can be built for it. -/
def Redelivered (platform : Platform) (chain : Chain) (process : Process) (number : Nat) :
    Prop :=
  (process.Secured chain number ∨ process.Pending number) ∨
    ∀ row, ¬ BlockRowOf platform chain number row

theorem Redelivered.mono {before after : Process} {number : Nat}
    (done : Redelivered platform chain before number) (grows : Grows chain before after) :
    Redelivered platform chain after number :=
  done.imp_left (grows.retained number)

theorem addBlock_holds {process : Process} (number : Nat) (now : Int)
    (running : process.fetcher.first.isSome) :
    (Db.addBlock platform (chain number).json number now).Holds Process.exec
      ((indexing platform chain).contract .delivery)
      (fun _ final => final.fetcher.first.isSome ∧ Redelivered platform chain final number)
      process := by
  refine Db.getData_bind_holds fun current (moved : Grows chain process current) _ => ?_
  have stillRunning := moved.started running
  simp only [Cursor.count_get]
  split_ifs with present
  · exact ⟨stillRunning, .inl (.inr present)⟩
  · cases built : blockRow platform (chain number).json number now with
    | error exception =>
        refine ⟨stillRunning, .inr fun row rowOf => ?_⟩
        obtain ⟨other, again⟩ := rowOf.rebuilt now
        simp [built] at again
    | ok row =>
        have rowOf : BlockRowOf platform chain number row := ⟨now, built⟩
        refine Db.insert_bind_holds (Json.isObject_of_find? rowOf.id)
          fun found (movedAgain : Grows chain current found)
            (valid : Valid platform chain found) => ?_
        have foundRunning := movedAgain.started stillRunning
        have pending (other : Nat) (has : found.Pending other) :
            (found.withTable .blocksProcessing
              ((found.store .blocksProcessing).insert row)).Pending other :=
          (hasBlock_insert rowOf).mpr (.inl has)
        have known (other : Nat) : found.Known other → (found.withTable .blocksProcessing
            ((found.store .blocksProcessing).insert row)).Known other :=
          Or.imp_right (pending other)
        refine ⟨valid.of_blocks rfl rfl rfl rfl rfl valid.blocks
          (valid.pendingBlocks.insert rowOf) known, ⟨.of_blocks rfl rfl rfl rfl rfl
          (fun _ has => has) known (fun other => Or.imp_right (pending other))
          (fun _ has => .inl has) ?_, ⟨rfl, pending⟩, fun has => has⟩, foundRunning,
          .inl (.inr ?_)⟩
        · intro (unstarted : found.fetcher.first = none)
          simp [unstarted] at foundRunning
        · exact (hasBlock_insert rowOf).mpr (.inr rfl)

theorem delivered_holds {Result : Type} {post : Result → Process → Prop} {process : Process}
    {number : Nat} {rest : Except DbError Json → Prog Result}
    (done : Redelivered platform chain process number)
    (continues : ∀ answer final, (rest answer).Holds Process.exec
      ((indexing platform chain).contract .delivery) post final) :
    (Program.ask (.delivered number) rest).Holds Process.exec
      ((indexing platform chain).contract .delivery) post process := by
  intro current (moved : Grows chain process current)
    (valid : Valid platform chain current) _
  have nowDone := done.mono moved
  let after : Process := { current with
    fetcher := { current.fetcher with
      delivering := current.fetcher.delivering.erase number } }
  have grows : Grows chain current after := by
    refine .of_fetcher rfl rfl rfl (fun has => has) fun other stored kept => ?_
    rcases kept with secured | pending | fetching | delivering | awaited
    · exact .inl secured
    · exact .inr (.inl pending)
    · exact .inr (.inr (.inl fetching))
    · by_cases same : other = number
      · subst same
        rcases nowDone with retained | unbuilt
        · exact retained.imp_right .inl
        · obtain ⟨row, -, rowOf⟩ := valid.blocks.hasBlock_iff.mp stored
          exact absurd rowOf (unbuilt row)
      · exact .inr (.inr (.inr (.inl ((List.mem_erase_of_ne same).mpr delivering))))
    · exact .inr (.inr (.inr (.inr awaited)))
  refine ⟨{ valid with unstarted := ?_ }, ⟨grows, ⟨rfl, fun _ has => has⟩, fun has => has⟩,
    continues _ _⟩
  intro unstarted
  obtain ⟨fetching, delivering⟩ := valid.unstarted unstarted
  exact ⟨fetching, by simp [Process.exec, Process.execFaulty, delivering]⟩

theorem deliveryThread_holds {process : Process} (number : Nat) (now : Int)
    (running : process.fetcher.first.isSome) :
    (Indexer.deliveryThread platform (chain number).json number now).program.Holds Process.exec
      ((indexing platform chain).contract .delivery) (indexingPost chain .delivery)
      process := by
  refine (addBlock_holds number now running).bind fun _ final done => ?_
  exact delivered_holds done.2 fun _ _ => ⟨trivial, fun absurd => nomatch absurd⟩

/-! ## The start of the fetcher -/

/-- The last block is the one the fetcher will begin with, or is secured. -/
def BeginsAt (chain : Chain) (first : Nat) (process : Process) : Prop :=
  ∀ number, process.Stored number → (∀ other, process.Stored other → other ≤ number) →
    number = first ∨ process.Secured chain number

theorem BeginsAt.mono {before after : Process} {first : Nat}
    (begins : BeginsAt chain first before) (grows : Grows chain before after) :
    BeginsAt chain first after := by
  intro number stored greatest
  rcases grows.fresh number stored with old | secured
  · refine (begins number old fun other has => greatest other (grows.stored other has)).imp_right
      (grows.secured number)
  · exact .inr secured

theorem starterThread_holds {process : Process} (unstarted : process.fetcher.first = none) :
    Indexer.starterThread.program.Holds Process.exec
      ((indexing platform chain).contract .starter) (indexingPost chain .starter)
      process := by
  refine Db.getNumber_bind_holds fun current
    (moved : Grows chain process current ∧ StillUnstarted process current)
    (valid : Valid platform chain current) => ?_
  have begins : BeginsAt chain (toUInt64 (getNumberOf (Db.lastBlockId current.store)))
      current := by
    intro number stored greatest
    rcases lastBlockId_cases valid.blocks with ⟨empty, -⟩ | ⟨last, lastStored, lastGreatest, lastEq⟩
    · obtain ⟨row, member, -⟩ := stored
      simp [empty] at member
    · rw [lastEq]
      exact .inl (le_antisymm (lastGreatest number stored) (greatest last lastStored))
  generalize toUInt64 (getNumberOf (Db.lastBlockId current.store)) = first at begins
  intro found (movedAgain : Grows chain current found ∧ StillUnstarted current found)
    (foundValid : Valid platform chain found) _
  have foundBegins := begins.mono movedAgain.1
  have foundUnstarted := movedAgain.2 (moved.2 unstarted)
  have grows : Grows chain found { found with
      fetcher := { found.fetcher with first := some first, resumed := false } } := by
    refine .of_fetcher rfl rfl rfl (fun _ => rfl) fun number stored kept => ?_
    rcases kept with secured | pending | fetching | delivering | awaited
    · exact .inl secured
    · exact .inr (.inl pending)
    · exact .inr (.inr (.inl fetching))
    · exact .inr (.inr (.inr (.inl delivering)))
    · rcases awaited with ⟨-, closed⟩ | ⟨started, -⟩
      · rcases foundBegins number stored closed.2.1 with rfl | secured
        · exact .inr (.inr (.inr (.inr (.inr ⟨rfl, rfl⟩))))
        · exact .inl secured
      · rw [foundUnstarted] at started
        exact nomatch started
  exact ⟨{ foundValid with unstarted := fun absurd => nomatch absurd },
    ⟨grows, rfl, fun _ has => has⟩, trivial, fun absurd => nomatch absurd⟩

end MileExplorer
