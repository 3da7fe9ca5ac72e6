import MileExplorer.AppendOnly
import MileExplorer.GenuineReplies

/-!
# Full pages

A page of `get-block-history` is a range of block numbers, and a number belongs
to one block for ever.  So a page that has as many blocks as it may have is
final: the same request gets the same answer at any later time.  A page with
gaps may still be filled, and so may one whose ends no double is equal to.
-/

namespace MileExplorer

variable {platform : Platform} {around : Surroundings} {chain : Chain}

def blockRange (store : Store) (first limit : Nat) : List Json :=
  (Cursor.ordered "block-id" (store .blocks).rows).filter
    (Cursor.between.inRange first limit "block-id")

section Pages

variable {store before after : Store} {first limit : Nat}

theorem mem_blockRange (numbered : NumberedRows (store .blocks)) {row : Json} :
    row ∈ blockRange store first limit ↔ row ∈ (store .blocks).rows ∧
      Cursor.toDouble first ≤ blockOf row ∧
        blockOf row < Cursor.toDouble ((first + limit) % 2 ^ 64) := by
  rw [blockRange, List.mem_filter, numbered.mem_ordered]
  refine and_congr_right fun member => ?_
  exact Cursor.inRange_iff (numbered.numbered member).2.2

/-- Below 2^53 the ends of a page are exact. -/
theorem mem_blockRange_of_le (numbered : NumberedRows (store .blocks))
    (fits : first + limit ≤ 2 ^ 53) {row : Json} :
    row ∈ blockRange store first limit ↔ row ∈ (store .blocks).rows ∧
      first ≤ blockOf row ∧ blockOf row < first + limit := by
  rw [mem_blockRange numbered, Nat.mod_eq_of_lt (by omega), Cursor.toDouble_of_le fits,
    Cursor.toDouble_of_le (by omega)]

theorem blockRange_increasing (numbered : NumberedRows (store .blocks)) (first limit : Nat) :
    (blockRange store first limit).Pairwise fun one other => blockOf one < blockOf other :=
  numbered.increasing.filter _

theorem nodup_blockRange (numbered : NumberedRows (store .blocks)) (first limit : Nat) :
    ((blockRange store first limit).map blockOf).Nodup :=
  List.pairwise_map.mpr ((blockRange_increasing numbered first limit).imp Nat.ne_of_lt)

/-- A page with as many rows as its limit has a row for each of its numbers. -/
theorem exists_of_full (numbered : NumberedRows (store .blocks))
    (small : ∀ row ∈ (store .blocks).rows, blockOf row < 2 ^ 53)
    (full : (blockRange store first limit).length = limit) {number : Nat} (lower : first ≤ number)
    (upper : number < first + limit) :
    ∃ row ∈ blockRange store first limit, blockOf row = number := by
  have inside : (blockRange store first limit).map blockOf ⊆ List.range' first limit := by
    intro other member
    obtain ⟨row, rowMem, rfl⟩ := List.mem_map.mp member
    obtain ⟨stored, fromFirst, below⟩ := (mem_blockRange numbered).mp rowMem
    rw [← not_lt, Cursor.lt_toDouble_iff (small row stored), not_lt] at fromFirst
    rw [Cursor.lt_toDouble_iff (small row stored)] at below
    have bound := Nat.mod_le (first + limit) (2 ^ 64)
    exact List.mem_range'_1.mpr ⟨fromFirst, by omega⟩
  have all := (List.subperm_of_subset (nodup_blockRange numbered first limit)
    inside).perm_of_length_le (by simp [full])
  exact List.mem_map.mp (all.mem_iff.mpr (List.mem_range'_1.mpr ⟨lower, upper⟩))

/-- A full page of more than no block ends below 2^53, as its last block does. -/
theorem le_of_full (numbered : NumberedRows (store .blocks))
    (small : ∀ row ∈ (store .blocks).rows, blockOf row < 2 ^ 53)
    (full : (blockRange store first limit).length = limit) (positive : 0 < limit) :
    first + limit ≤ 2 ^ 53 := by
  obtain ⟨row, listed, lastOf⟩ : ∃ row ∈ blockRange store first limit,
      blockOf row = first + limit - 1 :=
    exists_of_full numbered small full (by omega) (by omega)
  have := small row ((mem_blockRange numbered).mp listed).1
  omega

theorem blockRange_of_full (numberedBefore : NumberedRows (before .blocks))
    (numberedAfter : NumberedRows (after .blocks))
    (small : ∀ row ∈ (before .blocks).rows, blockOf row < 2 ^ 53)
    (kept : ∀ row ∈ (before .blocks).rows, row ∈ (after .blocks).rows) (bound : first < 2 ^ 64)
    (full : (blockRange before first limit).length = limit) :
    blockRange after first limit = blockRange before first limit := by
  have same (row : Json) :
      row ∈ blockRange after first limit ↔ row ∈ blockRange before first limit := by
    rcases Nat.eq_zero_or_pos limit with rfl | positive
    · -- both ends of the page are the same double
      rw [mem_blockRange numberedAfter, mem_blockRange numberedBefore, Nat.add_zero,
        Nat.mod_eq_of_lt bound]
      omega
    have fits := le_of_full numberedBefore small full positive
    constructor
    · intro member
      obtain ⟨stored, lower, upper⟩ := (mem_blockRange_of_le numberedAfter fits).mp member
      obtain ⟨old, oldMem, sameNumber⟩ := exists_of_full numberedBefore small full lower upper
      have oldStored := kept old ((mem_blockRange numberedBefore).mp oldMem).1
      rwa [numberedAfter.eq_of_blockOf_eq stored oldStored sameNumber.symm]
    · intro member
      obtain ⟨stored, inside⟩ := (mem_blockRange numberedBefore).mp member
      exact (mem_blockRange numberedAfter).mpr ⟨kept row stored, inside⟩
  refine List.Perm.eq_of_pairwise ?_ (blockRange_increasing numberedAfter first limit)
    (blockRange_increasing numberedBefore first limit) ?_
  · intro one other _ _ below above
    omega
  · exact (List.perm_ext_iff_of_nodup (nodup_blockRange numberedAfter first limit).of_map
      (nodup_blockRange numberedBefore first limit).of_map).mpr same

end Pages

namespace Api

theorem check_eq {params result : Json} {param : String} {rest : Except Exn Outcome}
    (answered : check params param rest = .ok (.answers result)) (other : Except Exn Outcome) :
    check params param other = other := by
  unfold check at answered ⊢
  split_ifs at answered ⊢
  · cases answered
  · rfl

theorem checkLimit_eq {params result : Json} {rest : Except Exn Outcome}
    (answered : checkLimit params rest = .ok (.answers result)) (other : Except Exn Outcome) :
    checkLimit params other = other := by
  have limited := answers_of_check answered
  obtain ⟨value, valueEq, passed⟩ := bind_eq_ok.mp (answers_of_check limited)
  obtain ⟨limit, limitEq, passed⟩ := bind_eq_ok.mp passed
  unfold checkLimit
  rw [check_eq answered, check_eq limited, valueEq]
  split_ifs at passed with large
  · cases passed
  · simp [bind, Except.bind, limitEq, large]

theorem getBlockHistory_page {api : NodeApi} {params result : Json} {store : Store} {limit : Nat}
    (answered : getBlockHistory api params store = .ok (.answers result))
    (limited : numberOf params "limit" = .ok limit) :
    ∃ first < 2 ^ 64, ∀ other, getBlockHistory api params other =
      .ok (.answers (.arr (blockRange other first limit))) := by
  have passed := answered
  rw [getBlockHistory, checkLimit_eq answered] at passed
  obtain ⟨own, ownEq, passed⟩ := bind_eq_ok.mp passed
  obtain rfl : own = limit := Except.ok.inj (ownEq.symm.trans limited)
  obtain ⟨⟨blockId, outcome⟩, read, rest⟩ := bind_eq_ok.mp passed
  refine ⟨blockId % 2 ^ 64, Nat.mod_lt _ (by decide), fun other => ?_⟩
  rw [getBlockHistory, checkLimit_eq answered, limited, read]
  simp only [bind, Except.bind] at rest ⊢
  split_ifs at rest ⊢
  · obtain rfl : outcome = .answers result := Except.ok.inj rest
    rcases getBlockId_outcome read with silent | ⟨message, fails⟩
    · cases silent
    · cases fails
  · rfl

end Api

/-- A page of blocks that is full, while no block from 2^53 on is stored, is
answered to the same request at any later time, whatever queries fail and
however often the process is restarted in between. -/
theorem full_block_pages_are_permanent (api : NodeApi) {start : Start} {world later : World}
    (reached : Faulty.Reaches platform around chain (Indexer.firstBoot start) world)
    (goesOn : Faulty.Reaches platform around chain world later)
    (small : ∀ row ∈ (world.shared.store .blocks).rows, blockOf row < 2 ^ 53) (params : Json)
    {rows : List Json}
    (answered : Api.getBlockHistory api params world.shared.store = .ok (.answers (.arr rows)))
    (full : Api.numberOf params "limit" = .ok rows.length) :
    Api.getBlockHistory api params later.shared.store = .ok (.answers (.arr rows)) := by
  have numbered {world : World}
      (reached : Faulty.Reaches platform around chain (Indexer.firstBoot start) world) :
      NumberedRows (world.shared.store .blocks) := by
    have rows : BlockRows platform chain (world.shared.store .blocks) :=
      (genuine_of_reaches (Faulty.reachesFrom_of_reaches reached)).rows .blocks
    exact rows.numberedRows
  obtain ⟨first, bound, pages⟩ := Api.getBlockHistory_page answered full
  have page : blockRange world.shared.store first rows.length = rows := by
    simpa [pages] using answered
  rw [pages, blockRange_of_full (numbered reached) (numbered (reached.trans goesOn)) small
    (Faulty.retains_of_reaches reached goesOn .blocks (by decide)) bound (by rw [page]), page]

/-- The page of block 0 is shown, then the process works on with a failing
query and is restarted. -/
theorem full_block_pages_are_permanent_once :
    ∃ world later rows,
      Faulty.Reaches samplePlatform sampleSurroundings sampleChain (Indexer.firstBoot ⟨0, 0⟩)
        world ∧
      Faulty.Reaches samplePlatform sampleSurroundings sampleChain world later ∧
      rows ≠ [] ∧
      Api.getBlockHistory sampleApi (.ofMembers [("first", .num 0), ("limit", .num 1)])
        world.shared.store = .ok (.answers (.arr rows)) ∧
      Api.getBlockHistory sampleApi (.ofMembers [("first", .num 0), ("limit", .num 1)])
        later.shared.store = .ok (.answers (.arr rows)) := by
  let step := Faulty.step samplePlatform sampleSurroundings sampleChain
  let before : List Faulty.Move := ((catchUp 0 1).take 29).map .indexer
  let after : List Faulty.Move :=
    [.fail 0 true, .indexer (.advance 1), .start (.turnover24 100000), .fail 2 false,
      .indexer (.restart ⟨0, 0⟩), .indexer (.advance 0), .fail 0 true]
  obtain ⟨world, reached, shown, small, further⟩ := Reaches.exists_of_runMoves step (fun _ _ => True)
    (Indexer.firstBoot ⟨0, 0⟩) before
    (fun world => (blockRange world.shared.store 0 1).length = 1 ∧
      (∀ row ∈ (world.shared.store .blocks).rows, blockOf row < 2 ^ 53) ∧
      (runMoves step (fun _ _ => True) world after).isSome = true) (by decide +kernel)
  obtain ⟨later, finished⟩ := Option.isSome_iff_exists.mp further
  have goesOn := Reaches.of_runMoves finished
  have answered : Api.getBlockHistory sampleApi
      (.ofMembers [("first", .num 0), ("limit", .num 1)]) world.shared.store =
        .ok (.answers (.arr (blockRange world.shared.store 0 1))) := rfl
  refine ⟨world, later, _, reached, goesOn, ?_, answered, ?_⟩
  · intro empty
    simp [empty] at shown
  · exact full_block_pages_are_permanent sampleApi reached goesOn small _ answered (by rw [shown]; rfl)

end MileExplorer
