import Mathlib.Algebra.BigOperators.Group.List.Basic
import Mathlib.Algebra.Order.Ring.Int
import Mathlib.Logic.Function.Basic
import Mathlib.Tactic.Ring

/-!
# Maps keyed by intervals

A map whose keys are intervals, ordered by a comparison of intervals and read
by a point: a point belongs to the first interval that has it between its
bounds, which both count.  A map filled with intervals of one length is a row
of tiles.  Two neighbours share a bound, and the shared bound belongs to the
first of them.
-/

namespace MileExplorer

structure Interval where
  lower : Int
  upper : Int
  deriving DecidableEq, Repr

namespace Interval

/-- `operator<` of intervals. -/
def less (left right : Interval) : Bool :=
  left.upper ≤ right.lower && (left.lower < right.lower && left.upper < right.upper)

def covers (interval : Interval) (key : Int) : Bool :=
  interval.lower ≤ key && interval.upper ≥ key

end Interval

abbrev IntervalMap (Value : Type) := List (Interval × Value)

namespace IntervalMap

variable {Value : Type}

/-- The value under a key, which is a key that is neither less nor greater. -/
def lookup (key : Interval) : IntervalMap Value → Option Value
  | [] => none
  | (name, value) :: rest =>
      if name.less key then lookup key rest
      else if key.less name then none
      else some value

/-- Assignment to a key, which is added at its place if it is not there. -/
def assign (key : Interval) (value : Value) : IntervalMap Value → IntervalMap Value
  | [] => [(key, value)]
  | (name, old) :: rest =>
      if name.less key then (name, old) :: assign key value rest
      else if key.less name then (key, value) :: (name, old) :: rest
      else (name, value) :: rest

/-- The constructor: one interval for each step from `begin` on, as long as
`begin` is before the end.  There are at most `fuel` steps. -/
def fill (initial : Value) (ending step : Int) :
    Nat → Int → IntervalMap Value → IntervalMap Value
  | 0, _, map => map
  | fuel + 1, start, map =>
      if start < ending then
        fill initial ending step fuel (start + step)
          (assign ⟨start, start + step⟩ initial map)
      else map

/-- The map with the intervals from `start` to `ending`. -/
def build (initial : Value) (start ending step : Int) : IntervalMap Value :=
  fill initial ending step (ending - start).toNat start []

/-- A change of the value at a point through `operator[]`, none if no interval
has the point and the end of the map is dereferenced. -/
def modifyAt (initial : Value) (key : Int) (change : Value → Value)
    (map : IntervalMap Value) : Option (IntervalMap Value) :=
  match map.find? fun entry => entry.1.covers key with
  | none => none
  | some (interval, _) =>
      some (assign interval (change ((lookup interval map).getD initial)) map)

/-! ## Tiles -/

def tile (start step : Int) (index : Nat) : Interval :=
  ⟨start + index * step, start + index * step + step⟩

/-- Intervals of one length, each beginning where the one before it ends. -/
def tiles (start step : Int) : Nat → (Nat → Value) → IntervalMap Value
  | 0, _ => []
  | number + 1, values =>
      (⟨start, start + step⟩, values 0) ::
        tiles (start + step) step number fun index => values (index + 1)

/-- The tile that a point belongs to. -/
def slot (start step key : Int) : Nat := ((key - start - 1) / step).toNat

theorem succ_mul_step (number : Nat) (step : Int) :
    ((number + 1 : Nat) : Int) * step = number * step + step := by
  push_cast
  ring

@[simp]
theorem tile_zero (start step : Int) : tile start step 0 = ⟨start, start + step⟩ := by
  simp [tile]

theorem tile_succ (start step : Int) (index : Nat) :
    tile start step (index + 1) = tile (start + step) step index := by
  simp only [tile, succ_mul_step, Interval.mk.injEq]
  omega

theorem tiles_eq_map (start step : Int) (number : Nat) (values : Nat → Value) :
    tiles start step number values =
      (List.range number).map fun index => (tile start step index, values index) := by
  induction number generalizing start values with
  | zero => rfl
  | succ number ih =>
      rw [tiles, ih, List.range_succ_eq_map, List.map_cons, List.map_map, tile_zero]
      simp only [Function.comp_def, tile_succ]

/-! ## Sums over places -/

/-- What the items at a place are worth together. -/
def sumAt {Item Sum : Type} [AddMonoid Sum] (place : Item → Nat) (worth : Item → Sum)
    (items : List Item) (index : Nat) : Sum :=
  ((items.filter fun item => place item = index).map worth).sum

theorem sumAt_cons {Item Sum : Type} [AddMonoid Sum] (place : Item → Nat) (worth : Item → Sum)
    (item : Item) (items : List Item) (index : Nat) :
    sumAt place worth (item :: items) index =
      (if index = place item then worth item else 0) + sumAt place worth items index := by
  unfold sumAt
  by_cases here : place item = index
  · simp [here]
  · simp [here, Ne.symm here]

theorem sum_range_single {Sum : Type} [AddCommMonoid Sum] {number place : Nat}
    (listed : place < number) (worth : Sum) :
    ((List.range number).map fun index => if index = place then worth else 0).sum = worth := by
  induction number with
  | zero => omega
  | succ number ih =>
      rw [List.range_succ, List.map_append, List.sum_append]
      by_cases last : place = number
      · subst last
        have none : ((List.range place).map fun index =>
            if index = place then worth else 0).sum = 0 := by
          apply List.sum_eq_zero
          intro value member
          obtain ⟨index, inRange, rfl⟩ := List.mem_map.mp member
          rw [if_neg (by have := List.mem_range.mp inRange; omega)]
        simp [none]
      · rw [ih (by omega)]
        simp [Ne.symm last]

/-- The places together have every item once. -/
theorem sum_sumAt {Item Sum : Type} [AddCommMonoid Sum] {place : Item → Nat} {number : Nat}
    (worth : Item → Sum) {items : List Item} (placed : ∀ item ∈ items, place item < number) :
    ((List.range number).map (sumAt place worth items)).sum = (items.map worth).sum := by
  induction items with
  | nil =>
      have none : sumAt place worth [] = fun _ => 0 := rfl
      simp [none]
  | cons item items ih =>
      have later := ih fun other member => placed other (by simp [member])
      have split : sumAt place worth (item :: items) = fun index =>
          (if index = place item then worth item else 0) + sumAt place worth items index :=
        funext (sumAt_cons place worth item items)
      rw [split, List.sum_map_add, sum_range_single (placed item (by simp)), later,
        List.map_cons, List.sum_cons]

/-- The order of the items does not matter. -/
theorem sumAt_perm {Item Sum : Type} [AddCommMonoid Sum] {place : Item → Nat}
    {worth : Item → Sum} {first second : List Item} (same : first.Perm second) (index : Nat) :
    sumAt place worth first index = sumAt place worth second index :=
  ((same.filter _).map worth).sum_eq

/-! ## A row of tiles -/

section Tiles

variable {start step : Int} (positive : 0 < step)

include positive

theorem slot_eq_zero {key : Int} (within : key ≤ start + step) : slot start step key = 0 := by
  have small : (key - start - 1) / step < 1 := by
    apply Int.ediv_lt_of_lt_mul positive
    omega
  exact Int.toNat_eq_zero.mpr (by omega)

theorem slot_eq_succ {key : Int} (beyond : start + step < key) :
    slot start step key = slot (start + step) step key + 1 := by
  have shift : (key - start - 1) / step = (key - (start + step) - 1) / step + 1 := by
    rw [← Int.add_mul_ediv_right _ _ (by omega)]
    congr 1
    ring
  have nonneg : 0 ≤ (key - (start + step) - 1) / step := by
    apply Int.ediv_nonneg
    · omega
    · omega
  simp only [slot, shift]
  omega

theorem mul_step_nonneg (number : Nat) : 0 ≤ (number : Int) * step :=
  mul_nonneg (by omega) (by omega)

theorem less_tile (index : Nat) :
    (⟨start, start + step⟩ : Interval).less (tile (start + step) step index) = true := by
  have before := mul_step_nonneg positive index
  unfold tile Interval.less
  simp only [Bool.and_eq_true, decide_eq_true_eq]
  omega

/-- A point belongs to a tile exactly if it is between the bounds of the row. -/
theorem exists_covers_tiles {number : Nat} {values : Nat → Value} {key : Int} :
    (∃ entry ∈ tiles start step number values, entry.1.covers key = true) ↔
      0 < number ∧ start ≤ key ∧ key ≤ start + number * step := by
  induction number generalizing start values with
  | zero => simp [tiles]
  | succ number ih =>
      have rest := mul_step_nonneg positive number
      simp only [tiles, List.mem_cons, exists_eq_or_imp, ih, succ_mul_step]
      simp only [Interval.covers, Bool.and_eq_true, decide_eq_true_eq]
      constructor
      · rintro (⟨lower, upper⟩ | ⟨-, lower, upper⟩)
        · exact ⟨by omega, lower, by omega⟩
        · exact ⟨by omega, by omega, by omega⟩
      · rintro ⟨-, lower, upper⟩
        by_cases within : key ≤ start + step
        · exact .inl ⟨lower, within⟩
        · refine .inr ⟨?_, by omega, by omega⟩
          rcases Nat.eq_zero_or_pos number with rfl | more
          · simp only [Nat.cast_zero, zero_mul] at upper
            omega
          · exact more

/-- The first tile that has the point is its slot. -/
theorem find?_tiles {number : Nat} (values : Nat → Value) {key : Int} (lower : start ≤ key)
    (upper : key ≤ start + number * step) (nonempty : 0 < number) :
    slot start step key < number ∧
      (tiles start step number values).find? (fun entry => entry.1.covers key) =
        some (tile start step (slot start step key), values (slot start step key)) := by
  induction number generalizing start values with
  | zero => omega
  | succ number ih =>
      rw [succ_mul_step] at upper
      by_cases within : key ≤ start + step
      · rw [slot_eq_zero positive within]
        refine ⟨by omega, ?_⟩
        simp [tiles, Interval.covers, lower, within]
      · have beyond : start + step < key := by omega
        have more : 0 < number := by
          rcases Nat.eq_zero_or_pos number with rfl | more
          · simp only [Nat.cast_zero, zero_mul] at upper
            omega
          · exact more
        obtain ⟨before, found⟩ := @ih (start + step) (fun index => values (index + 1)) (by omega)
          (by omega) more
        rw [slot_eq_succ positive beyond]
        refine ⟨by omega, ?_⟩
        have missed : (⟨start, start + step⟩ : Interval).covers key = false := by
          simp [Interval.covers, within]
        rw [tiles, List.find?_cons_of_neg (by simp [missed]), found, tile_succ]

theorem lookup_tiles {number : Nat} {values : Nat → Value} {index : Nat} (listed : index < number) :
    lookup (tile start step index) (tiles start step number values) = some (values index) := by
  induction number generalizing start values index with
  | zero => omega
  | succ number ih =>
      cases index with
      | zero =>
          have distinct : ¬ start + step ≤ start := by omega
          simp [tiles, lookup, Interval.less, distinct]
      | succ index =>
          rw [tiles, lookup, tile_succ, if_pos (less_tile positive index), ih (by omega)]

theorem assign_tiles {number : Nat} {values : Nat → Value} {index : Nat} (value : Value)
    (listed : index < number) :
    assign (tile start step index) value (tiles start step number values) =
      tiles start step number (Function.update values index value) := by
  induction number generalizing start values index with
  | zero => omega
  | succ number ih =>
      cases index with
      | zero =>
          have distinct : ¬ start + step ≤ start := by omega
          simp [tiles, assign, Interval.less, distinct]
      | succ index =>
          have shifted : (fun other => Function.update values (index + 1) value (other + 1)) =
              Function.update (fun other => values (other + 1)) index value := by
            funext other
            by_cases equal : other = index
            · simp [equal]
            · simp [equal, Function.update]
          rw [tiles, assign, tile_succ, if_pos (less_tile positive index), ih (by omega), tiles,
            shifted]
          simp

/-- A change at a point changes the value of its slot. -/
theorem modifyAt_tiles {number : Nat} (values : Nat → Value) {key : Int} (initial : Value)
    (change : Value → Value) (lower : start ≤ key) (upper : key ≤ start + number * step)
    (nonempty : 0 < number) :
    modifyAt initial key change (tiles start step number values) =
      some (tiles start step number (Function.update values (slot start step key)
        (change (values (slot start step key))))) := by
  obtain ⟨listed, found⟩ := find?_tiles positive values lower upper nonempty
  rw [modifyAt, found]
  simp only [lookup_tiles positive listed, Option.getD_some, assign_tiles positive _ listed]

/-! ## Filling a map -/

omit positive in
theorem assign_of_less {key : Interval} {value : Value} {map : IntervalMap Value}
    (less : ∀ entry ∈ map, entry.1.less key = true) :
    assign key value map = map ++ [(key, value)] := by
  induction map with
  | nil => rfl
  | cons head rest ih =>
      have later := ih fun entry member => less entry (by simp [member])
      rw [assign, if_pos (less head (by simp)), later, List.cons_append]

/-- The loop of the constructor adds one tile after the other. -/
theorem fill_tiles {number fuel : Nat} (initial : Value) {map : IntervalMap Value}
    (enough : number ≤ fuel)
    (below : ∀ entry ∈ map, entry.1.lower < start ∧ entry.1.upper ≤ start) :
    fill initial (start + number * step) step fuel start map =
      map ++ tiles start step number fun _ => initial := by
  induction number generalizing start fuel map with
  | zero =>
      have stop : ¬ start < start + (0 : Nat) * step := by simp
      cases fuel with
      | zero => simp [fill, tiles]
      | succ fuel => rw [fill, if_neg stop, tiles, List.append_nil]
  | succ number ih =>
      obtain ⟨fuel, rfl⟩ : ∃ less, fuel = less + 1 := ⟨fuel - 1, by omega⟩
      have rest := mul_step_nonneg positive number
      have appended : assign ⟨start, start + step⟩ initial map =
          map ++ [(⟨start, start + step⟩, initial)] := by
        apply assign_of_less
        intro entry member
        obtain ⟨lower, upper⟩ := below entry member
        simp only [Interval.less, Bool.and_eq_true, decide_eq_true_eq]
        omega
      have same : start + (number * step + step) = start + step + number * step := by
        ring
      rw [succ_mul_step, fill, if_pos (by omega), appended, same, ih (by omega), tiles,
        List.append_assoc, List.singleton_append]
      intro entry member
      rcases List.mem_append.mp member with old | new
      · obtain ⟨lower, upper⟩ := below entry old
        omega
      · rw [List.mem_singleton.mp new]
        dsimp only
        omega

theorem build_tiles (initial : Value) (ending : Int) (number : Nat) :
    build initial (ending - number * step) ending step =
      tiles (ending - number * step) step number fun _ => initial := by
  have room : (number : Int) ≤ number * step :=
    le_mul_of_one_le_right (by omega) (by omega)
  have enough : number ≤ (ending - (ending - number * step)).toNat := by omega
  have filled := @fill_tiles Value (ending - number * step) step positive number _ initial []
    enough (by simp)
  rw [sub_add_cancel, List.nil_append] at filled
  exact filled

end Tiles

end IntervalMap

end MileExplorer
