import MileExplorer.IntervalMap
import Mathlib.Data.Rat.Floor
import Mathlib.Tactic.Linarith

/-!
# The intervals of an `interval_map`

The constructor of `interval_map` in a bounded number type, and what can be
done with the map it makes.  Its intervals are tiles of one length, of which
the last may go beyond the end.  On them the comparison of intervals is the
order of their places, although it is no order of all intervals, so a search by
key finds what the search by point found.
-/

namespace MileExplorer

namespace IntervalMap

variable {Value : Type}

/-- The constructor in a type whose numbers go from `least` to `greatest`,
none if a sum is not among them or if the loop takes more than `fuel` tests. -/
def construct (least greatest : Int) (initial : Value) (ending step : Int) :
    Nat → Int → IntervalMap Value → Option (IntervalMap Value)
  | 0, _, _ => none
  | fuel + 1, start, map =>
      if start < ending then
        if least ≤ start + step ∧ start + step ≤ greatest then
          construct least greatest initial ending step fuel (start + step)
            (assign ⟨start, start + step⟩ initial map)
        else none
      else some map

/-- `operator[]` of a point that is only read. -/
def valueAt (initial : Value) (key : Int) (map : IntervalMap Value) : Option Value :=
  match map.find? fun entry => entry.1.covers key with
  | none => none
  | some (interval, _) => some ((lookup interval map).getD initial)

/-- `emplace` of a value at a point, with the value that the reference it
returns is to. -/
def emplace (initial : Value) (key : Int) (value : Value) (map : IntervalMap Value) :
    Option (Value × IntervalMap Value) :=
  match map.find? fun entry => entry.1.covers key with
  | none => none
  | some (interval, _) =>
      let after := assign interval value map
      some ((lookup interval after).getD initial, after)

def tileCount (start ending step : Int) : Nat := ⌈((ending - start : Int) : ℚ) / step⌉.toNat

/-- The place of the interval that a point belongs to. -/
def tileIndex (start step key : Int) : Nat :=
  (max 0 (⌈((key - start : Int) : ℚ) / step⌉ - 1)).toNat

def tileKeys (start step : Int) (number : Nat) : List Interval :=
  (List.range number).map fun index : Nat =>
    ⟨start + index * step, start + (index + 1) * step⟩

/-- What is done at a point is done with the value at one place. -/
structure Addresses (initial : Value) (map : IntervalMap Value) (key : Int) (place : Nat) :
    Prop where
  read : valueAt initial key map = (map.map Prod.snd)[place]?
  changed : ∀ change : Value → Value, ∃ after, modifyAt initial key change map = some after ∧
    after.map Prod.fst = map.map Prod.fst ∧
      after.map Prod.snd = (map.map Prod.snd).modify place change
  emplaced : ∀ value, ∃ after, emplace initial key value map = some (value, after) ∧
    after.map Prod.fst = map.map Prod.fst ∧
      after.map Prod.snd = (map.map Prod.snd).set place value

/-- The constructor ends with the intervals in their order, and every point
between the bounds addresses one of them. -/
structure Partitions (least greatest : Int) (initial : Value) (start ending step : Int) :
    Prop where
  constructed : ∃ enough, ∀ fuel, enough ≤ fuel →
    construct least greatest initial ending step fuel start [] =
      some (build initial start ending step)
  keys : (build initial start ending step).map Prod.fst =
    tileKeys start step (tileCount start ending step)
  ordered : ∀ (first second : Nat) (left right : Interval),
    (tileKeys start step (tileCount start ending step))[first]? = some left →
      (tileKeys start step (tileCount start ending step))[second]? = some right →
        (left.less right = true ↔ first < second)
  addressed : ∀ map : IntervalMap Value,
    map.map Prod.fst = tileKeys start step (tileCount start ending step) →
      ∀ key, start ≤ key → key ≤ start + tileCount start ending step * step →
        tileIndex start step key < tileCount start ending step ∧
          Addresses initial map key (tileIndex start step key)

/-! ## Places -/

theorem tileKeys_eq (start step : Int) (number : Nat) :
    tileKeys start step number = (List.range number).map (tile start step) := by
  unfold tileKeys
  apply List.map_congr_left
  intro index _
  simp only [tile, Interval.mk.injEq, true_and]
  ring

theorem getElem?_tileKeys {start step : Int} {number index : Nat} {interval : Interval}
    (found : (tileKeys start step number)[index]? = some interval) :
    interval = tile start step index := by
  rw [tileKeys_eq, List.getElem?_map] at found
  obtain ⟨place, isPlace, rfl⟩ := Option.map_eq_some_iff.mp found
  obtain ⟨listed, rfl⟩ := List.getElem?_eq_some_iff.mp isPlace
  rw [List.getElem_range]

section Places

variable {start ending step : Int} (positive : 0 < step)

include positive

theorem ceil_div (distance : Int) :
    ⌈(distance : ℚ) / step⌉ = (distance - 1) / step + 1 := by
  have positiveRat : (0 : ℚ) < step := by exact_mod_cast positive
  have below := Int.mul_ediv_self_le (x := distance - 1) (k := step) positive.ne'
  have above := Int.lt_mul_ediv_self_add (x := distance - 1) positive
  rw [Int.ceil_eq_iff, lt_div_iff₀ positiveRat, div_le_iff₀ positiveRat]
  constructor
  · have : (distance - 1) / step * step < distance := by linarith
    push_cast
    rw [add_sub_cancel_right]
    exact_mod_cast this
  · have : distance ≤ ((distance - 1) / step + 1) * step := by linarith
    exact_mod_cast this

theorem tileIndex_eq (key : Int) : tileIndex start step key = slot start step key := by
  rw [tileIndex, ceil_div positive, add_sub_cancel_right, slot]
  omega

theorem tileCount_eq (nonempty : start < ending) :
    tileCount start ending step = slot start step ending + 1 := by
  have nonneg : 0 ≤ (ending - start - 1) / step := Int.ediv_nonneg (by omega) (by omega)
  rw [tileCount, ceil_div positive, slot]
  omega

/-- All but the last of the intervals end before the end. -/
theorem tileCount_bounds (nonempty : start < ending) :
    (∀ index < tileCount start ending step, start + index * step < ending) ∧
      ending ≤ start + tileCount start ending step * step := by
  have below := Int.mul_ediv_self_le (x := ending - start - 1) (k := step) positive.ne'
  have above := Int.lt_mul_ediv_self_add (x := ending - start - 1) positive
  have nonneg : 0 ≤ (ending - start - 1) / step := Int.ediv_nonneg (by omega) (by omega)
  have count : (tileCount start ending step : Int) = (ending - start - 1) / step + 1 := by
    rw [tileCount_eq positive nonempty, slot]
    omega
  constructor
  · intro index listed
    have le : (index : Int) ≤ (ending - start - 1) / step := by omega
    have scaled := mul_le_mul_of_nonneg_right le positive.le
    linarith
  · rw [count]
    linarith

/-- The comparison of two tiles is that of their places. -/
theorem less_tile_iff (first second : Nat) :
    (tile start step first).less (tile start step second) = true ↔ first < second := by
  unfold tile Interval.less
  simp only [Bool.and_eq_true, decide_eq_true_eq]
  constructor
  · rintro ⟨-, before, -⟩
    by_contra above
    have le : (second : Int) ≤ first := by omega
    have scaled := mul_le_mul_of_nonneg_right le positive.le
    omega
  · intro before
    have le : (first : Int) + 1 ≤ second := by omega
    have scaled := mul_le_mul_of_nonneg_right le positive.le
    rw [add_mul, one_mul] at scaled
    omega

end Places

/-! ## The constructor -/

section Construction

variable {least greatest start ending step : Int} {initial : Value}

/-- The loop adds the tiles, and no sum is outside of the type. -/
theorem construct_tiles (positive : 0 < step) {number fuel : Nat} {map : IntervalMap Value}
    (enough : number < fuel) (within : ∀ index < number, start + index * step < ending)
    (covered : ending ≤ start + number * step) (lower : least ≤ start)
    (upper : ending + step ≤ greatest)
    (below : ∀ entry ∈ map, entry.1.lower < start ∧ entry.1.upper ≤ start) :
    construct least greatest initial ending step fuel start map =
      some (map ++ tiles start step number fun _ => initial) := by
  induction number generalizing start fuel map with
  | zero =>
      obtain ⟨fuel, rfl⟩ : ∃ less, fuel = less + 1 := ⟨fuel - 1, by omega⟩
      rw [Nat.cast_zero, zero_mul, add_zero] at covered
      rw [construct, if_neg (by omega), tiles, List.append_nil]
  | succ number ih =>
      obtain ⟨fuel, rfl⟩ : ∃ less, fuel = less + 1 := ⟨fuel - 1, by omega⟩
      have first := within 0 (by omega)
      rw [Nat.cast_zero, zero_mul, add_zero] at first
      have appended : assign ⟨start, start + step⟩ initial map =
          map ++ [(⟨start, start + step⟩, initial)] := by
        apply assign_of_less
        intro entry member
        obtain ⟨entryLower, entryUpper⟩ := below entry member
        simp only [Interval.less, Bool.and_eq_true, decide_eq_true_eq]
        omega
      rw [construct, if_pos first, if_pos (by omega), appended, ih (by omega), tiles,
        List.append_assoc, List.singleton_append]
      · intro index listed
        have later := within (index + 1) (by omega)
        rw [succ_mul_step] at later
        omega
      · rw [succ_mul_step] at covered
        omega
      · omega
      · intro entry member
        rcases List.mem_append.mp member with old | new
        · obtain ⟨entryLower, entryUpper⟩ := below entry old
          omega
        · rw [List.mem_singleton.mp new]
          dsimp only
          omega

/-- Where the bounded constructor ends, it is the one over all integers. -/
theorem fill_of_construct {fuel : Nat} {map result : IntervalMap Value}
    (ends : construct least greatest initial ending step (fuel + 1) start map = some result) :
    fill initial ending step fuel start map = result := by
  induction fuel generalizing start map with
  | zero =>
      rw [construct] at ends
      split_ifs at ends
      · simp [construct] at ends
      · exact Option.some.inj ends
  | succ fuel ih =>
      rw [construct] at ends
      rw [fill]
      split_ifs at ends ⊢
      · exact ih ends
      · exact Option.some.inj ends

theorem le_mul_step (positive : 0 < step) (number : Nat) : (number : Int) ≤ number * step :=
  le_mul_of_one_le_right (by omega) (by omega)

variable (positive : 0 < step) (nonempty : start < ending) (lower : least ≤ start)
  (upper : ending + step ≤ greatest)

include positive nonempty lower upper

theorem construct_eq {fuel : Nat} (enough : tileCount start ending step < fuel) :
    construct least greatest initial ending step fuel start [] =
      some (tiles start step (tileCount start ending step) fun _ => initial) := by
  obtain ⟨within, covered⟩ := tileCount_bounds positive nonempty
  have ends := @construct_tiles Value least greatest start ending step initial positive _ fuel []
    enough within covered lower upper (by simp)
  rw [ends, List.nil_append]

omit lower upper in
theorem build_eq : build initial start ending step =
    tiles start step (tileCount start ending step) fun _ => initial := by
  obtain ⟨within, -⟩ := tileCount_bounds positive nonempty
  have enough : tileCount start ending step < (ending - start).toNat + 1 := by
    rcases Nat.eq_zero_or_pos (tileCount start ending step) with none | some
    · omega
    · have last := within (tileCount start ending step - 1) (by omega)
      have room := le_mul_step positive (tileCount start ending step - 1)
      omega
  exact fill_of_construct (construct_eq positive nonempty le_rfl le_rfl enough)

end Construction

/-! ## Values by place -/

section Values

variable {start step : Int} {number : Nat} {values : Nat → Value}

theorem map_fst_tiles (start step : Int) (number : Nat) (values : Nat → Value) :
    (tiles start step number values).map Prod.fst = tileKeys start step number := by
  rw [tiles_eq_map, List.map_map, tileKeys_eq]
  rfl

theorem map_snd_tiles (start step : Int) (number : Nat) (values : Nat → Value) :
    (tiles start step number values).map Prod.snd = (List.range number).map values := by
  rw [tiles_eq_map, List.map_map]
  rfl

theorem eq_tiles (initial : Value) {map : IntervalMap Value}
    (keys : map.map Prod.fst = tileKeys start step number) :
    map = tiles start step number fun index => ((map.map Prod.snd)[index]?).getD initial := by
  have length : map.length = number := by
    simpa [tileKeys] using congrArg List.length keys
  rw [tileKeys_eq] at keys
  rw [tiles_eq_map]
  apply List.ext_getElem
  · simp [length]
  · intro index listed _
    have key := List.getElem_of_eq keys (i := index) (by simpa using listed)
    simp only [List.getElem_map, List.getElem_range] at key ⊢
    rw [List.getElem?_eq_getElem (by simpa using listed), List.getElem_map, Option.getD_some,
      ← key]

/-- A change of one value. -/
theorem map_update_range {place : Nat} (change : Value → Value) :
    (List.range number).map (Function.update values place (change (values place))) =
      ((List.range number).map values).modify place change := by
  apply List.ext_getElem
  · simp
  · intro index _ _
    rw [List.getElem_modify]
    by_cases here : place = index
    · subst here
      simp
    · simp [here, Function.update_of_ne (Ne.symm here)]

theorem modify_const (values : List Value) (place : Nat) (value : Value) :
    (values.modify place fun _ => value) = values.set place value := by
  apply List.ext_getElem
  · simp
  · intro index _ _
    rw [List.getElem_modify, List.getElem_set]

variable {key : Int} (positive : 0 < step) (nonempty : 0 < number) (lower : start ≤ key)
  (upper : key ≤ start + number * step)

include positive nonempty lower upper

theorem valueAt_tiles (initial : Value) :
    valueAt initial key (tiles start step number values) =
      some (values (slot start step key)) := by
  obtain ⟨listed, found⟩ := find?_tiles positive values lower upper nonempty
  rw [valueAt, found]
  simp only [lookup_tiles positive listed, Option.getD_some]

theorem emplace_tiles (initial value : Value) :
    emplace initial key value (tiles start step number values) =
      some (value, tiles start step number
        (Function.update values (slot start step key) value)) := by
  obtain ⟨listed, found⟩ := find?_tiles positive values lower upper nonempty
  rw [emplace, found]
  simp only [assign_tiles positive _ listed, lookup_tiles positive listed, Option.getD_some,
    Function.update_self]

theorem addresses_tiles (initial : Value) :
    Addresses initial (tiles start step number values) key (slot start step key) := by
  obtain ⟨listed, -⟩ := find?_tiles positive values lower upper nonempty
  refine ⟨?_, ?_, ?_⟩
  · rw [valueAt_tiles positive nonempty lower upper, map_snd_tiles, List.getElem?_map,
      List.getElem?_range listed]
    rfl
  · intro change
    refine ⟨_, modifyAt_tiles positive values initial change lower upper nonempty, ?_, ?_⟩
    · rw [map_fst_tiles, map_fst_tiles]
    · rw [map_snd_tiles, map_snd_tiles, map_update_range]
  · intro value
    refine ⟨_, emplace_tiles positive nonempty lower upper initial value, ?_, ?_⟩
    · rw [map_fst_tiles, map_fst_tiles]
    · rw [map_snd_tiles, map_snd_tiles, ← modify_const, ← map_update_range]

end Values

/-- An `interval_map` is a partition of its range. -/
theorem partitions {least greatest start ending step : Int} (initial : Value)
    (nonempty : start < ending) (positive : 0 < step) (lower : least ≤ start)
    (upper : ending + step ≤ greatest) :
    Partitions least greatest initial start ending step := by
  have built : build initial start ending step =
      tiles start step (tileCount start ending step) fun _ => initial :=
    build_eq positive nonempty
  refine ⟨?_, ?_, ?_, ?_⟩
  · refine ⟨tileCount start ending step + 1, ?_⟩
    intro fuel enough
    rw [built, construct_eq positive nonempty lower upper (by omega)]
  · rw [built, map_fst_tiles]
  · intro first second left right isFirst isSecond
    rw [getElem?_tileKeys isFirst, getElem?_tileKeys isSecond]
    exact less_tile_iff positive first second
  · intro map keys key above below
    have counted : 0 < tileCount start ending step := by
      rw [tileCount_eq positive nonempty]
      omega
    obtain ⟨listed, -⟩ := find?_tiles positive (fun _ => initial) above below counted
    rw [tileIndex_eq positive]
    refine ⟨listed, ?_⟩
    rw [eq_tiles initial keys]
    exact addresses_tiles positive counted above below initial

/-- The last of three intervals goes beyond the end. -/
theorem partitions_three :
    Partitions (-2 ^ 63) (2 ^ 63 - 1) (0 : Int) 10 25 6 ∧
      tileKeys 10 6 3 = [⟨10, 16⟩, ⟨16, 22⟩, ⟨22, 28⟩] := by
  refine ⟨partitions 0 (by decide) (by decide) (by decide) (by decide), ?_⟩
  decide

end IntervalMap

end MileExplorer
