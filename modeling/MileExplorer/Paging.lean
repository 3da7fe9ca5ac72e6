import Mathlib.Data.List.Basic

/-!
# Pages of a list

A list is read in pages of one size.  The pages one after the other are an
initial part of the list, and all of it once they reach its end.
-/

namespace MileExplorer

section Pages

variable {Row : Type}

def pageOf (rows : List Row) (first limit : Nat) : List Row := (rows.drop first).take limit

theorem flatMap_pageOf (rows : List Row) (limit pages : Nat) :
    (List.range pages).flatMap (fun page => pageOf rows (page * limit) limit) =
      rows.take (pages * limit) := by
  induction pages with
  | zero => simp
  | succ pages ih =>
      rw [List.range_succ, List.flatMap_append, ih, Nat.succ_mul, List.take_add]
      simp [pageOf]

/-- The pages that begin below a bound are the first ones, up to the bound
rounded up to whole pages. -/
theorem filter_mul_lt {limit : Nat} (positive : 0 < limit) (bound : Nat) :
    (List.range bound).filter (fun page => page * limit < bound) =
      List.range ((bound + limit - 1) / limit) := by
  have begins : ∀ page, page * limit < bound ↔ page < (bound + limit - 1) / limit := by
    intro page
    rw [Nat.lt_iff_add_one_le, Nat.lt_iff_add_one_le, Nat.le_div_iff_mul_le positive,
      Nat.succ_mul]
    omega
  have least : (bound + limit - 1) / limit ≤ bound := by
    rw [Nat.div_le_iff_le_mul_add_pred positive]
    have := Nat.le_mul_of_pos_left bound positive
    omega
  generalize (bound + limit - 1) / limit = pages at begins least
  obtain ⟨rest, rfl⟩ := Nat.exists_eq_add_of_le least
  rw [List.range_add, List.filter_append, List.filter_eq_self.mpr, List.filter_eq_nil_iff.mpr,
    List.append_nil]
  · intro page member
    obtain ⟨offset, -, rfl⟩ := List.mem_map.mp member
    simp [begins]
  · intro page member
    simpa [begins] using member

theorem le_pages {limit : Nat} (positive : 0 < limit) (bound : Nat) :
    bound ≤ (bound + limit - 1) / limit * limit := by
  have division := Nat.div_add_mod (bound + limit - 1) limit
  have remainder := Nat.mod_lt (bound + limit - 1) positive
  rw [Nat.mul_comm] at division
  omega

theorem limit_le_pages {limit bound : Nat} (positive : 0 < limit) (nonempty : 0 < bound) :
    limit ≤ (bound + limit - 1) / limit * limit := by
  have pages : 0 < (bound + limit - 1) / limit := Nat.div_pos (by omega) positive
  exact Nat.le_mul_of_pos_left limit pages

/-- Rows that carry the consecutive numbers from `start` on: those with a
number in a range are a page. -/
theorem filter_range_eq {rows : List Row} {number : Row → Nat} {start : Nat}
    (numbered : rows.map number = List.range' start rows.length) (first last : Nat) :
    rows.filter (fun row => first ≤ number row ∧ number row < last) =
      pageOf rows (first - start) (last - max first start) := by
  induction rows generalizing start with
  | nil => simp [pageOf]
  | cons row rest ih =>
      obtain ⟨rowEq, restEq⟩ : number row = start ∧
          rest.map number = List.range' (start + 1) rest.length := by
        simpa [List.range'_succ] using numbered
      rw [List.filter_cons, ih restEq, rowEq]
      by_cases before : first ≤ start
      · by_cases inside : start < last
        · rw [show max first (start + 1) = start + 1 by omega,
            show max first start = start by omega, show last - start = last - (start + 1) + 1 by omega]
          simp [pageOf, before, inside, show first - start = 0 by omega,
            show first - (start + 1) = 0 by omega]
        · simp [pageOf, inside, show last - max first start = 0 by omega,
            show last - max first (start + 1) = 0 by omega]
      · have later : first - start = first - (start + 1) + 1 := by omega
        simp [pageOf, before, later, show max first start = max first (start + 1) by omega]

end Pages

end MileExplorer
