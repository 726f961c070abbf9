import JsonReport.Binary64.Shortest
import JsonReport.Proofs.RoundedRanks
import Mathlib.Tactic

/-!
# The shortest decimal of a double

A decimal is taken from the first grid that has a point in the interval of the double.  The
last grid, of seventeen digits, always has one: its steps are shorter than the gap below
the double, so that the nearest point lies within half a gap.
-/

namespace JsonReport
namespace Binary64

theorem units_pos {rank : ℕ} (hrank : 0 < rank) : 0 < units rank :=
  (Nat.zero_le _).trans_lt (units_strictMono hrank)

theorem one_pos : 0 < one := by decide +kernel

theorem cast_one_pos : (0 : ℚ) < one := Nat.cast_pos.2 one_pos

theorem tenPower_eq (exponent : ℕ) : tenPower exponent = 10 ^ exponent := rfl

theorem tenPower_pos (exponent : ℕ) : 0 < tenPower exponent := by
  rw [tenPower_eq]
  positivity

theorem tenPower_add (exponent exponent' : ℕ) :
    tenPower (exponent + exponent') = tenPower exponent * tenPower exponent' := by
  simp only [tenPower_eq, pow_add]

/-! ## Points that round to a double -/

/-- How many units a point of a grid is. -/
def pointUnits (point place : ℕ) : ℚ := one * (point * tenPower place) / tenPower lastPlace

theorem roundsTo_iff (rank point place : ℕ) :
    roundsTo rank point place = true ↔
      (units (rank - 1) + units rank) * tenPower lastPlace ≤ 2 * one * (point * tenPower place) ∧
      2 * one * (point * tenPower place) ≤
        (units rank + units (rank + 1)) * tenPower lastPlace ∧
      (rank % 2 = 1 →
        (units (rank - 1) + units rank) * tenPower lastPlace <
          2 * one * (point * tenPower place) ∧
        2 * one * (point * tenPower place) <
          (units rank + units (rank + 1)) * tenPower lastPlace) := by
  unfold roundsTo
  rcases Nat.mod_two_eq_zero_or_one rank with heven | hodd
  · simp [heven]
  · simp only [hodd, Nat.one_ne_zero, if_false, Bool.and_eq_true, decide_eq_true_eq]
    constructor
    · exact fun h => ⟨h.1.le, h.2.le, fun _ => h⟩
    · exact fun h => h.2.2 trivial

theorem rounds_of_roundsTo {rank point place : ℕ} (h : roundsTo rank point place = true) :
    Rounds (pointUnits point place) rank := by
  obtain ⟨hlow, hhigh, hodd⟩ := (roundsTo_iff rank point place).1 h
  have hscale : (0 : ℚ) < tenPower lastPlace := by exact_mod_cast tenPower_pos lastPlace
  have htwice : 2 * pointUnits point place =
      (2 * one * (point * tenPower place) : ℕ) / tenPower lastPlace := by
    unfold pointUnits
    push_cast
    ring
  constructor
  · rw [htwice, le_div_iff₀ hscale]
    exact_mod_cast hlow
  · rw [htwice, div_le_iff₀ hscale]
    exact_mod_cast hhigh
  · rw [htwice, lt_div_iff₀ hscale, div_lt_iff₀ hscale]
    exact_mod_cast hodd

/-! ## Grids -/

/-- The points of a grid next to a double are the whole quotient and the number after it. -/
theorem roundHalfEven_bounds (numerator denominator : ℕ) :
    numerator / denominator ≤ roundHalfEven numerator denominator ∧
      roundHalfEven numerator denominator ≤ numerator / denominator + 1 := by
  unfold roundHalfEven
  dsimp only
  split_ifs
  · simp
  · simp
  · constructor <;> omega

theorem gridPoint?_eq_some {rank place point : ℕ} (h : gridPoint? rank place = some point) :
    roundsTo rank point place = true ∧
      point ≤ units rank * tenPower lastPlace / (one * tenPower place) + 1 := by
  obtain ⟨hbelow, habove⟩ :=
    roundHalfEven_bounds (units rank * tenPower lastPlace) (one * tenPower place)
  unfold gridPoint? at h
  dsimp only at h
  split_ifs at h with hnear hfar
  · cases h
    exact ⟨hnear, habove⟩
  · cases h
    exact ⟨hfar, by omega⟩

/-- A grid whose steps are shorter than the gap below the double has a point for it. -/
theorem exists_gridPoint {rank place : ℕ} (hrank : 0 < rank)
    (hstep : one * tenPower place < gap (rank - 1) * tenPower lastPlace) :
    ∃ point, gridPoint? rank place = some point := by
  have hpositive : 0 < one * tenPower place := Nat.mul_pos one_pos (tenPower_pos place)
  have hbefore : units rank = units (rank - 1) + gap (rank - 1) := by
    rw [← units_succ, Nat.sub_add_cancel hrank]
  have hgap := Nat.mul_le_mul_right (tenPower lastPlace) (gap_mono (Nat.sub_le rank 1))
  have hnear : roundsTo rank
      (roundHalfEven (units rank * tenPower lastPlace) (one * tenPower place)) place = true := by
    obtain ⟨hlow, hhigh, -⟩ := roundHalfEven_spec (units rank * tenPower lastPlace) hpositive
    generalize roundHalfEven (units rank * tenPower lastPlace) (one * tenPower place) = point
      at hlow hhigh
    have hpoint : 2 * one * (point * tenPower place) = 2 * point * (one * tenPower place) := by
      ring
    have hbelow : (units (rank - 1) + units rank) * tenPower lastPlace <
        2 * point * (one * tenPower place) := by
      rw [hbefore] at hhigh ⊢
      linarith
    have habove : 2 * point * (one * tenPower place) <
        (units rank + units (rank + 1)) * tenPower lastPlace := by
      rw [units_succ rank]
      linarith
    rw [roundsTo_iff, hpoint]
    exact ⟨hbelow.le, habove.le, fun _ => ⟨hbelow, habove⟩⟩
  refine ⟨roundHalfEven (units rank * tenPower lastPlace) (one * tenPower place), ?_⟩
  unfold gridPoint?
  exact if_pos hnear

theorem shortestFrom?_eq_some {rank : ℕ} {places : List ℕ} {decimal : Decimal}
    (h : shortestFrom? rank places = some decimal) :
    ∃ place ∈ places, ∃ point, gridPoint? rank place = some point ∧
      decimal = .ofPoint point place := by
  induction places with
  | nil => cases h
  | cons place finer ih =>
      rw [shortestFrom?] at h
      split at h
      · next point hpoint =>
          cases h
          exact ⟨place, List.mem_cons_self, point, hpoint, rfl⟩
      · obtain ⟨place', hplace', hrest⟩ := ih h
        exact ⟨place', List.mem_cons_of_mem _ hplace', hrest⟩

theorem exists_shortestFrom {rank place point : ℕ} {places : List ℕ} (hplace : place ∈ places)
    (h : gridPoint? rank place = some point) :
    ∃ decimal, shortestFrom? rank places = some decimal := by
  induction places with
  | nil => cases hplace
  | cons first finer ih =>
      rw [shortestFrom?]
      split
      · exact ⟨_, rfl⟩
      · next hnone =>
          rcases List.mem_cons.1 hplace with rfl | hfiner
          · rw [h] at hnone
            cases hnone
          · exact ih hfiner

/-! ## Seventeen digits -/

section Length

variable {rank : ℕ}

/-- How many digits a double has down to the last place. -/
def digitCount (rank : ℕ) : ℕ :=
  (decimalDigits (units rank * tenPower lastPlace / one)).length

theorem lt_digitCount (rank : ℕ) :
    units rank * tenPower lastPlace < tenPower (digitCount rank) * one := by
  have hlength : 0 < digitCount rank := Nat.length_toDigits_pos
  have hlt := (Nat.length_toDigits_le_iff (by decide) hlength).1 le_rfl
  rwa [Nat.div_lt_iff_lt_mul one_pos] at hlt

theorem le_of_lt_digitCount {exponent : ℕ} (hexponent : 0 < exponent)
    (h : exponent < digitCount rank) :
    tenPower exponent * one ≤ units rank * tenPower lastPlace := by
  rw [← Nat.le_div_iff_mul_le one_pos]
  by_contra! hless
  exact absurd ((Nat.length_toDigits_le_iff (by decide) hexponent).2 hless) (Nat.not_le.2 h)

/-- Even the least double has seventeen digits. -/
theorem sixteen_lt_digitCount (hrank : 0 < rank) : 16 < digitCount rank := by
  have hleast : tenPower 16 * one ≤ tenPower lastPlace := by decide +kernel
  have hunits := units_pos hrank
  by_contra! hshort
  have hlt := lt_digitCount rank
  have hpower : tenPower (digitCount rank) ≤ tenPower 16 := Nat.pow_le_pow_right (by decide) hshort
  nlinarith

/-- The grid of the seventeenth digit is fine enough. -/
theorem exists_gridPoint_seventeen (hrank : 0 < rank) :
    ∃ point, gridPoint? rank (digitCount rank - 17) = some point := by
  apply exists_gridPoint hrank
  have hcount := sixteen_lt_digitCount hrank
  have hlead : tenPower (16 + (digitCount rank - 17)) * one ≤ units rank * tenPower lastPlace :=
    le_of_lt_digitCount (by omega) (by omega)
  have hdigits := units_succ_le (rank - 1)
  rw [Nat.sub_add_cancel hrank] at hdigits
  have hsixteen : 2 * binade < tenPower 16 := by decide
  have hgap : 0 < gap (rank - 1) * tenPower lastPlace :=
    Nat.mul_pos (gap_pos _) (tenPower_pos _)
  have hscaled : tenPower 16 * (one * tenPower (digitCount rank - 17)) <
      tenPower 16 * (gap (rank - 1) * tenPower lastPlace) := by
    calc tenPower 16 * (one * tenPower (digitCount rank - 17))
        = tenPower (16 + (digitCount rank - 17)) * one := by
          rw [tenPower_add]
          ring
      _ ≤ units rank * tenPower lastPlace := hlead
      _ ≤ 2 * binade * gap (rank - 1) * tenPower lastPlace := Nat.mul_le_mul_right _ hdigits
      _ = 2 * binade * (gap (rank - 1) * tenPower lastPlace) := Nat.mul_assoc _ _ _
      _ < tenPower 16 * (gap (rank - 1) * tenPower lastPlace) :=
          Nat.mul_lt_mul_of_pos_right hsixteen hgap
  exact lt_of_mul_lt_mul_left hscaled (Nat.zero_le _)

/-- A digit more than the grid leaves is never needed. -/
theorem point_le {count point : ℕ} (hcount : count ≤ 17) (hrank : 0 < rank)
    (h : gridPoint? rank (digitCount rank - count) = some point) : point ≤ tenPower count := by
  refine (gridPoint?_eq_some h).2.trans (Nat.succ_le_of_lt ?_)
  have hlength := sixteen_lt_digitCount hrank
  have hsplit : digitCount rank = count + (digitCount rank - count) := by omega
  have hlt := lt_digitCount rank
  rw [hsplit, tenPower_add] at hlt
  rw [Nat.div_lt_iff_lt_mul (Nat.mul_pos one_pos (tenPower_pos _))]
  linarith

/-- The shortest decimal is a point of a grid that rounds to the double, with at most
seventeen digits. -/
theorem exists_shortest (hrank : 0 < rank) :
    ∃ point place, shortest rank = .ofPoint point place ∧ 0 < point ∧ point ≤ tenPower 17 ∧
      Rounds (pointUnits point place) rank := by
  have hlast : digitCount rank - 17 ∈
      (List.range mostDigits).map fun count => digitCount rank - (count + 1) :=
    List.mem_map.2 ⟨16, by decide, rfl⟩
  obtain ⟨point', hpoint'⟩ := exists_gridPoint_seventeen hrank
  obtain ⟨decimal, hdecimal⟩ := exists_shortestFrom hlast hpoint'
  obtain ⟨place, hplace, point, hpoint, rfl⟩ := shortestFrom?_eq_some hdecimal
  obtain ⟨count, hcount, rfl⟩ := List.mem_map.1 hplace
  have hcount : count + 1 ≤ 17 := List.mem_range.1 hcount
  have hrounds := rounds_of_roundsTo (gridPoint?_eq_some hpoint).1
  refine ⟨point, _, ?_, ?_, ?_, hrounds⟩
  · have hshortest : shortest rank = (shortestFrom? rank ((List.range mostDigits).map
        fun count => digitCount rank - (count + 1))).getD (.ofPoint 0 0) := rfl
    rw [hshortest, hdecimal, Option.getD_some]
  · by_contra! hzero
    have hlow := hrounds.low
    have hunits : (0 : ℚ) < units rank := by exact_mod_cast units_pos hrank
    have hbefore : (0 : ℚ) ≤ units (rank - 1) := by positivity
    rw [pointUnits, Nat.le_zero.1 hzero, Nat.cast_zero, zero_mul, mul_zero, zero_div] at hlow
    linarith
  · exact (point_le hcount hrank hpoint).trans (Nat.pow_le_pow_right (by decide) hcount)

end Length

end Binary64
end JsonReport
