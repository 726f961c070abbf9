import JsonReport.Binary64.Rounding
import Mathlib.Tactic

/-!
# What rounds to a rank

The doubles of a scale lie evenly, and from each to the next it is one gap.  A quantity
rounds to a rank when it lies between the middles to the doubles on either side, where the
middles belong to the even ranks.  At most one rank is such, and the rounding finds it.
A rounded quantity is within one part in `2 ^ 53` of the exact one, or less than a unit.
-/

namespace JsonReport
namespace Binary64

/-! ## Gaps -/

/-- How many units it is from a double to the next. -/
def gap (rank : ℕ) : ℕ := 2 ^ (rank / binade - 1)

theorem gap_pos (rank : ℕ) : 0 < gap rank := by
  unfold gap
  positivity

theorem gap_mono {rank rank' : ℕ} (h : rank ≤ rank') : gap rank ≤ gap rank' :=
  Nat.pow_le_pow_right (by decide) (Nat.sub_le_sub_right (Nat.div_le_div_right h) 1)

/-- A significand with its scale is a rank, also one that carries into the next scale. -/
theorem units_scaled {scale significand : ℕ} (hscale : scale = 0 ∨ binade ≤ significand)
    (hlimit : significand ≤ 2 * binade) :
    units (scale * binade + significand) = significand * 2 ^ scale := by
  rcases lt_or_ge significand binade with hsmall | hfull
  · obtain rfl : scale = 0 := by omega
    rw [Nat.zero_mul, Nat.zero_add, units, if_pos hsmall, pow_zero, mul_one]
  · have hlarge : ¬scale * binade + significand < binade := by omega
    rw [units, if_neg hlarge, Nat.shiftLeft_eq]
    rcases lt_or_eq_of_le hlimit with hinside | rfl
    · have hdiv : (scale * binade + significand) / binade - 1 = scale := by
        unfold binade at *
        omega
      have hmod : binade + (scale * binade + significand) % binade = significand := by
        unfold binade at *
        omega
      rw [hdiv, hmod]
    · have hcarry : scale * binade + 2 * binade = (scale + 2) * binade := by ring
      rw [hcarry, Nat.mul_div_cancel _ (by decide), Nat.mul_mod_left, Nat.add_zero,
        Nat.add_sub_assoc (by decide), pow_succ]
      ring

/-- The ranks of the least scale count the units. -/
theorem units_of_le {rank : ℕ} (h : rank ≤ binade + 1) : units rank = rank := by
  simpa using units_scaled (.inl (rfl : (0 : ℕ) = 0)) (h.trans (by decide))

/-- Each rank is a significand with its scale. -/
theorem exists_scaled (rank : ℕ) :
    ∃ scale significand, rank = scale * binade + significand ∧
      (scale = 0 ∨ binade ≤ significand) ∧ significand < 2 * binade ∧ gap rank = 2 ^ scale := by
  have hsplit := Nat.div_add_mod' rank binade
  have hrest : rank % binade < binade := Nat.mod_lt rank (by decide)
  unfold gap
  cases hscale : rank / binade with
  | zero =>
      rw [hscale, Nat.zero_mul, Nat.zero_add] at hsplit
      exact ⟨0, rank, by omega, .inl rfl, by omega, rfl⟩
  | succ scale =>
      rw [hscale, Nat.succ_mul] at hsplit
      exact ⟨scale, binade + rank % binade, by omega, .inr (by omega), by omega, rfl⟩

theorem units_succ (rank : ℕ) : units (rank + 1) = units rank + gap rank := by
  obtain ⟨scale, significand, hrank, hscale, hlimit, hgap⟩ := exists_scaled rank
  have hnext : scale = 0 ∨ binade ≤ significand + 1 := hscale.imp_right Nat.le_succ_of_le
  rw [hgap, hrank, add_assoc, units_scaled hnext hlimit, units_scaled hscale hlimit.le]
  ring

theorem units_strictMono : StrictMono units := by
  apply strictMono_nat_of_lt_succ
  intro rank
  rw [units_succ]
  exact Nat.lt_add_of_pos_right (gap_pos rank)

/-- A double has at most 53 digits. -/
theorem units_succ_le (rank : ℕ) : units (rank + 1) ≤ 2 * binade * gap rank := by
  obtain ⟨scale, significand, hrank, hscale, hlimit, hgap⟩ := exists_scaled rank
  have hnext : scale = 0 ∨ binade ≤ significand + 1 := hscale.imp_right Nat.le_succ_of_le
  rw [hgap, hrank, add_assoc, units_scaled hnext hlimit]
  exact Nat.mul_le_mul_right _ hlimit

/-- Above the least ones a double has all its digits. -/
theorem gap_le_units {rank : ℕ} (h : binade ≤ rank) : binade * gap rank ≤ units rank := by
  obtain ⟨scale, significand, hrank, hscale, hlimit, hgap⟩ := exists_scaled rank
  have hfull : binade ≤ significand := by
    rcases hscale with rfl | hfull
    · omega
    · exact hfull
  rw [hgap, hrank, units_scaled hscale hlimit.le]
  exact Nat.mul_le_mul_right _ hfull

/-! ## Rounding -/

/-- This quantity of units rounds to a rank. -/
structure Rounds (quantity : ℚ) (rank : ℕ) : Prop where
  low : (units (rank - 1) + units rank : ℚ) ≤ 2 * quantity
  high : 2 * quantity ≤ (units rank + units (rank + 1) : ℚ)
  odd : rank % 2 = 1 → (units (rank - 1) + units rank : ℚ) < 2 * quantity ∧
    2 * quantity < (units rank + units (rank + 1) : ℚ)

/-- Half to even, in whole numbers: what is rounded lies within half a step of the result,
and an odd result is not half a step away. -/
theorem roundHalfEven_spec (numerator : ℕ) {denominator : ℕ} (h : 0 < denominator) :
    2 * roundHalfEven numerator denominator * denominator ≤ 2 * numerator + denominator ∧
      2 * numerator ≤ 2 * roundHalfEven numerator denominator * denominator + denominator ∧
      (roundHalfEven numerator denominator % 2 = 1 →
        2 * roundHalfEven numerator denominator * denominator < 2 * numerator + denominator ∧
        2 * numerator <
          2 * roundHalfEven numerator denominator * denominator + denominator) := by
  have hsplit := Nat.div_add_mod numerator denominator
  have hrest := Nat.mod_lt numerator h
  generalize hquotient : numerator / denominator = quotient at hsplit
  generalize hremainder : numerator % denominator = remainder at hsplit hrest
  have hrounded : roundHalfEven numerator denominator =
      if 2 * remainder < denominator then quotient
      else if denominator < 2 * remainder then quotient + 1
      else quotient + quotient % 2 := by
    rw [roundHalfEven, hquotient, hremainder]
  rw [hrounded]
  split_ifs with hbelow habove
  · refine ⟨?_, ?_, fun _ => ⟨?_, ?_⟩⟩ <;> nlinarith
  · refine ⟨?_, ?_, fun _ => ⟨?_, ?_⟩⟩ <;> nlinarith
  · have hhalf : 2 * remainder = denominator := by omega
    rcases Nat.mod_two_eq_zero_or_one quotient with heven | hodd
    · rw [heven]
      refine ⟨?_, ?_, fun hodd => by omega⟩ <;> nlinarith
    · rw [hodd]
      refine ⟨?_, ?_, fun heven => by omega⟩ <;> nlinarith

theorem pow_le_gap {scale significand : ℕ} (hscale : scale = 0 ∨ binade ≤ significand) :
    2 ^ scale ≤ gap (scale * binade + significand) := by
  apply Nat.pow_le_pow_right (by decide)
  rcases hscale with rfl | hfull
  · exact Nat.zero_le _
  · have hquotient : scale + 1 ≤ (scale * binade + significand) / binade := by
      rw [Nat.le_div_iff_mul_le (by decide), Nat.succ_mul]
      exact Nat.add_le_add_left hfull _
    omega

section Scaled

variable (denominator : ℕ) {scale significand : ℕ}

/-- The upper middle of a rounded significand. -/
theorem scaled_high (hscale : scale = 0 ∨ binade ≤ significand)
    (hlimit : significand ≤ 2 * binade) :
    2 * significand * (denominator * 2 ^ scale) + denominator * 2 ^ scale ≤
      (units (scale * binade + significand) + units (scale * binade + significand + 1)) *
        denominator := by
  have hgap := Nat.mul_le_mul_right denominator (pow_le_gap hscale)
  rw [units_succ, units_scaled hscale hlimit]
  linarith

/-- The lower middle, unless the significand is the first of its scale. -/
theorem scaled_low (hscale : scale = 0 ∨ binade < significand)
    (hlimit : significand ≤ 2 * binade) :
    (units (scale * binade + significand - 1) + units (scale * binade + significand)) *
        denominator + denominator * 2 ^ scale ≤
      2 * significand * (denominator * 2 ^ scale) ∨ scale * binade + significand = 0 := by
  cases significand with
  | zero =>
      obtain rfl : scale = 0 := by omega
      exact .inr rfl
  | succ significand =>
      have hbefore : scale = 0 ∨ binade ≤ significand := hscale.imp_right Nat.le_of_lt_succ
      have hhere : scale = 0 ∨ binade ≤ significand + 1 := hbefore.imp_right Nat.le_succ_of_le
      left
      rw [← add_assoc, Nat.add_sub_cancel, units_scaled hbefore (by omega), add_assoc,
        units_scaled hhere hlimit]
      linarith

end Scaled

/-- The scale that is read off the quotient leaves 53 digits, or it is the least one. -/
theorem scale_bounds (numerator : ℕ) {denominator : ℕ} (h : 0 < denominator) :
    let scale := (numerator / denominator).log2 - 52
    numerator < 2 * binade * (denominator * 2 ^ scale) ∧
      (scale = 0 ∨ binade * (denominator * 2 ^ scale) ≤ numerator) := by
  intro scale
  have hbinade : binade = 2 ^ 52 := by decide
  have habove : numerator / denominator < 2 ^ (scale + 53) :=
    Nat.lt_log2_self.trans_le (Nat.pow_le_pow_right (by decide) (by omega))
  constructor
  · rw [Nat.div_lt_iff_lt_mul h, pow_add] at habove
    rw [hbinade]
    linarith
  · rcases Nat.eq_zero_or_pos scale with hzero | hpos
    · exact .inl hzero
    · have hquotient : numerator / denominator ≠ 0 := by
        intro hzero
        simp [scale, hzero] at hpos
      have hbelow : 2 ^ (scale + 52) ≤ numerator / denominator := by
        have hlog : scale + 52 = (numerator / denominator).log2 := by omega
        rw [hlog]
        exact Nat.log2_self_le hquotient
      rw [Nat.le_div_iff_mul_le h, pow_add] at hbelow
      right
      rw [hbinade]
      linarith

/-- The lower middle of a rounded significand is not above the quotient. -/
theorem middle_le {numerator denominator scale significand : ℕ} (h : 0 < denominator)
    (hbelow : scale = 0 ∨ binade * (denominator * 2 ^ scale) ≤ numerator)
    (hfull : scale = 0 ∨ binade ≤ significand) (hlimit : significand ≤ 2 * binade)
    (hlow : 2 * significand * (denominator * 2 ^ scale) ≤ 2 * numerator + denominator * 2 ^ scale)
    (hodd : significand % 2 = 1 →
      2 * significand * (denominator * 2 ^ scale) < 2 * numerator + denominator * 2 ^ scale) :
    let rank := scale * binade + significand
    (units (rank - 1) + units rank) * denominator ≤ 2 * numerator ∧
      (significand % 2 = 1 → (units (rank - 1) + units rank) * denominator < 2 * numerator) := by
  intro rank
  have hstep : 0 < denominator * 2 ^ scale := by positivity
  -- Only a quotient below the double itself needs the middle below it.
  rcases lt_or_ge numerator (significand * (denominator * 2 ^ scale)) with hless | hmore
  · have hinside : scale = 0 ∨ binade < significand := by
      refine hbelow.imp_right fun hbelow => ?_
      exact lt_of_mul_lt_mul_right (hbelow.trans_lt hless) hstep.le
    rcases scaled_low denominator hinside hlimit with hdown | hzero
    · exact ⟨by linarith, fun hsignificand => by linarith [hodd hsignificand]⟩
    · have hrank : rank = 0 := hzero
      rw [hrank]
      exact ⟨by simp [units], fun hsignificand => by omega⟩
  · have hunits : units rank * denominator = significand * (denominator * 2 ^ scale) := by
      rw [units_scaled hfull hlimit]
      ring
    constructor
    · have hbefore : units (rank - 1) ≤ units rank := units_strictMono.monotone (Nat.sub_le _ _)
      nlinarith
    · intro hsignificand
      have hbefore : units (rank - 1) < units rank := units_strictMono (by omega)
      nlinarith

/-- A quotient is rounded to a rank whose middles enclose it. -/
theorem nearestRank_spec (numerator : ℕ) {denominator : ℕ} (h : 0 < denominator) :
    let rank := nearestRank numerator denominator
    (units (rank - 1) + units rank) * denominator ≤ 2 * numerator ∧
      2 * numerator ≤ (units rank + units (rank + 1)) * denominator ∧
      (rank % 2 = 1 → (units (rank - 1) + units rank) * denominator < 2 * numerator ∧
        2 * numerator < (units rank + units (rank + 1)) * denominator) := by
  intro rank
  obtain ⟨habove, hbelow⟩ := scale_bounds numerator h
  generalize hscale : (numerator / denominator).log2 - 52 = scale at habove hbelow
  have hstep : 0 < denominator * 2 ^ scale := by positivity
  obtain ⟨hlow, hhigh, hodd⟩ := roundHalfEven_spec numerator hstep
  generalize hrounded : roundHalfEven numerator (denominator * 2 ^ scale) = significand
    at hlow hhigh hodd
  have hrank : rank = scale * binade + significand := by
    simp only [rank, nearestRank, hscale, Nat.shiftLeft_eq, hrounded]
  have hlimit : significand ≤ 2 * binade := by
    by_contra! hmore
    nlinarith
  have hfull : scale = 0 ∨ binade ≤ significand := by
    refine hbelow.imp_right fun hbelow => ?_
    by_contra! hless
    nlinarith
  have hparity : rank % 2 = significand % 2 := by
    unfold binade at hrank
    omega
  have hup := scaled_high denominator hfull hlimit
  have hmiddle := middle_le h hbelow hfull hlimit hlow fun hsignificand => (hodd hsignificand).1
  rw [← hrank] at hup hmiddle
  rw [← hparity] at hodd hmiddle
  exact ⟨hmiddle.1, by linarith, fun hrank => ⟨hmiddle.2 hrank, by linarith [(hodd hrank).2]⟩⟩

/-- The rounding finds a rank to which the quotient rounds. -/
theorem rounds_nearestRank (numerator : ℕ) {denominator : ℕ} (h : 0 < denominator) :
    Rounds (numerator / denominator) (nearestRank numerator denominator) := by
  obtain ⟨hlow, hhigh, hodd⟩ := nearestRank_spec numerator h
  have hdenominator : (0 : ℚ) < denominator := by exact_mod_cast h
  constructor
  · rw [← mul_div_assoc, le_div_iff₀ hdenominator]
    exact_mod_cast hlow
  · rw [← mul_div_assoc, div_le_iff₀ hdenominator]
    exact_mod_cast hhigh
  · rw [← mul_div_assoc, lt_div_iff₀ hdenominator, div_lt_iff₀ hdenominator]
    exact_mod_cast hodd

variable {quantity : ℚ} {rank rank' : ℕ}

theorem Rounds.le (h : Rounds quantity rank) (h' : Rounds quantity rank') : rank' ≤ rank := by
  by_contra! hless
  have hmonotone : units (rank + 1) ≤ units rank' := units_strictMono.monotone hless
  have hmonotone' : units rank ≤ units (rank' - 1) :=
    units_strictMono.monotone (Nat.le_sub_one_of_lt hless)
  have hfirst : (units (rank + 1) : ℚ) ≤ units rank' := by exact_mod_cast hmonotone
  have hsecond : (units rank : ℚ) ≤ units (rank' - 1) := by exact_mod_cast hmonotone'
  have hmiddle := h.high
  have hmiddle' := h'.low
  -- Both middles are one, so the ranks are neighbours and one of them is odd.
  have hnext : rank' = rank + 1 := by
    by_contra hne
    have hstrict : units (rank + 1) < units rank' := units_strictMono (by omega)
    have hstrict : (units (rank + 1) : ℚ) < units rank' := by exact_mod_cast hstrict
    linarith
  rcases Nat.mod_two_eq_zero_or_one rank with heven | hodd
  · linarith [(h'.odd (by omega)).1]
  · linarith [(h.odd hodd).2]

/-- A quantity rounds to one rank only. -/
theorem Rounds.unique (h : Rounds quantity rank) (h' : Rounds quantity rank') : rank = rank' :=
  le_antisymm (h'.le h) (h.le h')

/-- A double rounds to itself. -/
theorem rounds_units (rank : ℕ) : Rounds (units rank) rank := by
  have hbefore : units (rank - 1) ≤ units rank := units_strictMono.monotone (Nat.sub_le _ _)
  have hbefore : (units (rank - 1) : ℚ) ≤ units rank := by exact_mod_cast hbefore
  have hnext : units rank < units (rank + 1) := units_strictMono (Nat.lt_succ_self rank)
  have hnext : (units rank : ℚ) < units (rank + 1) := by exact_mod_cast hnext
  constructor
  · linarith
  · linarith
  · intro hodd
    have hstrict : units (rank - 1) < units rank := units_strictMono (by omega)
    have hstrict : (units (rank - 1) : ℚ) < units rank := by exact_mod_cast hstrict
    constructor <;> linarith

theorem nearestRank_eq {numerator denominator : ℕ} (hdenominator : 0 < denominator)
    (h : Rounds (numerator / denominator) rank) : nearestRank numerator denominator = rank :=
  (rounds_nearestRank numerator hdenominator).unique h

/-! ## Exact numbers -/

theorem one_eq : one = 2 ^ 1074 := by decide +kernel

theorem exists_units {significand : ℕ} (h : significand ≤ 2 * binade) (scale : ℕ) :
    ∃ rank, units rank = significand * 2 ^ scale := by
  induction scale generalizing significand with
  | zero =>
      refine ⟨significand, ?_⟩
      simpa using units_scaled (.inl rfl) h
  | succ scale ih =>
      by_cases hsmall : significand ≤ binade
      · obtain ⟨rank, hrank⟩ := ih (Nat.mul_le_mul_left 2 hsmall)
        refine ⟨rank, ?_⟩
        rw [hrank, pow_succ]
        ring
      · exact ⟨_, units_scaled (.inr (Nat.le_of_not_le hsmall)) h⟩

/-- A whole number of at most 53 digits, and any power of two times it, is a double. -/
theorem units_rankOfNat {significand : ℕ} (h : significand ≤ 2 * binade) (scale : ℕ) :
    units (rankOfNat (significand * 2 ^ scale)) = significand * 2 ^ scale * one := by
  obtain ⟨rank, hrank⟩ := exists_units h (scale + 1074)
  rw [pow_add, ← mul_assoc, ← one_eq] at hrank
  have hrounds : Rounds ((significand * 2 ^ scale * one : ℕ) / (1 : ℕ)) rank := by
    rw [Nat.cast_one, div_one, ← hrank]
    exact rounds_units rank
  rw [rankOfNat, nearestRank_eq Nat.one_pos hrounds, hrank]

/-! ## Errors -/

/-- One part in `2 ^ 53`. -/
def roundoff : ℚ := 1 / 0x20000000000000

theorem roundoff_pos : 0 < roundoff := by
  unfold roundoff
  norm_num

/-- Neither of two quantities is more than a multiple of the other. -/
structure Close (factor a b : ℚ) : Prop where
  le : a ≤ factor * b
  ge : b ≤ factor * a

/-- More than the least scale holds rounds beyond it. -/
theorem Rounds.binade_lt (h : Rounds quantity rank) (hquantity : binade + 1 ≤ quantity) :
    binade < rank := by
  by_contra! hsmall
  have hhigh := h.high
  rw [units_of_le (by omega), units_of_le (by omega)] at hhigh
  have hcount : (rank : ℚ) ≤ binade := by exact_mod_cast hsmall
  push_cast at hhigh hcount hquantity
  linarith

/-- Above the least doubles a rounding keeps a quantity up to one part in `2 ^ 53`. -/
theorem Rounds.close (h : Rounds quantity rank) (hrank : binade < rank) :
    Close (1 + roundoff) quantity (units rank) := by
  obtain ⟨before, rfl⟩ : ∃ before, rank = before + 1 := ⟨rank - 1, by omega⟩
  have hgap : (binade * gap (before + 1) : ℚ) ≤ units (before + 1) := by
    exact_mod_cast gap_le_units hrank.le
  have hgap' : (binade * gap before : ℚ) ≤ units before := by
    exact_mod_cast gap_le_units (Nat.le_of_lt_succ hrank)
  have hlow := h.low
  have hhigh := h.high
  rw [Nat.add_sub_cancel] at hlow
  rw [units_succ (before + 1)] at hhigh
  rw [units_succ before] at hlow hhigh hgap ⊢
  push_cast at hlow hhigh hgap hgap' ⊢
  unfold roundoff
  constructor <;> linarith

theorem Rounds.near (h : Rounds quantity rank) :
    quantity ≤ (1 + roundoff) * units rank + 1 / 2 ∧
      units rank ≤ (1 + roundoff) * quantity + 1 / 2 := by
  have hlow := h.low
  have hhigh := h.high
  have hunits : (0 : ℚ) ≤ units rank := by positivity
  have hquantity : 0 ≤ quantity := by
    have hbefore : (0 : ℚ) ≤ units (rank - 1) := by positivity
    linarith
  rcases lt_or_ge binade rank with hlarge | hsmall
  · obtain ⟨hle, hge⟩ := h.close hlarge
    constructor <;> linarith
  · rw [units_of_le (by omega)] at hunits hlow hhigh ⊢
    rw [units_of_le (by omega)] at hlow hhigh
    have hbefore : rank ≤ (rank - 1) + 1 := by omega
    have hbefore : (rank : ℚ) ≤ (rank - 1 : ℕ) + 1 := by exact_mod_cast hbefore
    push_cast at hhigh
    unfold roundoff
    constructor <;> linarith

/-- A quantity lies within half a gap of the double that it rounds to. -/
theorem Rounds.within_gap (h : Rounds quantity rank) :
    quantity ≤ units rank + gap rank / 2 ∧ units rank ≤ quantity + gap rank / 2 := by
  have hbefore : units rank ≤ units (rank - 1) + gap rank := by
    cases rank with
    | zero => exact Nat.le_add_right _ _
    | succ before =>
        rw [units_succ before, Nat.add_sub_cancel]
        exact Nat.add_le_add_left (gap_mono (Nat.le_succ before)) _
  have hlow := h.low
  have hhigh := h.high
  rw [units_succ rank] at hhigh
  qify at hbefore
  push_cast at hhigh
  constructor <;> linarith

/-- A quantity that exceeds another by two roundings, or by less than two units, rounds at
most two ranks higher. -/
theorem Rounds.le_add_two {quantity' : ℚ} (h : Rounds quantity rank)
    (h' : Rounds quantity' rank')
    (hnear : quantity' ≤ (1 + roundoff) ^ 2 * quantity ∨ quantity' < quantity + 2) :
    rank' ≤ rank + 2 := by
  by_contra! hless
  have hgap₁ := gap_mono (Nat.le_succ rank)
  have hgap₂ := gap_mono (Nat.le_add_right rank 2)
  have hbelow : units (rank + 2) ≤ units (rank' - 1) := units_strictMono.monotone (by omega)
  have hbelow' : units (rank + 3) ≤ units rank' := units_strictMono.monotone (by omega)
  have hdigits := units_succ_le rank
  rw [units_succ (rank + 2), units_succ (rank + 1)] at hbelow'
  rw [units_succ (rank + 1)] at hbelow
  rw [units_succ rank] at hbelow hbelow' hdigits
  have hpositive := gap_pos rank
  have hhigh := h.high
  have hlow := h'.low
  rw [units_succ rank] at hhigh
  qify at hgap₁ hgap₂ hbelow hbelow' hdigits hpositive
  push_cast at hhigh
  rcases hnear with hrelative | habsolute
  · unfold roundoff at hrelative
    linarith
  · have hone : (1 : ℚ) ≤ gap rank := by exact_mod_cast gap_pos rank
    linarith

end Binary64
end JsonReport
