import JsonReport.Binary64.Scaled
import JsonReport.Proofs.DecimalReading
import Mathlib.Tactic

/-!
# How far a scaled significand is off

A significand is rounded, the power of ten is rounded, and so is their product or quotient.
Two of these roundings are in the operands and cost a part in `2 ^ 53` each; the last one
is the rank.  Where the power is taken off in two portions, the rounding in between costs
as much again, but the double next to `10 ^ 308` is so near that the first portion is no
worse than two roundings, and the second power is exact.
-/

namespace JsonReport
namespace Binary64

/-! ## Quantities that are close -/

namespace Close

variable {factor factor' a b c d : ℚ}

theorem refl (a : ℚ) : Close 1 a a := ⟨by rw [one_mul], by rw [one_mul]⟩

theorem mono (h : Close factor a b) (hfactor : factor ≤ factor') (ha : 0 ≤ a) (hb : 0 ≤ b) :
    Close factor' a b :=
  ⟨h.le.trans (mul_le_mul_of_nonneg_right hfactor hb),
    h.ge.trans (mul_le_mul_of_nonneg_right hfactor ha)⟩

theorem mul (h : Close factor a b) (h' : Close factor' c d) (ha : 0 ≤ a) (hb : 0 ≤ b)
    (hc : 0 ≤ c) (hd : 0 ≤ d) : Close (factor * factor') (a * c) (b * d) := by
  constructor
  · calc a * c ≤ (factor * b) * (factor' * d) :=
          mul_le_mul h.le h'.le hc (ha.trans h.le)
      _ = factor * factor' * (b * d) := by ring
  · calc b * d ≤ (factor * a) * (factor' * c) :=
          mul_le_mul h.ge h'.ge hd (hb.trans h.ge)
      _ = factor * factor' * (a * c) := by ring

theorem inv (h : Close factor a b) (ha : 0 < a) (hb : 0 < b) : Close factor a⁻¹ b⁻¹ := by
  constructor
  · rw [inv_le_iff_one_le_mul₀ ha, mul_assoc, ← div_eq_inv_mul, mul_div_assoc', le_div_iff₀ hb]
    linarith [h.ge]
  · rw [inv_le_iff_one_le_mul₀ hb, mul_assoc, ← div_eq_inv_mul, mul_div_assoc', le_div_iff₀ ha]
    linarith [h.le]

theorem div (h : Close factor a b) (h' : Close factor' c d) (ha : 0 ≤ a) (hb : 0 ≤ b)
    (hc : 0 < c) (hd : 0 < d) : Close (factor * factor') (a / c) (b / d) := by
  simpa only [div_eq_mul_inv] using
    h.mul (h'.inv hc hd) ha hb (inv_nonneg.2 hc.le) (inv_nonneg.2 hd.le)

variable {unit : ℚ}

/-- The product of two quantities in units, each rounded. -/
theorem product (h : Close factor (a * unit) b) (h' : Close factor' (c * unit) d)
    (hunit : 0 < unit) (ha : 0 < a) (hb : 0 < b) (hc : 0 < c) (hd : 0 < d) :
    Close (factor * factor') (a * c * unit) (b * d / unit) := by
  have hproduct := (h.mul h' (by positivity) hb.le (by positivity) hd.le).div (.refl unit)
    (by positivity) (by positivity) hunit hunit
  have hquantity : a * c * unit = a * unit * (c * unit) / unit := by
    field_simp
  rw [hquantity]
  simpa only [mul_one] using hproduct

/-- The quotient of two quantities in units, each rounded. -/
theorem quotient (h : Close factor (a * unit) b) (h' : Close factor' (c * unit) d)
    (hunit : 0 < unit) (ha : 0 < a) (hb : 0 < b) (hc : 0 < c) (hd : 0 < d) :
    Close (factor * factor') (a / c * unit) (b * unit / d) := by
  have hquotient := (h.mul (.refl unit) (by positivity) hb.le hunit.le hunit.le).div h'
    (by positivity) (by positivity) (by positivity) hd
  have hquantity : a / c * unit = a * unit * unit / (c * unit) := by
    field_simp
  rw [hquantity]
  simpa only [mul_one] using hquotient

end Close

/-! ## Operands -/

theorem rounds_rankOfNat (n : ℕ) : Rounds (n * one) (rankOfNat n) := by
  simpa [rankOfNat] using rounds_nearestRank (n * one) Nat.one_pos

theorem binade_lt_rankOfNat {n : ℕ} (hn : 0 < n) : binade < rankOfNat n := by
  have hquantity : binade + 1 ≤ n * one := by
    have hone : binade + 1 ≤ one := by decide +kernel
    exact hone.trans (Nat.le_mul_of_pos_left one hn)
  exact (rounds_rankOfNat n).binade_lt (by exact_mod_cast hquantity)

/-- A whole number is rounded by one part in `2 ^ 53`. -/
theorem close_rankOfNat {n : ℕ} (hn : 0 < n) :
    Close (1 + roundoff) (n * one) (units (rankOfNat n)) :=
  (rounds_rankOfNat n).close (binade_lt_rankOfNat hn)

theorem units_rankOfNat_pos {n : ℕ} (hn : 0 < n) : (0 : ℚ) < units (rankOfNat n) :=
  Nat.cast_pos.2 (units_pos ((Nat.zero_le _).trans_lt (binade_lt_rankOfNat hn)))

theorem rounds_mulRank (x y : ℕ) : Rounds (units x * units y / one) (mulRank x y) := by
  simpa [mulRank] using rounds_nearestRank (units x * units y) one_pos

theorem rounds_divRank (x : ℕ) {n : ℕ} (hn : 0 < n) :
    Rounds (units x * one / units (rankOfNat n)) (divRank x (rankOfNat n)) := by
  have hpos : 0 < units (rankOfNat n) := Nat.cast_pos.1 (units_rankOfNat_pos hn)
  simpa [divRank] using rounds_nearestRank (units x * one) hpos

theorem scaledUnits_natCast (n exponent : ℕ) :
    scaledUnits n exponent = n * tenPower exponent * one := by
  rw [scaledUnits, zpow_natCast, tenPower_eq, Nat.cast_pow, Nat.cast_ofNat]

theorem scaledUnits_neg (n exponent : ℕ) :
    scaledUnits n (-exponent) = n * one / tenPower exponent := by
  rw [scaledUnits, zpow_neg, zpow_natCast, tenPower_eq, Nat.cast_pow, Nat.cast_ofNat,
    ← div_eq_mul_inv, mul_div_right_comm]

/-! ## One step -/

section OneStep

variable {n : ℕ} (hn : 0 < n) (exponent : ℕ)

include hn

theorem close_product :
    Close ((1 + roundoff) ^ 2) (n * tenPower exponent * one)
      (units (rankOfNat n) * units (tenRank exponent) / one) := by
  have hten := tenPower_pos exponent
  have hproduct := (close_rankOfNat hn).product (close_rankOfNat hten) cast_one_pos
    (Nat.cast_pos.2 hn) (units_rankOfNat_pos hn) (Nat.cast_pos.2 hten) (units_rankOfNat_pos hten)
  rw [pow_two]
  exact hproduct

theorem close_quotient :
    Close ((1 + roundoff) ^ 2) (n * one / tenPower exponent)
      (units (rankOfNat n) * one / units (tenRank exponent)) := by
  have hten := tenPower_pos exponent
  have hquotient := (close_rankOfNat hn).quotient (close_rankOfNat hten)
    cast_one_pos (Nat.cast_pos.2 hn) (units_rankOfNat_pos hn) (Nat.cast_pos.2 hten)
    (units_rankOfNat_pos hten)
  rw [pow_two, mul_div_right_comm]
  exact hquotient

end OneStep

/-- Up to `10 ^ 22` a power of ten is a double. -/
theorem units_tenRank {exponent : ℕ} (h : exponent ≤ 22) :
    units (tenRank exponent) = tenPower exponent * one := by
  have hfive : 5 ^ exponent ≤ 2 * binade := (Nat.pow_le_pow_right (by decide) h).trans (by decide)
  have hsplit : tenPower exponent = 5 ^ exponent * 2 ^ exponent := Nat.mul_pow 5 2 exponent
  rw [tenRank, hsplit]
  exact units_rankOfNat hfive exponent

theorem units_rankOfNat_exact {n : ℕ} (h : n ≤ 2 * binade) : units (rankOfNat n) = n * one := by
  simpa using units_rankOfNat h 0

theorem ten_le_tenPower {exponent : ℕ} (h : 1 ≤ exponent) : (10 : ℚ) ≤ tenPower exponent := by
  have hten : 10 ≤ tenPower exponent := Nat.le_self_pow (Nat.one_le_iff_ne_zero.1 h) 10
  exact_mod_cast hten

/-! ## Two steps -/

/-- The double next to `10 ^ 308` is off by less than a tenth of one part in `2 ^ 53`, and its
significand is a little more than a ninth above the least. -/
structure Portion (shift : ℕ) : Prop where
  lower : 1112 * (2 ^ shift * one) < 1000 * units (tenRank 308)
  upper : 1000 * units (tenRank 308) < 1120 * (2 ^ shift * one)
  le : 0x140000000000000 * (tenPower 308 * one) ≤ 0x140000000000001 * units (tenRank 308)
  ge : 0x140000000000000 * units (tenRank 308) ≤ 0x140000000000001 * (tenPower 308 * one)

theorem exists_portion : ∃ shift, Portion shift :=
  ⟨1023, by decide +kernel, by decide +kernel, by decide +kernel, by decide +kernel⟩

/-- A gap is a power of two. -/
theorem gap_cases (rank rank' shift : ℕ) :
    2 * gap rank ≤ gap rank' * 2 ^ shift ∨ gap rank' * 2 ^ shift = gap rank ∨
      2 * (gap rank' * 2 ^ shift) ≤ gap rank := by
  unfold gap
  rw [← pow_add, ← pow_succ', ← pow_succ']
  rcases lt_trichotomy (rank / binade - 1) (rank' / binade - 1 + shift) with hless | heq | hmore
  · exact .inl (Nat.pow_le_pow_right (by decide) hless)
  · exact .inr (.inl (by rw [heq]))
  · exact .inr (.inr (Nat.pow_le_pow_right (by decide) hmore))

/-- Of a number and its quotient by a significand a little above a ninth, multiplied back:
where the quotient keeps the scale, its own significand is that much above the least; where it
falls to a lower scale, its gap is at most half. -/
theorem close_of_gaps {number rounded step quotient step' power divisor : ℚ}
    (hbelow : number ≤ rounded + step / 2) (habove : rounded ≤ number + step / 2)
    (hdigits : binade * step ≤ rounded) (hmost : rounded + step ≤ 2 * binade * step)
    (hbelow' : rounded ≤ (quotient + step' / 2) * divisor)
    (habove' : quotient * divisor ≤ rounded + step' / 2 * divisor)
    (hdigits' : binade * step' ≤ quotient) (hstep' : 0 < step') (hdivisor : 0 < divisor)
    (hlower : 1112 * power < 1000 * divisor) (hupper : 1000 * divisor < 1120 * power)
    (hcases : 2 * step ≤ step' * power ∨ step' * power = step ∨ 2 * (step' * power) ≤ step) :
    Close (1 + 19 / 10 * roundoff) number (quotient * divisor) := by
  have hlower' := mul_lt_mul_of_pos_left hlower hstep'
  have hupper' := mul_lt_mul_of_pos_left hupper hstep'
  have hfull := mul_le_mul_of_nonneg_right hdigits' hdivisor.le
  push_cast at hdigits hmost hfull
  unfold roundoff
  rcases hcases with hhigher | hsame | hfell
  · linarith
  · constructor <;> linarith
  · constructor <;> linarith

theorem Portion.close_back {shift n rank : ℕ} (h : Portion shift) (hn : 0 < n)
    (hrank : binade < rank)
    (hrounds : Rounds (units (rankOfNat n) * one / units (tenRank 308)) rank) :
    Close (1 + 19 / 10 * roundoff) (n * one) (units rank * (units (tenRank 308) / one)) := by
  have hone := cast_one_pos
  have hten : (0 : ℚ) < units (tenRank 308) := units_rankOfNat_pos (tenPower_pos 308)
  have hdivisor : (0 : ℚ) < units (tenRank 308) / one := div_pos hten hone
  obtain ⟨hbelow, habove⟩ := (rounds_rankOfNat n).within_gap
  obtain ⟨hbelow', habove'⟩ := hrounds.within_gap
  have hdigits := gap_le_units (binade_lt_rankOfNat hn).le
  have hdigits' := gap_le_units hrank.le
  have hmost := units_succ_le (rankOfNat n)
  have hcases := gap_cases (rankOfNat n) rank shift
  have hlower := h.lower
  have hupper := h.upper
  rw [units_succ] at hmost
  qify at hdigits hdigits' hmost hcases hlower hupper
  have hback : (units (rankOfNat n) * one / units (tenRank 308) *
      (units (tenRank 308) / one) : ℚ) = units (rankOfNat n) := by
    field_simp
  have hbelow' := mul_le_mul_of_nonneg_right hbelow' hdivisor.le
  have habove' := mul_le_mul_of_nonneg_right habove' hdivisor.le
  rw [hback] at hbelow'
  rw [add_mul, hback] at habove'
  refine close_of_gaps hbelow habove hdigits hmost hbelow' habove' hdigits'
    (Nat.cast_pos.2 (gap_pos rank)) hdivisor ?_ ?_ hcases
  · rw [← mul_div_assoc, lt_div_iff₀ hone]
    linarith
  · rw [← mul_div_assoc, div_lt_iff₀ hone]
    linarith

/-- The first portion is no worse than two roundings. -/
theorem close_firstPortion {n rank : ℕ} (hn : 0 < n) (hrank : binade < rank)
    (hrounds : Rounds (units (rankOfNat n) * one / units (tenRank 308)) rank) :
    Close ((1 + roundoff) ^ 2) (n * one / tenPower 308) (units rank) := by
  obtain ⟨shift, hportion⟩ := exists_portion
  have hone := cast_one_pos
  have hten : (0 : ℚ) < units (tenRank 308) := units_rankOfNat_pos (tenPower_pos 308)
  have hpower : (0 : ℚ) < tenPower 308 := Nat.cast_pos.2 (tenPower_pos 308)
  have hnumber : (0 : ℚ) ≤ n * one := (mul_pos (Nat.cast_pos.2 hn) hone).le
  have hrounded : (0 : ℚ) ≤ units rank := Nat.cast_nonneg _
  have hpositive : (0 : ℚ) < units (tenRank 308) / one := div_pos hten hone
  have hdivisor : Close (1 + roundoff / 10) (tenPower 308 : ℚ) (units (tenRank 308) / one) := by
    have hle := hportion.le
    have hge := hportion.ge
    qify at hle hge
    unfold roundoff
    constructor
    · rw [← mul_div_assoc, le_div_iff₀ hone]
      linarith
    · rw [div_le_iff₀ hone]
      linarith
  have hback := hportion.close_back hn hrank hrounds
  have hquotient := hback.div hdivisor hnumber (mul_nonneg hrounded hpositive.le) hpower hpositive
  rw [mul_div_cancel_right₀ _ hpositive.ne'] at hquotient
  refine hquotient.mono ?_ (div_nonneg hnumber hpower.le) hrounded
  unfold roundoff
  norm_num

/-- Two roundings apart, or less than two units. -/
def Near (a b : ℚ) : Prop := Close ((1 + roundoff) ^ 2) a b ∨ a < b + 2 ∧ b < a + 2

theorem Near.ranks {a b : ℚ} {rank rank' : ℕ} (h : Near a b) (ha : Rounds a rank)
    (hb : Rounds b rank') : rank ≤ rank' + 2 ∧ rank' ≤ rank + 2 := by
  rcases h with hclose | ⟨hless, hless'⟩
  · exact ⟨hb.le_add_two ha (.inl hclose.le), ha.le_add_two hb (.inl hclose.ge)⟩
  · exact ⟨hb.le_add_two ha (.inr hless), ha.le_add_two hb (.inr hless')⟩

/-- Divided by more than `10 ^ 330`, a significand is far below the least scale. -/
theorem exponent_le_of_large {n exponent : ℕ} (hle : n ≤ 10 ^ 17)
    (hlarge : (binade : ℚ) < 5 * (n * one / tenPower 308 / tenPower exponent)) :
    exponent ≤ 22 := by
  by_contra! hmore
  have hten : (0 : ℚ) < tenPower 308 := Nat.cast_pos.2 (tenPower_pos 308)
  have hpower : (0 : ℚ) < tenPower exponent := Nat.cast_pos.2 (tenPower_pos exponent)
  rw [div_div, ← mul_div_assoc, lt_div_iff₀ (mul_pos hten hpower)] at hlarge
  have hquantity : binade * (tenPower 308 * tenPower exponent) < 5 * (n * one) := by
    exact_mod_cast hlarge
  have hnumber : n * one ≤ 10 ^ 17 * one := Nat.mul_le_mul_right one hle
  have hpowers : tenPower 23 ≤ tenPower exponent := Nat.pow_le_pow_right (by decide) hmore
  have hproduct : binade * (tenPower 308 * tenPower 23) ≤
      binade * (tenPower 308 * tenPower exponent) :=
    Nat.mul_le_mul_left _ (Nat.mul_le_mul_left _ hpowers)
  have hmost : 5 * (10 ^ 17 * one) ≤ binade * (tenPower 308 * tenPower 23) := by decide +kernel
  omega

section TwoSteps

variable {n rank : ℕ} (hn : 0 < n)
  (hrounds : Rounds (units (rankOfNat n) * one / units (tenRank 308)) rank) (exponent : ℕ)

/-- The second portion divides by a rounded power. -/
theorem close_secondPortion (rank : ℕ) :
    Close (1 + roundoff) (units rank / tenPower exponent)
      (units rank * one / units (tenRank exponent)) := by
  have hone := cast_one_pos
  have hten := tenPower_pos exponent
  have hunits : (0 : ℚ) ≤ units rank * one := mul_nonneg (Nat.cast_nonneg _) hone.le
  have hquotient := (Close.refl (units rank * one : ℚ)).div (close_rankOfNat hten) hunits hunits
    (mul_pos (Nat.cast_pos.2 hten) hone) (units_rankOfNat_pos hten)
  rwa [one_mul, mul_div_mul_right _ _ hone.ne'] at hquotient

include hn hrounds

/-- All the errors of two portions, the rounding in between to within a unit. -/
theorem twoSteps_chain {exponent : ℕ} (hexponent : 1 ≤ exponent) :
    (n * one / tenPower 308 / tenPower exponent : ℚ) ≤
      (1 + roundoff) ^ 2 * ((1 + roundoff) * (units rank / tenPower exponent) + 1 / 20) ∧
    (units rank / tenPower exponent : ℚ) ≤
      (1 + roundoff) * ((1 + roundoff) ^ 2 * (n * one / tenPower 308 / tenPower exponent)) +
        1 / 20 := by
  obtain ⟨hle, hge⟩ := close_quotient hn 308
  obtain ⟨hnear, hnear'⟩ := hrounds.near
  have hpower := ten_le_tenPower hexponent
  have hpositive : (0 : ℚ) < tenPower exponent := by linarith
  have hroundoff := roundoff_pos
  generalize (n * one / tenPower 308 : ℚ) = quantity at hle hge ⊢
  generalize (units (rankOfNat n) * one / units (tenRank 308) : ℚ) = first at hle hge hnear hnear'
  constructor
  · rw [div_le_iff₀ hpositive]
    calc quantity ≤ (1 + roundoff) ^ 2 * first := hle
      _ ≤ (1 + roundoff) ^ 2 * ((1 + roundoff) * units rank + 1 / 20 * tenPower exponent) := by
          gcongr
          linarith
      _ = _ := by
          field_simp
  · rw [div_le_iff₀ hpositive]
    calc (units rank : ℚ) ≤ (1 + roundoff) * first + 1 / 20 * tenPower exponent := by linarith
      _ ≤ (1 + roundoff) * ((1 + roundoff) ^ 2 * quantity) + 1 / 20 * tenPower exponent := by
          gcongr
      _ = _ := by
          field_simp

/-- A quantity far below the least scale loses no unit by the errors in between. -/
theorem near_small {exponent : ℕ} (hexponent : 1 ≤ exponent)
    (hsmall : (5 * (n * one / tenPower 308 / tenPower exponent) : ℚ) ≤ binade) :
    Near (n * one / tenPower 308 / tenPower exponent)
      (units rank * one / units (tenRank exponent)) := by
  obtain ⟨hchain, hchain'⟩ := twoSteps_chain hn hrounds hexponent
  obtain ⟨hle, hge⟩ := close_secondPortion exponent rank
  push_cast at hsmall
  unfold roundoff at hchain hchain' hle hge
  refine .inr ⟨?_, ?_⟩ <;> linarith

/-- Else the first portion is above the least scale. -/
theorem binade_lt_of_large {exponent : ℕ} (hexponent : 1 ≤ exponent)
    (hlarge : (binade : ℚ) < 5 * (n * one / tenPower 308 / tenPower exponent)) :
    binade < rank := by
  by_contra! hless
  have hchain := (twoSteps_chain hn hrounds hexponent).1
  have hunits : (units rank / tenPower exponent : ℚ) ≤ binade / 10 := by
    rw [units_of_le (by omega)]
    have hcount : (rank : ℚ) ≤ binade := by exact_mod_cast hless
    exact div_le_div₀ (Nat.cast_nonneg _) hcount (by norm_num) (ten_le_tenPower hexponent)
  push_cast at hlarge hunits
  unfold roundoff at hchain
  linarith

/-- So the rounding in between is a full one, and the second power is exact. -/
theorem near_large {exponent : ℕ} (hle : n ≤ 10 ^ 17) (hexponent : 1 ≤ exponent)
    (hlarge : (binade : ℚ) < 5 * (n * one / tenPower 308 / tenPower exponent)) :
    Near (n * one / tenPower 308 / tenPower exponent)
      (units rank * one / units (tenRank exponent)) := by
  have hone := cast_one_pos
  have hpower : (0 : ℚ) < tenPower exponent := Nat.cast_pos.2 (tenPower_pos exponent)
  have hfirst := close_firstPortion hn (binade_lt_of_large hn hrounds hexponent hlarge) hrounds
  have hsecond : (units rank * one / units (tenRank exponent) : ℚ) =
      units rank / tenPower exponent := by
    rw [units_tenRank (exponent_le_of_large hle hlarge), Nat.cast_mul,
      mul_div_mul_right _ _ hone.ne']
  have hnumber : (0 : ℚ) ≤ n * one / tenPower 308 :=
    div_nonneg (mul_nonneg (Nat.cast_nonneg _) hone.le) (Nat.cast_nonneg _)
  have hquotient := hfirst.div (.refl (tenPower exponent : ℚ)) hnumber (Nat.cast_nonneg _)
    hpower hpower
  rw [mul_one] at hquotient
  rw [hsecond]
  exact .inl hquotient

end TwoSteps

/-! ## The procedure -/

theorem scaleRank_natCast (x : ℕ) {exponent : ℕ} (h : exponent ≤ greatestTen)
    (hfinite : mulRank x (tenRank exponent) < rankLimit) :
    scaleRank x exponent = some (mulRank x (tenRank exponent)) := by
  rw [scaleRank, Int.natAbs_natCast, if_pos h, if_pos (Int.natCast_nonneg _)]
  exact if_pos hfinite

theorem scaleRank_neg (x : ℕ) {exponent : ℕ} (hpos : 1 ≤ exponent) (h : exponent ≤ greatestTen) :
    scaleRank x (-exponent) = some (divRank x (tenRank exponent)) := by
  have hsign : ¬(0 : ℤ) ≤ -exponent := by omega
  rw [scaleRank, Int.natAbs_neg, Int.natAbs_natCast, if_pos h, if_neg hsign]

theorem scaleRank_portion {x : ℕ} (hx : x ≠ 0) {exponent : ℕ} (hpos : 1 ≤ exponent) :
    scaleRank x (-(greatestTen + exponent : ℕ)) =
      scaleRank (divRank x (tenRank greatestTen)) (-exponent) := by
  have hsign : ¬(0 : ℤ) ≤ -(greatestTen + exponent : ℕ) := by omega
  have hlarge : ¬greatestTen + exponent ≤ greatestTen := by omega
  have hrest : (-(greatestTen + exponent : ℕ) : ℤ) + greatestTen = -exponent := by omega
  rw [scaleRank, Int.natAbs_neg, Int.natAbs_natCast, if_neg hlarge, if_neg hx, if_neg hsign, hrest]

/-- What is read for a quantity that rounds to `rank` is at most two ranks off, unless it is
not finite, and not off at all where both operands are exact. -/
structure ReadsFor (significand : ℕ) (power : ℤ) (rank rank' : ℕ) : Prop where
  reads : rank' < rankLimit → scaleRank (rankOfNat significand) power = some rank'
  below : rank ≤ rank' + 2
  above : rank' ≤ rank + 2
  exact : significand ≤ 2 * binade → power.natAbs ≤ 22 → rank' = rank

section Reading

variable {n rank exponent : ℕ} (hn : 0 < n)

include hn

theorem readsFor_product (hexponent : exponent ≤ greatestTen)
    (hrounds : Rounds (scaledUnits n exponent) rank) :
    ReadsFor n exponent rank (mulRank (rankOfNat n) (tenRank exponent)) := by
  have hone := cast_one_pos
  have hrounds' := rounds_mulRank (rankOfNat n) (tenRank exponent)
  rw [scaledUnits_natCast] at hrounds
  have hnear : Near (n * tenPower exponent * one) _ := .inl (close_product hn exponent)
  obtain ⟨hbelow, habove⟩ := hnear.ranks hrounds hrounds'
  refine ⟨scaleRank_natCast _ hexponent, hbelow, habove, fun hdigits hpower => ?_⟩
  rw [Int.natAbs_natCast] at hpower
  rw [units_rankOfNat_exact hdigits, units_tenRank hpower] at hrounds'
  have hexact : (((n * one : ℕ) : ℚ) * (tenPower exponent * one : ℕ) / one : ℚ) =
      n * tenPower exponent * one := by
    push_cast
    field_simp
  rw [hexact] at hrounds'
  exact hrounds'.unique hrounds

theorem readsFor_quotient (hpos : 1 ≤ exponent) (hexponent : exponent ≤ greatestTen)
    (hrounds : Rounds (scaledUnits n (-exponent)) rank) :
    ReadsFor n (-exponent) rank (divRank (rankOfNat n) (tenRank exponent)) := by
  have hone := cast_one_pos
  have hrounds' := rounds_divRank (rankOfNat n) (tenPower_pos exponent)
  rw [scaledUnits_neg] at hrounds
  have hnear : Near (n * one / tenPower exponent) _ := .inl (close_quotient hn exponent)
  obtain ⟨hbelow, habove⟩ := hnear.ranks hrounds hrounds'
  refine ⟨fun _ => scaleRank_neg _ hpos hexponent, hbelow, habove, fun hdigits hpower => ?_⟩
  rw [Int.natAbs_neg, Int.natAbs_natCast] at hpower
  have hten := units_tenRank hpower
  rw [tenRank] at hten
  rw [units_rankOfNat_exact hdigits, hten, Nat.cast_mul, Nat.cast_mul,
    mul_div_mul_right _ _ hone.ne'] at hrounds'
  exact hrounds'.unique hrounds

theorem readsFor_portions (hle : n ≤ 10 ^ 17) (hpos : 1 ≤ exponent)
    (hexponent : exponent ≤ greatestTen)
    (hrounds : Rounds (scaledUnits n (-(greatestTen + exponent : ℕ))) rank) :
    ReadsFor n (-(greatestTen + exponent : ℕ)) rank
      (divRank (divRank (rankOfNat n) (tenRank greatestTen)) (tenRank exponent)) := by
  have hfirst := rounds_divRank (rankOfNat n) (tenPower_pos greatestTen)
  have hsecond := rounds_divRank (divRank (rankOfNat n) (tenRank greatestTen))
    (tenPower_pos exponent)
  rw [scaledUnits_neg, tenPower_add, Nat.cast_mul, ← div_div] at hrounds
  have hnear : Near (n * one / tenPower greatestTen / tenPower exponent)
      (units (divRank (rankOfNat n) (tenRank greatestTen)) * one / units (tenRank exponent)) := by
    rcases le_or_gt (5 * (n * one / tenPower greatestTen / tenPower exponent) : ℚ) binade
      with hsmall | hlarge
    · exact near_small hn hfirst hpos hsmall
    · exact near_large hn hfirst hle hpos hlarge
  obtain ⟨hbelow, habove⟩ := hnear.ranks hrounds hsecond
  have hrank : rankOfNat n ≠ 0 := ((Nat.zero_le _).trans_lt (binade_lt_rankOfNat hn)).ne'
  refine ⟨fun _ => ?_, hbelow, habove, fun _ hpower => ?_⟩
  · rw [scaleRank_portion hrank hpos]
    exact scaleRank_neg _ hpos hexponent
  · simp only [greatestTen] at hpower
    omega

end Reading

theorem exists_readsFor {n rank : ℕ} {power : ℤ} (h : Readable n power)
    (hrounds : Rounds (scaledUnits n power) rank) : ∃ rank', ReadsFor n power rank rank' := by
  have hlow := h.low
  have hhigh := h.high
  obtain ⟨exponent, rfl | rfl⟩ := power.eq_nat_or_neg
  · have hexponent : exponent ≤ greatestTen := by
      simp only [greatestTen]
      omega
    exact ⟨_, readsFor_product h.pos hexponent hrounds⟩
  · rcases Nat.eq_zero_or_pos exponent with rfl | hpos
    · exact ⟨_, readsFor_product h.pos (Nat.zero_le _) hrounds⟩
    · rcases le_or_gt exponent greatestTen with hexponent | hmore
      · exact ⟨_, readsFor_quotient h.pos hpos hexponent hrounds⟩
      · obtain ⟨rest, rfl⟩ := Nat.exists_eq_add_of_lt hmore
        simp only [greatestTen] at hlow
        rw [Nat.add_assoc] at hrounds ⊢
        exact ⟨_, readsFor_portions h.pos h.le (Nat.le_add_left 1 rest)
          (by simp only [greatestTen]; omega) hrounds⟩

end Binary64
end JsonReport
