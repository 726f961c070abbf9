import JsonReport.Proofs.IntegerLiterals
import JsonReport.Proofs.ShortestDecimals
import Mathlib.Data.List.DropRight
import Mathlib.Tactic

/-!
# Reading a written double

The text of a double is a literal with a fraction or an exponent, in one of three forms: the
digits after a zero and a point, with a point among them or zeros up to it, or with an
exponent.  All digits are gathered, so that the literal stands for them as one number
with the power of ten of the last.
-/

namespace JsonReport

open Spelling

/-! ## The numbers of digits -/

theorem digitsValue_nil : digitsValue [] = 0 := rfl

theorem digitsValue_append (first rest : List Digit) :
    digitsValue (first ++ rest) = digitsValue first * 10 ^ rest.length + digitsValue rest := by
  induction first with
  | nil => simp [digitsValue_nil]
  | cons d first ih =>
      rw [List.cons_append, digitsValue_cons, ih, digitsValue_cons, List.length_append, pow_add]
      ring

@[simp] theorem digitsValue_zeros (n : ℕ) : digitsValue (List.replicate n 0) = 0 := by
  induction n with
  | zero => rfl
  | succ n ih => simp [List.replicate_succ, digitsValue_cons, ih]

theorem digitsValue_lt (digits : List Digit) : digitsValue digits < 10 ^ digits.length := by
  have hdigits : ∀ n ∈ (digits.map Fin.val).reverse, n < 10 := by
    simp [Fin.is_lt]
  simpa [digitsValue] using Nat.ofDigits_lt_base_pow_length (by decide) hdigits

theorem digitText_append (first rest : List Digit) :
    digitText (first ++ rest) = digitText first ++ digitText rest := List.map_append

theorem digitText_zeros (n : ℕ) : digitText (List.replicate n 0) = List.replicate n '0' :=
  List.map_replicate

namespace NumberLiteral

variable {literal : NumberLiteral}

/-- Where all digits fit, they are the significand, with a power for each after the point. -/
theorem scaled_of_lt
    (h : digitsValue (literal.whole ++ literal.fraction.getD []) < significandLimit) :
    literal.scaled = (digitsValue (literal.whole ++ literal.fraction.getD []),
      -((literal.fraction.getD []).length : ℤ)) := by
  generalize hfraction : literal.fraction.getD [] = fraction at h ⊢
  rw [digitsValue_append] at h
  have hpower : 0 < 10 ^ fraction.length := by positivity
  have hwhole : digitsValue literal.whole < significandLimit := by nlinarith
  unfold scaled
  simp only [hfraction, gather_all hwhole, gather_of_lt h, digitsValue_append, List.length_nil,
    Nat.sub_zero, Nat.cast_zero, zero_sub]

theorem double_of_scaled (h : literal.exponent = none) {x : Binary64}
    (hx : Binary64.ofScaled? literal.negative literal.scaled.1 literal.scaled.2 = some x) :
    literal.double = .ok x := by
  simp only [double, h, hx]

theorem double_of_exponent {exponent : ExponentPart} (h : literal.exponent = some exponent)
    (hlimit : digitsValue exponent.digits < exponentLimit) {x : Binary64}
    (hx : Binary64.ofScaled? literal.negative literal.scaled.1
      (if exponent.negative then literal.scaled.2 - digitsValue exponent.digits
        else literal.scaled.2 + digitsValue exponent.digits) = some x) :
    literal.double = .ok x := by
  simp only [double, h, gather_all hlimit, hx]

end NumberLiteral

/-- The decimal text of a positive number, with the value of its digits. -/
theorem exists_digits_value {m : ℕ} (hm : 0 < m) :
    ∃ d ds, d ≠ 0 ∧ digitText (d :: ds) = Nat.toDigits 10 m ∧ digitsValue (d :: ds) = m := by
  obtain ⟨d, ds, hd, htext, hgather⟩ := exists_digits_of_pos hm
  refine ⟨d, ds, hd, htext, ?_⟩
  have hlimit : digitsValue (d :: ds) < max m (digitsValue (d :: ds)) + 1 :=
    Nat.lt_succ_of_le (le_max_right _ _)
  have hall := gather_all hlimit
  rw [hgather _ (Nat.lt_succ_of_le (le_max_left _ _)), Prod.mk.injEq] at hall
  exact hall.1.symm

/-! ## The forms of a text -/

/-- With either sign the text is a literal that stands for a double, and that is the one of
the significand and the power of ten. -/
def Denotes (text : List Char) (significand : ℕ) (power : ℤ) : Prop :=
  ∀ negative, ∃ literal : NumberLiteral, literal.negative = negative ∧
    Unsigned literal text ∧ ¬literal.IsInteger ∧
      ∀ x, Binary64.ofScaled? negative significand power = some x → literal.double = .ok x

theorem decodeText_of_denotes {text : List Char} {significand : ℕ} {power : ℤ}
    (h : Denotes text significand power) {negative : Bool} {x : Binary64}
    (hx : Binary64.ofScaled? negative significand power = some x) :
    decodeText (String.ofList (if negative then '-' :: text else text)) =
      .ok (.number (.double x)) := by
  obtain ⟨literal, hsign, hunsigned, hinteger, hdouble⟩ := h negative
  have hnumber : literal.number = .ok (.double x) := by
    rw [NumberLiteral.number, NumberLiteral.whole?_of_not_isInteger hinteger, hdouble x hx]
    rfl
  apply decodeText_of_number _ hnumber
  cases negative with
  | false => exact .positive hsign hunsigned
  | true => exact .negative hsign hunsigned

theorem fractionPart_of_ne_nil {digits : List Digit} (h : digits ≠ []) :
    FractionPart (some digits) ('.' :: digitText digits) := by
  obtain ⟨d, ds, rfl⟩ := List.exists_cons_of_ne_nil h
  exact .digits

/-- Digits with a point among them. -/
theorem denotes_fraction {whole fraction : List Digit} {w : List Char}
    (hwhole : WholePart whole w) (hfraction : fraction ≠ [])
    (hlimit : digitsValue (whole ++ fraction) < NumberLiteral.significandLimit) :
    Denotes (w ++ '.' :: digitText fraction) (digitsValue (whole ++ fraction))
      (-(fraction.length : ℤ)) := by
  intro negative
  refine ⟨⟨negative, whole, some fraction, none⟩, rfl, ?_, ?_, ?_⟩
  · have hparts : Unsigned ⟨negative, whole, some fraction, none⟩
        (w ++ '.' :: digitText fraction ++ []) :=
      .parts hwhole (fractionPart_of_ne_nil hfraction) .absent
    rwa [List.append_nil] at hparts
  · exact fun hinteger => by cases hinteger.1
  · intro x hx
    apply NumberLiteral.double_of_scaled rfl
    rwa [NumberLiteral.scaled_of_lt hlimit]

theorem exponent_of_exponentText {exponent : ℤ} (h : exponent ≠ 0) :
    ∃ digits : List Digit,
      Exponent (some ⟨decide (exponent < 0), digits⟩) (Binary64.exponentText exponent) ∧
        digitsValue digits = exponent.natAbs := by
  obtain ⟨d, ds, -, htext, hvalue⟩ := exists_digits_value (Int.natAbs_pos.2 h)
  refine ⟨d :: ds, ?_, hvalue⟩
  rw [Binary64.exponentText, Binary64.decimalDigits, ← htext]
  by_cases hnegative : exponent < 0
  · simpa [hnegative] using Exponent.digits (.inl rfl) .minus
  · simpa [hnegative] using Exponent.digits (.inl rfl) .plus

/-- One digit before the point, and an exponent. -/
theorem denotes_exponent {d : Digit} {ds : List Digit} (hd : d ≠ 0) {exponent : ℤ}
    (hexponent : exponent ≠ 0) (hrange : exponent.natAbs < NumberLiteral.exponentLimit)
    (hlimit : digitsValue (d :: ds) < NumberLiteral.significandLimit) :
    Denotes (digitText [d] ++ (if ds = [] then [] else '.' :: digitText ds) ++
      Binary64.exponentText exponent) (digitsValue (d :: ds)) (exponent - ds.length) := by
  intro negative
  obtain ⟨digits, hdigits, hvalue⟩ := exponent_of_exponentText hexponent
  have hfraction : FractionPart (if ds = [] then none else some ds)
      (if ds = [] then [] else '.' :: digitText ds) := by
    split_ifs with hnone
    · exact .absent
    · exact fractionPart_of_ne_nil hnone
  have hall : (if ds = [] then none else some ds).getD [] = ds := by
    split_ifs with hnone
    · exact hnone.symm
    · rfl
  refine ⟨⟨negative, [d], if ds = [] then none else some ds,
    some ⟨decide (exponent < 0), digits⟩⟩, rfl, .parts (.digits hd) hfraction hdigits, ?_, ?_⟩
  · exact fun hinteger => by cases hinteger.2
  · intro x hx
    have hpower : exponent - (ds.length : ℤ) =
        if exponent < 0 then -(ds.length : ℤ) - exponent.natAbs
        else -(ds.length : ℤ) + exponent.natAbs := by
      split_ifs <;> omega
    apply NumberLiteral.double_of_exponent rfl (by rwa [hvalue])
    rw [NumberLiteral.scaled_of_lt (by rwa [hall]), hall, hvalue]
    simpa only [decide_eq_true_eq, ← hpower, List.singleton_append] using hx

/-! ## Decimals -/

namespace Binary64.Decimal

/-- The number that the digits of a decimal make. -/
def value (x : Decimal) : ℕ := Nat.ofDigits 10 (x.digits.map fun c => c.toNat - '0'.toNat).reverse

/-- Whether the digits are filled up with zeros to the point. -/
def Filled (x : Decimal) : Prop :=
  positional x.exponent = true ∧ x.digits.length ≤ x.exponent + 1

instance (x : Decimal) : Decidable x.Filled := inferInstanceAs (Decidable (_ ∧ _))

/-- The digits of a decimal as they are read back; the zeros up to the point and the one
behind it are among them. -/
def significand (x : Decimal) : ℕ :=
  if x.Filled then x.value * 10 ^ (x.exponent + 2 - x.digits.length).toNat else x.value

/-- The power of ten of the last of these digits. -/
def power (x : Decimal) : ℤ := if x.Filled then -1 else x.exponent + 1 - x.digits.length

theorem value_digitText (digits : List Digit) (exponent : ℤ) :
    value ⟨digitText digits, exponent⟩ = digitsValue digits := by
  have hdigit : ∀ d : Digit, (Nat.digitChar d.val).toNat - '0'.toNat = d.val := by decide
  simp only [value, digitText, digitsValue, List.map_map, Function.comp_def, hdigit]

/-- The significand and the power make the decimal. -/
theorem significand_mul_power (x : Decimal) :
    (x.significand : ℚ) * 10 ^ x.power = x.value * 10 ^ (x.exponent + 1 - x.digits.length) := by
  unfold significand power
  split_ifs with hfilled
  · have hsplit : x.exponent + 1 - x.digits.length =
        ((x.exponent + 2 - x.digits.length).toNat : ℤ) + -1 := by
      have := hfilled.2
      omega
    rw [hsplit, zpow_add₀ (by norm_num), zpow_natCast]
    push_cast
    ring
  · rfl

section Texts

variable {d : Digit} {ds : List Digit} {exponent : ℤ}

theorem significand_of_not_filled (h : ¬Filled ⟨digitText (d :: ds), exponent⟩) :
    significand ⟨digitText (d :: ds), exponent⟩ = digitsValue (d :: ds) ∧
      power ⟨digitText (d :: ds), exponent⟩ = exponent - ds.length := by
  rw [significand, if_neg h, value_digitText, power, if_neg h]
  refine ⟨rfl, ?_⟩
  simp [digitText]

/-- Zeros stand between the point and the digits. -/
theorem denotes_below_one (hexponent : exponent < 0)
    (hlimit : digitsValue (d :: ds) < NumberLiteral.significandLimit) :
    let x : Decimal := ⟨digitText (d :: ds), exponent⟩
    Denotes x.positionalText x.significand x.power := by
  intro x
  have hfilled : ¬x.Filled := by
    rintro ⟨-, hlength⟩
    simp only [x, digitText, List.length_map, List.length_cons] at hlength
    omega
  obtain ⟨hsignificand, hpower⟩ := significand_of_not_filled hfilled
  have hvalue : digitsValue ([0] ++ (List.replicate (-exponent - 1).toNat 0 ++ d :: ds)) =
      digitsValue (d :: ds) := by
    simp [digitsValue_cons, digitsValue_append]
  have hdenotes := denotes_fraction .zero (by simp) (hvalue.trans_lt hlimit)
  have htext : x.positionalText =
      ['0'] ++ '.' :: digitText (List.replicate (-exponent - 1).toNat 0 ++ d :: ds) := by
    rw [positionalText, if_pos hexponent, digitText_append, digitText_zeros]
    rfl
  have hlength : -((List.replicate (-exponent - 1).toNat (0 : Digit) ++ d :: ds).length : ℤ) =
      exponent - ds.length := by
    simp only [List.length_append, List.length_replicate, List.length_cons]
    omega
  rwa [htext, hsignificand, hpower, ← hvalue, ← hlength]

/-- The point stands among the digits. -/
theorem denotes_inside (hd : d ≠ 0) (hexponent : 0 ≤ exponent)
    (hlength : exponent < ds.length)
    (hlimit : digitsValue (d :: ds) < NumberLiteral.significandLimit) :
    let x : Decimal := ⟨digitText (d :: ds), exponent⟩
    Denotes x.positionalText x.significand x.power := by
  intro x
  have hfilled : ¬x.Filled := by
    rintro ⟨-, hmore⟩
    simp only [x, digitText, List.length_map, List.length_cons] at hmore
    omega
  obtain ⟨hsignificand, hpower⟩ := significand_of_not_filled hfilled
  obtain ⟨n, rfl⟩ := Int.eq_ofNat_of_zero_le hexponent
  have hinside : n < ds.length := by omega
  have hsplit : d :: ds.take n ++ ds.drop n = d :: ds := by simp
  have hdenotes := denotes_fraction (.digits hd) (List.drop_eq_nil_iff.not.2 (by omega))
    ((congrArg digitsValue hsplit).trans_lt hlimit)
  have hnone : n + 1 - (ds.length + 1) = 0 := by omega
  have hrest : ¬ds.length ≤ n := by omega
  have htext : x.positionalText = digitText (d :: ds.take n) ++ '.' :: digitText (ds.drop n) := by
    simp [x, positionalText, digitText, hnone, hrest, List.map_take, List.map_drop]
  have hpower' : -((ds.drop n).length : ℤ) = n - ds.length := by
    rw [List.length_drop]
    omega
  rwa [hsplit, hpower', ← htext, ← hsignificand, ← hpower] at hdenotes

theorem significand_of_filled {n : ℕ} (hn : ds.length ≤ n)
    (h : Filled ⟨digitText (d :: ds), n⟩) :
    significand ⟨digitText (d :: ds), n⟩ =
        digitsValue (d :: (ds ++ List.replicate (n - ds.length) 0) ++ [0]) ∧
      power ⟨digitText (d :: ds), n⟩ = -(([0] : List Digit).length : ℤ) := by
  have hvalue : digitsValue (d :: (ds ++ List.replicate (n - ds.length) 0) ++ [0]) =
      digitsValue (d :: ds) * 10 ^ (n - ds.length + 1) := by
    rw [← List.cons_append, List.append_assoc, ← List.replicate_succ', digitsValue_append,
      digitsValue_zeros, List.length_replicate, add_zero]
  have hcount : (n + 2 - (digitText (d :: ds)).length : ℤ).toNat = n - ds.length + 1 := by
    simp only [digitText, List.length_map, List.length_cons]
    omega
  rw [significand, if_pos h, value_digitText, hvalue, hcount, power, if_pos h]
  exact ⟨rfl, rfl⟩

/-- Zeros fill up the digits to the point. -/
theorem denotes_filled (hd : d ≠ 0) (hexponent : positional exponent = true)
    (hlength : ds.length ≤ exponent) :
    let x : Decimal := ⟨digitText (d :: ds), exponent⟩
    Denotes x.positionalText x.significand x.power := by
  intro x
  have hfilled : x.Filled := by
    refine ⟨hexponent, ?_⟩
    simp only [x, digitText, List.length_map, List.length_cons]
    omega
  obtain ⟨n, rfl⟩ := Int.eq_ofNat_of_zero_le (hlength.trans' (Int.natCast_nonneg _))
  have hpositional : n ≤ 15 := by
    simp only [positional, Bool.and_eq_true, decide_eq_true_eq] at hexponent
    omega
  have hzeros : ds.length ≤ n := by omega
  obtain ⟨hsignificand, hpower⟩ := significand_of_filled hzeros hfilled
  have hlimit : digitsValue (d :: (ds ++ List.replicate (n - ds.length) 0) ++ [0]) <
      NumberLiteral.significandLimit := by
    refine (digitsValue_lt _).trans_le ?_
    have hcount : (d :: (ds ++ List.replicate (n - ds.length) 0) ++ [0]).length ≤ 17 := by
      simp only [List.length_append, List.length_cons, List.length_replicate, List.length_nil]
      omega
    exact (Nat.pow_le_pow_right (by decide) hcount).trans (by decide)
  have hdenotes := denotes_fraction (.digits hd) (by simp) hlimit
  have hnone : ds.length + 1 ≤ n + 1 := by omega
  have htext : x.positionalText =
      digitText (d :: (ds ++ List.replicate (n - ds.length) 0)) ++ '.' :: digitText [0] := by
    have hsign : ¬(n : ℤ) < 0 := by omega
    have hzero : Nat.digitChar 0 = '0' := rfl
    simp [x, positionalText, digitText, hnone, hzeros, hsign, hzero, List.take_of_length_le]
  rwa [htext, hsignificand, hpower]

/-- One digit stands before the point. -/
theorem denotes_exponential (hd : d ≠ 0) (hexponent : exponent ≠ 0)
    (hfilled : positional exponent = false)
    (hrange : exponent.natAbs < NumberLiteral.exponentLimit)
    (hlimit : digitsValue (d :: ds) < NumberLiteral.significandLimit) :
    let x : Decimal := ⟨digitText (d :: ds), exponent⟩
    Denotes x.exponentialText x.significand x.power := by
  intro x
  have hfilled : ¬x.Filled := by
    rintro ⟨hpositional, -⟩
    rw [hfilled] at hpositional
    cases hpositional
  obtain ⟨hsignificand, hpower⟩ := significand_of_not_filled hfilled
  have htext : x.exponentialText = digitText [d] ++
      (if ds = [] then [] else '.' :: digitText ds) ++ exponentText exponent := by
    cases ds <;> rfl
  rw [htext, hsignificand, hpower]
  exact denotes_exponent hd hexponent hrange hlimit

/-- The text of a decimal is read as its significand and power. -/
theorem denotes_text (hd : d ≠ 0) (hexponent : exponent.natAbs < NumberLiteral.exponentLimit)
    (hlimit : digitsValue (d :: ds) < NumberLiteral.significandLimit) :
    let x : Decimal := ⟨digitText (d :: ds), exponent⟩
    Denotes x.text x.significand x.power := by
  intro x
  unfold Decimal.text
  split_ifs with hpositional
  · rcases lt_or_ge exponent 0 with hbelow | habove
    · exact denotes_below_one hbelow hlimit
    · rcases lt_or_ge exponent ds.length with hinside | hfilled
      · exact denotes_inside hd habove hinside hlimit
      · exact denotes_filled hd hpositional hfilled
  · have houtside : positional exponent = false := by simpa using hpositional
    refine denotes_exponential hd ?_ houtside hexponent hlimit
    rintro rfl
    exact absurd houtside (by decide)

end Texts

end Binary64.Decimal

/-! ## The shortest decimal -/

namespace Binary64

theorem exists_trimmed (digits : List Digit) :
    ∃ kept zeros, digits = kept ++ List.replicate zeros 0 ∧
      (digitText digits).rdropWhile (· == '0') = digitText kept := by
  induction digits using List.reverseRecOn with
  | nil => exact ⟨[], 0, rfl, rfl⟩
  | append_singleton digits d ih =>
      rw [digitText_append]
      change ∃ kept zeros, _ ∧ (digitText digits ++ [Nat.digitChar d.val]).rdropWhile _ = _
      by_cases hd : d = 0
      · obtain ⟨kept, zeros, hsplit, htrimmed⟩ := ih
        refine ⟨kept, zeros + 1, ?_, ?_⟩
        · rw [hsplit, hd, List.append_assoc, ← List.replicate_succ']
        · rw [hd, List.rdropWhile_concat_pos _ _ _ rfl, htrimmed]
      · have hkept : ∀ d : Digit, d ≠ 0 → ¬(Nat.digitChar d.val == '0') = true := by decide
        refine ⟨digits ++ [d], 0, by simp, ?_⟩
        exact (List.rdropWhile_concat_neg (· == '0') _ _ (hkept d hd)).trans
          (digitText_append digits [d]).symm

/-- The decimal of a point has its digits without the zeros at the end. -/
theorem exists_ofPoint {point : ℕ} (hpoint : 0 < point) (place : ℕ) :
    ∃ (d : Digit) (ds : List Digit) (zeros : ℕ), d ≠ 0 ∧
      Decimal.ofPoint point place =
        ⟨digitText (d :: ds), ds.length + (zeros + place - lastPlace : ℤ)⟩ ∧
      digitsValue (d :: ds) * 10 ^ zeros = point := by
  obtain ⟨d, ds, hd, htext, hvalue⟩ := exists_digits_value hpoint
  obtain ⟨kept, zeros, hsplit, htrimmed⟩ := exists_trimmed (d :: ds)
  cases kept with
  | nil =>
      have hzero : d = 0 := List.eq_of_mem_replicate (hsplit ▸ List.mem_cons_self)
      exact absurd hzero hd
  | cons d' ds' =>
      obtain rfl : d = d' := (List.cons.inj hsplit).1
      refine ⟨d, ds', zeros, hd, ?_, ?_⟩
      · have hlength : (digitText (d :: ds)).length = ds'.length + 1 + zeros := by
          rw [hsplit]
          simp only [digitText, List.length_map, List.length_append, List.length_cons,
            List.length_replicate]
        rw [Decimal.ofPoint, decimalDigits, ← htext]
        simp only [Decimal.mk.injEq]
        constructor
        · exact htrimmed
        · rw [hlength]
          push_cast
          ring
      · rw [← hvalue, hsplit, digitsValue_append, digitsValue_zeros, List.length_replicate,
          add_zero]

/-- How many units a significand with a power of ten is. -/
def scaledUnits (significand : ℕ) (power : ℤ) : ℚ := significand * 10 ^ power * one

theorem pointUnits_eq (significand zeros place : ℕ) :
    pointUnits (significand * 10 ^ zeros) place =
      scaledUnits significand (zeros + place - lastPlace) := by
  rw [pointUnits, scaledUnits, tenPower_eq, tenPower_eq, zpow_sub₀ (by norm_num),
    zpow_add₀ (by norm_num)]
  simp only [zpow_natCast]
  push_cast
  ring

/-- The zeros that are read along do not change what a decimal is. -/
theorem scaledUnits_decimal (d : Digit) (ds : List Digit) (last : ℤ) :
    let x : Decimal := ⟨digitText (d :: ds), ds.length + last⟩
    scaledUnits x.significand x.power = scaledUnits (digitsValue (d :: ds)) last := by
  intro x
  have hpower : x.exponent + 1 - x.digits.length = last := by
    simp only [x, digitText, List.length_map, List.length_cons]
    push_cast
    ring
  rw [scaledUnits, Decimal.significand_mul_power, Decimal.value_digitText, hpower, scaledUnits]

/-- The finite doubles stay below a number that has 309 digits. -/
theorem units_lt {rank : ℕ} (h : rank ≤ rankLimit) : units rank < tenPower 309 * one := by
  have hlimit : units rankLimit < tenPower 309 * one := by decide +kernel
  exact (units_strictMono.monotone h).trans_lt hlimit

theorem power_le {significand rank : ℕ} {power : ℤ} (hpos : 0 < significand)
    (hfinite : rank < rankLimit) (h : Rounds (scaledUnits significand power) rank) :
    power ≤ 308 := by
  by_contra! hlarge
  have hpower : (tenPower 309 : ℚ) ≤ 10 ^ power := by
    rw [tenPower_eq, Nat.cast_pow, Nat.cast_ofNat, ← zpow_natCast]
    exact zpow_le_zpow_right₀ (by norm_num) hlarge
  have hhere : units rank < tenPower 309 * one := units_lt hfinite.le
  have hnext : units (rank + 1) < tenPower 309 * one := units_lt hfinite
  qify at hhere hnext
  have hsignificand : (1 : ℚ) ≤ significand := by exact_mod_cast hpos
  have hone := cast_one_pos
  have hten : (0 : ℚ) < 10 ^ power := zpow_pos (by norm_num) power
  have hquantity : (10 : ℚ) ^ power * one ≤ scaledUnits significand power := by
    unfold scaledUnits
    rw [mul_assoc]
    exact le_mul_of_one_le_left (mul_pos hten hone).le hsignificand
  have hscaled : (tenPower 309 : ℚ) * one ≤ 10 ^ power * one :=
    mul_le_mul_of_nonneg_right hpower hone.le
  linarith [h.high]

/-- What a decimal of at most seventeen digits is read as. -/
structure Readable (significand : ℕ) (power : ℤ) : Prop where
  pos : 0 < significand
  le : significand ≤ 10 ^ 17
  low : -340 ≤ power
  high : power ≤ 308

theorem readable_decimal {d : Digit} {ds : List Digit} {exponent : ℤ}
    (hpos : 0 < digitsValue (d :: ds)) (hle : digitsValue (d :: ds) ≤ 10 ^ 17)
    (hlow : -340 ≤ exponent - ds.length) (hhigh : exponent - ds.length ≤ 308) :
    let x : Decimal := ⟨digitText (d :: ds), exponent⟩
    Readable x.significand x.power := by
  intro x
  by_cases hfilled : x.Filled
  · have hpower : x.power = -1 := if_pos hfilled
    have hsignificand : x.significand =
        digitsValue (d :: ds) * 10 ^ (exponent + 2 - (d :: ds).length).toNat := by
      rw [Decimal.significand, if_pos hfilled, Decimal.value_digitText]
      simp [x, digitText]
    obtain ⟨hpositional, hlength⟩ := hfilled
    simp only [x, digitText, List.length_map, positional, Bool.and_eq_true, decide_eq_true_eq]
      at hpositional hlength
    have hcount : (d :: ds).length + (exponent + 2 - (d :: ds).length).toNat ≤ 17 := by omega
    have hvalue := digitsValue_lt (d :: ds)
    generalize (exponent + 2 - (d :: ds).length).toNat = filling at hsignificand hcount
    constructor
    · rw [hsignificand]
      positivity
    · calc x.significand ≤ 10 ^ (d :: ds).length * 10 ^ filling :=
            hsignificand ▸ Nat.mul_le_mul_right _ hvalue.le
        _ = 10 ^ ((d :: ds).length + filling) := (pow_add _ _ _).symm
        _ ≤ 10 ^ 17 := Nat.pow_le_pow_right (by decide) hcount
    · omega
    · omega
  · obtain ⟨hsignificand, hpower⟩ := Decimal.significand_of_not_filled hfilled
    rw [hsignificand, hpower]
    exact ⟨hpos, hle, hlow, hhigh⟩

/-- The text of a positive double denotes its shortest decimal, which rounds to it. -/
theorem readable_shortest {rank : ℕ} (hrank : 0 < rank) (hfinite : rank < rankLimit) :
    Denotes (rankText rank) (shortest rank).significand (shortest rank).power ∧
      Readable (shortest rank).significand (shortest rank).power ∧
      Rounds (scaledUnits (shortest rank).significand (shortest rank).power) rank := by
  obtain ⟨point, place, hshortest, hpoint, hdigits, hrounds⟩ := exists_shortest hrank
  obtain ⟨d, ds, zeros, hd, hdecimal, hvalue⟩ := exists_ofPoint hpoint place
  rw [← hvalue, pointUnits_eq] at hrounds
  rw [rankText, if_neg hrank.ne', hshortest, hdecimal]
  have hpos : 0 < digitsValue (d :: ds) := Nat.pos_of_mul_pos_right (hvalue ▸ hpoint)
  have hle : digitsValue (d :: ds) ≤ 10 ^ 17 := by
    have hpower : 0 < 10 ^ zeros := by positivity
    rw [tenPower_eq] at hdigits
    nlinarith
  have hlength : ds.length ≤ 17 := by
    have hfirst : 1 ≤ d.val := Nat.pos_of_ne_zero fun hzero => hd (Fin.ext hzero)
    have hlead : 10 ^ ds.length ≤ 10 ^ 17 := by
      rw [digitsValue_cons] at hle
      nlinarith
    exact (Nat.pow_le_pow_iff_right (by decide)).1 hlead
  have hhigh := power_le hpos hfinite hrounds
  rw [← scaledUnits_decimal] at hrounds
  have hlow : (-340 : ℤ) ≤ zeros + place - lastPlace := by
    simp only [lastPlace]
    omega
  generalize (zeros + place - lastPlace : ℤ) = last at hrounds hhigh hlow ⊢
  refine ⟨Decimal.denotes_text hd ?_ ?_, readable_decimal hpos hle ?_ ?_, hrounds⟩
  · simp only [NumberLiteral.exponentLimit]
    omega
  · exact hle.trans_lt (by decide)
  · omega
  · omega

end Binary64
end JsonReport
