import JsonReport.Proofs.RefusalCauses
import JsonReport.Proofs.SpellingIndependence
import Mathlib.Tactic

/-!
# Literals that stand for whole numbers

Digits are gathered as long as the number stays below a limit, and a literal without
fraction and exponent is a whole number where none is left out and the signed value fits
a word.  So the digits decide by the number that they denote, however many they are: in
the range of the words it is that number, and outside of it never another whole one.
-/

namespace JsonReport

open Utf8
open Spelling

/-! ## Gathering -/

/-- The number that digits denote. -/
def digitsValue (digits : List Digit) : ℕ := Nat.ofDigits 10 (digits.map Fin.val).reverse

theorem digitsValue_cons (d : Digit) (digits : List Digit) :
    digitsValue (d :: digits) = d.val * 10 ^ digits.length + digitsValue digits := by
  simp only [digitsValue, List.map_cons, List.reverse_cons, Nat.ofDigits_append,
    Nat.ofDigits_singleton, List.length_reverse, List.length_map]
  ring

/-- What is gathered, where it all stays below the limit, is the number denoted. -/
theorem gather_of_lt {limit n : ℕ} {digits : List Digit}
    (h : n * 10 ^ digits.length + digitsValue digits < limit) :
    gather limit n digits = (n * 10 ^ digits.length + digitsValue digits, []) := by
  induction digits generalizing n with
  | nil => simp [gather, digitsValue]
  | cons d digits ih =>
      have hvalue : n * 10 ^ (d :: digits).length + digitsValue (d :: digits) =
          (10 * n + d.val) * 10 ^ digits.length + digitsValue digits := by
        rw [digitsValue_cons, List.length_cons, pow_succ]
        ring
      have hpower : 0 < 10 ^ digits.length := by positivity
      rw [hvalue] at h ⊢
      have hstep : 10 * n + d.val < limit := by
        have := Nat.le_mul_of_pos_right (10 * n + d.val) hpower
        omega
      rw [gather, if_pos hstep, ih h]

theorem gather_all {limit : ℕ} {digits : List Digit} (h : digitsValue digits < limit) :
    gather limit 0 digits = (digitsValue digits, []) := by
  have hzero : 0 * 10 ^ digits.length + digitsValue digits = digitsValue digits := by simp
  rw [gather_of_lt (hzero.trans_lt h), hzero]

/-- Beyond the limit some digit is left out. -/
theorem gather_of_le {limit n : ℕ} {digits : List Digit} (hn : n < limit)
    (h : limit ≤ n * 10 ^ digits.length + digitsValue digits) :
    (gather limit n digits).2 ≠ [] := by
  induction digits generalizing n with
  | nil =>
      simp only [List.length_nil, pow_zero, mul_one, digitsValue, List.map_nil,
        List.reverse_nil, Nat.ofDigits_nil] at h
      omega
  | cons d digits ih =>
      rw [gather]
      split_ifs with hstep
      · apply ih hstep
        rw [digitsValue_cons, List.length_cons, pow_succ] at h
        linarith
      · simp

namespace NumberLiteral

/-- A literal of a sign and digits only. -/
def IsInteger (literal : NumberLiteral) : Prop :=
  literal.fraction = none ∧ literal.exponent = none

/-- The integer that the digits before the point and the sign denote. -/
def integer (literal : NumberLiteral) : ℤ :=
  if literal.negative then -digitsValue literal.whole else digitsValue literal.whole

/-- The integers that are kept as such: unsigned ones without a sign, negative ones with
a sign. -/
def FitsWord (literal : NumberLiteral) : Prop :=
  (literal.negative = false ∧ literal.integer ≤ 2 ^ 64 - 1) ∨
    (literal.negative = true ∧ -2 ^ 63 ≤ literal.integer ∧ literal.integer ≤ -1)

instance (literal : NumberLiteral) : Decidable literal.FitsWord :=
  inferInstanceAs (Decidable (_ ∨ _))

variable {literal : NumberLiteral}

theorem whole?_of_not_isInteger (h : ¬literal.IsInteger) : literal.whole? = none := by
  unfold whole?
  split
  · next hfraction hexponent _ => exact absurd ⟨hfraction, hexponent⟩ h
  · rfl

/-- Words are bounded on both sides, and a zero with a sign is none of theirs. -/
theorem fitsWord_iff : literal.FitsWord ↔
    ¬(literal.negative = true ∧ literal.integer = 0) ∧
      leastWord ≤ literal.integer ∧ literal.integer < wordLimit := by
  unfold FitsWord integer leastWord wordLimit
  cases literal.negative <;> simp <;> omega

theorem FitsWord.digitsValue_lt (h : literal.FitsWord) :
    digitsValue literal.whole < significandLimit := by
  have hword := (fitsWord_iff.1 h).2
  unfold integer leastWord wordLimit at hword
  unfold significandLimit
  split at hword <;> omega

theorem whole?_of_gathered (h : literal.IsInteger)
    (hdigits : digitsValue literal.whole < significandLimit) :
    literal.whole? =
      if literal.negative = true ∧ literal.integer = 0 then none
      else WholeNumber.ofInt? literal.integer := by
  unfold whole? integer
  simp only [h.1, h.2, gather_all hdigits]
  cases literal.negative <;> simp

theorem whole?_of_left_out (hdigits : significandLimit ≤ digitsValue literal.whole) :
    literal.whole? = none := by
  have hgather : (gather significandLimit 0 literal.whole).2 ≠ [] :=
    gather_of_le (by decide) (by rwa [Nat.zero_mul, Nat.zero_add])
  unfold whole?
  split
  · next hall =>
      rw [hall] at hgather
      exact absurd rfl hgather
  · rfl

theorem exists_whole_of_fitsWord (h : literal.IsInteger) (hfits : literal.FitsWord) :
    ∃ n : WholeNumber, n.val = literal.integer ∧ literal.whole? = some n := by
  obtain ⟨hsign, hword⟩ := fitsWord_iff.1 hfits
  refine ⟨⟨literal.integer, hword⟩, rfl, ?_⟩
  rw [whole?_of_gathered h hfits.digitsValue_lt, if_neg hsign, WholeNumber.ofInt?, dif_pos hword]

theorem whole?_of_not_fitsWord (hfits : ¬literal.FitsWord) : literal.whole? = none := by
  by_cases hinteger : literal.IsInteger
  · by_cases hdigits : digitsValue literal.whole < significandLimit
    · rw [whole?_of_gathered hinteger hdigits]
      rw [fitsWord_iff, not_and] at hfits
      split
      · rfl
      · next hsign => exact dif_neg (hfits hsign)
    · exact whole?_of_left_out (Nat.le_of_not_lt hdigits)
  · exact whole?_of_not_isInteger hinteger

end NumberLiteral

/-! ## Decoding a literal -/

section Decoding

variable {literal : NumberLiteral} {w : List Char}

theorem decodeText_of_number (h : Spelling.Number literal w) {n : JsonReport.Number}
    (hn : literal.number = .ok n) : decodeText (String.ofList w) = .ok (.number n) := by
  have hwritten : (Document.number literal).WrittenAs (String.ofList w) := by
    have hpadded : Element Content (.number literal) ([] ++ w ++ []) :=
      .padded blank_nil (.number h) blank_nil
    rw [List.nil_append, List.append_nil] at hpadded
    rwa [Document.WrittenAs, String.toList_ofList]
  have hvalue : (Document.number literal).value = .number n := by
    rw [Document.value, hn]
  rw [(decodeText_written hwritten (Nat.zero_le 127) ⟨n, hn⟩).1, hvalue]

theorem readDocument_overflows (h : Spelling.Number literal w) (hrange : ¬literal.InRange)
    (origin : Origin) :
    ∃ fault, readDocument origin (octets w) = .error fault ∧
      fault.cause = .numberOutOfRange := by
  have hvalue : Value Content (.number literal) w := .number h
  obtain ⟨c, r, rfl, hascii, hopening⟩ := value_begins hvalue
  have hscalar := readScalar_refuses hvalue hrange origin rfl endsNumber_nil
  rw [List.append_nil] at hscalar
  obtain ⟨fault, hfault, hcause⟩ :=
    readValue_scalar_fails blank_nil hopening hscalar greatestDepth
  refine ⟨fault, ?_, hcause⟩
  rw [octets_cons_ascii hascii, readDocument, readWhole]
  change readValue origin greatestDepth (ascii c :: octets r) = _ at hfault
  rw [hfault]

theorem decodeText_overflows (h : Spelling.Number literal w) (hrange : ¬literal.InRange) :
    ∃ failure, decodeText (String.ofList w) = .error failure ∧
      failure.TellsLabel "numeric-range" := by
  obtain ⟨fault, hfault, hcause⟩ := readDocument_overflows h hrange .text
  have hdocument : fault.cause.OfDocument .text := by
    rw [hcause]
    trivial
  refine ⟨_, decodeWith_of_fault ?_, (Failure.sortedBy_ofFault _ hdocument).numericRange.2 hcause⟩
  rw [encode_eq_octets, String.toList_ofList, hfault]

/-- What is not a whole number is a double or out of the range of numbers. -/
def NoWholeNumber (outcome : Except Failure Json) : Prop :=
  (∃ x, outcome = .ok (.number (.double x))) ∨
    ∃ failure, outcome = .error failure ∧ failure.TellsLabel "numeric-range"

theorem noWholeNumber_of_whole? (h : Spelling.Number literal w) (hwhole : literal.whole? = none) :
    NoWholeNumber (decodeText (String.ofList w)) := by
  have hnumber : literal.number = literal.double.map .double := by
    rw [NumberLiteral.number, hwhole]
  cases hdouble : literal.double with
  | ok x =>
      rw [hdouble] at hnumber
      exact .inl ⟨x, decodeText_of_number h hnumber⟩
  | error unseen =>
      rw [hdouble] at hnumber
      refine .inr (decodeText_overflows h ?_)
      rintro ⟨n, hn⟩
      rw [hnumber] at hn
      cases hn

end Decoding

/-- A literal of a sign and digits is decoded to the integer that it denotes where this fits
a word, and else never to a whole number; no more is one with a fraction or an exponent. -/
theorem decodeText_literal {literal : NumberLiteral} {w : List Char}
    (h : Spelling.Number literal w) :
    (literal.IsInteger → literal.FitsWord →
      ∃ n : WholeNumber, n.val = literal.integer ∧
        decodeText (String.ofList w) = .ok (.number (.whole n))) ∧
    (literal.IsInteger → ¬literal.FitsWord → NoWholeNumber (decodeText (String.ofList w))) ∧
    (¬literal.IsInteger → NoWholeNumber (decodeText (String.ofList w))) := by
  refine ⟨fun hinteger hfits => ?_, fun _ hfits => ?_, fun hinteger => ?_⟩
  · obtain ⟨n, hval, hwhole⟩ := literal.exists_whole_of_fitsWord hinteger hfits
    refine ⟨n, hval, decodeText_of_number h ?_⟩
    rw [NumberLiteral.number, hwhole]
  · exact noWholeNumber_of_whole? h (NumberLiteral.whole?_of_not_fitsWord hfits)
  · exact noWholeNumber_of_whole? h (NumberLiteral.whole?_of_not_isInteger hinteger)

theorem decodeText_literal_greatestWord :
    (∃ n : WholeNumber, n.val = 2 ^ 64 - 1 ∧
      decodeText "18446744073709551615" = .ok (.number (.whole n))) ∧
      NoWholeNumber (decodeText "-0") ∧ NoWholeNumber (decodeText "1e2") := by
  have hgreatest : Spelling.Number
      ⟨false, [1, 8, 4, 4, 6, 7, 4, 4, 0, 7, 3, 7, 0, 9, 5, 5, 1, 6, 1, 5], none, none⟩
      "18446744073709551615".toList :=
    .positive rfl (.parts (.digits (by decide)) .absent .absent)
  have hzero : Spelling.Number ⟨true, [0], none, none⟩ ['-', '0'] :=
    .negative rfl (.parts .zero .absent .absent)
  have hhundred : Spelling.Number ⟨false, [1], none, some ⟨false, [2]⟩⟩ ['1', 'e', '2'] :=
    .positive rfl (.parts (.digits (by decide)) .absent (.digits (.inl rfl) .absent))
  obtain ⟨n, hn, hdecoded⟩ :=
    (decodeText_literal hgreatest).1 ⟨rfl, rfl⟩ (by decide)
  refine ⟨⟨n, hn, hdecoded⟩, ?_, ?_⟩
  · exact (decodeText_literal hzero).2.1 ⟨rfl, rfl⟩ (by decide)
  · exact (decodeText_literal hhundred).2.2 fun hinteger => by cases hinteger.2

end JsonReport
