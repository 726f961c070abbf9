import JsonReport.Json.Quoted
import JsonReport.Proofs.DocumentGrammar
import Mathlib.Tactic

/-!
# Written numbers and strings

What is written for a whole number is a literal that stands for this number again, up to
both ends of the words that hold it, and what is written for a string is one of its
spellings.
-/

namespace JsonReport

open Spelling

/-! ## Whole numbers -/

theorem gather_append {limit n k : ℕ} {ds : List Digit} (h : gather limit n ds = (k, []))
    {d : Digit} (hd : 10 * k + d.val < limit) :
    gather limit n (ds ++ [d]) = (10 * k + d.val, []) := by
  induction ds generalizing n with
  | nil =>
      injection h with h
      subst h
      rw [List.nil_append, gather, if_pos hd, gather]
  | cons d' ds ih =>
      rw [gather] at h
      split at h
      · next hd' => rw [List.cons_append, gather, if_pos hd', ih h]
      · cases h

/-- The decimal text of a positive number, with the digits gathered again. -/
theorem exists_digits_of_pos {m : ℕ} (hm : 0 < m) :
    ∃ d ds, d ≠ 0 ∧ digitText (d :: ds) = Nat.toDigits 10 m ∧
      ∀ limit, m < limit → gather limit 0 (d :: ds) = (m, []) := by
  induction m using Nat.strong_induction_on with
  | _ m ih =>
      by_cases hsmall : m < 10
      · refine ⟨⟨m, hsmall⟩, [], ?_, ?_, ?_⟩
        · intro hzero
          have hval : m = 0 := congrArg Fin.val hzero
          omega
        · rw [Nat.toDigits_of_lt_base hsmall]
          rfl
        · intro limit hlimit
          have hstep : 10 * 0 + m < limit := by omega
          rw [gather, if_pos hstep, gather, Nat.mul_zero, Nat.zero_add]
      · have hquotient : 0 < m / 10 := by omega
        obtain ⟨d, ds, hd, htext, hgather⟩ := ih (m / 10) (by omega) hquotient
        have hdigit : m % 10 < 10 := Nat.mod_lt m (by omega)
        have hsplit : 10 * (m / 10) + m % 10 = m := Nat.div_add_mod m 10
        refine ⟨d, ds ++ [⟨m % 10, hdigit⟩], hd, ?_, ?_⟩
        · rw [Nat.toDigits_of_base_le (by decide) (Nat.le_of_not_lt hsmall), ← htext,
            ← List.cons_append]
          exact List.map_append
        · intro limit hlimit
          have hstep : 10 * (m / 10) + m % 10 < limit := by omega
          have hfirst := hgather limit (by omega)
          have hall := gather_append (d := ⟨m % 10, hdigit⟩) hfirst hstep
          rw [← List.cons_append, hall]
          exact congrArg (·, []) hsplit

theorem exists_digits (m : ℕ) :
    ∃ ds, WholePart ds (Nat.toDigits 10 m) ∧
      ∀ limit, m < limit → gather limit 0 ds = (m, []) := by
  by_cases hm : m = 0
  · subst hm
    refine ⟨[0], .zero, ?_⟩
    intro limit hlimit
    have hstep : 10 * 0 + (0 : Digit).val < limit := hlimit
    rw [gather, if_pos hstep]
    rfl
  · obtain ⟨d, ds, hd, htext, hgather⟩ := exists_digits_of_pos (Nat.pos_of_ne_zero hm)
    refine ⟨d :: ds, ?_, hgather⟩
    rw [← htext]
    exact .digits hd

theorem ofInt?_val (n : WholeNumber) : WholeNumber.ofInt? n.val = some n := by
  unfold WholeNumber.ofInt?
  rw [dif_pos n.fits]

theorem exists_literal_of_whole (n : WholeNumber) :
    ∃ literal, Spelling.Number literal n.text ∧
      literal.number = .ok (Number.whole n) := by
  have hfits := n.fits
  have hword : n.val.natAbs < NumberLiteral.significandLimit := by
    unfold leastWord wordLimit at hfits
    unfold NumberLiteral.significandLimit
    omega
  obtain ⟨ds, hds, hgather⟩ := exists_digits n.val.natAbs
  have hunsigned : ∀ negative,
      Unsigned ⟨negative, ds, none, none⟩ (Nat.toDigits 10 n.val.natAbs) := by
    intro negative
    have hparts : Unsigned ⟨negative, ds, none, none⟩ (_ ++ [] ++ []) :=
      .parts hds .absent .absent
    rwa [List.append_nil, List.append_nil] at hparts
  by_cases hsign : n.val < 0
  · refine ⟨⟨true, ds, none, none⟩, ?_, ?_⟩
    · rw [WholeNumber.text, if_pos hsign]
      exact .negative rfl (hunsigned true)
    · have hne : n.val.natAbs ≠ 0 := by omega
      have hval : -(n.val.natAbs : ℤ) = n.val := by omega
      have hwhole : NumberLiteral.whole? ⟨true, ds, none, none⟩ = some n := by
        unfold NumberLiteral.whole?
        simp only [hgather _ hword, if_true, hne, if_false, hval, ofInt?_val]
      rw [NumberLiteral.number, hwhole]
  · refine ⟨⟨false, ds, none, none⟩, ?_, ?_⟩
    · rw [WholeNumber.text, if_neg hsign]
      exact .positive rfl (hunsigned false)
    · have hval : (n.val.natAbs : ℤ) = n.val := by omega
      have hwhole : NumberLiteral.whole? ⟨false, ds, none, none⟩ = some n := by
        unfold NumberLiteral.whole?
        simp only [hgather _ hword, Bool.false_eq_true, if_false, hval, ofInt?_val]
      rw [NumberLiteral.number, hwhole]

/-! ## Strings -/

theorem hexDigit_hexDigit (n : ℕ) : HexDigit (n % 16) (Quoted.hexDigit n) :=
  ⟨Nat.mod_lt n (by omega), .inl rfl⟩

/-- A character is escaped where it must be, by one of its spellings. -/
theorem character_written (c : Char) : Character c (Quoted.character c) := by
  unfold Quoted.character
  split_ifs with hquote hbackslash hb hf hn hr ht hcontrol
  · rw [hquote]
    exact .short (by decide)
  · rw [hbackslash]
    exact .short (by decide)
  · rw [hb]
    exact .short (by decide)
  · rw [hf]
    exact .short (by decide)
  · rw [hn]
    exact .short (by decide)
  · rw [hr]
    exact .short (by decide)
  · rw [ht]
    exact .short (by decide)
  · have hcode := HexCode.digits (hexDigit_hexDigit 0) (hexDigit_hexDigit 0)
      (hexDigit_hexDigit (c.toNat / 16)) (hexDigit_hexDigit c.toNat)
    have hvalue : ((0 % 16 * 16 + 0 % 16) * 16 + c.toNat / 16 % 16) * 16 + c.toNat % 16 =
        c.toNat := by
      omega
    rw [hvalue] at hcode
    exact .code hcode
  · exact .plain ⟨Nat.le_of_not_lt hcontrol, hquote, hbackslash⟩

theorem run_written (text : List Char) :
    Run Character text (text.flatMap Quoted.character) := by
  induction text with
  | nil => exact .nil
  | cons c text ih =>
      rw [List.flatMap_cons]
      exact .cons (character_written c) ih

theorem quoted_written (text : String) :
    Spelling.Quoted Content text (Quoted.quote text.toList) :=
  .quotes (run_written text.toList)

end JsonReport
