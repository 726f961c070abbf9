import JsonReport.Text.Escaped
import Mathlib.Tactic

/-!
# Quoted payload text

Between the controls and the delete character no ASCII character is escaped in a message
but the quote and the backslash, so most strings are quoted as they are.
-/

namespace JsonReport

theorem CodeRanges.not_has {ranges : CodeRanges} {code : ℕ}
    (h : ∀ range ∈ ranges, range.2 < code ∨ code < range.1) : ranges.has code = false := by
  apply List.any_eq_false.mpr
  intro range hrange hin
  simp only [Bool.and_eq_true, decide_eq_true_eq] at hin
  rcases h range hrange with hbelow | habove
  · omega
  · omega

theorem not_unprintable_of_ascii {code : ℕ} (hlow : 0x20 ≤ code) (hhigh : code < 0x7F) :
    unprintable.has code = false := by
  have hranges : ∀ range ∈ unprintable, range.2 < 0x20 ∨ 0x7F ≤ range.1 := by decide +kernel
  apply CodeRanges.not_has
  intro range hrange
  rcases hranges range hrange with hbelow | habove
  · exact .inl (by omega)
  · exact .inr (by omega)

theorem not_extending_of_ascii {code : ℕ} (hhigh : code < 0x7F) :
    extending.has code = false := by
  have hranges : ∀ range ∈ extending, 0x7F ≤ range.1 := by decide +kernel
  apply CodeRanges.not_has
  intro range hrange
  exact .inr (Nat.lt_of_lt_of_le hhigh (hranges range hrange))

namespace Escaped

/-- The ASCII characters that are shown as they are. -/
def Shown (c : Char) : Prop := 0x20 ≤ c.toNat ∧ c.toNat < 0x7F ∧ c ≠ '"' ∧ c ≠ '\\'

instance (c : Char) : Decidable (Shown c) := inferInstanceAs (Decidable (_ ∧ _ ∧ _ ∧ _))

theorem character_of_shown {c : Char} (h : Shown c) : character c = [c] := by
  obtain ⟨hlow, hhigh, hquote, hbackslash⟩ := h
  have hcontrol : ∀ d : Char, d.toNat < 0x20 → c ≠ d := by
    rintro d hd rfl
    omega
  rw [character, if_neg (hcontrol _ (by decide)), if_neg (hcontrol _ (by decide)),
    if_neg (hcontrol _ (by decide)), if_neg (hcontrol _ (by decide)), if_neg hquote,
    if_neg hbackslash, not_extending_of_ascii hhigh, not_unprintable_of_ascii hlow hhigh]
  rfl

theorem quote_of_shown {text : List Char} (h : ∀ c ∈ text, Shown c) :
    quote text = '"' :: (text ++ ['"']) := by
  have hcharacters : text.flatMap character = text := by
    induction text with
    | nil => rfl
    | cons c text ih =>
        obtain ⟨hc, htext⟩ := List.forall_mem_cons.mp h
        rw [List.flatMap_cons, character_of_shown hc, ih htext]
        rfl
  rw [quote, hcharacters]

end Escaped

end JsonReport
