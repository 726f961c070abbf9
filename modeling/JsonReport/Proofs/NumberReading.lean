import JsonReport.Proofs.MarkReading
import Mathlib.Tactic

/-!
# Reading numbers

A number literal is read part by part, and each part ends where its digits end.  The
grammar leaves the end of a number open, so the readers agree with it only before a
mark that cannot continue a number; white space, a comma and a closing mark all are of
that kind, and so is the end of the text.
-/

namespace JsonReport

open Utf8
open Spelling

/-! ## Digits -/

def NoDigit (s : Octets) : Prop := ∀ b r, s = b :: r → digit? b = none

/-- No number goes on here. -/
def EndsNumber (s : Octets) : Prop :=
  NoDigit s ∧ ∀ b r, s = b :: r → b ≠ ascii '.' ∧ b ≠ ascii 'e' ∧ b ≠ ascii 'E'

theorem digitChar_ascii (d : Digit) : (Nat.digitChar d.val).toNat < 128 := by
  revert d
  decide

theorem digit?_digitChar (d : Digit) : digit? (ascii (Nat.digitChar d.val)) = some d := by
  revert d
  decide

theorem eq_ascii_of_digit? {b : UInt8} {d : Digit} (h : digit? b = some d) :
    b = ascii (Nat.digitChar d.val) := by
  have hchar : ∀ d : Digit, (ascii (Nat.digitChar d.val)).toNat = d.val + 48 := by decide
  rw [digit?] at h
  split at h
  · next hdigit =>
      injection h with h
      subst h
      have hlow : 48 ≤ b.toNat := UInt8.le_iff_toNat_le.mp hdigit.1
      rw [← UInt8.toNat_inj, hchar]
      exact (Nat.sub_add_cancel hlow).symm
  · cases h

theorem octets_digitText_cons (d : Digit) (ds : List Digit) :
    octets (digitText (d :: ds)) =
      ascii (Nat.digitChar d.val) :: octets (digitText ds) :=
  octets_cons_ascii (digitChar_ascii d) _

theorem takeDigits_append (ds : List Digit) {rest : Octets} (hrest : NoDigit rest) :
    takeDigits (octets (digitText ds) ++ rest) = (ds, rest) := by
  induction ds with
  | nil =>
      cases rest with
      | nil => rfl
      | cons b r =>
          change takeDigits (b :: r) = ([], b :: r)
          simp only [takeDigits, hrest b r rfl]
  | cons d ds ih =>
      rw [octets_digitText_cons, List.cons_append, takeDigits]
      simp only [digit?_digitChar, ih]

theorem takeDigits_sound (s : Octets) :
    s = octets (digitText (takeDigits s).1) ++ (takeDigits s).2 := by
  induction s with
  | nil => rfl
  | cons b s ih =>
      rw [takeDigits]
      cases hb : digit? b with
      | none => rfl
      | some d =>
          simp only
          rw [octets_digitText_cons, List.cons_append, ← ih, ← eq_ascii_of_digit? hb]

theorem readDigits_append (atEnd : Cause) (d : Digit) (ds : List Digit) {rest : Octets}
    (hrest : NoDigit rest) :
    readDigits atEnd (octets (digitText (d :: ds)) ++ rest) = .ok (d :: ds, rest) := by
  rw [octets_digitText_cons, List.cons_append, readDigits]
  simp only [digit?_digitChar, takeDigits_append ds hrest]

theorem readDigits_sound {atEnd : Cause} {s rest : Octets} {digits : List Digit}
    (h : readDigits atEnd s = .ok (digits, rest)) :
    ∃ d ds, digits = d :: ds ∧ s = octets (digitText digits) ++ rest := by
  cases s with
  | nil => cases h
  | cons b s =>
      rw [readDigits] at h
      split at h
      · cases h
      · next d hd =>
          simp only [Except.ok.injEq, Prod.mk.injEq] at h
          obtain ⟨rfl, rfl⟩ := h
          refine ⟨d, _, rfl, ?_⟩
          rw [octets_digitText_cons, List.cons_append, ← takeDigits_sound,
            ← eq_ascii_of_digit? hd]

/-! ## The parts of a literal -/

theorem readWholePart_of_wholePart {digits : List Digit} {w : List Char}
    (h : WholePart digits w) (atEnd : Cause) {rest : Octets} (hrest : NoDigit rest) :
    readWholePart atEnd (octets w ++ rest) = .ok (digits, rest) := by
  cases h with
  | zero =>
      have hread : readDigits atEnd (octets ['0'] ++ rest) = .ok ([0], rest) :=
        readDigits_append atEnd 0 [] hrest
      rw [readWholePart, hread]
      rfl
  | @digits d ds hd =>
      rw [readWholePart, readDigits_append atEnd d ds hrest]
      split
      · next heq =>
          simp only [Except.ok.injEq, Prod.mk.injEq, List.cons.injEq] at heq
          exact absurd heq.1.1 hd
      · rfl

theorem readWholePart_sound {atEnd : Cause} {s rest : Octets} {digits : List Digit}
    (h : readWholePart atEnd s = .ok (digits, rest)) :
    ∃ w, WholePart digits w ∧ s = octets w ++ rest := by
  rw [readWholePart] at h
  split at h
  · cases h
  · next hleading =>
      obtain ⟨d, ds, rfl, hs⟩ := readDigits_sound h
      refine ⟨digitText (d :: ds), ?_, hs⟩
      by_cases hd : d = 0
      · subst hd
        cases ds with
        | nil => exact .zero
        | cons d' ds => exact absurd h (hleading d' ds rest)
      · exact .digits hd

theorem readFraction_of_fractionPart {fraction : Option (List Digit)} {w : List Char}
    (h : FractionPart fraction w) (atEnd : Cause) {rest : Octets} (hrest : NoDigit rest)
    (hpoint : ∀ b r, rest = b :: r → b ≠ ascii '.') :
    readFraction atEnd (octets w ++ rest) = .ok (fraction, rest) := by
  cases h with
  | absent =>
      cases rest with
      | nil => rfl
      | cons b r =>
          change readFraction atEnd (b :: r) = .ok (none, b :: r)
          rw [readFraction, if_neg (hpoint b r rfl)]
  | @digits d ds =>
      rw [octets_cons_ascii (by decide), List.cons_append, readFraction, if_pos rfl,
        readDigits_append atEnd d ds hrest]

theorem readFraction_sound {atEnd : Cause} {s rest : Octets}
    {fraction : Option (List Digit)} (h : readFraction atEnd s = .ok (fraction, rest)) :
    ∃ w, FractionPart fraction w ∧ s = octets w ++ rest := by
  cases s with
  | nil =>
      simp only [readFraction, Except.ok.injEq, Prod.mk.injEq] at h
      obtain ⟨rfl, rfl⟩ := h
      exact ⟨[], .absent, rfl⟩
  | cons b s =>
      rw [readFraction] at h
      split at h
      · next hpoint =>
          split at h
          · cases h
          · next digits r hdigits =>
              simp only [Except.ok.injEq, Prod.mk.injEq] at h
              obtain ⟨rfl, rfl⟩ := h
              obtain ⟨d, ds, rfl, rfl⟩ := readDigits_sound hdigits
              refine ⟨'.' :: digitText (d :: ds), .digits, ?_⟩
              rw [octets_cons_ascii (by decide), hpoint]
              rfl
      · simp only [Except.ok.injEq, Prod.mk.injEq] at h
        obtain ⟨rfl, rfl⟩ := h
        exact ⟨[], .absent, rfl⟩

theorem readSign_of_exponentSign {negative : Bool} {sign : List Char}
    (h : ExponentSign negative sign) (d : Digit) (s : Octets) :
    readSign (octets sign ++ ascii (Nat.digitChar d.val) :: s) =
      (negative, ascii (Nat.digitChar d.val) :: s) := by
  cases h with
  | absent =>
      have hsign : ascii (Nat.digitChar d.val) ≠ ascii '-' ∧
          ascii (Nat.digitChar d.val) ≠ ascii '+' := by
        revert d
        decide
      change readSign (ascii (Nat.digitChar d.val) :: s) = _
      rw [readSign, if_neg hsign.1, if_neg hsign.2]
  | plus => rfl
  | minus => rfl

theorem readSign_sound (s : Octets) :
    ∃ sign, ExponentSign (readSign s).1 sign ∧ s = octets sign ++ (readSign s).2 := by
  cases s with
  | nil => exact ⟨[], .absent, rfl⟩
  | cons b s =>
      rw [readSign]
      split
      · next hminus => exact ⟨['-'], .minus, congrArg (· :: s) hminus⟩
      · split
        · next hplus => exact ⟨['+'], .plus, congrArg (· :: s) hplus⟩
        · exact ⟨[], .absent, rfl⟩

theorem exponentMark_ascii {mark : Char} (h : mark = 'e' ∨ mark = 'E') :
    mark.toNat < 128 ∧ (ascii mark = ascii 'e' ∨ ascii mark = ascii 'E') := by
  rcases h with rfl | rfl
  · exact ⟨by decide, .inl rfl⟩
  · exact ⟨by decide, .inr rfl⟩

theorem readExponent_of_exponent {exponent : Option ExponentPart} {w : List Char}
    (h : Exponent exponent w) (atEnd : Cause) {rest : Octets} (hrest : NoDigit rest)
    (hmark : ∀ b r, rest = b :: r → b ≠ ascii 'e' ∧ b ≠ ascii 'E') :
    readExponent atEnd (octets w ++ rest) = .ok (exponent, rest) := by
  cases h with
  | absent =>
      cases rest with
      | nil => rfl
      | cons b r =>
          have hb := hmark b r rfl
          change readExponent atEnd (b :: r) = .ok (none, b :: r)
          rw [readExponent, if_neg (not_or.mpr hb)]
  | @digits mark negative sign d ds hletter hsign =>
      obtain ⟨hascii, hletter⟩ := exponentMark_ascii hletter
      rw [octets_cons_ascii hascii, octets_append, octets_digitText_cons,
        List.cons_append, readExponent, if_pos hletter, List.append_assoc,
        List.cons_append, readSign_of_exponentSign hsign, ← List.cons_append,
        ← octets_digitText_cons]
      simp only [readDigits_append atEnd d ds hrest]

theorem readExponent_sound {atEnd : Cause} {s rest : Octets}
    {exponent : Option ExponentPart} (h : readExponent atEnd s = .ok (exponent, rest)) :
    ∃ w, Exponent exponent w ∧ s = octets w ++ rest := by
  cases s with
  | nil =>
      simp only [readExponent, Except.ok.injEq, Prod.mk.injEq] at h
      obtain ⟨rfl, rfl⟩ := h
      exact ⟨[], .absent, rfl⟩
  | cons b s =>
      rw [readExponent] at h
      split at h
      · next hmark =>
          split at h
          · cases h
          · next digits r hdigits =>
              simp only [Except.ok.injEq, Prod.mk.injEq] at h
              obtain ⟨rfl, rfl⟩ := h
              obtain ⟨sign, hsign, hs⟩ := readSign_sound s
              obtain ⟨d, ds, rfl, hsplit⟩ := readDigits_sound hdigits
              obtain ⟨mark, hletter, rfl⟩ :
                  ∃ mark, (mark = 'e' ∨ mark = 'E') ∧ b = ascii mark := by
                rcases hmark with he | hE
                · exact ⟨'e', .inl rfl, he⟩
                · exact ⟨'E', .inr rfl, hE⟩
              refine ⟨mark :: (sign ++ digitText (d :: ds)), .digits hletter hsign, ?_⟩
              rw [octets_cons_ascii (exponentMark_ascii hletter).1, octets_append,
                List.cons_append, List.append_assoc, ← hsplit, ← hs]
      · simp only [Except.ok.injEq, Prod.mk.injEq] at h
        obtain ⟨rfl, rfl⟩ := h
        exact ⟨[], .absent, rfl⟩

/-! ## Literals -/

theorem noDigit_cons {b : UInt8} (hb : digit? b = none) (r : Octets) :
    NoDigit (b :: r) := by
  intro b' r' h
  injection h with h
  exact h ▸ hb

theorem noDigit_exponent {exponent : Option ExponentPart} {w : List Char}
    (h : Exponent exponent w) {rest : Octets} (hrest : EndsNumber rest) :
    NoDigit (octets w ++ rest) ∧
      ∀ b r, octets w ++ rest = b :: r → b ≠ ascii '.' := by
  cases h with
  | absent => exact ⟨hrest.1, fun b r h => (hrest.2 b r h).1⟩
  | @digits mark _ _ _ _ hletter _ =>
      have hmark : digit? (ascii mark) = none ∧ ascii mark ≠ ascii '.' := by
        rcases hletter with rfl | rfl <;> decide
      rw [octets_cons_ascii (exponentMark_ascii hletter).1, List.cons_append]
      refine ⟨noDigit_cons hmark.1 _, fun b r h => ?_⟩
      injection h with h
      exact h ▸ hmark.2

theorem noDigit_fraction {fraction : Option (List Digit)} {w : List Char}
    (h : FractionPart fraction w) {rest : Octets} (hrest : NoDigit rest) :
    NoDigit (octets w ++ rest) := by
  cases h with
  | absent => exact hrest
  | digits =>
      rw [octets_cons_ascii (by decide), List.cons_append]
      exact noDigit_cons (by decide) _

theorem readLiteral_of_unsigned {literal : NumberLiteral} {w : List Char}
    (h : Unsigned literal w) (atEnd : Cause) {rest : Octets} (hrest : EndsNumber rest) :
    (readLiteral atEnd literal.negative (octets w ++ rest)).Yields literal rest := by
  obtain @⟨negative, whole, fraction, exponent, ww, wf, we, hwhole, hfraction, hexponent⟩ := h
  have hread₃ := readExponent_of_exponent hexponent atEnd hrest.1
    fun b r h => (hrest.2 b r h).2
  obtain ⟨hdigit₂, hpoint⟩ := noDigit_exponent hexponent hrest
  have hread₂ := readFraction_of_fractionPart hfraction atEnd hdigit₂ hpoint
  have hread₁ := readWholePart_of_wholePart hwhole atEnd
    (noDigit_fraction hfraction hdigit₂)
  rw [octets_append, octets_append, List.append_assoc, List.append_assoc]
  unfold readLiteral
  split
  · next hfault =>
      rw [hread₁] at hfault
      cases hfault
  · next hok₁ =>
      rw [hread₁, Except.ok.injEq, Prod.mk.injEq] at hok₁
      obtain ⟨rfl, rfl⟩ := hok₁
      split
      · next hfault =>
          rw [hread₂] at hfault
          cases hfault
      · next hok₂ =>
          rw [hread₂, Except.ok.injEq, Prod.mk.injEq] at hok₂
          obtain ⟨rfl, rfl⟩ := hok₂
          split
          · next hfault =>
              rw [hread₃] at hfault
              cases hfault
          · next hok₃ =>
              rw [hread₃, Except.ok.injEq, Prod.mk.injEq] at hok₃
              obtain ⟨rfl, rfl⟩ := hok₃
              exact ⟨_, rfl⟩

theorem readLiteral_sound {atEnd : Cause} {negative : Bool} {s : Octets}
    {literal : Taken s NumberLiteral} (h : readLiteral atEnd negative s = .ok literal) :
    ∃ w, Unsigned literal.value w ∧ literal.value.negative = negative ∧
      s = octets w ++ literal.rest := by
  unfold readLiteral at h
  split at h
  · cases h
  · next hwhole =>
      split at h
      · cases h
      · next hfraction =>
          split at h
          · cases h
          · next hexponent =>
              injection h with h
              subst h
              obtain ⟨ww, hww, hs₁⟩ := readWholePart_sound hwhole
              obtain ⟨wf, hwf, hs₂⟩ := readFraction_sound hfraction
              obtain ⟨we, hwe, hs₃⟩ := readExponent_sound hexponent
              refine ⟨ww ++ wf ++ we, .parts hww hwf hwe, rfl, ?_⟩
              rw [octets_append, octets_append, List.append_assoc, List.append_assoc,
                ← hs₃, ← hs₂, ← hs₁]

theorem readNumber_of_unsigned {literal : NumberLiteral} {w : List Char}
    (h : Unsigned literal w) {n : JsonReport.Number} (hn : literal.number = .ok n)
    {rest : Octets} (hrest : EndsNumber rest) :
    (readNumber literal.negative (octets w ++ rest)).Yields n rest := by
  obtain ⟨shorter, hread⟩ := readLiteral_of_unsigned h .endOfValue hrest
  refine ⟨shorter, ?_⟩
  simp only [readNumber, hread, hn, Taken.map]

theorem readNumber_refuses {literal : NumberLiteral} {w : List Char}
    (h : Unsigned literal w) (hrange : ¬literal.InRange) {rest : Octets}
    (hrest : EndsNumber rest) :
    (readNumber literal.negative (octets w ++ rest)).FailsFor .numberOutOfRange := by
  obtain ⟨shorter, hread⟩ := readLiteral_of_unsigned h .endOfValue hrest
  cases hnumber : literal.number with
  | ok n => exact absurd ⟨n, hnumber⟩ hrange
  | error unseen =>
      refine ⟨.leaving .numberOutOfRange (unseen.map Digit.octet ++ rest), ?_, rfl⟩
      simp only [readNumber, hread, hnumber]

theorem readNumber_sound {negative : Bool} {s : Octets} {n : Taken s JsonReport.Number}
    (h : readNumber negative s = .ok n) :
    ∃ literal w, Unsigned literal w ∧ literal.negative = negative ∧
      literal.number = .ok n.value ∧ s = octets w ++ n.rest := by
  rw [readNumber] at h
  split at h
  · cases h
  · next literal hliteral =>
      obtain ⟨w, hw, hsign, hs⟩ := readLiteral_sound hliteral
      split at h
      · next hn =>
          injection h with h
          subst h
          exact ⟨literal.value, w, hw, hsign, hn, hs⟩
      · cases h

end JsonReport
