import JsonReport.Json.Skipper
import JsonReport.Proofs.MarkReading
import JsonReport.Proofs.NumberReading
import JsonReport.Proofs.RawStrings
import Mathlib.Tactic

/-!
# Where faults are shown

A reader only goes forward: what it leaves is an end of what it was given, and a fault is
shown where such an end begins or some columns before it.  The columns are counted in the
content of a string that turns out to be broken at its closing quote.  An escape is at
least as long as what it stands for and no line feed stands in a string, so the place that
is shown lies inside the string and on its line.
-/

namespace JsonReport

open Utf8
open Spelling

/-! ## Places -/

namespace Position

/-- The line on which a text ends. -/
def lineOf (s : Octets) : ℕ := 1 + s.count (ascii '\n')

/-- The column in which a text ends. -/
def columnOf (s : Octets) : ℕ := (s.reverse.takeWhile (· ≠ ascii '\n')).length

theorem after_append (s t : Octets) : after (s ++ t) = t.foldl advance (after s) :=
  List.foldl_append

theorem after_eq (s : Octets) : after s = ⟨lineOf s, columnOf s⟩ := by
  induction s using List.reverseRecOn with
  | nil => rfl
  | append_singleton s b ih =>
      rw [after_append, ih, List.foldl_cons, List.foldl_nil, advance]
      by_cases hb : b = ascii '\n'
      · simp [hb, lineOf, columnOf, List.count_append, Nat.add_assoc]
      · simp [hb, lineOf, columnOf, List.count_append]

/-- Octets without a line feed lead on along the line. -/
theorem after_append_of_line {s t : Octets} (ht : ascii '\n' ∉ t) :
    after (s ++ t) = ⟨(after s).line, (after s).column + t.length⟩ := by
  induction t using List.reverseRecOn with
  | nil => simp
  | append_singleton t b ih =>
      simp only [List.mem_append, List.mem_singleton, not_or] at ht
      rw [← List.append_assoc, after_append, ih ht.1, List.foldl_cons, List.foldl_nil, advance,
        if_neg (Ne.symm ht.2), List.length_append]
      rfl

end Position

/-- A fault is shown at a place of this text: what was not read is an end of it, and on the
line before stands what was passed over. -/
def Fault.StandsIn (fault : Fault) (s : Octets) : Prop :=
  ∃ before passed, s = before ++ (passed ++ fault.unread) ∧ passed.length = fault.back ∧
    ascii '\n' ∉ passed

namespace Fault

variable {fault : Fault} {cause : Cause} {s t unread : Octets}

theorem StandsIn.mono (h : fault.StandsIn s) (hs : s <:+ t) : fault.StandsIn t := by
  obtain ⟨before, passed, rfl, hlength, hline⟩ := h
  obtain ⟨first, rfl⟩ := hs
  exact ⟨first ++ before, passed, (List.append_assoc first before _).symm, hlength, hline⟩

theorem standsIn_leaving (h : unread <:+ s) : (leaving cause unread).StandsIn s := by
  obtain ⟨before, rfl⟩ := h
  exact ⟨before, [], rfl, rfl, List.not_mem_nil⟩

theorem standsIn_end : (leaving cause []).StandsIn s := standsIn_leaving List.nil_suffix

/-- The index at which a fault is shown. -/
def index (fault : Fault) (s : Octets) : ℕ := s.length - fault.unread.length - fault.back

/-- The place of a fault is that of its index. -/
theorem StandsIn.position_eq (h : fault.StandsIn s) :
    fault.position s = ⟨Position.lineOf (s.take (fault.index s)),
      Position.columnOf (s.take (fault.index s))⟩ := by
  obtain ⟨before, passed, hs, hlength, hline⟩ := h
  have hread : s.length - fault.unread.length = (before ++ passed).length := by
    rw [hs, ← List.append_assoc, List.length_append, Nat.add_sub_cancel]
  have hindex : fault.index s = before.length := by
    rw [index, hread, List.length_append, hlength, Nat.add_sub_cancel]
  have htakeRead : s.take (before ++ passed).length = before ++ passed := by
    rw [hs, ← List.append_assoc, List.take_left]
  have htakeBefore : s.take before.length = before := by
    rw [hs, List.take_left]
  rw [hindex, htakeBefore, ← Position.after_eq, position, Position.before, hread, htakeRead,
    Position.after_append_of_line hline, Position.stepBack, hlength]
  simp only [Nat.add_sub_cancel]

end Fault

/-! ## Readers that keep to their text -/

/-- What a reading of `s` leaves is an end of it, or its fault is shown at a place of it. -/
def KeepsTo {α : Type} (s : Octets) (rest : α → Octets) : Except Fault α → Prop
  | .ok value => rest value <:+ s
  | .error fault => fault.StandsIn s

section Keeping

variable {α : Type} {s : Octets} {rest : α → Octets} {outcome : Except Fault α}

theorem KeepsTo.suffix (h : KeepsTo s rest outcome) {value : α} (hvalue : outcome = .ok value) :
    rest value <:+ s := by
  rw [hvalue] at h
  exact h

theorem KeepsTo.standsIn (h : KeepsTo s rest outcome) {fault : Fault}
    (hfault : outcome = .error fault) : fault.StandsIn s := by
  rw [hfault] at h
  exact h

theorem KeepsTo.mono (h : KeepsTo s rest outcome) {t : Octets} (hs : s <:+ t) :
    KeepsTo t rest outcome := by
  cases outcome with
  | ok value => exact List.IsSuffix.trans h hs
  | error fault => exact Fault.StandsIn.mono h hs

/-- A reading that keeps to the text that it was given. -/
abbrev Reading.Keeps (reading : Reading s α) : Prop := KeepsTo s Taken.rest reading

/-- A reading that keeps to its text and ends behind the first octet of it, well or badly. -/
abbrev Reading.Advances (reading : Reading s α) : Prop := KeepsTo s.tail Taken.rest reading

theorem Reading.Advances.keeps {reading : Reading s α} (h : reading.Advances) : reading.Keeps :=
  h.mono (List.tail_suffix s)

end Keeping

/-! ## Marks -/

section Marks

variable {s : Octets}

theorem suffix_of_append {before rest : Octets} (h : s = before ++ rest) : rest <:+ s :=
  ⟨before, h.symm⟩

theorem suffix_of_nextMark {mark : Taken s UInt8} (h : nextMark s = some mark) :
    mark.value :: mark.rest <:+ s := by
  obtain ⟨w, -, hs⟩ := blank_of_nextMark_eq_some h
  exact suffix_of_append hs

theorem rest_suffix_of_nextMark {mark : Taken s UInt8} (h : nextMark s = some mark) :
    mark.rest <:+ s :=
  (List.suffix_cons mark.value mark.rest).trans (suffix_of_nextMark h)

theorem rest_suffix_tail_of_nextMark {mark : Taken s UInt8} (h : nextMark s = some mark) :
    mark.rest <:+ s.tail := by
  refine List.suffix_of_suffix_length_le (rest_suffix_of_nextMark h) (List.tail_suffix s) ?_
  rw [List.length_tail]
  exact Nat.le_pred_of_lt mark.shorter

namespace Container

theorem endsAtOnce_fault {container : Container} {fault : Fault}
    (h : container.endsAtOnce s = .error fault) : fault.StandsIn s := by
  rw [endsAtOnce] at h
  split at h
  · injection h with h
    subst h
    exact Fault.standsIn_end
  · cases h

theorem endsAtOnce_suffix {container : Container} {closed : Taken s Unit}
    (h : container.endsAtOnce s = .ok (some closed)) : closed.rest <:+ s := by
  obtain ⟨w, -, hs⟩ := blank_of_endsAtOnce h
  exact (List.suffix_cons _ _).trans (suffix_of_append hs)

theorem afterItem_keeps (container : Container) (s : Octets) : (container.afterItem s).Keeps := by
  rw [afterItem]
  split
  · exact Fault.standsIn_end
  · next mark hmark =>
      have hrest := rest_suffix_of_nextMark hmark
      split
      · exact hrest
      · split
        · exact hrest
        · exact Fault.standsIn_leaving hrest

theorem refuseEnd_fault {container : Container} {fault : Fault}
    (h : container.refuseEnd s = .error fault) : fault.StandsIn s := by
  rw [refuseEnd] at h
  split at h
  · cases h
  · next mark hmark =>
      split at h
      · injection h with h
        subst h
        exact Fault.standsIn_leaving (rest_suffix_of_nextMark hmark)
      · cases h

theorem afterItemStrict_keeps (container : Container) (s : Octets) :
    (container.afterItemStrict s).Keeps := by
  have hloose := container.afterItem_keeps s
  rw [afterItemStrict]
  split
  · next fault hfault => exact hloose.standsIn hfault
  · next item hitem =>
      have hrest : item.rest <:+ s := hloose.suffix hitem
      split
      · exact hrest
      · split
        · next fault hfault => exact (refuseEnd_fault hfault).mono hrest
        · exact hrest

end Container

theorem readColon_keeps (s : Octets) : (readColon s).Keeps := by
  rw [readColon]
  split
  · exact Fault.standsIn_end
  · next mark hmark =>
      have hrest := rest_suffix_of_nextMark hmark
      split
      · exact hrest
      · exact Fault.standsIn_leaving hrest

theorem readLetters_keeps (letters : List Char) (s : Octets) :
    KeepsTo s id (readLetters letters s) := by
  induction letters generalizing s with
  | nil => exact List.suffix_refl s
  | cons c letters ih =>
      cases s with
      | nil => exact Fault.standsIn_end
      | cons b s =>
          have hs := List.suffix_cons b s
          rw [readLetters]
          split
          · exact (ih s).mono hs
          · exact Fault.standsIn_leaving hs

theorem readWord_advances {α : Type} (letters : List Char) (meaning : α) (b : UInt8)
    (r : Octets) : (readWord letters meaning b r).Advances := by
  have hletters := readLetters_keeps letters r
  unfold readWord
  split
  · next fault hfault => exact hletters.standsIn hfault
  · next rest hrest => exact hletters.suffix hrest

end Marks

/-! ## Numbers -/

theorem readDigits_advances (atEnd : Cause) (s : Octets) :
    KeepsTo s.tail Prod.snd (readDigits atEnd s) := by
  cases s with
  | nil => exact Fault.standsIn_end
  | cons b r =>
      rw [readDigits]
      split
      · exact Fault.standsIn_leaving (List.suffix_refl r)
      · exact suffix_of_append (takeDigits_sound r)

theorem readWholePart_advances (atEnd : Cause) (s : Octets) :
    KeepsTo s.tail Prod.snd (readWholePart atEnd s) := by
  rw [readWholePart]
  split
  · rw [← List.drop_tail]
    exact Fault.standsIn_leaving (List.drop_suffix 1 s.tail)
  · exact readDigits_advances atEnd s

theorem readFraction_keeps (atEnd : Cause) (s : Octets) :
    KeepsTo s Prod.snd (readFraction atEnd s) := by
  cases s with
  | nil => exact List.suffix_refl []
  | cons b r =>
      have hr := List.suffix_cons b r
      have hdigits := (readDigits_advances atEnd r).mono ((List.tail_suffix r).trans hr)
      rw [readFraction]
      split
      · split
        · next fault hfault => exact hdigits.standsIn hfault
        · next digits rest hread => exact hdigits.suffix hread
      · exact List.suffix_refl (b :: r)

theorem readSign_suffix (s : Octets) : (readSign s).2 <:+ s := by
  cases s with
  | nil => exact List.suffix_refl []
  | cons b r =>
      have hr := List.suffix_cons b r
      rw [readSign]
      split
      · exact hr
      · split
        · exact hr
        · exact List.suffix_refl (b :: r)

theorem readExponent_keeps (atEnd : Cause) (s : Octets) :
    KeepsTo s Prod.snd (readExponent atEnd s) := by
  cases s with
  | nil => exact List.suffix_refl []
  | cons b r =>
      have hr := (readSign_suffix r).trans (List.suffix_cons b r)
      have hdigits := (readDigits_advances atEnd (readSign r).2).mono
        ((List.tail_suffix _).trans hr)
      rw [readExponent]
      split
      · split
        · next fault hfault => exact hdigits.standsIn hfault
        · next digits rest hread => exact hdigits.suffix hread
      · exact List.suffix_refl (b :: r)

theorem readLiteral_advances (atEnd : Cause) (negative : Bool) (s : Octets) :
    (readLiteral atEnd negative s).Advances := by
  have hwhole := readWholePart_advances atEnd s
  unfold readLiteral
  split
  · next fault hfault => exact hwhole.standsIn hfault
  · next whole s₁ hwholeRead =>
      have hs₁ : s₁ <:+ s.tail := hwhole.suffix hwholeRead
      have hfraction := (readFraction_keeps atEnd s₁).mono hs₁
      split
      · next fault hfault => exact hfraction.standsIn hfault
      · next fraction s₂ hfractionRead =>
          have hs₂ : s₂ <:+ s.tail := hfraction.suffix hfractionRead
          have hexponent := (readExponent_keeps atEnd s₂).mono hs₂
          split
          · next fault hfault => exact hexponent.standsIn hfault
          · next exponent s₃ hexponentRead => exact hexponent.suffix hexponentRead

theorem gather_suffix (limit n : ℕ) (ds : List Digit) : (gather limit n ds).2 <:+ ds := by
  induction ds generalizing n with
  | nil => exact List.suffix_refl []
  | cons d ds ih =>
      rw [gather]
      split
      · exact (ih _).trans (List.suffix_cons d ds)
      · exact List.suffix_refl (d :: ds)

/-- The digits of the exponent, where there is one. -/
def NumberLiteral.exponentDigits (literal : NumberLiteral) : List Digit :=
  (literal.exponent.map ExponentPart.digits).getD []

theorem NumberLiteral.double_unseen {literal : NumberLiteral} {unseen : List Digit}
    (h : literal.double = .error unseen) : unseen <:+ literal.exponentDigits := by
  unfold double at h
  unfold exponentDigits
  cases hexponent : literal.exponent with
  | none =>
      simp only [hexponent] at h
      split at h
      · cases h
      · injection h with h
        subst h
        exact List.nil_suffix
  | some exponent =>
      have hgather := gather_suffix exponentLimit 0 exponent.digits
      simp only [hexponent] at h
      split at h
      · split at h
        · cases h
        · injection h with h
          subst h
          exact List.nil_suffix
      · next power d rest heq =>
          rw [heq] at hgather
          split at h
          · injection h with h
            subst h
            exact (List.suffix_cons d rest).trans hgather
          · cases h

theorem NumberLiteral.number_unseen {literal : NumberLiteral} {unseen : List Digit}
    (h : literal.number = .error unseen) : unseen <:+ literal.exponentDigits := by
  rw [number] at h
  split at h
  · cases h
  · cases hdouble : literal.double with
    | ok x =>
        rw [hdouble] at h
        cases h
    | error other =>
        rw [hdouble] at h
        injection h with h
        subst h
        exact double_unseen hdouble

theorem octets_digitText (ds : List Digit) : octets (digitText ds) = ds.map Digit.octet := by
  have hoctet : ∀ d : Digit, ascii (Nat.digitChar d.val) = d.octet := by decide
  induction ds with
  | nil => rfl
  | cons d ds ih => rw [octets_digitText_cons, ih, hoctet, List.map_cons]

theorem octets_wholePart_ne_nil {ds : List Digit} {w : List Char} (h : WholePart ds w) :
    octets w ≠ [] := by
  cases h with
  | zero => decide
  | digits _ =>
      rw [octets_digitText]
      exact List.cons_ne_nil _ _

/-- Before the digits of the exponent stands at least the first digit of the literal. -/
theorem exponentDigits_suffix {literal : NumberLiteral} {w : List Char}
    (h : Unsigned literal w) :
    ∃ b r, octets w = b :: r ∧ literal.exponentDigits.map Digit.octet <:+ r := by
  cases h with
  | @parts _ _ _ _ w f e hwhole _ hexponent =>
      obtain ⟨b, r, hfirst⟩ := List.exists_cons_of_ne_nil (octets_wholePart_ne_nil hwhole)
      refine ⟨b, r ++ octets f ++ octets e, ?_, ?_⟩
      · rw [octets_append, octets_append, hfirst]
        rfl
      · cases hexponent with
        | absent => exact List.nil_suffix
        | @digits mark _ sign d ds _ _ =>
            have hdigits : (d :: ds).map Digit.octet <:+
                octets (mark :: (sign ++ digitText (d :: ds))) := by
              rw [octets_cons, octets_append, octets_digitText]
              exact (List.suffix_append _ _).trans (List.suffix_append _ _)
            exact hdigits.trans (List.suffix_append _ _)

theorem readNumber_advances (negative : Bool) (s : Octets) :
    (readNumber negative s).Advances := by
  have hliteral := readLiteral_advances .endOfValue negative s
  rw [readNumber]
  split
  · next fault hfault => exact hliteral.standsIn hfault
  · next literal hread =>
      split
      · have hrest : literal.rest <:+ s.tail := hliteral.suffix hread
        exact hrest
      · next unseen hnumber =>
          obtain ⟨w, hw, -, hs⟩ := readLiteral_sound hread
          obtain ⟨b, r, hfirst, hdigits⟩ := exponentDigits_suffix hw
          obtain ⟨before, rfl⟩ := (List.IsSuffix.map Digit.octet
            (NumberLiteral.number_unseen hnumber)).trans hdigits
          rw [hfirst, List.cons_append, List.append_assoc] at hs
          have htail : s.tail = before ++ (unseen.map Digit.octet ++ literal.rest) :=
            congrArg List.tail hs
          exact Fault.standsIn_leaving (suffix_of_append htail)

/-! ## Strings -/

theorem readHex_keeps (s : Octets) : KeepsTo s Prod.snd (readHex s) := by
  unfold readHex
  split
  · next a b c d r =>
      have hr : r <:+ a :: b :: c :: d :: r := List.suffix_append [a, b, c, d] r
      split
      · exact hr
      · exact Fault.standsIn_leaving hr
  · exact Fault.standsIn_end

theorem readPairMark_keeps (mark : Char) (s : Octets) :
    KeepsTo s id (readPairMark mark s) := by
  cases s with
  | nil => exact Fault.standsIn_end
  | cons b r =>
      have hr := List.suffix_cons b r
      rw [readPairMark]
      split
      · exact hr
      · exact Fault.standsIn_leaving hr

theorem readPair_keeps (high : ℕ) (s : Octets) : KeepsTo s Prod.snd (readPair high s) := by
  have hfirst := readPairMark_keeps '\\' s
  rw [readPair]
  split
  · next fault hfault => exact hfirst.standsIn hfault
  · next s₁ hread₁ =>
      have hsecond := (readPairMark_keeps 'u' s₁).mono (hfirst.suffix hread₁)
      split
      · next fault hfault => exact hsecond.standsIn hfault
      · next s₂ hread₂ =>
          have hhex := (readHex_keeps s₂).mono (hsecond.suffix hread₂)
          split
          · next fault hfault => exact hhex.standsIn hfault
          · next low r hlow =>
              have hr : r <:+ s := hhex.suffix hlow
              split
              · exact hr
              · exact Fault.standsIn_leaving hr

theorem readCodePoint_keeps (s : Octets) : KeepsTo s Prod.snd (readCodePoint s) := by
  have hhex := readHex_keeps s
  rw [readCodePoint]
  split
  · next fault hfault => exact hhex.standsIn hfault
  · next n r hcode =>
      have hr : r <:+ s := hhex.suffix hcode
      split
      · exact Fault.standsIn_leaving hr
      · split
        · exact (readPair_keeps n r).mono hr
        · exact hr

theorem readEscape_keeps (s : Octets) : KeepsTo s Prod.snd (readEscape s) := by
  cases s with
  | nil => exact Fault.standsIn_end
  | cons b r =>
      have hr := List.suffix_cons b r
      rw [readEscape]
      split
      · exact hr
      · split
        · exact (readCodePoint_keeps r).mono hr
        · exact Fault.standsIn_leaving hr

theorem readContent_keeps (s : Octets) : (readContent s).Keeps := by
  cases s with
  | nil =>
      rw [readContent]
      exact Fault.standsIn_end
  | cons b r =>
      have hr := List.suffix_cons b r
      rw [readContent]
      split
      · exact hr
      · split
        · have hescape := (readEscape_keeps r).mono hr
          split
          · next fault hfault => exact hescape.standsIn hfault
          · next c r' hread =>
              have hshorter := readEscape_length hread
              have hinner := (readContent_keeps r').mono (hescape.suffix hread)
              split
              · next fault hfault => exact hinner.standsIn hfault
              · next content hcontent =>
                  have hrest : content.rest <:+ b :: r := hinner.suffix hcontent
                  exact hrest
        · split
          · exact Fault.standsIn_leaving hr
          · have hinner := (readContent_keeps r).mono hr
            split
            · next fault hfault => exact hinner.standsIn hfault
            · next content hcontent =>
                have hrest : content.rest <:+ b :: r := hinner.suffix hcontent
                exact hrest
termination_by s.length

theorem not_mem_octets {c : Char} (hc : c.toNat < 128) {w : List Char} (h : c ∉ w) :
    ascii c ∉ octets w := by
  intro hmem
  obtain ⟨d, hd, hmem⟩ := List.mem_flatMap.mp hmem
  by_cases hascii : d.toNat < 128
  · rw [utf8EncodeChar_ascii hascii, List.mem_singleton] at hmem
    have hne : c ≠ d := by
      rintro rfl
      exact h hd
    exact ascii_ne hc hascii hne hmem
  · have hhigh := le_of_mem_utf8EncodeChar (Nat.le_of_not_lt hascii) hmem
    rw [UInt8.le_iff_toNat_le, toNat_ascii hc] at hhigh
    exact absurd hc (Nat.not_lt_of_le hhigh)

theorem length_le_octets (w : List Char) : w.length ≤ (octets w).length := by
  induction w with
  | nil => exact Nat.le_refl 0
  | cons c w ih =>
      have hc := List.length_pos_of_ne_nil (String.utf8EncodeChar_ne_nil (c := c))
      rw [octets_cons, List.length_append, List.length_cons]
      omega

theorem line_of_hexCode {n : ℕ} {w : List Char} (h : HexCode n w) : '\n' ∉ w ∧ w.length = 4 := by
  have hdigit : ∀ n < 16, '\n' ≠ Nat.digitChar n ∧ '\n' ≠ (Nat.digitChar n).toUpper := by decide
  have hne : ∀ n c, HexDigit n c → '\n' ≠ c := by
    rintro n c ⟨hn, rfl | rfl⟩
    · exact (hdigit n hn).1
    · exact (hdigit n hn).2
  obtain ⟨h₁, h₂, h₃, h₄⟩ := h
  simp [hne _ _ h₁, hne _ _ h₂, hne _ _ h₃, hne _ _ h₄]

/-- A character of a string is written on one line and at least as long as its octets. -/
theorem octets_of_character {c : Char} {w : List Char} (h : Character c w) :
    (String.utf8EncodeChar c).length ≤ (octets w).length ∧ ascii '\n' ∉ octets w := by
  have hfour : (String.utf8EncodeChar c).length ≤ 4 := by
    rw [String.length_utf8EncodeChar]
    exact c.utf8Size_le_four
  have hw := length_le_octets w
  cases h with
  | plain hplain =>
      constructor
      · rw [octets_cons, octets_nil, List.append_nil]
      · refine not_mem_octets (by decide) ?_
        rw [List.mem_singleton]
        rintro rfl
        exact absurd hplain.1 (by decide)
  | short hmem =>
      have hshort : ∀ escape ∈ shortEscapes,
          (String.utf8EncodeChar escape.2).length ≤ 2 ∧ '\n' ∉ ['\\', escape.1] := by
        decide
      obtain ⟨hlength, hline⟩ := hshort _ hmem
      exact ⟨hlength.trans hw, not_mem_octets (by decide) hline⟩
  | code hcode =>
      obtain ⟨hline, hlength⟩ := line_of_hexCode hcode
      refine ⟨?_, not_mem_octets (by decide) (by simp [hline])⟩
      simp only [List.length_cons, hlength] at hw
      omega
  | pair _ _ _ hhigh hlow =>
      obtain ⟨hline, hlength⟩ := line_of_hexCode hhigh
      obtain ⟨hline', hlength'⟩ := line_of_hexCode hlow
      refine ⟨?_, not_mem_octets (by decide) (by simp [hline, hline'])⟩
      simp only [List.length_cons, List.length_append, hlength, hlength'] at hw
      omega

/-- What is passed over up to the closing quote stands on one line and is at least as long
as the content. -/
theorem readContent_passes {s : Octets} {content : Taken s Octets}
    (h : readContent s = .ok content) :
    ∃ passed, s = passed ++ content.rest ∧ content.value.length ≤ passed.length ∧
      ascii '\n' ∉ passed := by
  induction hlength : s.length using Nat.strong_induction_on generalizing s with
  | _ n ih =>
    rcases readContent_first h with
      ⟨hquote, hnil⟩ | ⟨r, rfl⟩ | ⟨b, r, inner, hplain, rfl, hinner, hvalue, hrest⟩
    · refine ⟨[ascii '"'], hquote, ?_, by decide⟩
      rw [hnil]
      exact Nat.zero_le _
    · obtain ⟨c, w, r', inner, hc, hsplit, hshorter, hinner, hvalue, hrest⟩ :=
        characterFirst_of_escape h
      obtain ⟨passed, hr', hle, hline⟩ := ih r'.length (hlength ▸ hshorter) hinner rfl
      obtain ⟨hcharacter, hcharacterLine⟩ := octets_of_character hc
      refine ⟨octets w ++ passed, ?_, ?_, ?_⟩
      · rw [hrest, List.append_assoc, ← hr']
        exact hsplit
      · rw [hvalue, List.length_append, List.length_append]
        exact Nat.add_le_add hcharacter hle
      · rw [List.mem_append, not_or]
        exact ⟨hcharacterLine, hline⟩
    · obtain ⟨passed, hr, hle, hline⟩ := ih r.length (hlength ▸ Nat.lt_succ_self _) hinner rfl
      refine ⟨b :: passed, ?_, ?_, ?_⟩
      · rw [hrest, List.cons_append, ← hr]
      · rw [hvalue]
        exact Nat.succ_le_succ hle
      · refine List.not_mem_cons_of_ne_of_not_mem ?_ hline
        rintro rfl
        exact hplain.2.2 (by decide)

theorem readString_keeps (origin : Origin) (s : Octets) : (readString origin s).Keeps := by
  have hcontentKeeps := readContent_keeps s
  rw [readString]
  split
  · next fault hfault => exact hcontentKeeps.standsIn hfault
  · next content hcontent =>
      have hrest : content.rest <:+ s := hcontentKeeps.suffix hcontent
      split
      · exact hrest
      · next valid _ =>
          -- The columns back are those at the end of what was passed over.
          obtain ⟨passed, hs, hle, hline⟩ := readContent_passes hcontent
          have hback : content.value.length - valid ≤ passed.length :=
            (Nat.sub_le _ _).trans hle
          obtain ⟨before, shown, rfl, hlength⟩ :
              ∃ before shown, passed = before ++ shown ∧
                shown.length = content.value.length - valid := by
            refine ⟨_, _, (List.take_append_drop
              (passed.length - (content.value.length - valid)) passed).symm, ?_⟩
            rw [List.length_drop]
            omega
          refine ⟨before, shown, ?_, hlength, ?_⟩
          · rw [← List.append_assoc]
            exact hs
          · intro hmem
            exact hline (List.mem_append_right before hmem)

end JsonReport
