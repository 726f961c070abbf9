import JsonReport.Proofs.EncodingValidity
import JsonReport.Proofs.StringReading
import Mathlib.Tactic

/-!
# Strings in raw octets

In raw octets the content of a string is looked at only when its closing quote is reached,
after the escapes have been replaced by what they stand for.  An escape brings a whole
character and can neither complete a broken one nor stand in the middle of one: the octets
that continue a character in the content were continuations in the source as well.  So a
string whose content is valid was itself written in characters.
-/

namespace JsonReport

open Utf8
open Spelling

/-- The first octet of a string's content: the closing quote, an escape, or an octet that
is gathered as it stands. -/
theorem readContent_first {s : Octets} {content : Taken s Octets}
    (h : readContent s = .ok content) :
    (s = ascii '"' :: content.rest ∧ content.value = []) ∨
      (∃ r, s = ascii '\\' :: r) ∨
        ∃ b r, ∃ inner : Taken r Octets, PlainOctet b ∧ s = b :: r ∧
          readContent r = .ok inner ∧ content.value = b :: inner.value ∧
          content.rest = inner.rest := by
  cases s with
  | nil =>
      rw [readContent] at h
      cases h
  | cons b r =>
      by_cases hquote : b = ascii '"'
      · rw [readContent, if_pos hquote] at h
        injection h with h
        subst h
        exact .inl ⟨congrArg (· :: r) hquote, rfl⟩
      · by_cases hbackslash : b = ascii '\\'
        · exact .inr (.inl ⟨r, congrArg (· :: r) hbackslash⟩)
        · rw [readContent, if_neg hquote, if_neg hbackslash] at h
          split at h
          · cases h
          · next hcontrol =>
              split at h
              · cases h
              · next inner hinner =>
                  injection h with h
                  subst h
                  exact .inr (.inr ⟨b, r, inner, ⟨hquote, hbackslash, hcontrol⟩, rfl, hinner,
                    rfl, rfl⟩)

/-- An escape brings a whole character to the content. -/
theorem readContent_escape_first {r : Octets} {content : Taken (ascii '\\' :: r) Octets}
    (h : readContent (ascii '\\' :: r) = .ok content) :
    ∃ c w r', ∃ inner : Taken r' Octets, Character c w ∧ ascii '\\' :: r = octets w ++ r' ∧
      readContent r' = .ok inner ∧ content.value = String.utf8EncodeChar c ++ inner.value ∧
      content.rest = inner.rest := by
  obtain ⟨c, w, r', inner, hc, hsplit, -, hinner, hvalue, hrest⟩ := characterFirst_of_escape h
  exact ⟨c, w, r', inner, hc, hsplit, hinner, hvalue, hrest⟩

/-- Continuations at the beginning of the content stood at the beginning of the source. -/
theorem readContent_continuations {more : Octets} (hmore : ∀ x ∈ more, Continuation x)
    {s : Octets} {content : Taken s Octets} (h : readContent s = .ok content) {value : Octets}
    (hvalue : content.value = more ++ value) :
    ∃ r, ∃ inner : Taken r Octets, s = more ++ r ∧ readContent r = .ok inner ∧
      inner.value = value ∧ content.rest = inner.rest := by
  induction more generalizing s with
  | nil => exact ⟨s, content, rfl, h, hvalue, rfl⟩
  | cons x more ih =>
      obtain ⟨hx, htail⟩ := List.forall_mem_cons.mp hmore
      rw [List.cons_append] at hvalue
      rcases readContent_first h with
        ⟨-, hnil⟩ | ⟨r, rfl⟩ | ⟨b, r, inner, -, rfl, hinner, hb, hrest⟩
      · rw [hnil] at hvalue
        cases hvalue
      · -- The first octet that an escape brings begins a character.
        obtain ⟨c, w, r', inner, -, -, -, hc, -⟩ := readContent_escape_first h
        obtain ⟨b, following, hencoded, hb, -⟩ := utf8EncodeChar_begins c
        rw [hc, hencoded, List.cons_append, List.cons.injEq] at hvalue
        exact absurd (hvalue.1 ▸ hx) hb
      · rw [hb, List.cons.injEq] at hvalue
        obtain ⟨rfl, hinnerValue⟩ := hvalue
        obtain ⟨r', last, rfl, hlast, hlastValue, hlastRest⟩ := ih htail hinner hinnerValue
        exact ⟨r', last, rfl, hlast, hlastValue, hrest.trans hlastRest⟩

theorem plain_of_plainOctet {c : Char} {b : UInt8} {more : Octets}
    (hc : String.utf8EncodeChar c = b :: more) (hb : PlainOctet b) : Plain c := by
  by_cases hascii : c.toNat < 128
  · rw [utf8EncodeChar_ascii hascii, List.cons.injEq] at hc
    obtain ⟨rfl, -⟩ := hc
    obtain ⟨hquote, hbackslash, hcontrol⟩ := hb
    refine ⟨?_, fun h => hquote (congrArg ascii h), fun h => hbackslash (congrArg ascii h)⟩
    rw [UInt8.lt_iff_toNat_lt, toNat_ascii hascii] at hcontrol
    exact Nat.le_of_not_lt hcontrol
  · refine ⟨by omega, ?_, ?_⟩
    · rintro rfl
      exact hascii (by decide)
    · rintro rfl
      exact hascii (by decide)

/-- Where the content that is read encodes a text, this text was written, and a quote after
it. -/
theorem readContent_of_encoded {s : Octets} {content : Taken s Octets}
    (h : readContent s = .ok content) {text : List Char}
    (hvalue : content.value = octets text) :
    ∃ w, Run Character text w ∧ s = octets w ++ ascii '"' :: content.rest := by
  induction text generalizing s with
  | nil =>
      rcases readContent_first h with ⟨hquote, -⟩ | ⟨r, rfl⟩ | ⟨b, r, inner, -, -, -, hb, -⟩
      · exact ⟨[], .nil, hquote⟩
      · obtain ⟨c, w, r', inner, -, -, -, hc, -⟩ := readContent_escape_first h
        rw [hc, octets_nil, List.append_eq_nil_iff] at hvalue
        exact absurd hvalue.1 String.utf8EncodeChar_ne_nil
      · rw [hb] at hvalue
        cases hvalue
  | cons c text ih =>
      rw [octets_cons] at hvalue
      rcases readContent_first h with
        ⟨-, hnil⟩ | ⟨r, rfl⟩ | ⟨b, r, inner, hplain, rfl, hinner, hb, hrest⟩
      · rw [hnil] at hvalue
        exact absurd (List.append_eq_nil_iff.mp hvalue.symm).1 String.utf8EncodeChar_ne_nil
      · obtain ⟨c', w, r', inner, hw, hsplit, hinner, hc', hrest⟩ := readContent_escape_first h
        rw [hc'] at hvalue
        obtain ⟨rfl, hinnerValue⟩ := utf8EncodeChar_append_inj hvalue
        obtain ⟨ws, hrun, hr'⟩ := ih hinner hinnerValue
        refine ⟨w ++ ws, .cons hw hrun, ?_⟩
        rw [hrest, octets_append, List.append_assoc, ← hr']
        exact hsplit
      · obtain ⟨b', more, hc, -, hmore⟩ := utf8EncodeChar_begins c
        rw [hb, hc, List.cons_append, List.cons.injEq] at hvalue
        obtain ⟨rfl, hinnerValue⟩ := hvalue
        obtain ⟨r', last, rfl, hlast, hlastValue, hlastRest⟩ :=
          readContent_continuations hmore hinner hinnerValue
        obtain ⟨ws, hrun, hr'⟩ := ih hlast hlastValue
        refine ⟨[c] ++ ws, .cons (.plain (plain_of_plainOctet hc hplain)) hrun, ?_⟩
        rw [hrest, hlastRest, octets_append, octets_cons, octets_nil, List.append_nil, hc,
          List.append_assoc, ← hr']
        rfl

theorem readString_raw_sound {s : Octets} {text : Taken s String}
    (h : readString .raw s = .ok text) :
    ∃ w, Content text.value w ∧ s = octets w ++ ascii '"' :: text.rest := by
  rw [readString] at h
  split at h
  · cases h
  · next content hcontent =>
      split at h
      · next characters hcharacters =>
          injection h with h
          subst h
          obtain ⟨w, hrun, hsplit⟩ :=
            readContent_of_encoded hcontent (decode_sound hcharacters)
          refine ⟨w, ?_, hsplit⟩
          simpa [Content, Taken.map] using hrun
      · cases h

/-! ## Either origin -/

/-- What a reader may rely on: a text is encoded, and of raw octets nothing is known. -/
def Origin.Covers (origin : Origin) (s : Octets) : Prop := origin = .text → Encoded s

theorem Origin.covers_raw (s : Octets) : Origin.raw.Covers s := fun h => by cases h

section Covering

variable {origin : Origin} {s : Octets}

theorem Origin.Covers.of_append {before : List Char} (h : origin.Covers (octets before ++ s)) :
    origin.Covers s := fun htext => (h htext).of_append

theorem Origin.Covers.after {before : List Char} {r : Octets} (hs : origin.Covers s)
    (h : s = octets before ++ r) : origin.Covers r := fun htext => (hs htext).after h

theorem Origin.Covers.of_mark {c : Char} (hc : c.toNat < 128)
    (h : origin.Covers (ascii c :: s)) : origin.Covers s := fun htext => (h htext).of_mark hc

/-- Where a string is read, characters and a quote were written. -/
theorem readString_sound (hs : origin.Covers s) {text : Taken s String}
    (h : readString origin s = .ok text) :
    ∃ w, Content text.value w ∧ s = octets w ++ ascii '"' :: text.rest := by
  cases origin with
  | text => exact readString_text_sound (hs rfl) h
  | raw => exact readString_raw_sound h

end Covering

end JsonReport
