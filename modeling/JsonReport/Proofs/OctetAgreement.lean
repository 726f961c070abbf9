import JsonReport.Proofs.SettingsRecognition
import JsonReport.Run
import Mathlib.Tactic

/-!
# Texts and their octets

Raw octets are read like a text, but for a check of each string at its closing quote.  In
the octets of a text a string stands between two marks and its escapes bring whole
characters, so the content encodes a text and the check finds nothing.  Hence it makes no
difference how a text comes, not even where it is refused.
-/

namespace JsonReport

open Utf8
open Spelling

/-! ## Strings -/

theorem readString_agrees {s : Octets} (hs : Encoded s) :
    readString .raw s = readString .text s := by
  unfold readString
  cases hcontent : readContent s with
  | error fault => rfl
  | ok content =>
      obtain ⟨text, w, -, -, hvalue⟩ := readContent_sound hs hcontent
      simp only [hvalue, characters_octets]

theorem encoded_of_nextMark {s : Octets} {mark : Taken s UInt8} (h : nextMark s = some mark)
    (hs : Encoded s) : Encoded (mark.value :: mark.rest) := by
  obtain ⟨w, -, hsplit⟩ := blank_of_nextMark_eq_some h
  exact hs.after hsplit

theorem encoded_of_opening {container : Container} {b : UInt8} {r : Octets}
    (hopening : opening? b = some (.container container)) (h : Encoded (b :: r)) :
    Encoded r := by
  cases container with
  | array =>
      obtain rfl : b = ascii '[' := eq_mark_of_opening? hopening rfl
      exact h.of_mark (by decide)
  | object =>
      obtain rfl : b = ascii '\x7b' := eq_mark_of_opening? hopening rfl
      exact h.of_mark (by decide)

theorem readScalar_agrees {kind : Scalar} {b : UInt8} {r : Octets}
    (hopening : opening? b = some (.scalar kind)) (hs : Encoded (b :: r)) :
    readScalar .raw kind b r = readScalar .text kind b r := by
  cases kind with
  | quote =>
      obtain rfl : b = ascii '"' := eq_mark_of_opening? hopening rfl
      simp only [readScalar, readString_agrees (hs.of_mark (by decide))]
  | _ => rfl

theorem readKey_agrees {s : Octets} (hs : Encoded s) : readKey .raw s = readKey .text s := by
  unfold readKey
  cases hmark : nextMark s with
  | none => rfl
  | some mark =>
      by_cases hquote : mark.value = ascii '"'
      · have hencoded := encoded_of_nextMark hmark hs
        rw [hquote] at hencoded
        simp only [readString_agrees (hencoded.of_mark (by decide))]
      · simp only [hquote, if_false]

theorem encoded_of_readKey {s : Octets} {key : Taken s String} (h : readKey .text s = .ok key)
    (hs : Encoded s) : Encoded key.rest := by
  obtain ⟨before, k, -, -, hsplit⟩ := readKey_sound (fun _ => hs) h
  exact (hs.after hsplit).of_append

theorem encoded_of_readColon {s : Octets} {colon : Taken s Unit} (h : readColon s = .ok colon)
    (hs : Encoded s) : Encoded colon.rest := by
  obtain ⟨w, -, hsplit⟩ := blank_of_readColon h
  exact (hs.after hsplit).of_mark (by decide)

/-! ## Values -/

mutual

theorem readValue_agrees (room : ℕ) {s : Octets} (hs : Encoded s) :
    readValue .raw room s = readValue .text room s := by
  unfold readValue
  cases hmark : nextMark s with
  | none => rfl
  | some mark =>
      obtain ⟨b, r, hr⟩ := mark
      have hencoded : Encoded (b :: r) := encoded_of_nextMark hmark hs
      cases hopening : opening? b with
      | none => simp only [hopening]
      | some opening =>
          cases opening with
          | scalar kind => simp only [hopening, readScalar_agrees hopening hencoded]
          | container container =>
              have hinside : Encoded r := encoded_of_opening hopening hencoded
              cases room with
              | zero => simp only [hopening]
              | succ room =>
                  have helements := readElements_agrees room hinside
                  have hmembers := readMembers_agrees room hinside
                  simp only [hopening, helements, hmembers]
termination_by 2 * s.length

theorem readElements_agrees (room : ℕ) {s : Octets} (hs : Encoded s) :
    readElements .raw room s = readElements .text room s := by
  rw [readElements.eq_def .raw, readElements.eq_def .text, readValue_agrees room hs]
  cases hitem : readValue .text room s with
  | error fault => rfl
  | ok item =>
      obtain ⟨item, r, hr⟩ := item
      simp only
      cases hnext : Container.array.afterItemStrict r with
      | error fault => rfl
      | ok next =>
          obtain ⟨_ | _, r', hr'⟩ := next
          · rfl
          -- The reader of texts tells where the next element begins, and the octets there
          -- are again those of a text.
          · have hvalue := value_sound (fun _ => hs) hitem
            obtain ⟨after, -, hcomma⟩ := continues_of_afterItemStrict hnext
            have hencoded : Encoded r' := encoded_of_comma hcomma (hvalue.encoded hs)
            simp only [readElements_agrees room hencoded]
termination_by 2 * s.length + 1
decreasing_by all_goals omega

theorem readMembers_agrees (room : ℕ) {s : Octets} (hs : Encoded s) :
    readMembers .raw room s = readMembers .text room s := by
  rw [readMembers.eq_def .raw, readMembers.eq_def .text, readKey_agrees hs]
  cases hkey : readKey .text s with
  | error fault => rfl
  | ok key =>
      obtain ⟨key, r₁, hr₁⟩ := key
      simp only
      cases hcolon : readColon r₁ with
      | error fault => rfl
      | ok colon =>
          obtain ⟨_, r₂, hr₂⟩ := colon
          have hencoded : Encoded r₂ := encoded_of_readColon hcolon (encoded_of_readKey hkey hs)
          simp only [readValue_agrees room hencoded]
          cases hitem : readValue .text room r₂ with
          | error fault => rfl
          | ok item =>
              obtain ⟨item, r₃, hr₃⟩ := item
              simp only
              cases hnext : Container.object.afterItemStrict r₃ with
              | error fault => rfl
              | ok next =>
                  obtain ⟨_ | _, r₄, hr₄⟩ := next
                  · rfl
                  · have hvalue := value_sound (fun _ => hencoded) hitem
                    obtain ⟨after, -, hcomma⟩ := continues_of_afterItemStrict hnext
                    have hmembers : Encoded r₄ :=
                      encoded_of_comma hcomma (hvalue.encoded hencoded)
                    simp only [readMembers_agrees room hmembers]
termination_by 2 * s.length + 1
decreasing_by all_goals omega

end

theorem readDocument_agrees {s : Octets} (hs : Encoded s) :
    readDocument .raw s = readDocument .text s := by
  simp only [readDocument, readWhole, readValue_agrees greatestDepth hs]

/-! ## Settings -/

theorem mismatch_agrees (wanted : Wanted) {b : UInt8} {r : Octets} (hs : Encoded (b :: r)) :
    mismatch .raw wanted b r = mismatch .text wanted b r := by
  unfold mismatch
  cases hopening : opening? b with
  | none => rfl
  | some opening =>
      cases opening with
      | scalar kind => simp only [readScalar_agrees hopening hs]
      | container container => cases container <;> rfl

theorem readBool_agrees {s : Octets} (hs : Encoded s) : readBool .raw s = readBool .text s := by
  unfold readBool
  cases hmark : nextMark s with
  | none => rfl
  | some mark =>
      have hencoded : Encoded (mark.value :: mark.rest) := encoded_of_nextMark hmark hs
      simp only [mismatch_agrees .boolean hencoded]

theorem readText_agrees {s : Octets} (hs : Encoded s) : readText .raw s = readText .text s := by
  unfold readText
  cases hmark : nextMark s with
  | none => rfl
  | some mark =>
      have hencoded : Encoded (mark.value :: mark.rest) := encoded_of_nextMark hmark hs
      by_cases hquote : mark.value = ascii '"'
      · rw [hquote] at hencoded
        simp only [hquote, if_true, readString_agrees (hencoded.of_mark (by decide))]
      · simp only [hquote, if_false, mismatch_agrees .string hencoded]

namespace Settings

theorem readField_agrees (draft : Draft) (field : Field) {s : Octets} (hs : Encoded s) :
    readField .raw draft field s = readField .text draft field s := by
  cases field with
  | enabled => simp only [readField, readBool_agrees hs]
  | hostname => simp only [readField, readText_agrees hs]
  | port => simp only [readField, readText_agrees hs]

theorem readMemberValue_agrees (draft : Draft) (key : String) {s : Octets} (hs : Encoded s) :
    readMemberValue .raw draft key s = readMemberValue .text draft key s := by
  unfold readMemberValue
  cases hcolon : readColon s with
  | error fault => rfl
  | ok colon => simp only [readField_agrees draft _ (encoded_of_readColon hcolon hs)]

theorem readFields_agrees (draft : Draft) {s : Octets} (hs : Encoded s) :
    readFields .raw draft s = readFields .text draft s := by
  rw [readFields.eq_def .raw, readFields.eq_def .text, readKey_agrees hs]
  cases hkey : readKey .text s with
  | error fault => rfl
  | ok key =>
      simp only [readMemberValue_agrees draft key.value (encoded_of_readKey hkey hs)]
      cases hvalue : readMemberValue .text draft key.value key.rest with
      | error fault => rfl
      | ok value =>
          obtain ⟨next, r₂, hr₂⟩ := value
          simp only
          cases hnext : Container.object.afterItemStrict r₂ with
          | error fault => rfl
          | ok continuation =>
              obtain ⟨_ | _, r₃, hr₃⟩ := continuation
              · rfl
              · obtain ⟨member, -, -, hcovers⟩ :=
                  member_sound skips_text (fun _ => hs) hkey hvalue
                obtain ⟨after, -, hcomma⟩ := continues_of_afterItemStrict hnext
                have hencoded : Encoded r₃ := encoded_of_comma hcomma (hcovers rfl)
                have hshorter := key.shorter
                simp only [readFields_agrees next hencoded]
termination_by s.length
decreasing_by omega

theorem readElements_agrees (draft : Draft) (field : Field) (others : List Field) {s : Octets}
    (hs : Encoded s) :
    readElements .raw draft field others s = readElements .text draft field others s := by
  induction others generalizing draft field s with
  | nil =>
      rw [readElements.eq_def .raw, readElements.eq_def .text, readField_agrees draft field hs]
  | cons other others ih =>
      rw [readElements.eq_def .raw, readElements.eq_def .text, readField_agrees draft field hs]
      cases hfield : readField .text draft field s with
      | error fault => rfl
      | ok value =>
          obtain ⟨next, r, hr⟩ := value
          simp only
          cases hnext : Container.array.afterItemStrict r with
          | error fault => rfl
          | ok continuation =>
              obtain ⟨_ | _, r', hr'⟩ := continuation
              · rfl
              · have hstands := readField_sound (fun _ => hs) hfield
                obtain ⟨after, -, hcomma⟩ := continues_of_afterItemStrict hnext
                have hencoded : Encoded r' := encoded_of_comma hcomma (hstands.encoded hs)
                simp only [ih next other hencoded]

theorem readItems_agrees (container : Container) {s : Octets} (hs : Encoded s) :
    readItems .raw container s = readItems .text container s := by
  cases container with
  | array =>
      simp only [readItems, readElements_agrees .empty .enabled [.hostname, .port] hs]
  | object => simp only [readItems, readFields_agrees .empty hs]

theorem read_agrees {s : Octets} (hs : Encoded s) : read .raw s = read .text s := by
  unfold read
  cases hmark : nextMark s with
  | none => rfl
  | some mark =>
      have hencoded : Encoded (mark.value :: mark.rest) := encoded_of_nextMark hmark hs
      cases hopening : opening? mark.value with
      | none => simp only [hopening, mismatch_agrees .record hencoded]
      | some opening =>
          cases opening with
          | scalar kind => simp only [hopening, mismatch_agrees .record hencoded]
          | container container =>
              have hinside := encoded_of_opening hopening hencoded
              simp only [hopening, readItems_agrees container hinside]

theorem readDocument_agrees {s : Octets} (hs : Encoded s) :
    Settings.readDocument .raw s = Settings.readDocument .text s := by
  simp only [Settings.readDocument, readWhole, read_agrees hs]

end Settings

/-- A text and its octets are decoded alike, into a value and into settings, and where
one is refused so is the other, with the same failure; a file adds only its path. -/
theorem octets_agree (text : String) (path : Octets) :
    decodeOctets (Utf8.encode text) = decodeText text ∧
      Settings.ofFile path (.ok (Utf8.encode text)) =
        (Settings.ofText text).mapError (·.withPath path) := by
  have hencoded : Encoded (Utf8.encode text) := ⟨text.toList, encode_eq_octets text⟩
  constructor
  · simp only [decodeOctets, decodeText, decodeWith, readDocument_agrees hencoded]
  · simp only [Settings.ofFile, Settings.ofOctets, Settings.ofText, decodeWith,
      Settings.readDocument_agrees hencoded]

/-- Octets from which a value is decoded are those of a text, and it is the value of this
text; octets of no text make a decode failure, wherever they are broken. -/
theorem decodeOctets_text (b : Octets) :
    (∀ value, decodeOctets b = .ok value →
      ∃ text, b = Utf8.encode text ∧ decodeText text = .ok value) ∧
      ((¬∃ text, b = Utf8.encode text) →
        ∃ failure, decodeOctets b = .error failure ∧ failure.kind = .decode) := by
  have htext : ∀ value, decodeOctets b = .ok value →
      ∃ text, b = Utf8.encode text ∧ decodeText text = .ok value := by
    intro value h
    have hread := decodeWith_eq_ok.mp h
    obtain ⟨text, document, rfl, -⟩ := exists_text_of_readDocument (Origin.covers_raw b) hread
    have hencoded : Encoded (Utf8.encode text) := ⟨text.toList, encode_eq_octets text⟩
    rw [readDocument_agrees hencoded] at hread
    exact ⟨text, rfl, decodeWith_eq_ok.mpr hread⟩
  refine ⟨htext, ?_⟩
  intro hb
  cases h : decodeOctets b with
  | ok value =>
      obtain ⟨text, hencode, -⟩ := htext value h
      exact absurd ⟨text, hencode⟩ hb
  | error failure => exact ⟨failure, rfl, kind_of_decodeWith h⟩

/-- A character of two octets is cut in two by an escape. -/
def brokenOctets : Octets :=
  Utf8.encode "\"" ++ 0xC3 :: Utf8.encode "\\n" ++ 0xA9 :: Utf8.encode "\""

theorem decodeOctets_text_brokenOctets :
    (∃ text, Utf8.encode "null" = Utf8.encode text ∧ decodeText text = .ok .null) ∧
      (¬∃ text, brokenOctets = Utf8.encode text) ∧
        ∃ failure, decodeOctets brokenOctets = .error failure ∧ failure.kind = .decode := by
  have hbroken : ¬∃ text, brokenOctets = Utf8.encode text :=
    not_text_of_decode (show Utf8.decode brokenOctets = .error 1 by cbv)
  have hnull : decodeOctets (Utf8.encode "null") = .ok .null := by cbv
  exact ⟨(decodeOctets_text (Utf8.encode "null")).1 .null hnull, hbroken,
    (decodeOctets_text brokenOctets).2 hbroken⟩

end JsonReport
