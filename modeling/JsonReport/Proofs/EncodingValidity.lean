import JsonReport.Proofs.CharacterEncoding
import Mathlib.Tactic

/-!
# Octets that are read as characters

The strict reader of characters accepts nothing but encodings: what it reads is the
encoding of what it yields.  Inside an encoding only the first octet can begin one, since
all others are continuations.  So wherever a cut is made in front of an octet that is no
continuation, it falls between two characters.
-/

namespace JsonReport
namespace Utf8

/-! ## One character -/

theorem follow_sound {n : ℕ} {low high : UInt8} {bits width code : ℕ} {s rest : Octets}
    (h : follow (n + 1) low high bits width s = .character code rest) :
    ∃ b r, s = b :: r ∧ low.toNat ≤ b.toNat ∧ b.toNat ≤ high.toNat ∧
      follow n 0x80 0xBF (bits * 64 + (b.toNat - 0x80)) (width + 1) r =
        .character code rest := by
  cases s with
  | nil => cases h
  | cons b r =>
      rw [follow] at h
      split at h
      · next hb =>
          exact ⟨b, r, rfl, UInt8.le_iff_toNat_le.mp hb.1, UInt8.le_iff_toNat_le.mp hb.2, h⟩
      · cases h

theorem follow_zero {low high : UInt8} {bits width code : ℕ} {s rest : Octets}
    (h : follow 0 low high bits width s = .character code rest) :
    code = bits ∧ s = rest := by
  rw [follow] at h
  injection h with hcode hrest
  exact ⟨hcode.symm, hrest⟩

theorem exists_char_of_valid {n : ℕ} (h : n < 0xD800 ∨ 0xDFFF < n ∧ n < 0x110000) :
    ∃ c : Char, c.toNat = n := by
  have hvalid : n.isValidChar := h
  refine ⟨Char.ofNat n, ?_⟩
  rw [Char.ofNat, dif_pos hvalid]
  rfl

theorem ofNat_eq {n : ℕ} {b : UInt8} (h : n = b.toNat) : UInt8.ofNat n = b := by
  rw [h, UInt8.ofNat_toNat]

theorem step_two_sound {b : UInt8} {s rest : Octets} {code : ℕ}
    (hb : 0xC2 ≤ b.toNat ∧ b.toNat < 0xE0)
    (h : follow 1 0x80 0xBF (b.toNat - 0xC0) 1 s = .character code rest) :
    ∃ c : Char, c.toNat = code ∧ b :: s = String.utf8EncodeChar c ++ rest := by
  obtain ⟨b₁, r, rfl, hlow, hhigh, h⟩ := follow_sound h
  obtain ⟨hcode, hrest⟩ := follow_zero h
  simp only [UInt8.reduceToNat] at hlow hhigh
  obtain ⟨c, hc⟩ := exists_char_of_valid
    (n := (b.toNat - 0xC0) * 64 + (b₁.toNat - 0x80)) (by omega)
  refine ⟨c, hc.trans hcode.symm, ?_⟩
  rw [← hrest, utf8EncodeChar_two (by omega) (by omega), hc, ofNat_eq (b := b) (by omega),
    ofNat_eq (b := b₁) (by omega)]
  rfl

theorem step_three_sound {b low high : UInt8} {bits : ℕ} {s rest : Octets} {code : ℕ}
    (hb : b.toNat = bits + 0xE0) (hbits : bits < 0x10) (hlow : 0x80 ≤ low.toNat)
    (hhigh : high.toNat ≤ 0xBF) (hshort : bits = 0 → 0xA0 ≤ low.toNat)
    (hscalar : bits = 0xD → high.toNat ≤ 0x9F)
    (h : follow 2 low high bits 1 s = .character code rest) :
    ∃ c : Char, c.toNat = code ∧ b :: s = String.utf8EncodeChar c ++ rest := by
  obtain ⟨b₁, r, rfl, hlow₁, hhigh₁, h⟩ := follow_sound h
  obtain ⟨b₂, r, rfl, hlow₂, hhigh₂, h⟩ := follow_sound h
  obtain ⟨hcode, hrest⟩ := follow_zero h
  simp only [UInt8.reduceToNat] at hlow₂ hhigh₂
  obtain ⟨c, hc⟩ := exists_char_of_valid
    (n := (bits * 64 + (b₁.toNat - 0x80)) * 64 + (b₂.toNat - 0x80)) (by omega)
  refine ⟨c, hc.trans hcode.symm, ?_⟩
  rw [← hrest, utf8EncodeChar_three (by omega) (by omega), hc, ofNat_eq (b := b) (by omega),
    ofNat_eq (b := b₁) (by omega), ofNat_eq (b := b₂) (by omega)]
  rfl

theorem step_four_sound {b low high : UInt8} {bits : ℕ} {s rest : Octets} {code : ℕ}
    (hb : b.toNat = bits + 0xF0) (hbits : bits ≤ 4) (hlow : 0x80 ≤ low.toNat)
    (hhigh : high.toNat ≤ 0xBF) (hshort : bits = 0 → 0x90 ≤ low.toNat)
    (hlimit : bits = 4 → high.toNat ≤ 0x8F)
    (h : follow 3 low high bits 1 s = .character code rest) :
    ∃ c : Char, c.toNat = code ∧ b :: s = String.utf8EncodeChar c ++ rest := by
  obtain ⟨b₁, r, rfl, hlow₁, hhigh₁, h⟩ := follow_sound h
  obtain ⟨b₂, r, rfl, hlow₂, hhigh₂, h⟩ := follow_sound h
  obtain ⟨b₃, r, rfl, hlow₃, hhigh₃, h⟩ := follow_sound h
  obtain ⟨hcode, hrest⟩ := follow_zero h
  simp only [UInt8.reduceToNat] at hlow₂ hhigh₂ hlow₃ hhigh₃
  obtain ⟨c, hc⟩ := exists_char_of_valid
    (n := ((bits * 64 + (b₁.toNat - 0x80)) * 64 + (b₂.toNat - 0x80)) * 64 +
      (b₃.toNat - 0x80)) (by omega)
  refine ⟨c, hc.trans hcode.symm, ?_⟩
  rw [← hrest, utf8EncodeChar_four (by omega), hc, ofNat_eq (b := b) (by omega),
    ofNat_eq (b := b₁) (by omega), ofNat_eq (b := b₂) (by omega),
    ofNat_eq (b := b₃) (by omega)]
  rfl

/-- Octets that are read as one character are its encoding. -/
theorem step_sound {b : UInt8} {s rest : Octets} {code : ℕ}
    (h : step b s = .character code rest) :
    ∃ c : Char, c.toNat = code ∧ b :: s = String.utf8EncodeChar c ++ rest := by
  have hb : b = UInt8.ofNat b.toNat := UInt8.ofNat_toNat.symm
  have hlt : b.toNat < 256 := b.toNat_lt
  rw [step] at h
  split at h
  · cases h
  · next lead hlead =>
      rw [hb, lead?_ofNat hlt] at hlead
      split_ifs at hlead <;> injection hlead with hlead <;> subst hlead <;> dsimp only at h
      · obtain ⟨rfl, rfl⟩ := follow_zero h
        obtain ⟨c, hc⟩ := exists_char_of_valid (n := b.toNat) (by omega)
        refine ⟨c, hc, ?_⟩
        have hascii : ascii c = b := by
          rw [ascii, hc]
          exact UInt8.ofNat_toNat
        rw [utf8EncodeChar_ascii (by omega), hascii]
        rfl
      · exact step_two_sound (by omega) h
      · exact step_three_sound (by omega) (by decide) (by decide) (by decide)
          (fun _ => by decide) (fun h => absurd h (by decide)) h
      · exact step_three_sound (by omega) (by decide) (by decide) (by decide)
          (fun h => absurd h (by decide)) (fun _ => by decide) h
      · exact step_three_sound (by omega) (by omega) (by decide) (by decide)
          (fun h => absurd h (by omega)) (fun h => absurd h (by omega)) h
      · exact step_four_sound (by omega) (by decide) (by decide) (by decide)
          (fun _ => by decide) (fun h => absurd h (by decide)) h
      · exact step_four_sound (by omega) (by omega) (by decide) (by decide)
          (fun h => absurd h (by omega)) (fun h => absurd h (by omega)) h
      · exact step_four_sound (by omega) (by decide) (by decide) (by decide)
          (fun h => absurd h (by decide)) (fun _ => by decide) h

/-! ## A whole text -/

/-- Octets that are read strictly are the encoding of what is read. -/
theorem decode_sound {s : Octets} {text : List Char} (h : decode s = .ok text) :
    s = octets text := by
  induction hlength : s.length using Nat.strong_induction_on generalizing s text with
  | _ n ih =>
    cases s with
    | nil =>
        rw [decode] at h
        injection h with h
        rw [← h, octets_nil]
    | cons b s =>
        rw [decode] at h
        split at h
        · cases h
        · next code rest hstep =>
            have hshorter : rest.length ≤ s.length := by
              simpa [hstep, Step.rest] using step_rest_length b s
            split at h
            · next characters hrest =>
                injection h with h
                subst h hlength
                obtain ⟨c, rfl, hsplit⟩ := step_sound hstep
                have htail := ih rest.length (Nat.lt_succ_of_le hshorter) hrest rfl
                rw [octets_cons, Char.ofNat_toNat, ← htail, hsplit]
            · cases h

theorem not_text_of_decode {s : Octets} {valid : ℕ} (h : decode s = .error valid) :
    ¬∃ text, s = encode text := by
  rintro ⟨text, rfl⟩
  rw [encode_eq_octets, decode_octets] at h
  cases h

/-! ## Continuations -/

/-- The octets that follow the first one of a character. -/
def Continuation (b : UInt8) : Prop := 0x80 ≤ b.toNat ∧ b.toNat < 0xC0

theorem continuation_ofNat {n : ℕ} : Continuation (UInt8.ofNat (n % 0x40 + 0x80)) := by
  unfold Continuation
  rw [toNat_ofNat_of_lt (by omega)]
  omega

theorem not_continuation_ofNat {n : ℕ} (hlow : 0xC0 ≤ n) (hhigh : n < 256) :
    ¬Continuation (UInt8.ofNat n) := by
  unfold Continuation
  rw [toNat_ofNat_of_lt hhigh]
  omega

theorem continuations_cons {n : ℕ} {more : Octets} (h : ∀ x ∈ more, Continuation x) :
    ∀ x ∈ UInt8.ofNat (n % 0x40 + 0x80) :: more, Continuation x :=
  List.forall_mem_cons.mpr ⟨continuation_ofNat, h⟩

/-- A character is one octet that begins it, and continuations. -/
theorem utf8EncodeChar_begins (c : Char) :
    ∃ b more, String.utf8EncodeChar c = b :: more ∧ ¬Continuation b ∧
      ∀ x ∈ more, Continuation x := by
  have hnil : ∀ x ∈ ([] : Octets), Continuation x := fun x hx => absurd hx List.not_mem_nil
  by_cases hone : c.toNat < 0x80
  · refine ⟨ascii c, [], utf8EncodeChar_ascii hone, ?_, hnil⟩
    unfold Continuation
    rw [toNat_ascii hone]
    omega
  · by_cases htwo : c.toNat < 0x800
    · exact ⟨_, _, utf8EncodeChar_two (by omega) htwo,
        not_continuation_ofNat (by omega) (by omega), continuations_cons hnil⟩
    · by_cases hthree : c.toNat < 0x10000
      · exact ⟨_, _, utf8EncodeChar_three (by omega) hthree,
          not_continuation_ofNat (by omega) (by omega),
          continuations_cons (continuations_cons hnil)⟩
      · exact ⟨_, _, utf8EncodeChar_four (by omega),
          not_continuation_ofNat (by omega) (by omega),
          continuations_cons (continuations_cons (continuations_cons hnil))⟩

end Utf8
end JsonReport
