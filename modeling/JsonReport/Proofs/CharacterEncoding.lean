import JsonReport.Text.Utf8
import Mathlib.Tactic

/-!
# Texts as octets

Readers work on octets, while the grammar of documents speaks of characters.  The
encoding of a character announces its own length, so it is read back as that
character whatever follows.  Hence an encoded text is read back as it was, and cutting
an encoded beginning off an encoded text leaves an encoded text: the readers may be
followed from one token to the next without leaving the encoded texts.
-/

namespace JsonReport
namespace Utf8

/-- The octets of a run of characters. -/
def octets (text : List Char) : Octets := text.flatMap String.utf8EncodeChar

theorem encode_eq_octets (text : String) : encode text = octets text.toList := rfl

@[simp] theorem octets_nil : octets [] = [] := rfl

@[simp] theorem octets_append (before after : List Char) :
    octets (before ++ after) = octets before ++ octets after := List.flatMap_append

theorem octets_cons (c : Char) (text : List Char) :
    octets (c :: text) = String.utf8EncodeChar c ++ octets text := List.flatMap_cons

theorem toNat_ascii {c : Char} (hc : c.toNat < 128) : (ascii c).toNat = c.toNat := by
  rw [ascii, Nat.toUInt8, UInt8.toNat_ofNat']
  exact Nat.mod_eq_of_lt (Nat.lt_trans hc (by decide))

theorem ascii_ne {c d : Char} (hc : c.toNat < 128) (hd : d.toNat < 128) (h : c ≠ d) :
    ascii c ≠ ascii d := by
  intro heq
  apply h
  rw [← Char.toNat_inj, ← toNat_ascii hc, ← toNat_ascii hd, heq]

theorem utf8EncodeChar_ascii {c : Char} (hc : c.toNat < 128) :
    String.utf8EncodeChar c = [ascii c] := by
  have hval : c.val.toNat ≤ 0x7f := Nat.le_of_lt_succ hc
  unfold String.utf8EncodeChar
  exact if_pos hval

theorem octets_cons_ascii {c : Char} (hc : c.toNat < 128) (text : List Char) :
    octets (c :: text) = ascii c :: octets text := by
  rw [octets_cons, utf8EncodeChar_ascii hc]
  rfl

theorem utf8EncodeChar_two {c : Char} (hlow : 0x80 ≤ c.toNat) (hhigh : c.toNat < 0x800) :
    String.utf8EncodeChar c =
      [UInt8.ofNat (c.toNat / 64 % 0x20 + 0xC0), UInt8.ofNat (c.toNat % 0x40 + 0x80)] := by
  have hone : ¬c.val.toNat ≤ 0x7f := Nat.not_le_of_lt hlow
  have htwo : c.val.toNat ≤ 0x7ff := Nat.le_of_lt_succ hhigh
  unfold String.utf8EncodeChar
  simp only [hone, htwo, if_true, if_false]
  rfl

theorem utf8EncodeChar_three {c : Char} (hlow : 0x800 ≤ c.toNat) (hhigh : c.toNat < 0x10000) :
    String.utf8EncodeChar c =
      [UInt8.ofNat (c.toNat / 4096 % 0x10 + 0xE0), UInt8.ofNat (c.toNat / 64 % 0x40 + 0x80),
        UInt8.ofNat (c.toNat % 0x40 + 0x80)] := by
  have hone : ¬c.val.toNat ≤ 0x7f := Nat.not_le_of_lt (Nat.le_trans (by decide) hlow)
  have htwo : ¬c.val.toNat ≤ 0x7ff := Nat.not_le_of_lt hlow
  have hthree : c.val.toNat ≤ 0xffff := Nat.le_of_lt_succ hhigh
  unfold String.utf8EncodeChar
  simp only [hone, htwo, hthree, if_true, if_false]
  rfl

theorem utf8EncodeChar_four {c : Char} (hlow : 0x10000 ≤ c.toNat) :
    String.utf8EncodeChar c =
      [UInt8.ofNat (c.toNat / 262144 % 0x08 + 0xF0),
        UInt8.ofNat (c.toNat / 4096 % 0x40 + 0x80), UInt8.ofNat (c.toNat / 64 % 0x40 + 0x80),
        UInt8.ofNat (c.toNat % 0x40 + 0x80)] := by
  have hone : ¬c.val.toNat ≤ 0x7f := Nat.not_le_of_lt (Nat.le_trans (by decide) hlow)
  have htwo : ¬c.val.toNat ≤ 0x7ff := Nat.not_le_of_lt (Nat.le_trans (by decide) hlow)
  have hthree : ¬c.val.toNat ≤ 0xffff := Nat.not_le_of_lt hlow
  unfold String.utf8EncodeChar
  simp only [hone, htwo, hthree, if_false]
  rfl

/-! ## Reading back one character -/

theorem toNat_ofNat_of_lt {n : ℕ} (hn : n < 256) : (UInt8.ofNat n).toNat = n := by
  rw [UInt8.toNat_ofNat']
  exact Nat.mod_eq_of_lt hn

theorem follow_continuation {low high : UInt8} {x : ℕ} (n bits width : ℕ) (s : Octets)
    (hlow : low.toNat ≤ x % 64 + 0x80) (hhigh : x % 64 + 0x80 ≤ high.toNat) :
    follow (n + 1) low high bits width (UInt8.ofNat (x % 64 + 0x80) :: s) =
      follow n 0x80 0xBF (bits * 64 + x % 64) (width + 1) s := by
  have hnat : (UInt8.ofNat (x % 64 + 0x80)).toNat = x % 64 + 0x80 :=
    toNat_ofNat_of_lt (by omega)
  have hbounds : low ≤ UInt8.ofNat (x % 64 + 0x80) ∧ UInt8.ofNat (x % 64 + 0x80) ≤ high := by
    simpa only [UInt8.le_iff_toNat_le, hnat] using And.intro hlow hhigh
  rw [follow, if_pos hbounds, hnat, Nat.add_sub_cancel]

theorem lead?_ofNat {n : ℕ} (hn : n < 256) :
    lead? (UInt8.ofNat n) =
      if n < 0x80 then some ⟨0, 0x80, 0xBF, n⟩
      else if n < 0xC2 then none
      else if n < 0xE0 then some ⟨1, 0x80, 0xBF, n - 0xC0⟩
      else if n = 0xE0 then some ⟨2, 0xA0, 0xBF, 0⟩
      else if n = 0xED then some ⟨2, 0x80, 0x9F, 0xD⟩
      else if n < 0xF0 then some ⟨2, 0x80, 0xBF, n - 0xE0⟩
      else if n = 0xF0 then some ⟨3, 0x90, 0xBF, 0⟩
      else if n < 0xF4 then some ⟨3, 0x80, 0xBF, n - 0xF0⟩
      else if n = 0xF4 then some ⟨3, 0x80, 0x8F, 4⟩
      else none := by
  simp only [lead?, UInt8.lt_iff_toNat_lt, ← UInt8.toNat_inj, toNat_ofNat_of_lt hn]
  rfl

theorem step_two {v : ℕ} (hlow : 0x80 ≤ v) (hhigh : v < 0x800) (s : Octets) :
    step (UInt8.ofNat (v / 64 % 0x20 + 0xC0)) (UInt8.ofNat (v % 0x40 + 0x80) :: s) =
      .character v s := by
  have hlead : lead? (UInt8.ofNat (v / 64 % 0x20 + 0xC0)) =
      some ⟨1, 0x80, 0xBF, v / 64⟩ := by
    rw [lead?_ofNat (by omega), if_neg (by omega), if_neg (by omega), if_pos (by omega)]
    exact congrArg (fun bits => some (Lead.mk 1 0x80 0xBF bits)) (by omega)
  simp only [step, hlead]
  rw [follow_continuation 0 _ _ _ (by simp) (by simp; omega), follow]
  exact congrArg (Step.character · s) (by omega)

theorem step_three {v : ℕ} (hlow : 0x800 ≤ v) (hhigh : v < 0x10000)
    (hscalar : v < 0xD800 ∨ 0xDFFF < v) (s : Octets) :
    step (UInt8.ofNat (v / 4096 % 0x10 + 0xE0))
        (UInt8.ofNat (v / 64 % 0x40 + 0x80) :: UInt8.ofNat (v % 0x40 + 0x80) :: s) =
      .character v s := by
  obtain ⟨low, high, hlead, hfirst, hsecond⟩ : ∃ low high,
      lead? (UInt8.ofNat (v / 4096 % 0x10 + 0xE0)) = some ⟨2, low, high, v / 4096⟩ ∧
        low.toNat ≤ v / 64 % 64 + 0x80 ∧ v / 64 % 64 + 0x80 ≤ high.toNat := by
    rw [lead?_ofNat (by omega), if_neg (by omega), if_neg (by omega), if_neg (by omega)]
    by_cases hE0 : v / 4096 % 0x10 + 0xE0 = 0xE0
    · rw [if_pos hE0]
      exact ⟨0xA0, 0xBF, congrArg (some <| Lead.mk 2 0xA0 0xBF ·) (by omega),
        by simp; omega, by simp; omega⟩
    · rw [if_neg hE0]
      by_cases hED : v / 4096 % 0x10 + 0xE0 = 0xED
      · rw [if_pos hED]
        exact ⟨0x80, 0x9F, congrArg (some <| Lead.mk 2 0x80 0x9F ·) (by omega),
          by simp, by simp; omega⟩
      · rw [if_neg hED, if_pos (by omega)]
        exact ⟨0x80, 0xBF, congrArg (some <| Lead.mk 2 0x80 0xBF ·) (by omega),
          by simp, by simp; omega⟩
  simp only [step, hlead]
  rw [follow_continuation 1 _ _ _ hfirst hsecond,
    follow_continuation 0 _ _ _ (by simp) (by simp; omega), follow]
  exact congrArg (Step.character · s) (by omega)

theorem step_four {v : ℕ} (hlow : 0x10000 ≤ v) (hhigh : v < 0x110000) (s : Octets) :
    step (UInt8.ofNat (v / 262144 % 0x08 + 0xF0))
        (UInt8.ofNat (v / 4096 % 0x40 + 0x80) :: UInt8.ofNat (v / 64 % 0x40 + 0x80) ::
          UInt8.ofNat (v % 0x40 + 0x80) :: s) =
      .character v s := by
  obtain ⟨low, high, hlead, hfirst, hsecond⟩ : ∃ low high,
      lead? (UInt8.ofNat (v / 262144 % 0x08 + 0xF0)) = some ⟨3, low, high, v / 262144⟩ ∧
        low.toNat ≤ v / 4096 % 64 + 0x80 ∧ v / 4096 % 64 + 0x80 ≤ high.toNat := by
    rw [lead?_ofNat (by omega), if_neg (by omega), if_neg (by omega), if_neg (by omega),
      if_neg (by omega), if_neg (by omega), if_neg (by omega)]
    by_cases hF0 : v / 262144 % 0x08 + 0xF0 = 0xF0
    · rw [if_pos hF0]
      exact ⟨0x90, 0xBF, congrArg (some <| Lead.mk 3 0x90 0xBF ·) (by omega),
        by simp; omega, by simp; omega⟩
    · rw [if_neg hF0]
      by_cases hF4 : v / 262144 % 0x08 + 0xF0 < 0xF4
      · rw [if_pos hF4]
        exact ⟨0x80, 0xBF, congrArg (some <| Lead.mk 3 0x80 0xBF ·) (by omega),
          by simp, by simp; omega⟩
      · rw [if_neg hF4, if_pos (by omega)]
        exact ⟨0x80, 0x8F, congrArg (some <| Lead.mk 3 0x80 0x8F ·) (by omega),
          by simp, by simp; omega⟩
  simp only [step, hlead]
  rw [follow_continuation 2 _ _ _ hfirst hsecond,
    follow_continuation 1 _ _ _ (by simp) (by simp; omega),
    follow_continuation 0 _ _ _ (by simp) (by simp; omega), follow]
  exact congrArg (Step.character · s) (by omega)

/-- The encoding of a character is read back as that character, whatever follows it. -/
theorem step_utf8EncodeChar (c : Char) (s : Octets) :
    ∃ b more, String.utf8EncodeChar c = b :: more ∧
      step b (more ++ s) = .character c.toNat s := by
  have hvalid : c.toNat < 0xD800 ∨ 0xDFFF < c.toNat ∧ c.toNat < 0x110000 := c.valid
  by_cases hone : c.toNat < 0x80
  · refine ⟨ascii c, [], utf8EncodeChar_ascii hone, ?_⟩
    have hlead : lead? (ascii c) = some ⟨0, 0x80, 0xBF, c.toNat⟩ := by
      exact (lead?_ofNat (by omega)).trans (if_pos hone)
    simp [step, hlead, follow]
  · by_cases htwo : c.toNat < 0x800
    · exact ⟨_, [_], utf8EncodeChar_two (by omega) htwo, step_two (by omega) htwo s⟩
    · by_cases hthree : c.toNat < 0x10000
      · exact ⟨_, [_, _], utf8EncodeChar_three (by omega) hthree,
          step_three (by omega) hthree (by omega) s⟩
      · exact ⟨_, [_, _, _], utf8EncodeChar_four (by omega),
          step_four (by omega) (by omega) s⟩

/-! ## Texts cut between characters -/

theorem utf8EncodeChar_append_inj {c d : Char} {s t : Octets}
    (h : String.utf8EncodeChar c ++ s = String.utf8EncodeChar d ++ t) : c = d ∧ s = t := by
  obtain ⟨b, more, hc, hstep⟩ := step_utf8EncodeChar c s
  obtain ⟨b', more', hd, hstep'⟩ := step_utf8EncodeChar d t
  rw [hc, hd, List.cons_append, List.cons_append, List.cons.injEq] at h
  obtain ⟨rfl, hmore⟩ := h
  rw [hmore, hstep'] at hstep
  injection hstep with hcode hrest
  exact ⟨Char.toNat_inj.mp hcode.symm, hrest.symm⟩

/-- What follows an encoded beginning of an encoded text is an encoded text. -/
theorem octets_split {before text : List Char} {s : Octets}
    (h : octets before ++ s = octets text) :
    ∃ after, text = before ++ after ∧ s = octets after := by
  induction before generalizing text with
  | nil => exact ⟨text, rfl, by simpa using h⟩
  | cons c before ih =>
      cases text with
      | nil =>
          obtain ⟨b, more, hc, -⟩ := step_utf8EncodeChar c []
          simp [octets_cons, hc] at h
      | cons d text =>
          rw [octets_cons, octets_cons, List.append_assoc] at h
          obtain ⟨rfl, htail⟩ := utf8EncodeChar_append_inj h
          obtain ⟨after, rfl, hs⟩ := ih htail
          exact ⟨after, rfl, hs⟩

/-- Whether octets are the encoding of a text. -/
def Encoded (s : Octets) : Prop := ∃ text, s = octets text

theorem Encoded.of_append {before : List Char} {s : Octets}
    (h : Encoded (octets before ++ s)) : Encoded s := by
  obtain ⟨text, htext⟩ := h
  obtain ⟨after, -, hs⟩ := octets_split htext
  exact ⟨after, hs⟩

theorem Encoded.after {before : List Char} {s r : Octets} (hs : Encoded s)
    (h : s = octets before ++ r) : Encoded r := by
  rw [h] at hs
  exact hs.of_append

theorem Encoded.of_mark {c : Char} (hc : c.toNat < 128) {s : Octets}
    (h : Encoded (ascii c :: s)) : Encoded s := by
  have hs : ascii c :: s = octets [c] ++ s := by
    rw [octets_cons_ascii hc]
    rfl
  rw [hs] at h
  exact h.of_append

theorem le_of_mem_utf8EncodeChar {c : Char} (hc : 128 ≤ c.toNat) {b : UInt8}
    (hb : b ∈ String.utf8EncodeChar c) : 0x80 ≤ b := by
  have hhigh : ∀ n : ℕ, 0x80 ≤ n → n < 256 → 0x80 ≤ UInt8.ofNat n := by
    intro n hlow hn
    rw [UInt8.le_iff_toNat_le, toNat_ofNat_of_lt hn]
    exact hlow
  have hone : ¬c.val.toNat ≤ 0x7f := Nat.not_le_of_lt hc
  unfold String.utf8EncodeChar at hb
  simp only [hone, if_false] at hb
  split at hb
  · simp only [List.mem_cons, List.not_mem_nil, or_false] at hb
    rcases hb with rfl | rfl <;> exact hhigh _ (by omega) (by omega)
  · split at hb
    · simp only [List.mem_cons, List.not_mem_nil, or_false] at hb
      rcases hb with rfl | rfl | rfl <;> exact hhigh _ (by omega) (by omega)
    · simp only [List.mem_cons, List.not_mem_nil, or_false] at hb
      rcases hb with rfl | rfl | rfl | rfl <;> exact hhigh _ (by omega) (by omega)

/-! ## Reading back a text -/

theorem decode_octets (text : List Char) : decode (octets text) = .ok text := by
  induction text with
  | nil =>
      rw [octets_nil, decode]
  | cons c text ih =>
      obtain ⟨b, more, hc, hstep⟩ := step_utf8EncodeChar c (octets text)
      rw [octets_cons, hc, List.cons_append, decode]
      split
      · next hbroken =>
          rw [hstep] at hbroken
          cases hbroken
      · next hread =>
          rw [hstep] at hread
          injection hread with hcode hrest
          subst hcode hrest
          simp only [ih, Char.ofNat_toNat]

theorem decodeLossy_append (text : List Char) (s : Octets) :
    decodeLossy (octets text ++ s) = text ++ decodeLossy s := by
  induction text with
  | nil => rfl
  | cons c text ih =>
      obtain ⟨b, more, hc, hstep⟩ := step_utf8EncodeChar c (octets text ++ s)
      rw [octets_cons, List.append_assoc, hc, List.cons_append, decodeLossy]
      split
      · next hread =>
          rw [hstep] at hread
          injection hread with hcode hrest
          subst hcode hrest
          rw [ih, Char.ofNat_toNat, List.cons_append]
      · next hbroken =>
          rw [hstep] at hbroken
          cases hbroken

theorem decodeLossy_octets (text : List Char) : decodeLossy (octets text) = text := by
  have h := decodeLossy_append text []
  have hnil : decodeLossy [] = [] := by rw [decodeLossy]
  rwa [hnil, List.append_nil, List.append_nil] at h

/-- A text is shown as it is. -/
theorem display_encode (text : String) : display (encode text) = text := by
  rw [display, encode_eq_octets, decodeLossy_octets, String.ofList_toList]

/-- What is a text up to some octet is shown as this text up to there. -/
theorem display_append (text : String) (s : Octets) :
    display (encode text ++ s) = text ++ display s := by
  rw [display, encode_eq_octets, decodeLossy_append, String.ofList_append,
    String.ofList_toList, display]

theorem octets_injective : Function.Injective octets :=
  Function.LeftInverse.injective decodeLossy_octets

theorem encode_injective : Function.Injective encode := fun _ _ h =>
  String.toList_injective (octets_injective h)

end Utf8
end JsonReport
