import JsonReport.Proofs.MarkReading
import Mathlib.Tactic

/-!
# Reading strings

What stands between the quotes is read octet by octet, but written character by
character.  A character that stands as it is brings all octets of its encoding, none of
which looks like a quote, a backslash or a control; an escape brings the encoding of
the character it stands for.  So the content that has been gathered is at every moment
the encoding of the characters read so far, for either origin of the document.
-/

namespace JsonReport

open Utf8
open Spelling

/-! ## Hexadecimal digits -/

theorem hexDigit?_of_hexDigit {n : ℕ} {c : Char} (h : HexDigit n c) :
    hexDigit? (ascii c) = some n ∧ c.toNat < 128 := by
  have hall : ∀ n < 16,
      (hexDigit? (ascii (Nat.digitChar n)) = some n ∧ (Nat.digitChar n).toNat < 128) ∧
        hexDigit? (ascii (Nat.digitChar n).toUpper) = some n ∧
          (Nat.digitChar n).toUpper.toNat < 128 := by
    decide
  obtain ⟨hn, rfl | rfl⟩ := h
  · exact (hall n hn).1
  · exact (hall n hn).2

theorem exists_hexDigit_of_hexDigit? {b : UInt8} {n : ℕ} (h : hexDigit? b = some n) :
    ∃ c, HexDigit n c ∧ b = ascii c := by
  have hlower : ∀ n < 16,
      (ascii (Nat.digitChar n)).toNat = if n < 10 then n + 48 else n + 87 := by
    decide
  have hupper : ∀ n < 16, 10 ≤ n → (ascii (Nat.digitChar n).toUpper).toNat = n + 55 := by
    decide
  have hbound : ∀ low high : Char, ascii low ≤ b ∧ b ≤ ascii high →
      (ascii low).toNat ≤ b.toNat ∧ b.toNat ≤ (ascii high).toNat := fun _ _ h =>
    ⟨UInt8.le_iff_toNat_le.mp h.1, UInt8.le_iff_toNat_le.mp h.2⟩
  rw [hexDigit?] at h
  split at h
  · next hdigit =>
      obtain ⟨hlow, hhigh⟩ : 48 ≤ b.toNat ∧ b.toNat ≤ 57 := hbound '0' '9' hdigit
      injection h with h
      have hn : n < 16 := by omega
      refine ⟨Nat.digitChar n, ⟨hn, .inl rfl⟩, UInt8.toNat_inj.mp ?_⟩
      rw [hlower n hn, if_pos (by omega)]
      omega
  · split at h
    · next hletter =>
        obtain ⟨hlow, hhigh⟩ : 97 ≤ b.toNat ∧ b.toNat ≤ 102 := hbound 'a' 'f' hletter
        injection h with h
        have hn : n < 16 := by omega
        refine ⟨Nat.digitChar n, ⟨hn, .inl rfl⟩, UInt8.toNat_inj.mp ?_⟩
        rw [hlower n hn, if_neg (by omega)]
        omega
    · split at h
      · next hletter =>
          obtain ⟨hlow, hhigh⟩ : 65 ≤ b.toNat ∧ b.toNat ≤ 70 := hbound 'A' 'F' hletter
          injection h with h
          have hn : n < 16 := by omega
          refine ⟨(Nat.digitChar n).toUpper, ⟨hn, .inr rfl⟩, UInt8.toNat_inj.mp ?_⟩
          rw [hupper n hn (by omega)]
          omega
      · cases h

theorem hexCode_lt {n : ℕ} {w : List Char} (h : HexCode n w) : n < 0x10000 := by
  obtain ⟨⟨h₁, -⟩, ⟨h₂, -⟩, ⟨h₃, -⟩, ⟨h₄, -⟩⟩ := h
  omega

theorem readHex_of_hexCode {n : ℕ} {w : List Char} (h : HexCode n w) (rest : Octets) :
    readHex (octets w ++ rest) = .ok (n, rest) := by
  obtain ⟨h₁, h₂, h₃, h₄⟩ := h
  obtain ⟨hv₁, ha₁⟩ := hexDigit?_of_hexDigit h₁
  obtain ⟨hv₂, ha₂⟩ := hexDigit?_of_hexDigit h₂
  obtain ⟨hv₃, ha₃⟩ := hexDigit?_of_hexDigit h₃
  obtain ⟨hv₄, ha₄⟩ := hexDigit?_of_hexDigit h₄
  rw [octets_cons_ascii ha₁, octets_cons_ascii ha₂, octets_cons_ascii ha₃,
    octets_cons_ascii ha₄]
  simp [readHex, hexValue?, hv₁, hv₂, hv₃, hv₄]

theorem readHex_sound {s rest : Octets} {n : ℕ} (h : readHex s = .ok (n, rest)) :
    ∃ w, HexCode n w ∧ s = octets w ++ rest := by
  unfold readHex at h
  split at h
  · next b₁ b₂ b₃ b₄ r =>
      split at h
      · next m hvalue =>
          simp only [Except.ok.injEq, Prod.mk.injEq] at h
          obtain ⟨rfl, rfl⟩ := h
          simp only [hexValue?, Option.bind_eq_bind, Option.bind_eq_some_iff,
            Option.pure_def, Option.some.injEq] at hvalue
          obtain ⟨n₁, hv₁, n₂, hv₂, n₃, hv₃, n₄, hv₄, rfl⟩ := hvalue
          obtain ⟨c₁, h₁, rfl⟩ := exists_hexDigit_of_hexDigit? hv₁
          obtain ⟨c₂, h₂, rfl⟩ := exists_hexDigit_of_hexDigit? hv₂
          obtain ⟨c₃, h₃, rfl⟩ := exists_hexDigit_of_hexDigit? hv₃
          obtain ⟨c₄, h₄, rfl⟩ := exists_hexDigit_of_hexDigit? hv₄
          refine ⟨[c₁, c₂, c₃, c₄], .digits h₁ h₂ h₃ h₄, ?_⟩
          rw [octets_cons_ascii (hexDigit?_of_hexDigit h₁).2,
            octets_cons_ascii (hexDigit?_of_hexDigit h₂).2,
            octets_cons_ascii (hexDigit?_of_hexDigit h₃).2,
            octets_cons_ascii (hexDigit?_of_hexDigit h₄).2]
          rfl
      · cases h
  · cases h

/-! ## Escapes -/

theorem letterEscape?_of_mem {letter c : Char} (h : (letter, c) ∈ shortEscapes) :
    letterEscape? (ascii letter) = some c ∧ letter.toNat < 128 := by
  have hall : ∀ escape ∈ shortEscapes,
      letterEscape? (ascii escape.1) = some escape.2 ∧ escape.1.toNat < 128 := by
    decide
  exact hall _ h

theorem exists_mem_of_letterEscape? {b : UInt8} {c : Char}
    (h : letterEscape? b = some c) :
    ∃ letter, (letter, c) ∈ shortEscapes ∧ b = ascii letter := by
  unfold letterEscape? at h
  split_ifs at h with h₁ h₂ h₃ h₄ h₅ h₆ h₇ h₈ <;> injection h with h <;> subst h
  · exact ⟨_, by decide, h₁⟩
  · exact ⟨_, by decide, h₂⟩
  · exact ⟨_, by decide, h₃⟩
  · exact ⟨_, by decide, h₄⟩
  · exact ⟨_, by decide, h₅⟩
  · exact ⟨_, by decide, h₆⟩
  · exact ⟨_, by decide, h₇⟩
  · exact ⟨_, by decide, h₈⟩

theorem isHighSurrogate_iff (n : ℕ) : isHighSurrogate n = true ↔ HighSurrogate n := by
  simp [isHighSurrogate, HighSurrogate]

theorem isLowSurrogate_iff (n : ℕ) : isLowSurrogate n = true ↔ LowSurrogate n := by
  simp [isLowSurrogate, LowSurrogate]

theorem toNat_ofNat_of_not_surrogate {n : ℕ} (hn : n < 0x10000) (hlow : ¬LowSurrogate n)
    (hhigh : ¬HighSurrogate n) : (Char.ofNat n).toNat = n := by
  have hvalid : n.isValidChar := by
    unfold LowSurrogate at hlow
    unfold HighSurrogate at hhigh
    unfold Nat.isValidChar
    omega
  rw [Char.ofNat, dif_pos hvalid]
  rfl

theorem toNat_ofNat_pairCode {high low : ℕ} (hhigh : HighSurrogate high)
    (hlow : LowSurrogate low) :
    (Char.ofNat (pairCode high low)).toNat = pairCode high low := by
  have hvalid : (pairCode high low).isValidChar := by
    unfold HighSurrogate at hhigh
    unfold LowSurrogate at hlow
    unfold pairCode Nat.isValidChar
    omega
  rw [Char.ofNat, dif_pos hvalid]
  rfl

theorem not_surrogate (c : Char) : ¬HighSurrogate c.toNat ∧ ¬LowSurrogate c.toNat := by
  have hvalid : c.toNat < 0xD800 ∨ 0xDFFF < c.toNat ∧ c.toNat < 0x110000 := c.valid
  unfold HighSurrogate LowSurrogate
  omega

theorem readCodePoint_of_code {c : Char} {w : List Char} (h : HexCode c.toNat w)
    (rest : Octets) : readCodePoint (octets w ++ rest) = .ok (c, rest) := by
  obtain ⟨hhigh, hlow⟩ := not_surrogate c
  simp only [readCodePoint, readHex_of_hexCode h, isHighSurrogate_iff, isLowSurrogate_iff,
    hhigh, hlow, if_false, Char.ofNat_toNat]

theorem readCodePoint_of_pair {c : Char} {high low : ℕ} {w w' : List Char}
    (hhigh : HighSurrogate high) (hlow : LowSurrogate low)
    (hc : c.toNat = 0x10000 + (high - 0xD800) * 0x400 + (low - 0xDC00))
    (hw : HexCode high w) (hw' : HexCode low w') (rest : Octets) :
    readCodePoint (octets (w ++ '\\' :: 'u' :: w') ++ rest) = .ok (c, rest) := by
  have hnotLow : ¬LowSurrogate high := by
    unfold LowSurrogate
    unfold HighSurrogate at hhigh
    omega
  have hpair : pairCode high low = c.toNat := by
    unfold pairCode
    omega
  rw [octets_append, octets_cons_ascii (show '\\'.toNat < 128 by decide),
    octets_cons_ascii (show 'u'.toNat < 128 by decide), List.append_assoc]
  simp only [readCodePoint, readHex_of_hexCode hw, isLowSurrogate_iff, isHighSurrogate_iff,
    hnotLow, hhigh, if_true, if_false, List.cons_append, readPair, readPairMark,
    readHex_of_hexCode hw', hlow, hpair, Char.ofNat_toNat]

theorem readEscape_of_character {c : Char} {w : List Char} (h : Character c ('\\' :: w))
    (rest : Octets) : readEscape (octets w ++ rest) = .ok (c, rest) := by
  cases h with
  | plain hplain => exact absurd rfl hplain.2.2
  | short hmem =>
      obtain ⟨hletter, hascii⟩ := letterEscape?_of_mem hmem
      rw [octets_cons_ascii hascii]
      simp [readEscape, hletter]
  | code hcode =>
      rw [octets_cons_ascii (show 'u'.toNat < 128 by decide), List.cons_append,
        readEscape, show letterEscape? (ascii 'u') = none by decide]
      simpa using readCodePoint_of_code hcode rest
  | pair hhigh hlow hc hw hw' =>
      rw [octets_cons_ascii (show 'u'.toNat < 128 by decide), List.cons_append,
        readEscape, show letterEscape? (ascii 'u') = none by decide]
      simpa using readCodePoint_of_pair hhigh hlow hc hw hw' rest

theorem readPairMark_sound {mark : Char} (hmark : mark.toNat < 128) {s rest : Octets}
    (h : readPairMark mark s = .ok rest) : s = octets [mark] ++ rest := by
  cases s with
  | nil => cases h
  | cons b s =>
      rw [readPairMark] at h
      split at h
      · next hb =>
          injection h with h
          rw [octets_cons_ascii hmark, hb, h]
          rfl
      · cases h

theorem readCodePoint_sound {s rest : Octets} {c : Char}
    (h : readCodePoint s = .ok (c, rest)) :
    ∃ w, Character c ('\\' :: 'u' :: w) ∧ s = octets w ++ rest := by
  rw [readCodePoint] at h
  split at h
  · cases h
  · next n r hhex =>
      obtain ⟨w, hw, rfl⟩ := readHex_sound hhex
      split_ifs at h with hlow hhigh
      · rw [isHighSurrogate_iff] at hhigh
        rw [readPair] at h
        split at h
        · cases h
        · next s₁ hs₁ =>
            split at h
            · cases h
            · next s₂ hs₂ =>
                split at h
                · cases h
                · next low r' hhex' =>
                    split_ifs at h with hsecond
                    rw [isLowSurrogate_iff] at hsecond
                    simp only [Except.ok.injEq, Prod.mk.injEq] at h
                    obtain ⟨rfl, rfl⟩ := h
                    obtain ⟨w', hw', rfl⟩ := readHex_sound hhex'
                    have hcode := toNat_ofNat_pairCode hhigh hsecond
                    refine ⟨w ++ '\\' :: 'u' :: w', .pair hhigh hsecond hcode hw hw', ?_⟩
                    rw [readPairMark_sound (by decide) hs₁,
                      readPairMark_sound (by decide) hs₂,
                      show '\\' :: 'u' :: w' = ['\\'] ++ (['u'] ++ w') from rfl,
                      octets_append, octets_append, octets_append]
                    simp only [List.append_assoc]
      · simp only [Except.ok.injEq, Prod.mk.injEq] at h
        obtain ⟨rfl, rfl⟩ := h
        rw [isLowSurrogate_iff] at hlow
        rw [isHighSurrogate_iff] at hhigh
        have hcode := toNat_ofNat_of_not_surrogate (hexCode_lt hw) hlow hhigh
        exact ⟨w, .code (hcode.symm ▸ hw), rfl⟩

theorem readEscape_sound {s rest : Octets} {c : Char} (h : readEscape s = .ok (c, rest)) :
    ∃ w, Character c ('\\' :: w) ∧ s = octets w ++ rest := by
  cases s with
  | nil => cases h
  | cons b s =>
      rw [readEscape] at h
      split at h
      · next d hletter =>
          simp only [Except.ok.injEq, Prod.mk.injEq] at h
          obtain ⟨rfl, rfl⟩ := h
          obtain ⟨letter, hmem, rfl⟩ := exists_mem_of_letterEscape? hletter
          refine ⟨[letter], .short hmem, ?_⟩
          rw [octets_cons_ascii (letterEscape?_of_mem hmem).2]
          rfl
      · split at h
        · next hb =>
            obtain ⟨w, hw, rfl⟩ := readCodePoint_sound h
            refine ⟨'u' :: w, hw, ?_⟩
            rw [octets_cons_ascii (show 'u'.toNat < 128 by decide), hb]
            rfl
        · cases h

/-! ## The content of a string -/

/-- The octets that are gathered as they stand. -/
def PlainOctet (b : UInt8) : Prop := b ≠ ascii '"' ∧ b ≠ ascii '\\' ∧ ¬b < 0x20

theorem plainOctet_of_mem {c : Char} (hc : Plain c) :
    ∀ b ∈ String.utf8EncodeChar c, PlainOctet b := by
  obtain ⟨hcontrol, hquote, hbackslash⟩ := hc
  intro b hb
  by_cases hascii : c.toNat < 128
  · rw [utf8EncodeChar_ascii hascii, List.mem_singleton] at hb
    subst hb
    refine ⟨ascii_ne hascii (by decide) hquote, ascii_ne hascii (by decide) hbackslash, ?_⟩
    rw [UInt8.lt_iff_toNat_lt, toNat_ascii hascii]
    exact Nat.not_lt_of_le hcontrol
  · have hhigh : 0x80 ≤ b := le_of_mem_utf8EncodeChar (Nat.le_of_not_lt hascii) hb
    rw [UInt8.le_iff_toNat_le] at hhigh
    refine ⟨?_, ?_, ?_⟩
    · rintro rfl
      exact absurd hhigh (by decide)
    · rintro rfl
      exact absurd hhigh (by decide)
    · intro hlow
      rw [UInt8.lt_iff_toNat_lt] at hlow
      exact absurd (Nat.lt_of_le_of_lt hhigh hlow) (by decide)

theorem readContent_quote (rest : Octets) :
    (readContent (ascii '"' :: rest)).Yields [] rest := by
  rw [readContent, if_pos rfl]
  exact ⟨_, rfl⟩

theorem readContent_plain {bytes : Octets} (hbytes : ∀ b ∈ bytes, PlainOctet b)
    {s content rest : Octets} (h : (readContent s).Yields content rest) :
    (readContent (bytes ++ s)).Yields (bytes ++ content) rest := by
  induction bytes with
  | nil => exact h
  | cons b bytes ih =>
      obtain ⟨⟨hquote, hbackslash, hcontrol⟩, hbytes⟩ := List.forall_mem_cons.mp hbytes
      obtain ⟨shorter, hread⟩ := ih hbytes
      rw [List.cons_append, readContent, if_neg hquote, if_neg hbackslash,
        if_neg hcontrol, hread]
      exact ⟨_, rfl⟩

theorem readContent_escape {c : Char} {w : List Char} (hc : Character c ('\\' :: w))
    {s content rest : Octets} (h : (readContent s).Yields content rest) :
    (readContent (octets ('\\' :: w) ++ s)).Yields
      (String.utf8EncodeChar c ++ content) rest := by
  obtain ⟨shorter, hread⟩ := h
  have hescape := readEscape_of_character hc s
  rw [octets_cons_ascii (show '\\'.toNat < 128 by decide), List.cons_append, readContent,
    if_neg (by decide), if_pos rfl]
  split
  · next hfault =>
      rw [hescape] at hfault
      cases hfault
  · next hok =>
      rw [hescape, Except.ok.injEq, Prod.mk.injEq] at hok
      obtain ⟨rfl, rfl⟩ := hok
      rw [hread]
      exact ⟨_, rfl⟩

/-- A character adds its encoding to the content, in whatever form it is written. -/
theorem readContent_character {c : Char} {w : List Char} (hc : Character c w)
    {s content rest : Octets} (h : (readContent s).Yields content rest) :
    (readContent (octets w ++ s)).Yields (String.utf8EncodeChar c ++ content) rest := by
  cases hc with
  | plain hplain =>
      rw [octets_cons, octets_nil, List.append_nil]
      exact readContent_plain (plainOctet_of_mem hplain) h
  | short hmem => exact readContent_escape (.short hmem) h
  | code hcode => exact readContent_escape (.code hcode) h
  | pair hhigh hlow hc hw hw' => exact readContent_escape (.pair hhigh hlow hc hw hw') h

theorem readContent_run {text w : List Char} (h : Run Character text w) (rest : Octets) :
    (readContent (octets w ++ ascii '"' :: rest)).Yields (octets text) rest := by
  induction h with
  | nil => exact readContent_quote rest
  | cons hc _ ih =>
      rw [octets_append, List.append_assoc, octets_cons]
      exact readContent_character hc ih

theorem characters_octets (origin : Origin) (text : List Char) :
    origin.characters (octets text) = .ok text := by
  cases origin with
  | text => exact congrArg Except.ok (decodeLossy_octets text)
  | raw => exact decode_octets text

theorem readString_of_content {text : String} {w : List Char} (h : Content text w)
    (origin : Origin) (rest : Octets) :
    (readString origin (octets w ++ ascii '"' :: rest)).Yields text rest := by
  obtain ⟨shorter, hread⟩ := readContent_run h rest
  refine ⟨shorter, ?_⟩
  simp only [readString, hread, characters_octets, Taken.map, String.ofList_toList]

/-! ## What has been read was written -/

theorem readContent_plain_sound {bytes : Octets} (hbytes : ∀ b ∈ bytes, PlainOctet b)
    {s : Octets} {content : Taken (bytes ++ s) Octets}
    (h : readContent (bytes ++ s) = .ok content) :
    ∃ inner, readContent s = .ok inner ∧ content.value = bytes ++ inner.value ∧
      content.rest = inner.rest := by
  induction bytes with
  | nil => exact ⟨content, h, rfl, rfl⟩
  | cons b bytes ih =>
      obtain ⟨⟨hquote, hbackslash, hcontrol⟩, hbytes⟩ := List.forall_mem_cons.mp hbytes
      change readContent (b :: (bytes ++ s)) = .ok content at h
      rw [readContent, if_neg hquote, if_neg hbackslash, if_neg hcontrol] at h
      split at h
      · cases h
      · next tail htail =>
          obtain ⟨inner, hinner, hvalue, hrest⟩ := ih hbytes htail
          injection h with h
          subst h
          exact ⟨inner, hinner, congrArg (b :: ·) hvalue, hrest⟩

/-- A character stands first in `s`, and the rest of the content was read after it. -/
def CharacterFirst {s : Octets} (content : Taken s Octets) : Prop :=
  ∃ c w r, ∃ inner : Taken r Octets, Character c w ∧ s = octets w ++ r ∧
    r.length < s.length ∧ readContent r = .ok inner ∧
    content.value = String.utf8EncodeChar c ++ inner.value ∧ content.rest = inner.rest

theorem characterFirst_of_escape {s : Octets} {content : Taken (ascii '\\' :: s) Octets}
    (h : readContent (ascii '\\' :: s) = .ok content) : CharacterFirst content := by
  rw [readContent, if_neg (by decide), if_pos rfl] at h
  split at h
  · cases h
  · next c r hescape =>
      split at h
      · cases h
      · next inner hinner =>
          injection h with h
          subst h
          obtain ⟨w, hw, hsplit⟩ := readEscape_sound hescape
          have hshorter : r.length < s.length := readEscape_length hescape
          refine ⟨c, '\\' :: w, r, inner, hw, ?_, ?_, hinner, rfl, rfl⟩
          · rw [octets_cons_ascii (by decide), List.cons_append, ← hsplit]
          · exact Nat.lt_succ_of_lt hshorter

theorem characterFirst_of_plain {c : Char} (hc : Plain c) {s : Octets}
    {content : Taken (String.utf8EncodeChar c ++ s) Octets}
    (h : readContent (String.utf8EncodeChar c ++ s) = .ok content) :
    CharacterFirst content := by
  obtain ⟨inner, hinner, hvalue, hrest⟩ := readContent_plain_sound (plainOctet_of_mem hc) h
  refine ⟨c, [c], s, inner, .plain hc, ?_, ?_, hinner, hvalue, hrest⟩
  · rw [octets_cons, octets_nil, List.append_nil]
  · have hpositive := List.length_pos_of_ne_nil (String.utf8EncodeChar_ne_nil (c := c))
    rw [List.length_append]
    omega

theorem readContent_control {c : Char} (hc : c.toNat < 0x20) (s : Octets) :
    (readContent (ascii c :: s)).Fails := by
  have hascii : c.toNat < 128 := Nat.lt_trans hc (by decide)
  have hquote : c ≠ '"' := by
    rintro rfl
    exact absurd hc (by decide)
  have hbackslash : c ≠ '\\' := by
    rintro rfl
    exact absurd hc (by decide)
  have hcontrol : ascii c < 0x20 := by
    rw [UInt8.lt_iff_toNat_lt, toNat_ascii hascii]
    exact hc
  rw [readContent, if_neg (ascii_ne hascii (by decide) hquote),
    if_neg (ascii_ne hascii (by decide) hbackslash), if_pos hcontrol]
  exact ⟨_, rfl⟩

theorem quote_or_characterFirst {s : Octets} (hs : Encoded s) {content : Taken s Octets}
    (h : readContent s = .ok content) :
    (s = ascii '"' :: content.rest ∧ content.value = []) ∨ CharacterFirst content := by
  obtain ⟨source, rfl⟩ := hs
  cases source with
  | nil =>
      change readContent [] = .ok content at h
      rw [readContent] at h
      cases h
  | cons c source =>
      by_cases hquote : c = '"'
      · subst hquote
        change readContent (ascii '"' :: octets source) = .ok content at h
        rw [readContent, if_pos rfl] at h
        injection h with h
        subst h
        exact .inl ⟨rfl, rfl⟩
      · by_cases hbackslash : c = '\\'
        · subst hbackslash
          exact .inr (characterFirst_of_escape h)
        · by_cases hcontrol : c.toNat < 0x20
          · obtain ⟨fault, hfault⟩ := readContent_control hcontrol (octets source)
            rw [← octets_cons_ascii (Nat.lt_trans hcontrol (by decide))] at hfault
            rw [hfault] at h
            cases h
          · have hplain : Plain c := ⟨Nat.le_of_not_lt hcontrol, hquote, hbackslash⟩
            exact .inr (characterFirst_of_plain hplain h)

/-- Where content is read from an encoded text, characters and a quote were written. -/
theorem readContent_sound {s : Octets} (hs : Encoded s) {content : Taken s Octets}
    (h : readContent s = .ok content) :
    ∃ text w, Run Character text w ∧ s = octets w ++ ascii '"' :: content.rest ∧
      content.value = octets text := by
  -- A character takes several octets at once, so the induction is on the length.
  induction hlength : s.length using Nat.strong_induction_on generalizing s with
  | _ n ih =>
    rcases quote_or_characterFirst hs h with ⟨hquote, hvalue⟩ | hfirst
    · exact ⟨[], [], .nil, hquote, hvalue⟩
    · obtain ⟨c, w, r, inner, hc, hsplit, hshorter, hinner, hvalue, hrest⟩ := hfirst
      have hencoded : Encoded r := hs.after hsplit
      obtain ⟨text, ws, hrun, hr, htext⟩ :=
        ih r.length (hlength ▸ hshorter) hencoded hinner rfl
      refine ⟨c :: text, w ++ ws, .cons hc hrun, ?_, ?_⟩
      · rw [hrest, octets_append, List.append_assoc, ← hr, hsplit]
      · rw [hvalue, htext, octets_cons]

theorem readString_text_sound {s : Octets} (hs : Encoded s) {text : Taken s String}
    (h : readString .text s = .ok text) :
    ∃ w, Content text.value w ∧ s = octets w ++ ascii '"' :: text.rest := by
  rw [readString] at h
  split at h
  · cases h
  · next content hcontent =>
      obtain ⟨characters, w, hrun, hsplit, hvalue⟩ := readContent_sound hs hcontent
      rw [hvalue, characters_octets] at h
      injection h with h
      subst h
      refine ⟨w, ?_, hsplit⟩
      simpa [Content, Taken.map] using hrun

end JsonReport
