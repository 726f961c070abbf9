import JsonReport.Proofs.WrittenCharacters
import Mathlib.Tactic

/-!
# Searching phrases in messages

A phrase occurs in a message where it is an infix of it.  The phrases hold nothing but
lower-case letters and spaces, so an occurrence cannot reach across a quotation mark, a
backtick or a digit: it lies on one side of such a barrier.  In particular the numbers of
the place, with which every message ends, neither tell nor hide a phrase.
-/

namespace JsonReport
namespace Category

/-! ## Infixes -/

theorem occursIn_iff (phrase text : List Char) :
    occursIn phrase text = true ↔ phrase <:+: text := by
  induction text with
  | nil => simp [occursIn]
  | cons c text ih => simp [occursIn, ih, List.infix_cons_iff]

/-- An infix without this character lies before it or after it. -/
theorem infix_around {phrase before after : List Char} {c : Char} (hc : c ∉ phrase) :
    phrase <:+: before ++ c :: after ↔ phrase <:+: before ∨ phrase <:+: after := by
  constructor
  · intro h
    rcases List.infix_append_iff.mp h with hbefore | hafter | ⟨first, rest, rfl, hfirst, hrest⟩
    · exact .inl hbefore
    · rcases List.infix_cons_iff.mp hafter with hprefix | hinfix
      · rcases List.prefix_cons_iff.mp hprefix with rfl | ⟨rest, rfl, -⟩
        · exact .inr List.nil_infix
        · simp at hc
      · exact .inr hinfix
    · rcases List.prefix_cons_iff.mp hrest with rfl | ⟨rest, rfl, -⟩
      · rw [List.append_nil]
        exact .inl hfirst.isInfix
      · simp at hc
  · rintro (hbefore | hafter)
    · exact hbefore.trans (List.prefix_append before _).isInfix
    · have hsuffix : after <:+ before ++ c :: after :=
        (List.suffix_cons c after).trans (List.suffix_append before _)
      exact hafter.trans hsuffix.isInfix

/-- An infix lies on one side of a barrier of characters that it does not have. -/
theorem infix_around_barrier {phrase before barrier after : List Char} (hne : barrier ≠ [])
    (h : ∀ c ∈ barrier, c ∉ phrase) :
    phrase <:+: before ++ (barrier ++ after) ↔ phrase <:+: before ∨ phrase <:+: after := by
  induction barrier generalizing before with
  | nil => contradiction
  | cons c barrier ih =>
      obtain ⟨hc, hbarrier⟩ := List.forall_mem_cons.mp h
      rw [List.cons_append, infix_around hc]
      cases barrier with
      | nil => rfl
      | cons d barrier =>
          have hrest : phrase <:+: [] ++ (d :: barrier ++ after) ↔
              phrase <:+: [] ∨ phrase <:+: after := ih (List.cons_ne_nil d barrier) hbarrier
          rw [List.nil_append] at hrest
          rw [hrest]
          constructor
          · rintro (hbefore | hnil | hafter)
            · exact .inl hbefore
            · exact .inl (hnil.trans List.nil_infix)
            · exact .inr hafter
          · rintro (hbefore | hafter)
            · exact .inl hbefore
            · exact .inr (.inr hafter)

/-! ## Phrases -/

/-- The characters of phrases. -/
def PhraseCharacter (c : Char) : Prop := c = ' ' ∨ c.isLower = true

instance (c : Char) : Decidable (PhraseCharacter c) :=
  inferInstanceAs (Decidable (c = ' ' ∨ c.isLower = true))

theorem phraseCharacter_of_mem {phrase : String × Category} (h : phrase ∈ phrases) :
    ∀ c ∈ phrase.1.toList, PhraseCharacter c := by
  have hall : ∀ phrase ∈ phrases, ∀ c ∈ phrase.1.toList, PhraseCharacter c := by decide
  exact hall phrase h

theorem space_mem_phrase {phrase : String × Category} (h : phrase ∈ phrases) :
    ' ' ∈ phrase.1.toList := by
  have hall : ∀ phrase ∈ phrases, ' ' ∈ phrase.1.toList := by decide
  exact hall phrase h

/-- A text as it is searched. -/
def lowered (text : List Char) : List Char := text.map Char.toLower

@[simp] theorem lowered_append (first rest : List Char) :
    lowered (first ++ rest) = lowered first ++ lowered rest := List.map_append

@[simp] theorem lowered_cons (c : Char) (text : List Char) :
    lowered (c :: text) = c.toLower :: lowered text := rfl

/-- A phrase that is searched occurs in a text. -/
def Tells (text : List Char) (phrase : String × Category) : Prop :=
  phrase.1.toList <:+: lowered text

instance (text : List Char) (phrase : String × Category) : Decidable (Tells text phrase) :=
  inferInstanceAs (Decidable (phrase.1.toList <:+: lowered text))

/-- Texts that tell the same phrases are sorted alike. -/
theorem ofMessage?_congr {first second : String}
    (h : ∀ phrase ∈ phrases, Tells first.toList phrase ↔ Tells second.toList phrase) :
    ofMessage? first = ofMessage? second := by
  unfold ofMessage?
  apply congrArg (Option.map Prod.snd)
  apply List.find?_congr
  intro phrase hphrase
  rw [Bool.eq_iff_iff, occursIn_iff, occursIn_iff]
  exact h phrase hphrase

/-- Digits are a barrier to every phrase. -/
theorem not_phraseCharacter_of_digit {c : Char} (h : c.isDigit = true) :
    ¬PhraseCharacter c.toLower := by
  simp only [Char.isDigit, Bool.and_eq_true, decide_eq_true_eq] at h
  have hlower : c.toLower = c := by
    unfold Char.toLower
    apply dif_neg
    intro hupper
    exact absurd (UInt32.le_trans hupper.1 h.2) (by decide)
  rw [hlower]
  rintro (rfl | hletter)
  · exact absurd h.1 (by decide)
  · change (decide ('a'.val ≤ c.val) && decide (c.val ≤ 'z'.val)) = true at hletter
    simp only [decide_eq_true_eq, Bool.and_eq_true] at hletter
    exact absurd (UInt32.le_trans hletter.1 h.2) (by decide)

theorem not_mem_phrase_of_digits {phrase : String × Category} (h : phrase ∈ phrases) (n : ℕ) :
    ∀ c ∈ lowered (Nat.toDigits 10 n), c ∉ phrase.1.toList := by
  intro c hc hmem
  obtain ⟨d, hd, rfl⟩ := List.mem_map.mp hc
  have hdigit := Nat.isDigit_of_mem_toDigits (by decide) (by decide) hd
  exact not_phraseCharacter_of_digit hdigit (phraseCharacter_of_mem h _ hmem)

theorem lowered_digits_ne_nil (n : ℕ) : lowered (Nat.toDigits 10 n) ≠ [] := fun h =>
  Nat.toDigits_ne_nil (List.map_eq_nil_iff.mp h)

theorem not_tells_nil {phrase : String × Category} (h : phrase ∈ phrases) :
    ¬Tells [] phrase := fun htells => by
  have hnil := List.infix_nil.mp htells
  have hspace := space_mem_phrase h
  rw [hnil] at hspace
  exact List.not_mem_nil hspace

/-- A character that stands in no phrase parts the text. -/
theorem tells_around {phrase : String × Category} (h : phrase ∈ phrases)
    (before after : List Char) {c : Char} (hc : ¬PhraseCharacter c.toLower) :
    Tells (before ++ c :: after) phrase ↔ Tells before phrase ∨ Tells after phrase := by
  unfold Tells
  rw [lowered_append, lowered_cons]
  exact infix_around fun hmem => hc (phraseCharacter_of_mem h _ hmem)

/-- A number in a message neither tells a phrase nor hides one. -/
theorem tells_around_digits {phrase : String × Category} (h : phrase ∈ phrases)
    (before after : List Char) (n : ℕ) :
    Tells (before ++ (Nat.toDigits 10 n ++ after)) phrase ↔
      Tells before phrase ∨ Tells after phrase := by
  unfold Tells
  rw [lowered_append, lowered_append]
  exact infix_around_barrier (lowered_digits_ne_nil n) (not_mem_phrase_of_digits h n)

/-- Between two barriers, and with nothing to tell outside, only the inside counts. -/
theorem tells_enclosed {phrase : String × Category} (h : phrase ∈ phrases)
    {before after : List Char} (hbefore : ¬Tells before phrase) (hafter : ¬Tells after phrase)
    {c : Char} (hc : ¬PhraseCharacter c.toLower) (inside : List Char) :
    Tells (before ++ c :: (inside ++ c :: after)) phrase ↔ Tells inside phrase := by
  rw [tells_around h _ _ hc, tells_around h _ _ hc]
  simp only [hbefore, hafter, false_or, or_false]

/-- The phrases of a message are those of its cause, up to where the first number of the
place begins. -/
theorem tells_message {phrase : String × Category} (h : phrase ∈ phrases) (fault : Fault)
    (input : Octets) :
    Tells (fault.message input).toList phrase ↔
      Tells (fault.cause.message ++ " at line ").toList phrase := by
  have hcolumn : ¬Tells " column ".toList phrase := by
    have hall : ∀ phrase ∈ phrases, ¬Tells " column ".toList phrase := by decide
    exact hall phrase h
  have hmessage : (fault.message input).toList =
      (fault.cause.message ++ " at line ").toList ++
        (Nat.toDigits 10 (fault.position input).line ++ (" column ".toList ++
          (Nat.toDigits 10 (fault.position input).column ++ []))) := by
    simp [Fault.message, Position.message, Nat.repr]
  rw [hmessage, tells_around_digits h, tells_around_digits h]
  simp only [hcolumn, not_tells_nil h, or_false]

end Category
end JsonReport
