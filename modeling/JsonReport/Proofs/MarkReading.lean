import JsonReport.Json.Reader
import JsonReport.Proofs.CharacterEncoding
import JsonReport.Proofs.DocumentGrammar
import Mathlib.Tactic

/-!
# Marks, words and what a reading does

Every reader is described by two kinds of statement.  On a text that the grammar writes
it yields what was written and leaves what follows; and where it yields something, a
text of the grammar stood there.  This file fixes the vocabulary and treats the readers
between the tokens: white space, the marks of containers, the colon and the words.
-/

namespace JsonReport

open Utf8
open Spelling

namespace Reading

variable {s : Octets} {α : Type}

/-- A reading yields this value and leaves this text. -/
def Yields (reading : Reading s α) (value : α) (rest : Octets) : Prop :=
  ∃ shorter, reading = .ok ⟨value, rest, shorter⟩

def Fails (reading : Reading s α) : Prop := ∃ fault, reading = .error fault

/-- A reading is refused for this cause. -/
def FailsFor (reading : Reading s α) (cause : Cause) : Prop :=
  ∃ fault, reading = .error fault ∧ fault.cause = cause

end Reading

/-- The first mark of a text. -/
def Begins (b : UInt8) (s : Octets) : Prop :=
  ∃ r shorter, nextMark s = some ⟨b, r, shorter⟩

/-! ## White space -/

theorem isBlank_ascii {c : Char} (hc : c = ' ' ∨ c = '\t' ∨ c = '\n' ∨ c = '\r') :
    isBlank (ascii c) = true ∧ c.toNat < 128 := by
  rcases hc with rfl | rfl | rfl | rfl <;> decide

theorem exists_blank_of_isBlank {b : UInt8} (hb : isBlank b = true) :
    ∃ c, (c = ' ' ∨ c = '\t' ∨ c = '\n' ∨ c = '\r') ∧ b = ascii c := by
  simp only [isBlank, Bool.or_eq_true, decide_eq_true_eq] at hb
  rcases hb with ((rfl | rfl) | rfl) | rfl
  · exact ⟨' ', .inl rfl, rfl⟩
  · exact ⟨'\t', .inr (.inl rfl), rfl⟩
  · exact ⟨'\n', .inr (.inr (.inl rfl)), rfl⟩
  · exact ⟨'\r', .inr (.inr (.inr rfl)), rfl⟩

theorem blank_nil : Blank [] := fun _ h => absurd h List.not_mem_nil

theorem blank_cons {c : Char} {w : List Char} (hc : c = ' ' ∨ c = '\t' ∨ c = '\n' ∨ c = '\r')
    (hw : Blank w) : Blank (c :: w) := List.forall_mem_cons.mpr ⟨hc, hw⟩

theorem nextMark_of_blank {w : List Char} (hw : Blank w) {b : UInt8}
    (hmark : isBlank b = false) (r : Octets) :
    ∃ shorter, nextMark (octets w ++ b :: r) = some ⟨b, r, shorter⟩ := by
  induction w with
  | nil =>
      rw [octets_nil, List.nil_append]
      refine ⟨Nat.lt_succ_self _, ?_⟩
      rw [nextMark, hmark]
      rfl
  | cons c w ih =>
      obtain ⟨hc, hw⟩ := List.forall_mem_cons.mp hw
      obtain ⟨hblank, hascii⟩ := isBlank_ascii hc
      obtain ⟨shorter, hrest⟩ := ih hw
      rw [octets_cons_ascii hascii, List.cons_append]
      refine ⟨Nat.lt_succ_of_lt shorter, ?_⟩
      rw [nextMark, hblank, if_pos rfl, hrest]
      rfl

theorem nextMark_of_only_blank {w : List Char} (hw : Blank w) :
    nextMark (octets w) = none := by
  induction w with
  | nil => rfl
  | cons c w ih =>
      obtain ⟨hc, hw⟩ := List.forall_mem_cons.mp hw
      obtain ⟨hblank, hascii⟩ := isBlank_ascii hc
      rw [octets_cons_ascii hascii, nextMark, hblank, if_pos rfl, ih hw]
      rfl

theorem blank_of_nextMark_eq_some {s : Octets} {mark : Taken s UInt8}
    (h : nextMark s = some mark) :
    ∃ w, Blank w ∧ s = octets w ++ mark.value :: mark.rest := by
  induction s with
  | nil => simp [nextMark] at h
  | cons b s ih =>
      rw [nextMark] at h
      split at h
      · next hb =>
          obtain ⟨inner, hinner, rfl⟩ := Option.map_eq_some_iff.mp h
          obtain ⟨w, hw, hs⟩ := ih hinner
          obtain ⟨c, hc, rfl⟩ := exists_blank_of_isBlank hb
          refine ⟨c :: w, blank_cons hc hw, ?_⟩
          rw [octets_cons_ascii (isBlank_ascii hc).2]
          exact congrArg (ascii c :: ·) hs
      · injection h with h
        subst h
        exact ⟨[], blank_nil, rfl⟩

theorem blank_of_nextMark_eq_none {s : Octets} (h : nextMark s = none) :
    ∃ w, Blank w ∧ s = octets w := by
  induction s with
  | nil => exact ⟨[], blank_nil, rfl⟩
  | cons b s ih =>
      rw [nextMark] at h
      split at h
      · next hb =>
          obtain ⟨w, hw, hs⟩ := ih (Option.map_eq_none_iff.mp h)
          obtain ⟨c, hc, rfl⟩ := exists_blank_of_isBlank hb
          refine ⟨c :: w, blank_cons hc hw, ?_⟩
          rw [octets_cons_ascii (isBlank_ascii hc).2, hs]
      · cases h

theorem begins_of_blank {w : List Char} (hw : Blank w) {b : UInt8}
    (hmark : isBlank b = false) (r : Octets) : Begins b (octets w ++ b :: r) :=
  ⟨r, nextMark_of_blank hw hmark r⟩

theorem isBlank_of_opening? {b : UInt8} {opening : Opening}
    (h : opening? b = some opening) : isBlank b = false := by
  by_contra hb
  obtain ⟨c, hc, rfl⟩ := exists_blank_of_isBlank (by simpa using hb)
  have hnone : opening? (ascii c) = none := by
    rcases hc with rfl | rfl | rfl | rfl <;> decide
  rw [hnone] at h
  cases h

/-! ## The marks of containers -/

namespace Container

theorem isBlank_close (container : Container) : isBlank container.close = false := by
  cases container <;> decide

theorem close_ne_comma (container : Container) : ascii ',' ≠ container.close := by
  cases container <;> decide

theorem ne_close_of_opening? {b : UInt8} {opening : Opening} (container : Container)
    (h : opening? b = some opening) : b ≠ container.close := by
  rintro rfl
  have hnone : opening? container.close = none := by cases container <;> decide
  rw [hnone] at h
  cases h

theorem endsAtOnce_of_blank (container : Container) {w : List Char} (hw : Blank w)
    (rest : Octets) :
    ∃ shorter, container.endsAtOnce (octets w ++ container.close :: rest) =
      .ok (some ⟨(), rest, shorter⟩) := by
  obtain ⟨shorter, hmark⟩ := nextMark_of_blank hw container.isBlank_close rest
  refine ⟨shorter, ?_⟩
  simp only [endsAtOnce, hmark, if_true]
  rfl

theorem endsAtOnce_of_begins {container : Container} {b : UInt8} {s : Octets}
    (hs : Begins b s) (hb : b ≠ container.close) : container.endsAtOnce s = .ok none := by
  obtain ⟨r, shorter, hmark⟩ := hs
  simp only [endsAtOnce, hmark, hb, if_false]

theorem blank_of_endsAtOnce {container : Container} {s : Octets} {closed : Taken s Unit}
    (h : container.endsAtOnce s = .ok (some closed)) :
    ∃ w, Blank w ∧ s = octets w ++ container.close :: closed.rest := by
  rw [endsAtOnce] at h
  split at h
  · cases h
  · next mark hmark =>
      injection h with h
      split at h
      · next hclose =>
          injection h with h
          subst h
          obtain ⟨w, hw, hs⟩ := blank_of_nextMark_eq_some hmark
          exact ⟨w, hw, hclose ▸ hs⟩
      · cases h

theorem afterItem_close (container : Container) {w : List Char} (hw : Blank w)
    (rest : Octets) :
    (container.afterItem (octets w ++ container.close :: rest)).Yields .close rest := by
  obtain ⟨shorter, hmark⟩ := nextMark_of_blank hw container.isBlank_close rest
  refine ⟨shorter, ?_⟩
  simp only [afterItem, hmark, if_true]
  rfl

theorem afterItem_comma (container : Container) {w : List Char} (hw : Blank w)
    (rest : Octets) :
    (container.afterItem (octets w ++ ascii ',' :: rest)).Yields .comma rest := by
  obtain ⟨shorter, hmark⟩ :=
    nextMark_of_blank hw (show isBlank (ascii ',') = false by decide) rest
  refine ⟨shorter, ?_⟩
  simp only [afterItem, hmark, container.close_ne_comma, if_false, if_true, Taken.map]

theorem refuseEnd_of_begins {container : Container} {b : UInt8} {s : Octets}
    (hs : Begins b s) (hb : b ≠ container.close) : container.refuseEnd s = .ok () := by
  obtain ⟨r, shorter, hmark⟩ := hs
  simp only [refuseEnd, hmark, hb, if_false]

theorem afterItemStrict_close (container : Container) {w : List Char} (hw : Blank w)
    (rest : Octets) :
    (container.afterItemStrict (octets w ++ container.close :: rest)).Yields
      .close rest := by
  obtain ⟨shorter, hnext⟩ := container.afterItem_close hw rest
  refine ⟨shorter, ?_⟩
  simp only [afterItemStrict, hnext]

theorem afterItemStrict_comma {container : Container} {w : List Char} (hw : Blank w)
    {rest : Octets} {b : UInt8} (hrest : Begins b rest) (hb : b ≠ container.close) :
    (container.afterItemStrict (octets w ++ ascii ',' :: rest)).Yields .comma rest := by
  obtain ⟨shorter, hnext⟩ := container.afterItem_comma hw rest
  refine ⟨shorter, ?_⟩
  simp only [afterItemStrict, hnext, refuseEnd_of_begins hrest hb]

theorem afterItem_sound {container : Container} {s : Octets}
    {next : Taken s Continuation} (h : container.afterItem s = .ok next) :
    ∃ w, Blank w ∧
      (next.value = .close ∧ s = octets w ++ container.close :: next.rest ∨
        next.value = .comma ∧ s = octets w ++ ascii ',' :: next.rest) := by
  rw [afterItem] at h
  split at h
  · cases h
  · next mark hmark =>
      obtain ⟨w, hw, hs⟩ := blank_of_nextMark_eq_some hmark
      refine ⟨w, hw, ?_⟩
      split at h
      · next hclose =>
          injection h with h
          subst h
          exact .inl ⟨rfl, hclose ▸ hs⟩
      · split at h
        · next hcomma =>
            injection h with h
            subst h
            exact .inr ⟨rfl, hcomma ▸ hs⟩
        · cases h

/-- What goes on strictly goes on. -/
theorem afterItem_of_strict {container : Container} {s : Octets}
    {next : Taken s Continuation} (h : container.afterItemStrict s = .ok next) :
    container.afterItem s = .ok next := by
  rw [afterItemStrict] at h
  split at h
  · cases h
  · next loose hloose =>
      have hnext : loose = next := by
        split at h
        · exact Except.ok.inj h
        · split at h
          · cases h
          · exact Except.ok.inj h
      exact hnext ▸ hloose

end Container

theorem readColon_of_blank {w : List Char} (hw : Blank w) (rest : Octets) :
    (readColon (octets w ++ ascii ':' :: rest)).Yields () rest := by
  obtain ⟨shorter, hmark⟩ :=
    nextMark_of_blank hw (show isBlank (ascii ':') = false by decide) rest
  refine ⟨shorter, ?_⟩
  simp only [readColon, hmark, if_true]
  rfl

theorem blank_of_readColon {s : Octets} {colon : Taken s Unit}
    (h : readColon s = .ok colon) :
    ∃ w, Blank w ∧ s = octets w ++ ascii ':' :: colon.rest := by
  rw [readColon] at h
  split at h
  · cases h
  · next mark hmark =>
      split at h
      · next hcolon =>
          injection h with h
          subst h
          obtain ⟨w, hw, hs⟩ := blank_of_nextMark_eq_some hmark
          exact ⟨w, hw, hcolon ▸ hs⟩
      · cases h

/-! ## Words -/

theorem readLetters_append {letters : List Char} (hascii : letters.all (·.toNat < 128) = true)
    (rest : Octets) : readLetters letters (octets letters ++ rest) = .ok rest := by
  induction letters with
  | nil => rfl
  | cons c letters ih =>
      rw [List.all_cons, Bool.and_eq_true, decide_eq_true_eq] at hascii
      obtain ⟨hc, hletters⟩ := hascii
      rw [octets_cons_ascii hc, List.cons_append, readLetters, if_pos rfl, ih hletters]

theorem readLetters_sound {letters : List Char} (hascii : letters.all (·.toNat < 128) = true)
    {s rest : Octets} (h : readLetters letters s = .ok rest) :
    s = octets letters ++ rest := by
  induction letters generalizing s with
  | nil =>
      simp only [readLetters, Except.ok.injEq] at h
      simpa using h
  | cons c letters ih =>
      rw [List.all_cons, Bool.and_eq_true, decide_eq_true_eq] at hascii
      obtain ⟨hc, hletters⟩ := hascii
      cases s with
      | nil => simp [readLetters] at h
      | cons b s =>
          rw [readLetters] at h
          split at h
          · next hb =>
              rw [octets_cons_ascii hc, List.cons_append, ← ih hletters h, hb]
          · cases h

theorem readWord_append {α : Type} (letters : List Char) (meaning : α)
    (hascii : letters.all (·.toNat < 128) = true) (b : UInt8) (rest : Octets) :
    (readWord letters meaning b (octets letters ++ rest)).Yields meaning rest := by
  unfold readWord
  split
  · next hletters =>
      rw [readLetters_append hascii] at hletters
      cases hletters
  · next hletters =>
      rw [readLetters_append hascii, Except.ok.injEq] at hletters
      subst hletters
      exact ⟨_, rfl⟩

theorem readWord_sound {α : Type} {letters : List Char} {meaning : α}
    (hascii : letters.all (·.toNat < 128) = true) {b : UInt8} {r : Octets}
    {word : Taken (b :: r) α} (h : readWord letters meaning b r = .ok word) :
    r = octets letters ++ word.rest ∧ word.value = meaning := by
  unfold readWord at h
  split at h
  · cases h
  · next hletters =>
      injection h with h
      subst h
      exact ⟨readLetters_sound hascii hletters, rfl⟩

end JsonReport
