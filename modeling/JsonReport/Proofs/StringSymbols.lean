import JsonReport.Proofs.StringReading
import Mathlib.Tactic

/-!
# Symbols of a string

By the letter of the grammar an escape by code point is a symbol of its own, whatever its
number, and a string is a run of symbols.  A run in which every surrogate belongs to a
pair is written in the same ways as a text; a run with a lone surrogate denotes no text.
-/

namespace JsonReport

open Utf8
open Spelling

/-- What the grammar knows inside a string: a character, raw or by a letter escape, and
an escape by code point. -/
inductive Symbol where
  | character (c : Char)
  | code (n : ℕ)

inductive Symbol.Spelled : Symbol → List Char → Prop where
  | plain {c : Char} : Plain c → Spelled (.character c) [c]
  | short {letter c : Char} :
      (letter, c) ∈ shortEscapes → Spelled (.character c) ['\\', letter]
  | code {n : ℕ} {w : List Char} : HexCode n w → Spelled (.code n) ('\\' :: 'u' :: w)

def Symbol.IsSurrogate : Symbol → Prop
  | .character _ => False
  | .code n => HighSurrogate n ∨ LowSurrogate n

/-- Every surrogate of a string is part of a pair of a high one and a low one. -/
inductive PairedSurrogates : List Symbol → Prop where
  | nil : PairedSurrogates []
  | other {symbol : Symbol} {rest : List Symbol} :
      ¬symbol.IsSurrogate → PairedSurrogates rest → PairedSurrogates (symbol :: rest)
  | pair {high low : ℕ} {rest : List Symbol} :
      HighSurrogate high → LowSurrogate low → PairedSurrogates rest →
        PairedSurrogates (.code high :: .code low :: rest)

theorem run_append {α : Type} {one : α → List Char → Prop} {as bs : List α}
    {w ws : List Char} (ha : Run one as w) (hb : Run one bs ws) :
    Run one (as ++ bs) (w ++ ws) := by
  induction ha with
  | nil => exact hb
  | cons hone _ ih =>
      rw [List.cons_append, List.append_assoc]
      exact .cons hone ih

theorem symbols_of_character {c : Char} {w : List Char} (h : Character c w) :
    ∃ symbols, Run Symbol.Spelled symbols w ∧
      ∀ rest, PairedSurrogates rest → PairedSurrogates (symbols ++ rest) := by
  have hsingle : ∀ {symbol w}, Symbol.Spelled symbol w →
      Run Symbol.Spelled [symbol] w := by
    intro symbol w hsymbol
    have hrun := Run.cons hsymbol Run.nil
    rwa [List.append_nil] at hrun
  cases h with
  | plain hplain =>
      exact ⟨_, hsingle (.plain hplain), fun _ hrest => .other not_false hrest⟩
  | short hmem => exact ⟨_, hsingle (.short hmem), fun _ hrest => .other not_false hrest⟩
  | code hcode =>
      obtain ⟨hhigh, hlow⟩ := not_surrogate c
      exact ⟨_, hsingle (.code hcode),
        fun _ hrest => .other (not_or.mpr ⟨hhigh, hlow⟩) hrest⟩
  | pair hhigh hlow _ hw hw' =>
      exact ⟨_, Run.cons (.code hw) (hsingle (.code hw')),
        fun _ hrest => .pair hhigh hlow hrest⟩

theorem symbols_of_run {text w : List Char} (h : Run Character text w) :
    ∃ symbols, Run Symbol.Spelled symbols w ∧ PairedSurrogates symbols := by
  induction h with
  | nil => exact ⟨[], .nil, .nil⟩
  | cons hc _ ih =>
      obtain ⟨first, hfirst, hpaired⟩ := symbols_of_character hc
      obtain ⟨rest, hrest, hrestPaired⟩ := ih
      exact ⟨first ++ rest, run_append hfirst hrest, hpaired rest hrestPaired⟩

theorem run_of_symbols {symbols : List Symbol} (hpaired : PairedSurrogates symbols)
    {w : List Char} (h : Run Symbol.Spelled symbols w) : ∃ text, Run Character text w := by
  induction hpaired generalizing w with
  | nil =>
      cases h
      exact ⟨[], .nil⟩
  | @other symbol rest hsurrogate _ ih =>
      cases h with
      | cons hfirst hrest =>
          obtain ⟨text, htext⟩ := ih hrest
          cases hfirst with
          | plain hplain => exact ⟨_, .cons (.plain hplain) htext⟩
          | short hmem => exact ⟨_, .cons (.short hmem) htext⟩
          | @code n _ hcode =>
              obtain ⟨hhigh, hlow⟩ := not_or.mp hsurrogate
              have hchar := toNat_ofNat_of_not_surrogate (hexCode_lt hcode) hlow hhigh
              rw [← hchar] at hcode
              exact ⟨_, .cons (.code hcode) htext⟩
  | @pair high low rest hhigh hlow _ ih =>
      cases h with
      | cons hfirst hrest =>
          cases hrest with
          | cons hsecond hrest =>
              obtain ⟨text, htext⟩ := ih hrest
              cases hfirst with
              | code hw =>
                  cases hsecond with
                  | code hw' =>
                      have hchar := toNat_ofNat_pairCode hhigh hlow
                      have hboth := Run.cons (Character.pair hhigh hlow hchar hw hw') htext
                      refine ⟨Char.ofNat (pairCode high low) :: text, ?_⟩
                      simpa only [List.append_assoc, List.cons_append] using hboth

end JsonReport
