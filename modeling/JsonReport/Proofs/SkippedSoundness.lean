import JsonReport.Proofs.SkippedDocuments
import JsonReport.Proofs.StandingDocuments
import Mathlib.Tactic

/-!
# What was passed over was written

Where the skipper passes over something, octets of the grammar stood there.  Nothing is
said of their depth, of their numbers or of their surrogates, nor that the octets of their
strings encode anything.

The skipper takes the white space after an item together with the mark behind it, so an item
is said to stand somewhere if it does so with any white space one likes after it.
-/

namespace JsonReport

open Utf8
open Spelling

/-! ## Strings -/

theorem skipEscape_sound {s rest : Octets} (h : skipEscape s = .ok rest) :
    ∃ symbol w, Symbol.Spelled symbol ('\\' :: w) ∧ s = octets w ++ rest := by
  cases s with
  | nil => cases h
  | cons b r =>
      rw [skipEscape] at h
      split at h
      · next hletter =>
          injection h with h
          subst h
          obtain ⟨c, hc⟩ := Option.isSome_iff_exists.mp hletter
          obtain ⟨letter, hmem, rfl⟩ := exists_mem_of_letterEscape? hc
          refine ⟨.character c, [letter], .short hmem, ?_⟩
          rw [octets_cons_ascii (letterEscape?_of_mem hmem).2]
          rfl
      · split at h
        · next hu =>
            cases hhex : readHex r with
            | error fault =>
                rw [hhex] at h
                cases h
            | ok code =>
                obtain ⟨n, r'⟩ := code
                rw [hhex] at h
                injection h with h
                subst h
                obtain ⟨w, hw, rfl⟩ := readHex_sound hhex
                refine ⟨.code n, 'u' :: w, .code hw, ?_⟩
                rw [octets_cons_ascii (by decide), hu]
                rfl
        · cases h

theorem skipString_escape_sound {r : Octets} {skipped : Taken (ascii '\\' :: r) Unit}
    (h : skipString (ascii '\\' :: r) = .ok skipped) :
    ∃ symbol w r', ∃ inner : Taken r' Unit, Symbol.Spelled symbol ('\\' :: w) ∧
      ascii '\\' :: r = octets ('\\' :: w) ++ r' ∧ r'.length < r.length ∧
      skipString r' = .ok inner ∧ skipped.rest = inner.rest := by
  rw [skipString, if_neg (by decide), if_pos rfl] at h
  split at h
  · cases h
  · next r' hescape =>
      split at h
      · cases h
      · next inner hinner =>
          injection h with h
          subst h
          obtain ⟨symbol, w, hw, hr⟩ := skipEscape_sound hescape
          refine ⟨symbol, w, r', inner, hw, ?_, skipEscape_length hescape, hinner, rfl⟩
          rw [octets_cons_ascii (by decide), List.cons_append, ← hr]

theorem skipString_sound {s : Octets} {skipped : Taken s Unit}
    (h : skipString s = .ok skipped) :
    ∃ v, StringOctets v ∧ s = v ++ ascii '"' :: skipped.rest := by
  induction hlength : s.length using Nat.strong_induction_on generalizing s with
  | _ n ih =>
    cases s with
    | nil =>
        rw [skipString] at h
        cases h
    | cons b r =>
        have hshorter : r.length < n := hlength ▸ Nat.lt_succ_self _
        by_cases hquote : b = ascii '"'
        · rw [skipString, if_pos hquote] at h
          injection h with h
          subst h
          exact ⟨[], .nil, congrArg (· :: r) hquote⟩
        · by_cases hbackslash : b = ascii '\\'
          · subst hbackslash
            obtain ⟨symbol, w, r', inner, hw, hsplit, hr', hinner, hrest⟩ :=
              skipString_escape_sound h
            obtain ⟨v, hv, hsplit'⟩ := ih _ (Nat.lt_trans hr' hshorter) hinner rfl
            refine ⟨_, .escape hw hv, ?_⟩
            rw [hrest, List.append_assoc, ← hsplit', hsplit]
          · rw [skipString, if_neg hquote, if_neg hbackslash] at h
            split at h
            · cases h
            · next hcontrol =>
                split at h
                · cases h
                · next inner hinner =>
                    injection h with h
                    subst h
                    obtain ⟨v, hv, hr⟩ := ih _ hshorter hinner rfl
                    exact ⟨b :: v, .plain ⟨hquote, hbackslash, hcontrol⟩ hv,
                      congrArg (b :: ·) hr⟩

/-! ## Scalars and keys -/

theorem skipScalar_sound {kind : Scalar} {b : UInt8} {r : Octets}
    (hopening : opening? b = some (.scalar kind)) {skipped : Taken (b :: r) Unit}
    (h : skipScalar kind b r = .ok skipped) :
    ∃ v, ValueOctets v ∧ b :: r = v ++ skipped.rest := by
  cases kind with
  | null =>
      obtain rfl : b = ascii 'n' := eq_mark_of_opening? hopening rfl
      obtain ⟨hr, -⟩ := readWord_sound rfl h
      exact ⟨_, .null, congrArg (ascii 'n' :: ·) hr⟩
  | true =>
      obtain rfl : b = ascii 't' := eq_mark_of_opening? hopening rfl
      obtain ⟨hr, -⟩ := readWord_sound rfl h
      exact ⟨_, .true, congrArg (ascii 't' :: ·) hr⟩
  | false =>
      obtain rfl : b = ascii 'f' := eq_mark_of_opening? hopening rfl
      obtain ⟨hr, -⟩ := readWord_sound rfl h
      exact ⟨_, .false, congrArg (ascii 'f' :: ·) hr⟩
  | minus =>
      obtain rfl : b = ascii '-' := eq_mark_of_opening? hopening rfl
      simp only [skipScalar] at h
      split at h
      · cases h
      · next literal hliteral =>
          injection h with h
          subst h
          obtain ⟨w, hw, hsign, hr⟩ := readLiteral_sound hliteral
          exact ⟨_, .number (.negative hsign hw), congrArg (ascii '-' :: ·) hr⟩
  | digit =>
      simp only [skipScalar] at h
      split at h
      · cases h
      · next literal hliteral =>
          injection h with h
          subst h
          obtain ⟨w, hw, hsign, hr⟩ := readLiteral_sound hliteral
          exact ⟨_, .number (.positive hsign hw), hr⟩
  | quote =>
      obtain rfl : b = ascii '"' := eq_mark_of_opening? hopening rfl
      simp only [skipScalar] at h
      split at h
      · cases h
      · next inner hinner =>
          injection h with h
          subst h
          obtain ⟨v, hv, hr⟩ := skipString_sound hinner
          refine ⟨_, .string (.quotes hv), ?_⟩
          rw [List.cons_append, List.append_assoc]
          exact congrArg (ascii '"' :: ·) hr

/-- A key and the colon after it were passed over. -/
def KeyPassed (s rest : Octets) : Prop :=
  ∃ before k after, Blank before ∧ QuotedOctets k ∧ Blank after ∧
    s = octets before ++ (k ++ (octets after ++ ascii ':' :: rest))

theorem skipKey_sound {s : Octets} {skipped : Taken s Unit} (h : skipKey s = .ok skipped) :
    KeyPassed s skipped.rest := by
  rw [skipKey] at h
  split at h
  · cases h
  · next mark hmark =>
      obtain ⟨before, hbefore, hsplit⟩ := blank_of_nextMark_eq_some hmark
      split at h
      · next hquote =>
          rw [hquote] at hsplit
          split at h
          · cases h
          · next key hkey =>
              split at h
              · cases h
              · next colon hcolon =>
                  injection h with h
                  subst h
                  obtain ⟨k, hk, hkeyRest⟩ := skipString_sound hkey
                  obtain ⟨after, hafter, hcolonRest⟩ := blank_of_readColon hcolon
                  refine ⟨before, _, after, hbefore, .quotes hk, hafter, ?_⟩
                  rw [List.cons_append, List.append_assoc]
                  have hrest : mark.rest =
                      k ++ ascii '"' :: (octets after ++ ascii ':' :: colon.rest) :=
                    hcolonRest ▸ hkeyRest
                  exact hsplit.trans (congrArg (octets before ++ ascii '"' :: ·) hrest)
      · cases h

/-! ## Items -/

/-- White space and a value were passed over. -/
def ValuePassed (s rest : Octets) : Prop :=
  ∃ before v, Blank before ∧ ValueOctets v ∧ s = octets before ++ (v ++ rest)

/-- An item was passed over, whatever white space comes after it. -/
def ItemPassed (container : Container) (s rest : Octets) : Prop :=
  ∃ v, s = v ++ rest ∧ ∀ after, Blank after → ItemOctets container (v ++ octets after)

/-- The items of a container and the mark that closes it were passed over. -/
def ItemsPassed (container : Container) (s rest : Octets) : Prop :=
  ∃ v, ItemsOctets container v ∧ s = v ++ container.close :: rest

section Steps

variable {container : Container} {s r r' rest : Octets} {before after : List Char} {b : UInt8}

theorem ValuePassed.element (h : ValuePassed s rest) :
    ∃ v, s = v ++ rest ∧ ∀ after, Blank after → ElementOctets (v ++ octets after) := by
  obtain ⟨before, v, hbefore, hv, rfl⟩ := h
  exact ⟨octets before ++ v, (List.append_assoc _ _ _).symm,
    fun after hafter => .padded hbefore hv hafter⟩

theorem ValuePassed.item (h : ValuePassed s rest) : ItemPassed .array s rest := by
  obtain ⟨v, hs, hv⟩ := h.element
  exact ⟨v, hs, fun after hafter => .element (hv after hafter)⟩

theorem KeyPassed.item (hkey : KeyPassed s r) (h : ValuePassed r rest) :
    ItemPassed .object s rest := by
  obtain ⟨before, k, afterKey, hbefore, hk, hafterKey, rfl⟩ := hkey
  obtain ⟨v, rfl, hv⟩ := h.element
  refine ⟨_, (memberOctets_append before afterKey k v rest).symm, ?_⟩
  intro after hafter
  rw [List.append_assoc, List.cons_append]
  exact .member hbefore hk hafterKey (hv after hafter)

theorem ItemPassed.last (h : ItemPassed container s r) (hafter : Blank after)
    (hr : r = octets after ++ container.close :: rest) : ItemsPassed container s rest := by
  obtain ⟨v, hs, hv⟩ := h
  refine ⟨_, .last (hv after hafter), ?_⟩
  rw [List.append_assoc, ← hr, hs]

theorem ItemPassed.more (h : ItemPassed container s r) (hafter : Blank after)
    (hr : r = octets after ++ ascii ',' :: r') (hmore : ItemsPassed container r' rest) :
    ItemsPassed container s rest := by
  obtain ⟨v, hs, hv⟩ := h
  obtain ⟨t, ht, hr'⟩ := hmore
  refine ⟨_, .more (hv after hafter) ht, ?_⟩
  rw [List.append_assoc, List.cons_append, ← hr', List.append_assoc, ← hr, hs]

theorem ItemsOctets.enclosed {v : Octets} (h : ItemsOctets container v)
    (hopening : opening? b = some (.container container)) :
    ValueOctets (b :: (v ++ [container.close])) := by
  cases container with
  | array =>
      obtain rfl : b = ascii '[' := eq_mark_of_opening? hopening rfl
      exact .array h
  | object =>
      obtain rfl : b = ascii '\x7b' := eq_mark_of_opening? hopening rfl
      exact .object h

theorem valueOctets_of_blank {w : List Char} (h : Blank w)
    (hopening : opening? b = some (.container container)) :
    ValueOctets (b :: (octets w ++ [container.close])) := by
  cases container with
  | array =>
      obtain rfl : b = ascii '[' := eq_mark_of_opening? hopening rfl
      exact .emptyArray h
  | object =>
      obtain rfl : b = ascii '\x7b' := eq_mark_of_opening? hopening rfl
      exact .emptyObject h

theorem valuePassed_enclosed {v : Octets} {c : UInt8} (hbefore : Blank before)
    (hv : ValueOctets (b :: (v ++ [c]))) (hs : s = octets before ++ b :: r)
    (hr : r = v ++ c :: rest) : ValuePassed s rest := by
  refine ⟨before, _, hbefore, hv, ?_⟩
  rw [List.cons_append, List.append_assoc, hs, hr]
  rfl

end Steps

/-! ## Values -/

mutual

theorem skipValue_sound {s : Octets} {skipped : Taken s Unit}
    (h : skipValue s = .ok skipped) : ValuePassed s skipped.rest := by
  rw [skipValue] at h
  split at h
  · cases h
  · next b r hr hmark =>
      obtain ⟨before, hbefore, hsplit⟩ := blank_of_nextMark_eq_some hmark
      split at h
      · cases h
      · next kind hopening =>
          split at h
          · cases h
          · next scalar hscalar =>
              injection h with h
              subst h
              obtain ⟨v, hv, hrest⟩ := skipScalar_sound hopening hscalar
              exact ⟨before, v, hbefore, hv,
                hsplit.trans (congrArg (octets before ++ ·) hrest)⟩
      · next container hopening =>
          split at h
          · cases h
          · next closed hends =>
              injection h with h
              subst h
              obtain ⟨after, hafter, hclose⟩ := Container.blank_of_endsAtOnce hends
              exact valuePassed_enclosed hbefore (valueOctets_of_blank hafter hopening) hsplit
                hclose
          · next hends =>
              split at h
              · cases h
              · next items hitems =>
                  injection h with h
                  subst h
                  obtain ⟨v, hv, hclose⟩ := skipItems_sound hitems
                  exact valuePassed_enclosed hbefore (hv.enclosed hopening) hsplit hclose
termination_by 3 * s.length

theorem skipItem_sound {container : Container} {s : Octets} {skipped : Taken s Unit}
    (h : skipItem container s = .ok skipped) : ItemPassed container s skipped.rest := by
  cases container with
  | array =>
      rw [skipItem_array] at h
      exact (skipValue_sound h).item
  | object =>
      simp only [skipItem] at h
      split at h
      · cases h
      · next key r hr hkey =>
          have hkeyPassed : KeyPassed s r := skipKey_sound hkey
          split at h
          · cases h
          · next value hvalue =>
              injection h with h
              subst h
              exact hkeyPassed.item (skipValue_sound hvalue)
termination_by 3 * s.length + 1
decreasing_by all_goals omega

theorem skipItems_sound {container : Container} {s : Octets} {skipped : Taken s Unit}
    (h : skipItems container s = .ok skipped) : ItemsPassed container s skipped.rest := by
  rw [skipItems] at h
  split at h
  · cases h
  · next item r hr hitem =>
      have hpassed : ItemPassed container s r := skipItem_sound hitem
      split at h
      · cases h
      · next r' hr' hnext =>
          injection h with h
          subst h
          obtain ⟨after, hafter, hclose⟩ := closes_of_afterItem hnext
          exact hpassed.last hafter hclose
      · next r' hr' hnext =>
          obtain ⟨after, hafter, hcomma⟩ := continues_of_afterItem hnext
          split at h
          · cases h
          · next more hmore =>
              injection h with h
              subst h
              exact hpassed.more hafter hcomma (skipItems_sound hmore)
termination_by 3 * s.length + 2
decreasing_by all_goals omega

end

end JsonReport
