import JsonReport.Json.Skipper
import JsonReport.Proofs.SkippedGrammar
import Mathlib.Tactic

/-!
# Passing over what is written

What the grammar of octets writes is passed over, whatever it is: the skipper looks neither
at the depth of containers nor at the range of numbers, it takes every escape of a surrogate
for a symbol of its own, and it asks of no octet of a string that it encode anything.  It
leaves what a reader of the same document leaves.
-/

namespace JsonReport

open Utf8
open Spelling

/-! ## Strings -/

theorem skipString_quote (rest : Octets) :
    (skipString (ascii '"' :: rest)).Yields () rest := by
  rw [skipString, if_pos rfl]
  exact ⟨_, rfl⟩

theorem skipString_plain {b : UInt8} (hb : PlainOctet b) {s rest : Octets}
    (h : (skipString s).Yields () rest) : (skipString (b :: s)).Yields () rest := by
  obtain ⟨hquote, hbackslash, hcontrol⟩ := hb
  obtain ⟨shorter, hskip⟩ := h
  rw [skipString, if_neg hquote, if_neg hbackslash, if_neg hcontrol, hskip]
  exact ⟨_, rfl⟩

theorem skipString_escape {r s rest : Octets} (hescape : skipEscape r = .ok s)
    (h : (skipString s).Yields () rest) :
    (skipString (ascii '\\' :: r)).Yields () rest := by
  obtain ⟨shorter, hskip⟩ := h
  rw [skipString, if_neg (by decide), if_pos rfl]
  split
  · next hfault =>
      rw [hescape] at hfault
      cases hfault
  · next hok =>
      rw [hescape, Except.ok.injEq] at hok
      subst hok
      rw [hskip]
      exact ⟨_, rfl⟩

theorem skipEscape_short {letter c : Char} (h : (letter, c) ∈ shortEscapes) (s : Octets) :
    skipEscape (ascii letter :: s) = .ok s := by
  have hletter := (letterEscape?_of_mem h).1
  simp only [skipEscape, hletter, Option.isSome_some, if_true]

theorem skipEscape_code {n : ℕ} {w : List Char} (h : HexCode n w) (s : Octets) :
    skipEscape (ascii 'u' :: (octets w ++ s)) = .ok s := by
  have hletter : letterEscape? (ascii 'u') = none := by decide
  simp only [skipEscape, hletter, readHex_of_hexCode h]
  rfl

theorem skipEscape_spelled {symbol : Symbol} {w : List Char}
    (h : symbol.Spelled ('\\' :: w)) (s : Octets) : skipEscape (octets w ++ s) = .ok s := by
  cases h with
  | plain hplain => exact absurd rfl hplain.2.2
  | short hmem =>
      rw [octets_cons_ascii (letterEscape?_of_mem hmem).2]
      exact skipEscape_short hmem s
  | code hcode =>
      rw [octets_cons_ascii (by decide)]
      exact skipEscape_code hcode s

theorem stringOctets_skipped {s : Octets} (h : StringOctets s) (rest : Octets) :
    (skipString (s ++ ascii '"' :: rest)).Yields () rest := by
  induction h with
  | nil => exact skipString_quote rest
  | plain hb _ ih => exact skipString_plain hb ih
  | escape hsymbol _ ih =>
      rw [List.append_assoc, octets_cons_ascii (by decide), List.cons_append]
      exact skipString_escape (skipEscape_spelled hsymbol _) ih

/-! ## Scalars and keys -/

theorem skipScalar_minus {r rest : Octets} {literal : NumberLiteral}
    (h : (readLiteral .invalidNumber true r).Yields literal rest) (b : UInt8) :
    (skipScalar .minus b r).Yields () rest := by
  obtain ⟨shorter, hread⟩ := h
  refine ⟨Nat.lt_succ_of_lt shorter, ?_⟩
  simp only [skipScalar, hread, Taken.map, Taken.cons]

theorem skipScalar_digit {b : UInt8} {r rest : Octets} {literal : NumberLiteral}
    (h : (readLiteral .invalidNumber false (b :: r)).Yields literal rest) :
    (skipScalar .digit b r).Yields () rest := by
  obtain ⟨shorter, hread⟩ := h
  refine ⟨shorter, ?_⟩
  simp only [skipScalar, hread, Taken.map]

theorem skipScalar_quote {r rest : Octets} (h : (skipString r).Yields () rest)
    (b : UInt8) : (skipScalar .quote b r).Yields () rest := by
  obtain ⟨shorter, hskip⟩ := h
  refine ⟨Nat.lt_succ_of_lt shorter, ?_⟩
  simp only [skipScalar, hskip, Taken.cons]

theorem keyOctets_skipped {before after : List Char} (hbefore : Blank before) {k : Octets}
    (hk : QuotedOctets k) (hafter : Blank after) (rest : Octets) :
    (skipKey (octets before ++ (k ++ (octets after ++ ascii ':' :: rest)))).Yields () rest := by
  cases hk with
  | @quotes s hs =>
      rw [List.cons_append, List.append_assoc]
      obtain ⟨shorter, hmark⟩ := nextMark_of_blank hbefore
        (show isBlank (ascii '"') = false by decide)
        (s ++ ascii '"' :: (octets after ++ ascii ':' :: rest))
      obtain ⟨hshorter₁, hskip⟩ := stringOctets_skipped hs (octets after ++ ascii ':' :: rest)
      obtain ⟨hshorter₂, hcolon⟩ := readColon_of_blank hafter rest
      refine ⟨Nat.lt_trans (Nat.lt_trans hshorter₂ hshorter₁) shorter, ?_⟩
      simp only [skipKey, hmark, if_true, List.singleton_append, hskip, hcolon, Taken.past]

/-! ## One step of a value and of its items -/

section Steps

variable {before : List Char} {b : UInt8} {r rest : Octets}

theorem skipValue_scalar (hbefore : Blank before) {kind : Scalar}
    (hopening : opening? b = some (.scalar kind))
    (h : (skipScalar kind b r).Yields () rest) :
    (skipValue (octets before ++ b :: r)).Yields () rest := by
  obtain ⟨shorter, hmark⟩ := nextMark_of_blank hbefore (isBlank_of_opening? hopening) r
  obtain ⟨hshorter, hskip⟩ := h
  refine ⟨Nat.lt_of_le_of_lt (Nat.le_of_lt_succ hshorter) shorter, ?_⟩
  simp only [skipValue, hmark, hopening, hskip, Taken.found]

theorem skipValue_empty (hbefore : Blank before) {container : Container}
    (hopening : opening? b = some (.container container))
    {shorter : rest.length < r.length}
    (hends : container.endsAtOnce r = .ok (some ⟨(), rest, shorter⟩)) :
    (skipValue (octets before ++ b :: r)).Yields () rest := by
  obtain ⟨hshorter, hmark⟩ := nextMark_of_blank hbefore (isBlank_of_opening? hopening) r
  refine ⟨Nat.lt_trans shorter hshorter, ?_⟩
  simp only [skipValue, hmark, hopening, hends, Taken.past]

theorem skipValue_items (hbefore : Blank before) {container : Container}
    (hopening : opening? b = some (.container container))
    (hends : container.endsAtOnce r = .ok none)
    (h : (skipItems container r).Yields () rest) :
    (skipValue (octets before ++ b :: r)).Yields () rest := by
  obtain ⟨shorter, hmark⟩ := nextMark_of_blank hbefore (isBlank_of_opening? hopening) r
  obtain ⟨hshorter, hskip⟩ := h
  refine ⟨Nat.lt_trans hshorter shorter, ?_⟩
  simp only [skipValue, hmark, hopening, hends, hskip, Taken.past]

variable {s : Octets}

theorem skipItem_array (s : Octets) : skipItem .array s = skipValue s := by
  simp only [skipItem]

theorem skipItem_member (hkey : (skipKey s).Yields () r)
    (h : (skipValue r).Yields () rest) : (skipItem .object s).Yields () rest := by
  obtain ⟨shorter, hkey⟩ := hkey
  obtain ⟨hshorter, hskip⟩ := h
  refine ⟨Nat.lt_trans hshorter shorter, ?_⟩
  simp only [skipItem, hkey, hskip, Taken.past]

theorem skipItems_last {container : Container} (hitem : (skipItem container s).Yields () r)
    (hclose : (container.afterItem r).Yields .close rest) :
    (skipItems container s).Yields () rest := by
  obtain ⟨shorter, hitem⟩ := hitem
  obtain ⟨hshorter, hclose⟩ := hclose
  refine ⟨Nat.lt_trans hshorter shorter, ?_⟩
  rw [skipItems, hitem]
  simp only [hclose, Taken.past]

theorem skipItems_more {container : Container} {r' : Octets}
    (hitem : (skipItem container s).Yields () r)
    (hcomma : (container.afterItem r).Yields .comma r')
    (hitems : (skipItems container r').Yields () rest) :
    (skipItems container s).Yields () rest := by
  obtain ⟨shorter, hitem⟩ := hitem
  obtain ⟨hshorter, hcomma⟩ := hcomma
  obtain ⟨hshorter', hitems⟩ := hitems
  refine ⟨Nat.lt_trans (Nat.lt_trans hshorter' hshorter) shorter, ?_⟩
  rw [skipItems, hitem]
  simp only [hcomma, hitems, Taken.past]

end Steps

/-! ## What items begin with -/

theorem valueOctets_begins {v : Octets} (h : ValueOctets v) :
    ∃ b r opening, v = b :: r ∧ opening? b = some opening := by
  cases h with
  | null => exact ⟨_, _, .scalar .null, rfl, rfl⟩
  | true => exact ⟨_, _, .scalar .true, rfl, rfl⟩
  | false => exact ⟨_, _, .scalar .false, rfl, rfl⟩
  | @number literal w hnumber =>
      have hvalue : Value Content (.number literal) w := .number hnumber
      obtain ⟨c, r, rfl, hascii, hopening⟩ := value_begins hvalue
      exact ⟨_, _, _, octets_cons_ascii hascii r, hopening⟩
  | string hquoted =>
      cases hquoted
      exact ⟨_, _, .scalar .quote, rfl, rfl⟩
  | emptyArray _ => exact ⟨_, _, .container .array, rfl, rfl⟩
  | array _ => exact ⟨_, _, .container .array, rfl, rfl⟩
  | emptyObject _ => exact ⟨_, _, .container .object, rfl, rfl⟩
  | object _ => exact ⟨_, _, .container .object, rfl, rfl⟩

theorem itemOctets_begins {container : Container} {v : Octets} (h : ItemOctets container v)
    (rest : Octets) : ∃ b, b ≠ container.close ∧ Begins b (v ++ rest) := by
  cases h with
  | element hitem =>
      cases hitem with
      | padded hbefore hvalue _ =>
          obtain ⟨b, r, opening, rfl, hopening⟩ := valueOctets_begins hvalue
          refine ⟨b, Container.array.ne_close_of_opening? hopening, ?_⟩
          simp only [List.append_assoc, List.cons_append]
          exact begins_of_blank hbefore (isBlank_of_opening? hopening) _
  | member hbefore hk _ _ =>
      cases hk
      refine ⟨ascii '"', by decide, ?_⟩
      simp only [List.append_assoc, List.cons_append]
      exact begins_of_blank hbefore (by decide) _

theorem endsAtOnce_of_itemsOctets {container : Container} {v : Octets}
    (h : ItemsOctets container v) (rest : Octets) :
    container.endsAtOnce (v ++ rest) = .ok none := by
  cases h with
  | last hitem =>
      obtain ⟨b, hb, hbegins⟩ := itemOctets_begins hitem rest
      exact Container.endsAtOnce_of_begins hbegins hb
  | more hitem _ =>
      rw [List.append_assoc]
      obtain ⟨b, hb, hbegins⟩ := itemOctets_begins hitem _
      exact Container.endsAtOnce_of_begins hbegins hb

/-! ## Values -/

theorem number_skipped {literal : NumberLiteral} {w : List Char}
    (h : Spelling.Number literal w) {before : List Char} (hbefore : Blank before)
    {rest : Octets} (hrest : EndsNumber rest) :
    (skipValue (octets before ++ (octets w ++ rest))).Yields () rest := by
  have hvalue : Value Content (.number literal) w := .number h
  obtain ⟨c, r, rfl, hascii, hopening⟩ := value_begins hvalue
  rw [octets_cons_ascii hascii]
  cases h with
  | positive hsign hunsigned =>
      rw [Document.opening, hsign] at hopening
      have hread := readLiteral_of_unsigned hunsigned .invalidNumber hrest
      rw [octets_cons_ascii hascii, hsign] at hread
      exact skipValue_scalar hbefore hopening (skipScalar_digit hread)
  | negative hsign hunsigned =>
      rw [Document.opening, hsign] at hopening
      have hread := readLiteral_of_unsigned hunsigned .invalidNumber hrest
      rw [hsign] at hread
      exact skipValue_scalar hbefore hopening (skipScalar_minus hread _)

mutual

theorem value_skipped {v : Octets} (h : ValueOctets v) {before : List Char}
    (hbefore : Blank before) {rest : Octets} (hrest : EndsNumber rest) :
    (skipValue (octets before ++ (v ++ rest))).Yields () rest := by
  match h with
  | .null =>
      have hopening : opening? (ascii 'n') = some (.scalar .null) := rfl
      exact skipValue_scalar hbefore hopening (readWord_append ['u', 'l', 'l'] _ rfl _ rest)
  | .true =>
      have hopening : opening? (ascii 't') = some (.scalar .true) := rfl
      exact skipValue_scalar hbefore hopening (readWord_append ['r', 'u', 'e'] _ rfl _ rest)
  | .false =>
      have hopening : opening? (ascii 'f') = some (.scalar .false) := rfl
      exact skipValue_scalar hbefore hopening (readWord_append ['a', 'l', 's', 'e'] _ rfl _ rest)
  | .number hnumber => exact number_skipped hnumber hbefore hrest
  | .string (.quotes hs) =>
      rw [List.cons_append, List.append_assoc]
      have hskip := skipScalar_quote (stringOctets_skipped hs rest)
      exact skipValue_scalar hbefore rfl (hskip _)
  | .emptyArray hblank =>
      rw [List.cons_append, List.append_assoc]
      obtain ⟨_, hends⟩ := Container.array.endsAtOnce_of_blank hblank rest
      exact skipValue_empty hbefore rfl hends
  | .emptyObject hblank =>
      rw [List.cons_append, List.append_assoc]
      obtain ⟨_, hends⟩ := Container.object.endsAtOnce_of_blank hblank rest
      exact skipValue_empty hbefore rfl hends
  | .array hitems =>
      rw [List.cons_append, List.append_assoc]
      exact skipValue_items hbefore rfl (endsAtOnce_of_itemsOctets hitems _)
        (items_skipped hitems rest)
  | .object hitems =>
      rw [List.cons_append, List.append_assoc]
      exact skipValue_items hbefore rfl (endsAtOnce_of_itemsOctets hitems _)
        (items_skipped hitems rest)

/-- An element is passed over but for the white space after it. -/
theorem element_skipped {v : Octets} (h : ElementOctets v) {rest : Octets}
    (hrest : EndsNumber rest) :
    ∃ after, Blank after ∧ (skipValue (v ++ rest)).Yields () (octets after ++ rest) := by
  match h with
  | .padded hbefore hvalue hafter =>
      refine ⟨_, hafter, ?_⟩
      rw [List.append_assoc, List.append_assoc]
      exact value_skipped hvalue hbefore (endsNumber_blank hafter hrest)

theorem item_skipped {container : Container} {v : Octets} (h : ItemOctets container v)
    {rest : Octets} (hrest : EndsNumber rest) :
    ∃ after, Blank after ∧
      (skipItem container (v ++ rest)).Yields () (octets after ++ rest) := by
  match h with
  | .element hitem =>
      obtain ⟨after, hafter, hskip⟩ := element_skipped hitem hrest
      rw [← skipItem_array] at hskip
      exact ⟨after, hafter, hskip⟩
  | .member hbefore hk hafterKey hitem =>
      obtain ⟨after, hafter, hskip⟩ := element_skipped hitem hrest
      rw [memberOctets_append]
      exact ⟨after, hafter,
        skipItem_member (keyOctets_skipped hbefore hk hafterKey _) hskip⟩

theorem items_skipped {container : Container} {v : Octets} (h : ItemsOctets container v)
    (rest : Octets) :
    (skipItems container (v ++ container.close :: rest)).Yields () rest := by
  match h with
  | .last hitem =>
      obtain ⟨after, hafter, hskip⟩ := item_skipped hitem (endsNumber_close container rest)
      exact skipItems_last hskip (container.afterItem_close hafter rest)
  | .more hitem hitems =>
      rw [List.append_assoc, List.cons_append]
      obtain ⟨after, hafter, hskip⟩ := item_skipped hitem (endsNumber_comma _)
      exact skipItems_more hskip (container.afterItem_comma hafter _) (items_skipped hitems rest)

end

end JsonReport
