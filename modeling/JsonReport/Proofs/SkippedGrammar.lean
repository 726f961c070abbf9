import JsonReport.Proofs.RawStrings
import JsonReport.Proofs.StringSymbols
import JsonReport.Proofs.ValueReading
import Mathlib.Tactic

/-!
# Values in octets that need not be a text

What is passed over is known by its octets.  Between the quotes of a string these are
escapes, and any octets that are no quotes, no backslashes and no control characters,
whether or not they encode characters.  Outside the strings they encode what a document
has there.  Nesting and numbers have no bound, and surrogates need not be paired.

Every document is written in such octets, and where they encode a text, it writes a
document by the letter of the grammar.
-/

namespace JsonReport

open Utf8
open Spelling

/-! ## The grammar -/

/-- What may stand between the quotes of a string. -/
inductive StringOctets : Octets → Prop where
  | nil : StringOctets []
  | plain {b : UInt8} {s : Octets} : PlainOctet b → StringOctets s → StringOctets (b :: s)
  | escape {symbol : Symbol} {w : List Char} {s : Octets} :
      symbol.Spelled ('\\' :: w) → StringOctets s → StringOctets (octets ('\\' :: w) ++ s)

inductive QuotedOctets : Octets → Prop where
  | quotes {s : Octets} : StringOctets s → QuotedOctets (ascii '"' :: (s ++ [ascii '"']))

mutual

/-- The octets of a value, without white space around it. -/
inductive ValueOctets : Octets → Prop where
  | null : ValueOctets (octets ['n', 'u', 'l', 'l'])
  | true : ValueOctets (octets ['t', 'r', 'u', 'e'])
  | false : ValueOctets (octets ['f', 'a', 'l', 's', 'e'])
  | number {literal : NumberLiteral} {w : List Char} :
      Spelling.Number literal w → ValueOctets (octets w)
  | string {s : Octets} : QuotedOctets s → ValueOctets s
  | emptyArray {w : List Char} :
      Blank w → ValueOctets (ascii '[' :: (octets w ++ [ascii ']']))
  | array {s : Octets} : ItemsOctets .array s → ValueOctets (ascii '[' :: (s ++ [ascii ']']))
  | emptyObject {w : List Char} :
      Blank w → ValueOctets (ascii '\x7b' :: (octets w ++ [ascii '\x7d']))
  | object {s : Octets} :
      ItemsOctets .object s → ValueOctets (ascii '\x7b' :: (s ++ [ascii '\x7d']))

/-- The octets of a value with white space around it. -/
inductive ElementOctets : Octets → Prop where
  | padded {before after : List Char} {s : Octets} :
      Blank before → ValueOctets s → Blank after →
        ElementOctets (octets before ++ s ++ octets after)

/-- The octets of an item, which in an object has a key before it. -/
inductive ItemOctets : Container → Octets → Prop where
  | element {s : Octets} : ElementOctets s → ItemOctets .array s
  | member {before after : List Char} {k s : Octets} :
      Blank before → QuotedOctets k → Blank after → ElementOctets s →
        ItemOctets .object (octets before ++ k ++ octets after ++ ascii ':' :: s)

inductive ItemsOctets : Container → Octets → Prop where
  | last {container : Container} {s : Octets} :
      ItemOctets container s → ItemsOctets container s
  | more {container : Container} {s t : Octets} :
      ItemOctets container s → ItemsOctets container t →
        ItemsOctets container (s ++ ascii ',' :: t)

end

theorem memberOctets_append (before after : List Char) (k s rest : Octets) :
    octets before ++ k ++ octets after ++ ascii ':' :: s ++ rest =
      octets before ++ (k ++ (octets after ++ ascii ':' :: (s ++ rest))) := by
  simp only [List.append_assoc, List.cons_append]

/-! ## Documents in octets -/

theorem stringOctets_plain {bytes s : Octets} (hbytes : ∀ b ∈ bytes, PlainOctet b)
    (hs : StringOctets s) : StringOctets (bytes ++ s) := by
  induction bytes with
  | nil => exact hs
  | cons b bytes ih =>
      obtain ⟨hb, hbytes⟩ := List.forall_mem_cons.mp hbytes
      exact .plain hb (ih hbytes)

/-- The strings of this kind are written in the octets of a string. -/
def InStringOctets {Text : Type} (content : Text → List Char → Prop) : Prop :=
  ∀ text w, content text w → StringOctets (octets w)

theorem symbols_inStringOctets : InStringOctets (Run Symbol.Spelled) := by
  intro symbols w h
  induction h with
  | nil => exact .nil
  | cons hsymbol _ ih =>
      rw [octets_append]
      cases hsymbol with
      | plain hplain =>
          rw [octets_cons, octets_nil, List.append_nil]
          exact stringOctets_plain (plainOctet_of_mem hplain) ih
      | short hmem => exact .escape (.short hmem) ih
      | code hcode => exact .escape (.code hcode) ih

theorem content_inStringOctets : InStringOctets Content := by
  intro text w h
  obtain ⟨symbols, hsymbols, -⟩ := symbols_of_run h
  exact symbols_inStringOctets symbols w hsymbols

theorem octets_enclosed {first last : Char} (hfirst : first.toNat < 128)
    (hlast : last.toNat < 128) (w : List Char) :
    octets (first :: (w ++ [last])) = ascii first :: (octets w ++ [ascii last]) := by
  have h := octets_bracketed hfirst hlast w []
  rwa [List.append_nil] at h

section Documents

variable {Text : Type} {content : Text → List Char → Prop}

theorem quotedOctets_of_quoted (hcontent : InStringOctets content) {text : Text}
    {w : List Char} (h : Quoted content text w) : QuotedOctets (octets w) := by
  cases h with
  | quotes hw =>
      rw [octets_enclosed (by decide) (by decide)]
      exact .quotes (hcontent _ _ hw)

mutual

theorem valueOctets_of_value (hcontent : InStringOctets content) {document : Document Text}
    {w : List Char} (h : Value content document w) : ValueOctets (octets w) := by
  match h with
  | .null => exact .null
  | .true => exact .true
  | .false => exact .false
  | .number hnumber => exact .number hnumber
  | .string hquoted => exact .string (quotedOctets_of_quoted hcontent hquoted)
  | .emptyArray hblank =>
      rw [octets_enclosed (by decide) (by decide)]
      exact .emptyArray hblank
  | .array hitems =>
      rw [octets_enclosed (by decide) (by decide)]
      exact .array (itemsOctets_of_elements hcontent hitems)
  | .emptyObject hblank =>
      rw [octets_enclosed (by decide) (by decide)]
      exact .emptyObject hblank
  | .object hmembers =>
      rw [octets_enclosed (by decide) (by decide)]
      exact .object (itemsOctets_of_members hcontent hmembers)

theorem elementOctets_of_element (hcontent : InStringOctets content) {document : Document Text}
    {w : List Char} (h : Element content document w) : ElementOctets (octets w) := by
  match h with
  | .padded hbefore hvalue hafter =>
      rw [octets_append, octets_append]
      exact .padded hbefore (valueOctets_of_value hcontent hvalue) hafter

theorem itemsOctets_of_elements (hcontent : InStringOctets content)
    {items : List (Document Text)} {w : List Char} (h : Elements content items w) :
    ItemsOctets .array (octets w) := by
  match h with
  | .last hitem => exact .last (.element (elementOctets_of_element hcontent hitem))
  | .more hitem hitems =>
      rw [octets_append, octets_cons_ascii (by decide)]
      exact .more (.element (elementOctets_of_element hcontent hitem))
        (itemsOctets_of_elements hcontent hitems)

theorem itemOctets_of_member (hcontent : InStringOctets content)
    {member : Text × Document Text} {w : List Char} (h : Member content member w) :
    ItemOctets .object (octets w) := by
  match h with
  | .pair hbefore hkey hafter hitem =>
      simp only [octets_append, octets_cons_ascii (show ':'.toNat < 128 by decide)]
      exact .member hbefore (quotedOctets_of_quoted hcontent hkey) hafter
        (elementOctets_of_element hcontent hitem)

theorem itemsOctets_of_members (hcontent : InStringOctets content)
    {members : List (Text × Document Text)} {w : List Char} (h : Members content members w) :
    ItemsOctets .object (octets w) := by
  match h with
  | .last hmember => exact .last (itemOctets_of_member hcontent hmember)
  | .more hmember hmembers =>
      rw [octets_append, octets_cons_ascii (by decide)]
      exact .more (itemOctets_of_member hcontent hmember)
        (itemsOctets_of_members hcontent hmembers)

end

end Documents

/-! ## Octets that encode a text -/

/-- What continues a character stands within the string in which the character begins. -/
theorem StringOctets.continuations {more : Octets} (hmore : ∀ x ∈ more, Continuation x)
    {s t u : Octets} (h : StringOctets s) (hsplit : s ++ ascii '"' :: t = more ++ u) :
    ∃ s', s = more ++ s' ∧ StringOctets s' ∧ s' ++ ascii '"' :: t = u := by
  induction more generalizing s with
  | nil => exact ⟨s, rfl, h, hsplit⟩
  | cons x more ih =>
      obtain ⟨hx, htail⟩ := List.forall_mem_cons.mp hmore
      have hmark : ∀ c : Char, c = '"' ∨ c = '\\' → ¬Continuation (ascii c) := by
        rintro c (rfl | rfl) ⟨hlow, -⟩ <;> exact absurd hlow (by decide)
      cases h with
      | nil =>
          obtain ⟨rfl, -⟩ := List.cons.inj hsplit
          exact absurd hx (hmark _ (.inl rfl))
      | plain _ hs =>
          obtain ⟨rfl, hrest⟩ := List.cons.inj hsplit
          obtain ⟨s', rfl, hs', hu⟩ := ih htail hs hrest
          exact ⟨s', rfl, hs', hu⟩
      | escape _ _ =>
          rw [octets_cons_ascii (by decide)] at hsplit
          obtain ⟨rfl, -⟩ := List.cons.inj hsplit
          exact absurd hx (hmark _ (.inr rfl))

/-- Octets of a string that encode a text spell symbols. -/
theorem StringOctets.symbols {s rest : Octets} (h : StringOctets s)
    (hencoded : Encoded (s ++ ascii '"' :: rest)) :
    ∃ symbols w, Run Symbol.Spelled symbols w ∧ s = octets w := by
  induction hlength : s.length using Nat.strong_induction_on generalizing s with
  | _ n ih =>
    cases h with
    | nil => exact ⟨[], [], .nil, rfl⟩
    | @plain b s hb hs =>
        -- A plain octet begins a character, whose other octets are plain ones behind it.
        obtain ⟨source, hsource⟩ := hencoded
        cases source with
        | nil => cases hsource
        | cons c source =>
            obtain ⟨b', more, hc, -, hmore⟩ := utf8EncodeChar_begins c
            rw [octets_cons, hc] at hsource
            obtain ⟨rfl, hsplit⟩ := List.cons.inj hsource
            obtain ⟨s', rfl, hs', hrest⟩ := hs.continuations hmore hsplit
            have hshorter : s'.length < n := by
              rw [← hlength, List.length_cons, List.length_append]
              omega
            obtain ⟨symbols, w, hw, hs'⟩ := ih _ hshorter hs' ⟨source, hrest⟩ rfl
            refine ⟨.character c :: symbols, [c] ++ w,
              .cons (.plain (plain_of_plainOctet hc hb)) hw, ?_⟩
            rw [hs', octets_append, octets_cons, octets_nil, List.append_nil, hc]
            rfl
    | @escape symbol w s hsymbol hs =>
        rw [List.append_assoc] at hencoded
        have hshorter : s.length < n := by
          rw [← hlength, octets_cons_ascii (by decide), List.cons_append, List.length_cons,
            List.length_append]
          omega
        obtain ⟨symbols, ws, hws, rfl⟩ := ih _ hshorter hs hencoded.of_append rfl
        exact ⟨symbol :: symbols, '\\' :: w ++ ws, .cons hsymbol hws, (octets_append _ _).symm⟩

theorem QuotedOctets.text {s rest : Octets} (h : QuotedOctets s)
    (hencoded : Encoded (s ++ rest)) :
    ∃ symbols w, Quoted (Run Symbol.Spelled) symbols w ∧ s = octets w := by
  cases h with
  | quotes hs =>
      rw [List.cons_append, List.append_assoc] at hencoded
      obtain ⟨symbols, w, hw, rfl⟩ := hs.symbols (hencoded.of_mark (by decide))
      exact ⟨symbols, _, .quotes hw, (octets_enclosed (by decide) (by decide) w).symm⟩

/-- The text of an item. -/
def ItemText : Container → List Char → Prop
  | .array, w => ∃ document, Element (Run Symbol.Spelled) document w
  | .object, w => ∃ member, Member (Run Symbol.Spelled) member w

def ItemsText : Container → List Char → Prop
  | .array, w => ∃ documents, Elements (Run Symbol.Spelled) documents w
  | .object, w => ∃ members, Members (Run Symbol.Spelled) members w

theorem ItemText.last {container : Container} {w : List Char} (h : ItemText container w) :
    ItemsText container w := by
  cases container with
  | array =>
      obtain ⟨document, hw⟩ := h
      exact ⟨[document], .last hw⟩
  | object =>
      obtain ⟨member, hw⟩ := h
      exact ⟨[member], .last hw⟩

theorem ItemText.more {container : Container} {w ws : List Char} (h : ItemText container w)
    (hmore : ItemsText container ws) : ItemsText container (w ++ ',' :: ws) := by
  cases container with
  | array =>
      obtain ⟨document, hw⟩ := h
      obtain ⟨documents, hws⟩ := hmore
      exact ⟨document :: documents, .more hw hws⟩
  | object =>
      obtain ⟨member, hw⟩ := h
      obtain ⟨members, hws⟩ := hmore
      exact ⟨member :: members, .more hw hws⟩

mutual

theorem ValueOctets.text {v rest : Octets} (h : ValueOctets v)
    (hencoded : Encoded (v ++ rest)) :
    ∃ document w, Value (Run Symbol.Spelled) document w ∧ v = octets w := by
  match h with
  | .null => exact ⟨_, _, .null, rfl⟩
  | .true => exact ⟨_, _, .true, rfl⟩
  | .false => exact ⟨_, _, .false, rfl⟩
  | .number hnumber => exact ⟨_, _, .number hnumber, rfl⟩
  | .string hquoted =>
      obtain ⟨symbols, w, hw, hv⟩ := hquoted.text hencoded
      exact ⟨_, w, .string hw, hv⟩
  | .emptyArray hblank =>
      exact ⟨_, _, .emptyArray hblank, (octets_enclosed (by decide) (by decide) _).symm⟩
  | .emptyObject hblank =>
      exact ⟨_, _, .emptyObject hblank, (octets_enclosed (by decide) (by decide) _).symm⟩
  | .array hitems =>
      rw [List.cons_append, List.append_assoc] at hencoded
      obtain ⟨w, ⟨documents, hw⟩, rfl⟩ := hitems.text (hencoded.of_mark (by decide))
      exact ⟨_, _, .array hw, (octets_enclosed (by decide) (by decide) w).symm⟩
  | .object hitems =>
      rw [List.cons_append, List.append_assoc] at hencoded
      obtain ⟨w, ⟨members, hw⟩, rfl⟩ := hitems.text (hencoded.of_mark (by decide))
      exact ⟨_, _, .object hw, (octets_enclosed (by decide) (by decide) w).symm⟩

theorem ElementOctets.text {v rest : Octets} (h : ElementOctets v)
    (hencoded : Encoded (v ++ rest)) :
    ∃ document w, Element (Run Symbol.Spelled) document w ∧ v = octets w := by
  match h with
  | .padded hbefore hvalue hafter =>
      rw [List.append_assoc, List.append_assoc] at hencoded
      obtain ⟨document, w, hw, rfl⟩ := hvalue.text hencoded.of_append
      refine ⟨document, _, .padded hbefore hw hafter, ?_⟩
      rw [octets_append, octets_append]

theorem ItemOctets.text {container : Container} {v rest : Octets}
    (h : ItemOctets container v) (hencoded : Encoded (v ++ rest)) :
    ∃ w, ItemText container w ∧ v = octets w := by
  match h with
  | .element hitem =>
      obtain ⟨document, w, hw, hv⟩ := hitem.text hencoded
      exact ⟨w, ⟨document, hw⟩, hv⟩
  | .member hbefore hkey hafter hitem =>
      rw [memberOctets_append] at hencoded
      have hkeyEncoded := hencoded.of_append
      obtain ⟨key, k, hk, rfl⟩ := hkey.text hkeyEncoded
      obtain ⟨document, w, hw, rfl⟩ :=
        hitem.text (hkeyEncoded.of_append.of_append.of_mark (by decide))
      refine ⟨_, ⟨(key, document), .pair hbefore hk hafter hw⟩, ?_⟩
      simp only [octets_append, octets_cons_ascii (show ':'.toNat < 128 by decide)]

theorem ItemsOctets.text {container : Container} {v rest : Octets}
    (h : ItemsOctets container v) (hencoded : Encoded (v ++ rest)) :
    ∃ w, ItemsText container w ∧ v = octets w := by
  match h with
  | .last hitem =>
      obtain ⟨w, hw, hv⟩ := hitem.text hencoded
      exact ⟨w, hw.last, hv⟩
  | .more hitem hitems =>
      rw [List.append_assoc, List.cons_append] at hencoded
      obtain ⟨w, hw, rfl⟩ := hitem.text hencoded
      obtain ⟨ws, hws, rfl⟩ := hitems.text (hencoded.of_append.of_mark (by decide))
      refine ⟨_, hw.more hws, ?_⟩
      rw [octets_append, octets_cons_ascii (by decide)]

end

end JsonReport
