import JsonReport.Proofs.RawStrings
import JsonReport.Proofs.ValueReading
import Mathlib.Tactic

/-!
# What stands before the rest

A reader says how far it came by what it leaves, so what it found is described as standing
between two places of a text: a document, the elements of an array with the bracket after
them, a key with its colon, the members of an object with the brace after them.  The
descriptions are put together from the right, one item at a time, as the readers return.
What the strings of the documents are, and which documents fit, is left open.
-/

namespace JsonReport

open Utf8
open Spelling

/-- The character that an opening stands for; a digit may be any of ten. -/
def Opening.mark? : Opening → Option Char
  | .scalar .null => some 'n'
  | .scalar .true => some 't'
  | .scalar .false => some 'f'
  | .scalar .minus => some '-'
  | .scalar .digit => none
  | .scalar .quote => some '"'
  | .container .array => some '['
  | .container .object => some '\x7b'

theorem eq_mark_of_opening? {b : UInt8} {opening : Opening} {c : Char}
    (h : opening? b = some opening) (hc : opening.mark? = some c) : b = ascii c := by
  unfold opening? at h
  split_ifs at h <;> cases h <;> cases hc <;> assumption

section Standing

variable {Text : Type} (content : Text → List Char → Prop) (fits : Document Text → Prop)

/-- White space and a document that fits stand before the rest. -/
def ValueStands (s rest : Octets) : Prop :=
  ∃ before document w, Blank before ∧ Value content document w ∧ fits document ∧
    s = octets before ++ (octets w ++ rest)

/-- Elements that fit and the bracket after them stand before the rest. -/
def ElementsStand (s rest : Octets) : Prop :=
  ∃ documents w, Elements content documents w ∧ (∀ document ∈ documents, fits document) ∧
    s = octets w ++ ascii ']' :: rest

/-- A key and the colon after it stand before the rest. -/
def KeyStands (s rest : Octets) : Prop :=
  ∃ before key k after, Blank before ∧ Quoted content key k ∧ Blank after ∧
    s = octets before ++ (octets k ++ (octets after ++ ascii ':' :: rest))

/-- Members that fit and the brace after them stand before the rest. -/
def MembersStand (s rest : Octets) : Prop :=
  ∃ members w, Members content members w ∧ (∀ member ∈ members, fits member.2) ∧
    s = octets w ++ ascii '\x7d' :: rest

end Standing

section Steps

variable {Text : Type} {content : Text → List Char → Prop} {fits fits' : Document Text → Prop}
  {origin : Origin} {s r r' rest : Octets} {before after : List Char}

theorem ValueStands.encoded (h : ValueStands content fits s rest) (hs : Encoded s) :
    Encoded rest := by
  obtain ⟨before, document, w, -, -, -, rfl⟩ := h
  exact hs.of_append.of_append

theorem ValueStands.covers (h : ValueStands content fits s rest) (hs : origin.Covers s) :
    origin.Covers rest := fun htext => h.encoded (hs htext)

theorem KeyStands.encoded (h : KeyStands content s rest) (hs : Encoded s) : Encoded rest := by
  obtain ⟨before, key, k, after, -, -, -, rfl⟩ := h
  exact hs.of_append.of_append.of_append.of_mark (by decide)

theorem KeyStands.covers (h : KeyStands content s rest) (hs : origin.Covers s) :
    origin.Covers rest := fun htext => h.encoded (hs htext)

theorem encoded_of_comma (h : r = octets after ++ ascii ',' :: r') (hr : Encoded r) :
    Encoded r' := by
  rw [h] at hr
  exact hr.of_append.of_mark (by decide)

theorem covers_of_comma (h : r = octets after ++ ascii ',' :: r') (hr : origin.Covers r) :
    origin.Covers r' := fun htext => encoded_of_comma h (hr htext)

theorem valueStands_emptyArray (hfits : fits (.array [])) (hbefore : Blank before)
    (hs : s = octets before ++ ascii '[' :: r) (hafter : Blank after)
    (hr : r = octets after ++ ascii ']' :: rest) : ValueStands content fits s rest := by
  refine ⟨before, _, _, hbefore, .emptyArray hafter, hfits, ?_⟩
  rw [octets_array, ← hr, hs]

theorem valueStands_emptyObject (hfits : fits (.object [])) (hbefore : Blank before)
    (hs : s = octets before ++ ascii '\x7b' :: r) (hafter : Blank after)
    (hr : r = octets after ++ ascii '\x7d' :: rest) : ValueStands content fits s rest := by
  refine ⟨before, _, _, hbefore, .emptyObject hafter, hfits, ?_⟩
  rw [octets_object, ← hr, hs]

theorem ElementsStand.array (h : ElementsStand content fits r rest)
    (hfits : ∀ items, (∀ item ∈ items, fits item) → fits' (.array items))
    (hbefore : Blank before) (hs : s = octets before ++ ascii '[' :: r) :
    ValueStands content fits' s rest := by
  obtain ⟨documents, w, hw, hall, hr⟩ := h
  refine ⟨before, _, _, hbefore, .array hw, hfits _ hall, ?_⟩
  rw [octets_array, ← hr, hs]

theorem MembersStand.object (h : MembersStand content fits r rest)
    (hfits : ∀ members, (∀ member ∈ members, fits member.2) → fits' (.object members))
    (hbefore : Blank before) (hs : s = octets before ++ ascii '\x7b' :: r) :
    ValueStands content fits' s rest := by
  obtain ⟨members, w, hw, hall, hr⟩ := h
  refine ⟨before, _, _, hbefore, .object hw, hfits _ hall, ?_⟩
  rw [octets_object, ← hr, hs]

theorem ValueStands.lastElement (h : ValueStands content fits s r) (hafter : Blank after)
    (hr : r = octets after ++ ascii ']' :: rest) : ElementsStand content fits s rest := by
  obtain ⟨before, document, w, hbefore, hw, hfits, hs⟩ := h
  refine ⟨[document], _, .last (.padded hbefore hw hafter), ?_, ?_⟩
  · exact List.forall_mem_singleton.mpr hfits
  · rw [octets_append, octets_append, List.append_assoc, List.append_assoc, ← hr, hs]

theorem ValueStands.moreElements (h : ValueStands content fits s r) (hafter : Blank after)
    (hr : r = octets after ++ ascii ',' :: r') (hmore : ElementsStand content fits r' rest) :
    ElementsStand content fits s rest := by
  obtain ⟨before, document, w, hbefore, hw, hfits, hs⟩ := h
  obtain ⟨documents, ws, hws, hall, hr'⟩ := hmore
  refine ⟨document :: documents, _, .more (.padded hbefore hw hafter) hws, ?_, ?_⟩
  · exact List.forall_mem_cons.mpr ⟨hfits, hall⟩
  · rw [octets_separated, ← hr', octets_append, octets_append, List.append_assoc,
      List.append_assoc, ← hr, hs]

theorem KeyStands.lastMember (hkey : KeyStands content s r) (h : ValueStands content fits r r')
    (hafter : Blank after) (hr' : r' = octets after ++ ascii '\x7d' :: rest) :
    MembersStand content fits s rest := by
  obtain ⟨before, key, k, afterKey, hbefore, hk, hafterKey, hs⟩ := hkey
  obtain ⟨blank, document, w, hblank, hw, hfits, hr⟩ := h
  refine ⟨[(key, document)], _, .last (.pair hbefore hk hafterKey (.padded hblank hw hafter)),
    ?_, ?_⟩
  · exact List.forall_mem_singleton.mpr hfits
  · rw [octets_member, octets_append, octets_append, List.append_assoc, List.append_assoc,
      ← hr', ← hr, hs]

theorem KeyStands.moreMembers {r'' : Octets} (hkey : KeyStands content s r)
    (h : ValueStands content fits r r') (hafter : Blank after)
    (hr' : r' = octets after ++ ascii ',' :: r'') (hmore : MembersStand content fits r'' rest) :
    MembersStand content fits s rest := by
  obtain ⟨before, key, k, afterKey, hbefore, hk, hafterKey, hs⟩ := hkey
  obtain ⟨blank, document, w, hblank, hw, hfits, hr⟩ := h
  obtain ⟨members, ws, hws, hall, hr''⟩ := hmore
  refine ⟨(key, document) :: members, _,
    .more (.pair hbefore hk hafterKey (.padded hblank hw hafter)) hws, ?_, ?_⟩
  · exact List.forall_mem_cons.mpr ⟨hfits, hall⟩
  · rw [octets_separated, ← hr'', octets_member, octets_append, octets_append,
      List.append_assoc, List.append_assoc, ← hr', ← hr, hs]

end Steps

/-! ## The marks between items -/

theorem closes_of_afterItem {container : Container} {s rest : Octets}
    {shorter : rest.length < s.length}
    (h : container.afterItem s = .ok ⟨.close, rest, shorter⟩) :
    ∃ w, Blank w ∧ s = octets w ++ container.close :: rest := by
  obtain ⟨w, hw, ⟨-, hs⟩ | ⟨hvalue, -⟩⟩ := Container.afterItem_sound h
  · exact ⟨w, hw, hs⟩
  · cases hvalue

theorem continues_of_afterItem {container : Container} {s rest : Octets}
    {shorter : rest.length < s.length}
    (h : container.afterItem s = .ok ⟨.comma, rest, shorter⟩) :
    ∃ w, Blank w ∧ s = octets w ++ ascii ',' :: rest := by
  obtain ⟨w, hw, ⟨hvalue, -⟩ | ⟨-, hs⟩⟩ := Container.afterItem_sound h
  · cases hvalue
  · exact ⟨w, hw, hs⟩

theorem closes_of_afterItemStrict {container : Container} {s rest : Octets}
    {shorter : rest.length < s.length}
    (h : container.afterItemStrict s = .ok ⟨.close, rest, shorter⟩) :
    ∃ w, Blank w ∧ s = octets w ++ container.close :: rest :=
  closes_of_afterItem (Container.afterItem_of_strict h)

theorem continues_of_afterItemStrict {container : Container} {s rest : Octets}
    {shorter : rest.length < s.length}
    (h : container.afterItemStrict s = .ok ⟨.comma, rest, shorter⟩) :
    ∃ w, Blank w ∧ s = octets w ++ ascii ',' :: rest :=
  continues_of_afterItem (Container.afterItem_of_strict h)

end JsonReport
