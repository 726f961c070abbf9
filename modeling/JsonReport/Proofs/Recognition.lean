import JsonReport.Proofs.DecodeFailure
import JsonReport.Proofs.StringSymbols
import JsonReport.Proofs.ValueSoundness
import Mathlib.Tactic

/-!
# Which texts are decoded

By the letter of the grammar an escape by code point is a symbol of its own, whatever
its number.  A text of the grammar is decoded when it keeps three limits: containers
nest at most 127 deep, every surrogate belongs to a pair, and every number literal is in
range.  Every other text is refused.

The readers are described for documents whose strings are texts.  A string of paired
symbols and a text are written in the same ways, and a document changes from one
representation to the other string by string, its shape and its numbers staying.
-/

namespace JsonReport

open Utf8
open Spelling

/-! ## Another representation of the strings -/

section Representations

variable {Text Text' : Type} {content : Text → List Char → Prop}
  {content' : Text' → List Char → Prop} {number : NumberLiteral → Prop}
  {string : Text → Prop} {string' : Text' → Prop}

/-- Every string that is as given has one, written in the same way, that is as given in
the other representation. -/
def Restated (content : Text → List Char → Prop) (string : Text → Prop)
    (content' : Text' → List Char → Prop) (string' : Text' → Prop) : Prop :=
  ∀ text w, content text w → string text → ∃ text', content' text' w ∧ string' text'

theorem quoted_transport
    (hstring : Restated content string content' string')
    {text : Text} {w : List Char} (h : Quoted content text w) (htext : string text) :
    ∃ text', Quoted content' text' w ∧ string' text' := by
  cases h with
  | quotes hcontent =>
      obtain ⟨text', hcontent', htext'⟩ := hstring _ _ hcontent htext
      exact ⟨text', .quotes hcontent', htext'⟩

mutual

theorem value_transport
    (hstring : Restated content string content' string')
    {document : Document Text} {w : List Char} (h : Value content document w)
    (hall : document.Forall number string) :
    ∃ document' : Document Text', Value content' document' w ∧
      document'.Forall number string' ∧ document'.depth = document.depth := by
  match h with
  | .null => exact ⟨_, .null, trivial, rfl⟩
  | .true => exact ⟨_, .true, trivial, rfl⟩
  | .false => exact ⟨_, .false, trivial, rfl⟩
  | .number hnumber => exact ⟨_, .number hnumber, hall, rfl⟩
  | .string hquoted =>
      obtain ⟨text', hquoted', htext'⟩ := quoted_transport hstring hquoted hall
      exact ⟨_, .string hquoted', htext', rfl⟩
  | .emptyArray hblank => exact ⟨_, .emptyArray hblank, trivial, rfl⟩
  | .emptyObject hblank => exact ⟨_, .emptyObject hblank, trivial, rfl⟩
  | .array hitems =>
      obtain ⟨items', hitems', hall', hdepth⟩ := elements_transport hstring hitems hall
      exact ⟨_, .array hitems', hall', congrArg (· + 1) hdepth⟩
  | .object hmembers =>
      obtain ⟨members', hmembers', hall', hdepth⟩ := members_transport hstring hmembers hall
      exact ⟨_, .object hmembers', hall', congrArg (· + 1) hdepth⟩

theorem element_transport
    (hstring : Restated content string content' string')
    {document : Document Text} {w : List Char} (h : Element content document w)
    (hall : document.Forall number string) :
    ∃ document' : Document Text', Element content' document' w ∧
      document'.Forall number string' ∧ document'.depth = document.depth := by
  match h with
  | .padded hbefore hvalue hafter =>
      obtain ⟨document', hvalue', hall', hdepth⟩ := value_transport hstring hvalue hall
      exact ⟨document', .padded hbefore hvalue' hafter, hall', hdepth⟩

theorem elements_transport
    (hstring : Restated content string content' string')
    {items : List (Document Text)} {w : List Char} (h : Elements content items w)
    (hall : Document.ElementsForall number string items) :
    ∃ items' : List (Document Text'), Elements content' items' w ∧
      Document.ElementsForall number string' items' ∧
      Document.elementsDepth items' = Document.elementsDepth items := by
  match h with
  | .last hitem =>
      obtain ⟨item', hitem', hall', hdepth⟩ := element_transport hstring hitem hall.1
      exact ⟨[item'], .last hitem', ⟨hall', trivial⟩, congrArg (max · 0) hdepth⟩
  | .more hitem hitems =>
      obtain ⟨item', hitem', hall', hdepth⟩ := element_transport hstring hitem hall.1
      obtain ⟨items', hitems', halls', hdepths⟩ :=
        elements_transport hstring hitems hall.2
      exact ⟨item' :: items', .more hitem' hitems', ⟨hall', halls'⟩,
        congrArg₂ max hdepth hdepths⟩

theorem member_transport
    (hstring : Restated content string content' string')
    {member : Text × Document Text} {w : List Char} (h : Member content member w)
    (hkey : string member.1) (hall : member.2.Forall number string) :
    ∃ member' : Text' × Document Text', Member content' member' w ∧ string' member'.1 ∧
      member'.2.Forall number string' ∧ member'.2.depth = member.2.depth := by
  match h with
  | .pair hbefore hquoted hafter hitem =>
      obtain ⟨key', hquoted', hkey'⟩ := quoted_transport hstring hquoted hkey
      obtain ⟨item', hitem', hall', hdepth⟩ := element_transport hstring hitem hall
      exact ⟨(key', item'), .pair hbefore hquoted' hafter hitem', hkey', hall', hdepth⟩

theorem members_transport
    (hstring : Restated content string content' string')
    {members : List (Text × Document Text)} {w : List Char}
    (h : Members content members w) (hall : Document.MembersForall number string members) :
    ∃ members' : List (Text' × Document Text'), Members content' members' w ∧
      Document.MembersForall number string' members' ∧
      Document.membersDepth members' = Document.membersDepth members := by
  match h with
  | .last hmember =>
      obtain ⟨member', hmember', hkey', hall', hdepth⟩ :=
        member_transport hstring hmember hall.1 hall.2.1
      exact ⟨[member'], .last hmember', ⟨hkey', hall', trivial⟩,
        congrArg (max · 0) hdepth⟩
  | .more hmember hmembers =>
      obtain ⟨member', hmember', hkey', hall', hdepth⟩ :=
        member_transport hstring hmember hall.1 hall.2.1
      obtain ⟨members', hmembers', halls', hdepths⟩ :=
        members_transport hstring hmembers hall.2.2
      exact ⟨member' :: members', .more hmember' hmembers', ⟨hkey', hall', halls'⟩,
        congrArg₂ max hdepth hdepths⟩

end

end Representations

/-! ## Acceptance -/

/-- White space, one value and white space by the grammar, with containers at most 127
deep, every surrogate in a pair and every number literal in range. -/
def JsonText (text : String) : Prop :=
  ∃ document : Document (List Symbol),
    Element (Run Symbol.Spelled) document text.toList ∧ document.depth ≤ 127 ∧
      document.Forall NumberLiteral.InRange PairedSurrogates

theorem jsonText_iff_written (text : String) :
    JsonText text ↔ ∃ document : Document String,
      document.WrittenAs text ∧ document.depth ≤ 127 ∧ document.InRange := by
  constructor
  · rintro ⟨document, hwritten, hdepth, hall⟩
    have hstring : Restated (Run Symbol.Spelled) PairedSurrogates Content
        (fun _ => True) := by
      intro symbols w hrun hpaired
      obtain ⟨text, htext⟩ := run_of_symbols hpaired hrun
      refine ⟨String.ofList text, ?_, trivial⟩
      unfold Content
      rw [String.toList_ofList]
      exact htext
    obtain ⟨document', hwritten', hrange, hdepth'⟩ :=
      element_transport hstring hwritten hall
    exact ⟨document', hwritten', hdepth' ▸ hdepth, hrange⟩
  · rintro ⟨document, hwritten, hdepth, hrange⟩
    have hstring : Restated Content (fun _ => True) (Run Symbol.Spelled)
        PairedSurrogates :=
      fun text w hcontent _ => symbols_of_run hcontent
    obtain ⟨document', hwritten', hall, hdepth'⟩ :=
      element_transport hstring hwritten hrange
    exact ⟨document', hwritten', hdepth' ▸ hdepth, hall⟩

/-- Decoding accepts the texts of the grammar that keep to the limits, and refuses every
other text with a failure of kind decode. -/
theorem decodeText_recognizes (text : String) :
    ((∃ value, decodeText text = .ok value) ↔ JsonText text) ∧
      ((∃ failure, decodeText text = .error failure ∧ failure.kind = .decode) ↔
        ¬JsonText text) := by
  have haccepts : (∃ value, decodeText text = .ok value) ↔ JsonText text := by
    rw [jsonText_iff_written]
    constructor
    · rintro ⟨value, hvalue⟩
      obtain ⟨document, hwritten, hdepth, hrange, _⟩ :=
        exists_written_of_readDocument (decodeWith_eq_ok.mp hvalue)
      exact ⟨document, hwritten, hdepth, hrange⟩
    · rintro ⟨document, hwritten, hdepth, hrange⟩
      have hread := (readDocument_of_written hwritten hrange .text).1 hdepth
      exact ⟨document.value, decodeWith_eq_ok.mpr hread⟩
  refine ⟨haccepts, ?_⟩
  rw [← haccepts]
  constructor
  · rintro ⟨failure, hfailure, _⟩ ⟨value, hvalue⟩
    rw [hfailure] at hvalue
    cases hvalue
  · intro hrefused
    cases hdecode : decodeText text with
    | ok value => exact absurd ⟨value, hdecode⟩ hrefused
    | error failure => exact ⟨failure, rfl, kind_of_decodeWith hdecode⟩

end JsonReport
