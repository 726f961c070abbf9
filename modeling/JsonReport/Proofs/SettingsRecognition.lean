import JsonReport.Proofs.DecodeFailure
import JsonReport.Proofs.SettingsSoundness
import JsonReport.Proofs.SkippedSoundness
import Mathlib.Tactic

/-!
# Which texts hold settings

The texts from which settings are read are those of their own grammar.  Under a foreign
key it asks for a document by the letter of JSON, however deep it nests, however great its
numbers are and whether or not its surrogates are paired.  So a text may hold settings
without holding a value.  Foreign members say nothing, and it does not matter how many
there are and where they stand.
-/

namespace JsonReport

open Utf8
open Spelling

/-- A document by the letter of the grammar, with white space around it. -/
def SkippedText (v : Octets) : Prop :=
  ∃ document w, Element (Run Symbol.Spelled) document w ∧ v = octets w

theorem elementOctets_of_skippedText {v : Octets} (h : SkippedText v) : ElementOctets v := by
  obtain ⟨document, w, hw, rfl⟩ := h
  exact elementOctets_of_element symbols_inStringOctets hw

theorem skips_text : Origin.text.Skips SkippedText := by
  intro s skipped hs h
  obtain ⟨before, v, hbefore, hv, hsplit⟩ := skipValue_sound h
  obtain ⟨document, w, hw, rfl⟩ := hv.text ((hs rfl).after hsplit)
  rw [← List.append_assoc, ← octets_append] at hsplit
  refine ⟨octets (before ++ w), hsplit, hs.after hsplit, ?_⟩
  intro after hafter
  exact ⟨document, _, .padded hbefore hw hafter, (octets_append (before ++ w) after).symm⟩

namespace Settings

/-! ## Members -/

theorem readMemberValue_known {setting : Setting} {w : List Char}
    (h : Element Content setting.document w) (origin : Origin) (draft : Draft)
    {afterKey : List Char} (hafterKey : Blank afterKey) {rest : Octets}
    (hrest : EndsNumber rest) :
    ∃ after, Blank after ∧
      (readMemberValue origin draft setting.field.key
          (octets afterKey ++ ascii ':' :: (octets w ++ rest))).Follows
        (draft.add? (some setting)) (octets after ++ rest) := by
  have hput : draft.put? setting.field.key setting.document.value =
      draft.add? (some setting) := by
    rw [Draft.put?, Field.ofKey?_key]
    cases setting <;> rfl
  rw [← hput]
  exact readMemberValue_follows h origin draft setting.field.key hafterKey hrest

theorem readMemberValue_foreign {v : Octets} (h : ElementOctets v) (origin : Origin)
    (draft : Draft) {key : String} (hkey : ∀ field : Field, key ≠ field.key)
    {afterKey : List Char} (hafterKey : Blank afterKey) {rest : Octets}
    (hrest : EndsNumber rest) :
    ∃ after, Blank after ∧
      (readMemberValue origin draft key
          (octets afterKey ++ ascii ':' :: (v ++ rest))).Yields
        draft (octets after ++ rest) := by
  have hnone : Field.ofKey? key = none := by
    cases hfield : Field.ofKey? key with
    | none => rfl
    | some field => exact absurd (ofKey?_eq_some hfield) (hkey field)
  obtain ⟨shorter, hcolon⟩ := readColon_of_blank hafterKey (v ++ rest)
  obtain ⟨after, hafter, hshorter, hskip⟩ := element_skipped h hrest
  refine ⟨after, hafter, Nat.lt_trans hshorter shorter, ?_⟩
  simp only [readMemberValue, hnone, hcolon, hskip, Taken.map, Taken.past]

/-- A written member gives its key, and its value does to the draft what the member does. -/
theorem member_follows {member : Option Setting} {v : Octets}
    (h : MemberWritten ElementOctets member v) (origin : Origin) (draft : Draft)
    {rest : Octets} (hrest : EndsNumber rest) :
    ∃ key r after, (readKey origin (v ++ rest)).Yields key r ∧ Blank after ∧
      (readMemberValue origin draft key r).Follows (draft.add? member)
        (octets after ++ rest) := by
  cases h with
  | known hmember =>
      cases hmember with
      | pair hbefore hk hafterKey hw =>
          obtain ⟨after, hafter, hvalue⟩ :=
            readMemberValue_known hw origin draft hafterKey hrest
          rw [octets_member]
          exact ⟨_, _, after, readKey_of_quoted hbefore hk origin _, hafter, hvalue⟩
  | @foreign before k afterKey key value hbefore hk hkey hafterKey hv =>
      obtain ⟨after, hafter, hvalue⟩ :=
        readMemberValue_foreign hv origin draft hkey hafterKey hrest
      refine ⟨key, octets afterKey ++ ascii ':' :: (value ++ rest), after, ?_, hafter, hvalue⟩
      have hsplit : octets (before ++ k ++ afterKey ++ [':']) ++ value ++ rest =
          octets before ++ (octets k ++ (octets afterKey ++ ascii ':' :: (value ++ rest))) := by
        have hmark : octets [':'] ++ (value ++ rest) = ascii ':' :: (value ++ rest) := rfl
        simp only [octets_append, List.append_assoc, hmark]
      rw [hsplit]
      exact readKey_of_quoted hbefore hk origin _

section Beginnings

variable {foreign : Octets → Prop} {v : Octets}

theorem memberWritten_begins {member : Option Setting} (h : MemberWritten foreign member v)
    (rest : Octets) : Begins (ascii '"') (v ++ rest) := by
  cases h with
  | known hmember => exact member_begins hmember rest
  | foreign hbefore hk _ _ _ =>
      cases hk
      simp only [octets_append, octets_cons_ascii (show '"'.toNat < 128 by decide),
        List.append_assoc, List.cons_append]
      exact begins_of_blank hbefore (by decide) _

theorem membersWritten_begin {member : Option Setting} {members : List (Option Setting)}
    (h : MembersWritten foreign (member :: members) v) (rest : Octets) :
    Begins (ascii '"') (v ++ rest) := by
  cases h with
  | last hmember => exact memberWritten_begins hmember rest
  | more hmember _ =>
      rw [List.append_assoc]
      exact memberWritten_begins hmember _

end Beginnings

theorem readFields_of_written {member : Option Setting} {members : List (Option Setting)}
    {v : Octets} (h : MembersWritten ElementOctets (member :: members) v) (origin : Origin)
    (draft : Draft) (rest : Octets) :
    (readFields origin draft (v ++ ascii '\x7d' :: rest)).Follows
      (draft.addAll? (member :: members)) rest := by
  -- A comma is accepted only where another key follows, so the members after the first
  -- one have to be at hand as written: the induction is on them and not on the grammar.
  induction members generalizing member v draft with
  | nil =>
      cases h with
      | last hmember =>
          obtain ⟨key, r, after, hkey, hafter, hvalue⟩ :=
            member_follows hmember origin draft (endsNumber_close .object rest)
          have hsingle : draft.addAll? [member] = draft.add? member :=
            Option.bind_fun_some (draft.add? member)
          rw [hsingle]
          exact readFields_last hkey hvalue (Container.object.afterItemStrict_close hafter rest)
  | cons second members ih =>
      cases h with
      | @more _ _ _ first others hmember hmembers =>
          obtain ⟨key, r, after, hkey, hafter, hvalue⟩ :=
            member_follows hmember origin draft
              (endsNumber_comma (others ++ ascii '\x7d' :: rest))
          have hcomma : (Container.object.afterItemStrict
              (octets after ++ ascii ',' :: (others ++ ascii '\x7d' :: rest))).Yields .comma
                (others ++ ascii '\x7d' :: rest) :=
            Container.afterItemStrict_comma hafter (membersWritten_begin hmembers _) (by decide)
          rw [List.append_assoc, List.cons_append, Draft.addAll?]
          exact readFields_more hkey hvalue hcomma fun next => ih hmembers next

/-! ## Objects and arrays -/

/-- The outcome of reading an object is that of its members in the draft. -/
theorem toOption_readDocument_of_object {members : List (Option Setting)} {s : Octets}
    (h : ObjectWritten ElementOctets members s) (origin : Origin) :
    (Settings.readDocument origin s).toOption =
      (Draft.empty.addAll? members).map Draft.complete := by
  cases h with
  | @braces before after _ v hbefore hv hafter =>
      have hopening : opening? (ascii '\x7b') = some (.container .object) := rfl
      apply toOption_readDocument_of_follows hafter
      apply read_of_items hbefore hopening
      cases members with
      | nil =>
          cases hv with
          | none hblank =>
              obtain ⟨_, hends⟩ :=
                Container.object.endsAtOnce_of_blank hblank (octets after)
              exact readItems_empty hends
      | cons member members =>
          have hends : Container.object.endsAtOnce (v ++ ascii '\x7d' :: octets after) =
              .ok none :=
            Container.endsAtOnce_of_begins (membersWritten_begin hv _) (by decide)
          simp only [readItems, hends]
          exact readFields_of_written hv origin .empty (octets after)

theorem toOption_readDocument_of_array {settings : List Setting} {w : List Char}
    (h : Element Content (.array (settings.map Setting.document)) w)
    (hfields : settings.map Setting.field <+: [.enabled, .hostname, .port])
    (origin : Origin) :
    (Settings.readDocument origin (octets w)).toOption = some (ofList settings) := by
  have hwritten : Document.WrittenAs (.array (settings.map Setting.document))
      (String.ofList w) := by
    unfold Document.WrittenAs
    rwa [String.toList_ofList]
  have htake := Draft.takeAll?_eq_some_iff.mpr
    ⟨settings, hfields, rfl, rfl (a := settings.foldl Draft.put Draft.empty)⟩
  have hread := toOption_readDocument hwritten origin
  rw [encode_eq_octets, String.toList_ofList, itemsDraft?, htake, Option.map_some,
    Draft.complete_foldl_put (hfields.sublist.nodup (by decide))] at hread
  exact hread

theorem toOption_readDocument_of_written {settings : Settings} {s : Octets}
    (h : Written ElementOctets settings s) (origin : Origin) :
    (Settings.readDocument origin s).toOption = some settings := by
  cases h with
  | object hobject hnodup =>
      have hadd := Draft.addAll?_eq_some_iff.mpr ⟨Draft.lacks_empty.mpr hnodup, rfl⟩
      rw [toOption_readDocument_of_object hobject origin, hadd, Option.map_some,
        Draft.complete_foldl_put hnodup]
  | array hw hfields => exact toOption_readDocument_of_array hw hfields origin

/-- Only the settings among the members count. -/
theorem addAll?_congr {members members' : List (Option Setting)}
    (h : members.reduceOption = members'.reduceOption) (draft : Draft) :
    draft.addAll? members = draft.addAll? members' := by
  apply Option.ext
  intro next
  simp only [Draft.addAll?_eq_some_iff, h]

theorem ofText_eq_ok_iff {text : String} {settings : Settings} :
    Settings.ofText text = .ok settings ↔
      (Settings.readDocument .text (Utf8.encode text)).toOption = some settings := by
  rw [← toOption_eq_some_iff, Settings.ofText, toOption_decodeWith]

end Settings

/-- Settings are read from a text exactly if it writes them, and a foreign member that is
put among the others, or taken away, changes nothing. -/
theorem ofText_recognizes (text : String) :
    (∀ settings, Settings.ofText text = .ok settings ↔
      Settings.Written SkippedText settings (Utf8.encode text)) ∧
      ∀ before after text',
        Settings.ObjectWritten SkippedText (before ++ after) (Utf8.encode text) →
          Settings.ObjectWritten SkippedText (before ++ none :: after) (Utf8.encode text') →
            ∀ settings, Settings.ofText text = .ok settings ↔
              Settings.ofText text' = .ok settings := by
  have hcovers : Origin.text.Covers (Utf8.encode text) := fun _ =>
    ⟨text.toList, encode_eq_octets text⟩
  constructor
  · intro settings
    constructor
    · intro h
      exact Settings.written_of_readDocument skips_text hcovers (decodeWith_eq_ok.mp h)
    · intro h
      have hwritten := h.mono fun _ => elementOctets_of_skippedText
      exact Settings.ofText_eq_ok_iff.mpr
        (Settings.toOption_readDocument_of_written hwritten .text)
  · intro before after text' hwritten hwritten' settings
    have hsame : (before ++ after).reduceOption = (before ++ none :: after).reduceOption := by
      rw [List.reduceOption_append, List.reduceOption_append, List.reduceOption_cons_of_none]
    have hoctets := hwritten.mono fun _ => elementOctets_of_skippedText
    have hoctets' := hwritten'.mono fun _ => elementOctets_of_skippedText
    rw [Settings.ofText_eq_ok_iff, Settings.ofText_eq_ok_iff,
      Settings.toOption_readDocument_of_object hoctets,
      Settings.toOption_readDocument_of_object hoctets', Settings.addAll?_congr hsame]

/-- A lone surrogate stands under a foreign key, where no value could be read. -/
def loneSurrogateText : String := "\x7b\"lt_enabled\":false,\"x\":\"\\uD800\"\x7d"

theorem ofText_recognizes_loneSurrogateText :
    Settings.ObjectWritten SkippedText ([some (.enabled false)] ++ none :: [])
        (Utf8.encode loneSurrogateText) ∧
      Settings.ofText loneSurrogateText =
        .ok ⟨false, Settings.default.hostname, Settings.default.port⟩ := by
  have hkey : Quoted Content "lt_enabled" "\"lt_enabled\"".toList :=
    .quotes (content_of_plain (w := "lt_enabled".toList) rfl)
  have hmember : Settings.MemberWritten SkippedText (some (.enabled false))
      (octets "\"lt_enabled\":false".toList) :=
    .known (.pair blank_nil hkey blank_nil (.padded blank_nil .false blank_nil))
  have hx : Quoted Content "x" ['"', 'x', '"'] :=
    .quotes (content_of_plain (w := ['x']) rfl)
  have hforeign : ∀ field : Field, "x" ≠ field.key := by
    intro field
    cases field <;> decide
  have hzero : HexDigit 0 '0' := hexDigit_digitChar (by decide)
  have height : HexDigit 8 '8' := hexDigit_digitChar (by decide)
  have hthirteen : HexDigit 13 'D' := ⟨by decide, .inr rfl⟩
  have hcode : HexCode 0xD800 ['D', '8', '0', '0'] := .digits hthirteen height hzero hzero
  have hvalue : SkippedText (octets "\"\\uD800\"".toList) :=
    ⟨_, _, .padded blank_nil (.string (.quotes (.cons (.code hcode) .nil))) blank_nil, rfl⟩
  have hother : Settings.MemberWritten SkippedText none
      (octets "\"x\":".toList ++ octets "\"\\uD800\"".toList) :=
    .foreign blank_nil hx hforeign blank_nil hvalue
  have hshort : Settings.ObjectWritten SkippedText ([some (.enabled false)] ++ [])
      (Utf8.encode "\x7b\"lt_enabled\":false\x7d") :=
    .braces blank_nil (.last hmember) blank_nil
  have hlong : Settings.ObjectWritten SkippedText ([some (.enabled false)] ++ none :: [])
      (Utf8.encode loneSurrogateText) :=
    .braces blank_nil (.more hmember (.last hother)) blank_nil
  obtain ⟨hrecognizes, hinsert⟩ := ofText_recognizes "\x7b\"lt_enabled\":false\x7d"
  have hread := (hrecognizes _).mpr (.object hshort (by decide))
  exact ⟨hlong, (hinsert _ _ _ hshort hlong _).mp hread⟩

end JsonReport
