import JsonReport.Proofs.CharacterEncoding
import JsonReport.Proofs.DocumentGrammar
import JsonReport.Proofs.SettingsDraft
import Mathlib.Data.List.ReduceOption
import Mathlib.Tactic

/-!
# How the settings are written

The record is written as an object or as an array.  In an object the settings stand under
their keys, each at most once, and members with other keys may stand anywhere among them.
What comes under such a foreign key is only passed over, so which octets may stand there
is a parameter of the grammar.  In an array the settings stand in the order of the record,
and those at the end may be missing.

The grammar speaks of octets, because a file need not be a text throughout; every part of
it other than the foreign values is the encoding of characters.
-/

namespace JsonReport

open Utf8
open Spelling

/-- A setting with its value. -/
inductive Setting where
  | enabled (flag : Bool)
  | hostname (text : String)
  | port (text : String)

namespace Setting

def field : Setting → Field
  | .enabled _ => .enabled
  | .hostname _ => .hostname
  | .port _ => .port

/-- The document that states the value. -/
def document : Setting → Document String
  | .enabled flag => .bool flag
  | .hostname text => .string text
  | .port text => .string text

def enabled? : Setting → Option Bool
  | .enabled flag => some flag
  | _ => none

def hostname? : Setting → Option String
  | .hostname text => some text
  | _ => none

def port? : Setting → Option String
  | .port text => some text
  | _ => none

end Setting

namespace Settings

/-- The record of these settings, with defaults for all others. -/
def ofList (settings : List Setting) : Settings :=
  ⟨(settings.findSome? Setting.enabled?).getD default.enabled,
    (settings.findSome? Setting.hostname?).getD default.hostname,
    (settings.findSome? Setting.port?).getD default.port⟩

section Grammar

variable (foreign : Octets → Prop)

/-- The ways to write a member.  The key of a setting may be spelled in any way, and its
value is a boolean or a string; where the key is a string of another text, the member is
none of the settings. -/
inductive MemberWritten : Option Setting → Octets → Prop where
  | known {setting : Setting} {w : List Char} :
      Member Content (setting.field.key, setting.document) w →
        MemberWritten (some setting) (octets w)
  | foreign {before k after : List Char} {key : String} {value : Octets} :
      Blank before → Quoted Content key k → (∀ field : Field, key ≠ field.key) →
        Blank after → foreign value →
        MemberWritten none (octets (before ++ k ++ after ++ [':']) ++ value)

/-- Members with commas between them; where there are none, white space may stand. -/
inductive MembersWritten : List (Option Setting) → Octets → Prop where
  | none {w : List Char} : Blank w → MembersWritten [] (octets w)
  | last {member : Option Setting} {s : Octets} :
      MemberWritten foreign member s → MembersWritten [member] s
  | more {member next : Option Setting} {members : List (Option Setting)} {s rest : Octets} :
      MemberWritten foreign member s → MembersWritten (next :: members) rest →
        MembersWritten (member :: next :: members) (s ++ ascii ',' :: rest)

/-- An object of these members, with white space around it. -/
inductive ObjectWritten : List (Option Setting) → Octets → Prop where
  | braces {before after : List Char} {members : List (Option Setting)} {s : Octets} :
      Blank before → MembersWritten foreign members s → Blank after →
        ObjectWritten members
          (octets before ++ ascii '\x7b' :: (s ++ ascii '\x7d' :: octets after))

/-- The ways to write the record: an object in which no setting comes twice, or an array
of at most three elements, which are a boolean, a string and a string. -/
inductive Written : Settings → Octets → Prop where
  | object {members : List (Option Setting)} {s : Octets} :
      ObjectWritten foreign members s → (members.reduceOption.map Setting.field).Nodup →
        Written (ofList members.reduceOption) s
  | array {settings : List Setting} {w : List Char} :
      Element Content (.array (settings.map Setting.document)) w →
        settings.map Setting.field <+: [.enabled, .hostname, .port] →
        Written (ofList settings) (octets w)

end Grammar

section Monotone

variable {foreign foreign' : Octets → Prop} (hforeign : ∀ v, foreign v → foreign' v)

include hforeign

theorem MemberWritten.mono {member : Option Setting} {s : Octets}
    (h : MemberWritten foreign member s) : MemberWritten foreign' member s := by
  cases h with
  | known hmember => exact .known hmember
  | foreign hbefore hk hkey hafter hv =>
      exact .foreign hbefore hk hkey hafter (hforeign _ hv)

theorem MembersWritten.mono {members : List (Option Setting)} {s : Octets}
    (h : MembersWritten foreign members s) : MembersWritten foreign' members s := by
  induction h with
  | none hblank => exact .none hblank
  | last hmember => exact .last (hmember.mono hforeign)
  | more hmember _ ih => exact .more (hmember.mono hforeign) ih

theorem ObjectWritten.mono {members : List (Option Setting)} {s : Octets}
    (h : ObjectWritten foreign members s) : ObjectWritten foreign' members s := by
  cases h with
  | braces hbefore hmembers hafter => exact .braces hbefore (hmembers.mono hforeign) hafter

/-- What is written with fewer foreign values is written with more. -/
theorem Written.mono {settings : Settings} {s : Octets} (h : Written foreign settings s) :
    Written foreign' settings s := by
  cases h with
  | object hobject hnodup => exact .object (hobject.mono hforeign) hnodup
  | array hw hfields => exact .array hw hfields

end Monotone

/-! ## The draft of a record -/

namespace Draft

def put (draft : Draft) : Setting → Draft
  | .enabled flag => { draft with enabled := some flag }
  | .hostname text => { draft with hostname := some text }
  | .port text => { draft with port := some text }

/-- The draft after a member: a foreign one leaves it, and a setting that is known is
refused. -/
def add? (draft : Draft) : Option Setting → Option Draft
  | some setting => if draft.has setting.field then none else some (draft.put setting)
  | none => some draft

def addAll? (draft : Draft) : List (Option Setting) → Option Draft
  | [] => some draft
  | member :: members => (draft.add? member).bind (addAll? · members)

/-- These settings are different from each other and from those that are known. -/
def Lacks (draft : Draft) (settings : List Setting) : Prop :=
  (settings.map Setting.field).Nodup ∧ ∀ setting ∈ settings, draft.has setting.field = false

theorem has_put (draft : Draft) (setting : Setting) (field : Field) :
    (draft.put setting).has field = (decide (setting.field = field) || draft.has field) := by
  cases setting <;> cases field <;> rfl

theorem lacks_cons {draft : Draft} {setting : Setting} {settings : List Setting} :
    draft.Lacks (setting :: settings) ↔
      draft.has setting.field = false ∧ (draft.put setting).Lacks settings := by
  simp only [Lacks, List.map_cons, List.nodup_cons, List.forall_mem_cons, List.mem_map,
    has_put, Bool.or_eq_false_iff, decide_eq_false_iff_not]
  constructor
  · rintro ⟨⟨hfirst, hnodup⟩, hnew, hothers⟩
    exact ⟨hnew, hnodup, fun other h =>
      ⟨fun heq => hfirst ⟨other, h, heq.symm⟩, hothers other h⟩⟩
  · rintro ⟨hnew, hnodup, hothers⟩
    refine ⟨⟨?_, hnodup⟩, hnew, fun other h => (hothers other h).2⟩
    rintro ⟨other, hmem, heq⟩
    exact (hothers other hmem).1 heq.symm

theorem lacks_empty {settings : List Setting} :
    empty.Lacks settings ↔ (settings.map Setting.field).Nodup := by
  have hempty : ∀ field : Field, empty.has field = false := by
    intro field
    cases field <;> rfl
  simp only [Lacks, hempty, implies_true, and_true]

/-- The members go into the draft exactly if their settings are lacking. -/
theorem addAll?_eq_some_iff {draft next : Draft} {members : List (Option Setting)} :
    draft.addAll? members = some next ↔
      draft.Lacks members.reduceOption ∧ members.reduceOption.foldl put draft = next := by
  induction members generalizing draft with
  | nil => simp [addAll?, Lacks]
  | cons member members ih =>
      cases member with
      | none =>
          rw [List.reduceOption_cons_of_none]
          exact ih
      | some setting =>
          rw [List.reduceOption_cons_of_some, lacks_cons, List.foldl_cons, addAll?, add?]
          cases hhas : draft.has setting.field with
          | true => simp
          | false => simpa using ih

/-- What is known after the settings was known before or is among them. -/
theorem foldl_put {draft : Draft} {settings : List Setting} (h : draft.Lacks settings) :
    settings.foldl put draft =
      ⟨draft.enabled.or (settings.findSome? Setting.enabled?),
        draft.hostname.or (settings.findSome? Setting.hostname?),
        draft.port.or (settings.findSome? Setting.port?)⟩ := by
  induction settings generalizing draft with
  | nil => simp
  | cons setting settings ih =>
      obtain ⟨hnew, hothers⟩ := lacks_cons.mp h
      rw [List.foldl_cons, ih hothers]
      cases setting <;>
        simp_all [put, has, Setting.field, Setting.enabled?, Setting.hostname?, Setting.port?,
          List.findSome?_cons]

theorem complete_foldl_put {settings : List Setting}
    (h : (settings.map Setting.field).Nodup) :
    (settings.foldl put empty).complete = ofList settings := by
  rw [foldl_put (lacks_empty.mpr h)]
  rfl

end Draft

end Settings

end JsonReport
