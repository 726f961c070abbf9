import JsonReport.Proofs.MemberMerging
import JsonReport.Settings.Record
import Mathlib.Tactic

/-!
# Settings from values

What a value says about the settings, without any text: each setting looks at the values
that come for it, one after another.  It takes the first one if the kind is right and
refuses every other.  The members of an object are dealt with one by one in the draft,
and this comes to the same as dealing with each setting on its own.
-/

namespace JsonReport
namespace Settings

def asBool? : Json → Option Bool
  | .bool flag => some flag
  | _ => none

def asString? : Json → Option String
  | .string text => some text
  | _ => none

/-- A setting that may be absent; a value of the wrong kind gives none. -/
def settle? {α : Type} (pick? : Json → Option α) (default : α) : Option Json → Option α
  | none => some default
  | some value => pick? value

/-- The record of what is there for each setting. -/
def ofParts? (part : Field → Option Json) : Option Settings :=
  (settle? asBool? default.enabled (part .enabled)).bind fun enabled =>
    (settle? asString? default.hostname (part .hostname)).bind fun hostname =>
      (settle? asString? default.port (part .port)).map fun port =>
        ⟨enabled, hostname, port⟩

namespace Draft

def set? (draft : Draft) (field : Field) (value : Json) : Option Draft :=
  match field with
  | .enabled => (asBool? value).map fun flag => { draft with enabled := some flag }
  | .hostname => (asString? value).map fun text => { draft with hostname := some text }
  | .port => (asString? value).map fun text => { draft with port := some text }

/-- The draft after a member of an object. -/
def put? (draft : Draft) (key : String) (value : Json) : Option Draft :=
  match Field.ofKey? key with
  | none => some draft
  | some field => if draft.has field then none else draft.set? field value

def putAll? (draft : Draft) : List (String × Json) → Option Draft
  | [] => some draft
  | (key, value) :: members => (draft.put? key value).bind (putAll? · members)

/-- The draft after the elements of an array, of which each has its field. -/
def takeAll? (draft : Draft) : List Field → List Json → Option Draft
  | _, [] => some draft
  | [], _ :: _ => none
  | field :: fields, item :: items => (draft.set? field item).bind (takeAll? · fields items)

end Draft

/-! ## One setting -/

/-- A setting after the values that came for it. -/
def fill? {α : Type} (pick? : Json → Option α) (known : Option α) :
    List Json → Option (Option α)
  | [] => some known
  | value :: values =>
      if known.isSome then none
      else (pick? value).bind fun picked => fill? pick? (some picked) values

theorem fill?_of_repeated {α : Type} (pick? : Json → Option α) {values : List Json}
    (h : 1 < values.length) : fill? pick? none values = none := by
  match values with
  | [] => cases h
  | [_] => exact absurd h (Nat.lt_irrefl 1)
  | first :: second :: rest =>
      rw [fill?]
      cases pick? first with
      | none => rfl
      | some picked => rfl

theorem fill?_of_single {α : Type} (pick? : Json → Option α) (default : α)
    {values : List Json} (h : values.length ≤ 1) :
    (fill? pick? none values).map (·.getD default) =
      settle? pick? default values.getLast? := by
  match values with
  | [] => rfl
  | [value] =>
      change ((pick? value).bind fun picked => some (some picked)).map _ = pick? value
      cases pick? value with
      | none => rfl
      | some picked => rfl
  | _ :: _ :: _ => exact absurd h (by simp)

/-! ## The values of a key -/

/-- The values that come for a key, in their order. -/
def occurrences (members : List (String × Json)) (key : String) : List Json :=
  members.filterMap fun member => if member.1 = key then some member.2 else none

theorem occurrences_cons_same (key : String) (value : Json)
    (members : List (String × Json)) :
    occurrences ((key, value) :: members) key = value :: occurrences members key := by
  simp [occurrences]

theorem occurrences_cons_of_ne {key other : String} (h : other ≠ key) (value : Json)
    (members : List (String × Json)) :
    occurrences ((other, value) :: members) key = occurrences members key := by
  simp [occurrences, h]

theorem length_occurrences (members : List (String × Json)) (key : String) :
    (occurrences members key).length = (members.map Prod.fst).count key := by
  induction members with
  | nil => rfl
  | cons member members ih =>
      obtain ⟨other, value⟩ := member
      by_cases hkey : other = key
      · subst hkey
        rw [occurrences_cons_same, List.length_cons, ih, List.map_cons,
          List.count_cons_self]
      · rw [occurrences_cons_of_ne hkey, ih, List.map_cons, List.count_cons_of_ne hkey]

theorem lookup?_eq_head? (members : List (String × Json)) (key : String) :
    Members.lookup? members key = (occurrences members key).head? := by
  induction members with
  | nil => rfl
  | cons member members ih =>
      obtain ⟨other, value⟩ := member
      by_cases hkey : other = key
      · subst hkey
        rw [occurrences_cons_same, Members.lookup?, if_pos rfl]
        rfl
      · rw [occurrences_cons_of_ne hkey, Members.lookup?, if_neg hkey, ih]

theorem lookup?_merged_eq_getLast? (members : List (String × Json)) (key : String) :
    Members.lookup? (Members.merged members) key =
      (occurrences members key).getLast? := by
  rw [Members.lookup?_merged, lookup?_eq_head?, occurrences, List.filterMap_reverse,
    List.head?_reverse]
  rfl

/-! ## The whole draft -/

theorem key_injective : Function.Injective Field.key := by
  intro field other h
  cases field <;> cases other <;> first | rfl | exact absurd h (by decide)

theorem ofKey?_eq_some {key : String} {field : Field} (h : Field.ofKey? key = some field) :
    key = field.key := by
  unfold Field.ofKey? at h
  split_ifs at h with henabled hhostname hport <;> cases h <;> assumption

theorem ofKey?_eq_none {key : String} (h : Field.ofKey? key = none) (field : Field) :
    key ≠ field.key := by
  rintro rfl
  rw [Field.ofKey?_key] at h
  cases h

namespace Draft

/-- The draft in which each setting has seen the values of its own key. -/
def fillAll? (draft : Draft) (members : List (String × Json)) : Option Draft :=
  (fill? asBool? draft.enabled (occurrences members Field.enabled.key)).bind fun enabled =>
    (fill? asString? draft.hostname (occurrences members Field.hostname.key)).bind
      fun hostname =>
        (fill? asString? draft.port (occurrences members Field.port.key)).map fun port =>
          ⟨enabled, hostname, port⟩

theorem fillAll?_cons (draft : Draft) (key : String) (value : Json)
    (members : List (String × Json)) :
    draft.fillAll? ((key, value) :: members) =
      (draft.put? key value).bind (fillAll? · members) := by
  unfold put?
  cases hkey : Field.ofKey? key with
  | none =>
      have hother := ofKey?_eq_none hkey
      unfold fillAll?
      rw [occurrences_cons_of_ne (hother .enabled), occurrences_cons_of_ne (hother .hostname),
        occurrences_cons_of_ne (hother .port)]
      rfl
  | some field =>
      have hfield := ofKey?_eq_some hkey
      subst hfield
      have hother : ∀ other, field ≠ other → field.key ≠ other.key := by
        intro other hne heq
        exact hne (key_injective heq)
      cases field with
      | enabled =>
          unfold fillAll?
          rw [occurrences_cons_same, occurrences_cons_of_ne (hother .hostname (by decide)),
            occurrences_cons_of_ne (hother .port (by decide)), fill?]
          cases hknown : draft.enabled <;> cases hpick : asBool? value <;>
            simp [has, set?, hknown, hpick]
      | hostname =>
          unfold fillAll?
          rw [occurrences_cons_same, occurrences_cons_of_ne (hother .enabled (by decide)),
            occurrences_cons_of_ne (hother .port (by decide)), fill?]
          cases hknown : draft.hostname <;> cases hpick : asString? value <;>
            simp [has, set?, hknown, hpick]
      | port =>
          unfold fillAll?
          rw [occurrences_cons_same, occurrences_cons_of_ne (hother .enabled (by decide)),
            occurrences_cons_of_ne (hother .hostname (by decide)), fill?]
          cases hknown : draft.port <;> cases hpick : asString? value <;>
            simp [has, set?, hknown, hpick]

theorem putAll?_eq_fillAll? (draft : Draft) (members : List (String × Json)) :
    draft.putAll? members = draft.fillAll? members := by
  induction members generalizing draft with
  | nil => rfl
  | cons member members ih =>
      obtain ⟨key, value⟩ := member
      rw [putAll?, fillAll?_cons]
      exact congrArg _ (funext fun next => ih next)

theorem fillAll?_of_repeated {members : List (String × Json)} {field : Field}
    (h : 1 < (members.map Prod.fst).count field.key) : empty.fillAll? members = none := by
  rw [← length_occurrences] at h
  cases field with
  | enabled =>
      have hnone := fill?_of_repeated asBool? h
      simp only [fillAll?, empty, hnone, Option.bind_none]
  | hostname =>
      have hnone := fill?_of_repeated asString? h
      simp only [fillAll?, empty, hnone, Option.bind_none, Option.bind_fun_none]
  | port =>
      have hnone := fill?_of_repeated asString? h
      simp only [fillAll?, empty, hnone, Option.map_none, Option.bind_fun_none]

theorem fillAll?_of_single {members : List (String × Json)}
    (h : ∀ field : Field, (members.map Prod.fst).count field.key ≤ 1) :
    (empty.fillAll? members).map complete =
      ofParts? fun field => Members.lookup? (Members.merged members) field.key := by
  have hlength : ∀ field : Field, (occurrences members field.key).length ≤ 1 := by
    intro field
    rw [length_occurrences]
    exact h field
  have henabled := fill?_of_single asBool? default.enabled (hlength .enabled)
  have hhostname := fill?_of_single asString? default.hostname (hlength .hostname)
  have hport := fill?_of_single asString? default.port (hlength .port)
  simp only [ofParts?, lookup?_merged_eq_getLast?, ← henabled, ← hhostname, ← hport]
  unfold fillAll? empty
  cases fill? asBool? none (occurrences members Field.enabled.key) with
  | none => rfl
  | some enabled =>
      cases fill? asString? none (occurrences members Field.hostname.key) with
      | none => rfl
      | some hostname =>
          cases fill? asString? none (occurrences members Field.port.key) with
          | none => rfl
          | some port => rfl

end Draft

/-! ## Arrays -/

/-- The place of a setting in an array. -/
def place : Field → ℕ
  | .enabled => 0
  | .hostname => 1
  | .port => 2

theorem takeAll?_record (items : List Json) :
    (Draft.empty.takeAll? [.enabled, .hostname, .port] items).map Draft.complete =
      if items.length ≤ 3 then ofParts? fun field => items[place field]? else none := by
  rcases items with _ | ⟨enabled, _ | ⟨hostname, _ | ⟨port, _ | ⟨next, rest⟩⟩⟩⟩
  · rfl
  · cases henabled : asBool? enabled <;>
      simp [Draft.takeAll?, Draft.set?, Draft.complete, ofParts?, settle?, place, henabled,
        Draft.empty]
  · cases henabled : asBool? enabled <;> cases hhostname : asString? hostname <;>
      simp [Draft.takeAll?, Draft.set?, Draft.complete, ofParts?, settle?, place, henabled,
        hhostname, Draft.empty]
  · cases henabled : asBool? enabled <;> cases hhostname : asString? hostname <;>
      cases hport : asString? port <;>
        simp [Draft.takeAll?, Draft.set?, Draft.complete, ofParts?, settle?, place, henabled,
          hhostname, hport]
  · have hlong : ¬(enabled :: hostname :: port :: next :: rest).length ≤ 3 := by simp
    rw [if_neg hlong]
    simp [Draft.takeAll?]

end Settings
end JsonReport
