import JsonReport.Decoding
import JsonReport.Proofs.SettingsDraft
import JsonReport.Proofs.SkippedDocuments
import Mathlib.Tactic

/-!
# Reading settings from written documents

On a written document the reader of settings goes the way of the draft: it fails where
the draft does, and elsewhere it has the same draft at the end.  Members with other keys
are passed over and leave the draft as it is.
-/

namespace JsonReport

open Utf8
open Spelling

/-- A reading that goes the way of an outcome: it yields the value and leaves this text,
or it fails where there is none. -/
def Reading.Follows {s : Octets} {α : Type} (reading : Reading s α) (outcome : Option α)
    (rest : Octets) : Prop :=
  match outcome with
  | some value => reading.Yields value rest
  | none => reading.Fails

section Following

variable {s s' r rest : Octets} {α β : Type} {reading : Reading s α}
  {outcome : Option α} {outer : Reading s' β}

theorem Reading.Follows.bind {next : α → Option β} (h : reading.Follows outcome r)
    (hyields : ∀ value, reading.Yields value r → outer.Follows (next value) rest)
    (hfault : ∀ fault, reading = .error fault → outer = .error fault) :
    outer.Follows (outcome.bind next) rest := by
  cases outcome with
  | none =>
      obtain ⟨fault, hread⟩ := h
      exact ⟨fault, hfault fault hread⟩
  | some value => exact hyields value h

theorem Reading.Follows.map {f : α → β} (h : reading.Follows outcome r)
    (hyields : ∀ value, reading.Yields value r → outer.Yields (f value) rest)
    (hfault : ∀ fault, reading = .error fault → outer = .error fault) :
    outer.Follows (outcome.map f) rest := by
  rw [Option.map_eq_bind]
  exact h.bind hyields hfault

theorem Reading.Follows.lift {outer : Reading s' α} (h : reading.Follows outcome r)
    (hyields : ∀ value, reading.Yields value r → outer.Yields value rest)
    (hfault : ∀ fault, reading = .error fault → outer = .error fault) :
    outer.Follows outcome rest := by
  have hmap := h.map (f := id) hyields hfault
  rw [Option.map_id_apply] at hmap
  exact hmap

end Following

namespace Settings

/-! ## Booleans and strings -/

theorem asBool?_value {document : Document String} (h : ∀ flag, document ≠ .bool flag) :
    asBool? document.value = none := by
  cases document with
  | bool flag => exact absurd rfl (h flag)
  | number literal =>
      rw [Document.value]
      split <;> rfl
  | _ => rfl

theorem asString?_value {document : Document String}
    (h : ∀ text, document ≠ .string text) : asString? document.value = none := by
  cases document with
  | string text => exact absurd rfl (h text)
  | number literal =>
      rw [Document.value]
      split <;> rfl
  | _ => rfl

section Values

variable {origin : Origin} {before : List Char} {b : UInt8} {r rest : Octets}

theorem readBool_yields (flag : Bool) (hbefore : Blank before)
    (hopening : opening? b = some (.scalar (if flag then .true else .false)))
    (hread : (if flag then readWord ['r', 'u', 'e'] true b r
      else readWord ['a', 'l', 's', 'e'] false b r).Yields flag rest) :
    (readBool origin (octets before ++ b :: r)).Yields flag rest := by
  obtain ⟨shorter, hmark⟩ := nextMark_of_blank hbefore (isBlank_of_opening? hopening) r
  obtain ⟨hshorter, hread⟩ := hread
  refine ⟨Nat.lt_of_le_of_lt (Nat.le_of_lt_succ hshorter) shorter, ?_⟩
  cases flag with
  | false =>
      simp only [Bool.false_eq_true, if_false] at hopening hread
      simp only [readBool, hmark, hopening, hread, Taken.found]
  | true =>
      simp only [if_true] at hopening hread
      simp only [readBool, hmark, hopening, hread, Taken.found]

theorem readBool_fails (hbefore : Blank before) {opening : Opening}
    (hopening : opening? b = some opening) (htrue : opening ≠ .scalar .true)
    (hfalse : opening ≠ .scalar .false) :
    (readBool origin (octets before ++ b :: r)).Fails := by
  obtain ⟨shorter, hmark⟩ := nextMark_of_blank hbefore (isBlank_of_opening? hopening) r
  refine ⟨mismatch origin .boolean b r, ?_⟩
  simp only [readBool, hmark, hopening]
  split
  · next heq =>
      split at heq
      · next hkind => exact absurd (Option.some.inj hkind) htrue
      · next hkind => exact absurd (Option.some.inj hkind) hfalse
      · injection heq with heq
        rw [heq]
  · next heq =>
      split at heq
      · next hkind => exact absurd (Option.some.inj hkind) htrue
      · next hkind => exact absurd (Option.some.inj hkind) hfalse
      · cases heq

theorem readText_yields (hbefore : Blank before) {text : String}
    (hread : (readString origin r).Yields text rest) :
    (readText origin (octets before ++ ascii '"' :: r)).Yields text rest := by
  obtain ⟨shorter, hmark⟩ :=
    nextMark_of_blank hbefore (show isBlank (ascii '"') = false by decide) r
  obtain ⟨hshorter, hread⟩ := hread
  refine ⟨Nat.lt_trans hshorter shorter, ?_⟩
  simp only [readText, hmark, if_true, hread, Taken.past]

theorem readText_fails (hbefore : Blank before) {opening : Opening}
    (hopening : opening? b = some opening) (hquote : opening ≠ .scalar .quote) :
    (readText origin (octets before ++ b :: r)).Fails := by
  obtain ⟨shorter, hmark⟩ := nextMark_of_blank hbefore (isBlank_of_opening? hopening) r
  have hb : b ≠ ascii '"' := by
    rintro rfl
    exact hquote (Option.some.inj hopening).symm
  refine ⟨mismatch origin .string b r, ?_⟩
  simp only [readText, hmark, hb, if_false]

end Values

theorem opening_of_not_bool {document : Document String}
    (h : ∀ flag, document ≠ .bool flag) :
    document.opening ≠ .scalar .true ∧ document.opening ≠ .scalar .false := by
  cases document with
  | bool flag => exact absurd rfl (h flag)
  | number literal =>
      rw [Document.opening]
      cases literal.negative <;> decide
  | _ => simp [Document.opening]

theorem opening_of_not_string {document : Document String}
    (h : ∀ text, document ≠ .string text) : document.opening ≠ .scalar .quote := by
  cases document with
  | string text => exact absurd rfl (h text)
  | bool flag =>
      cases flag <;> decide
  | number literal =>
      rw [Document.opening]
      cases literal.negative <;> decide
  | _ => simp [Document.opening]

theorem readBool_follows {document : Document String} {w : List Char}
    (h : Value Content document w) (origin : Origin) {before : List Char}
    (hbefore : Blank before) (rest : Octets) :
    (readBool origin (octets before ++ (octets w ++ rest))).Follows
      (asBool? document.value) rest := by
  by_cases hbool : ∃ flag, document = .bool flag
  · obtain ⟨flag, rfl⟩ := hbool
    cases h with
    | true =>
        rw [octets_cons_ascii (by decide)]
        have hread := readWord_append ['r', 'u', 'e'] true rfl (ascii 't') rest
        exact readBool_yields true hbefore rfl hread
    | false =>
        rw [octets_cons_ascii (by decide)]
        have hread := readWord_append ['a', 'l', 's', 'e'] false rfl (ascii 'f') rest
        exact readBool_yields false hbefore rfl hread
  · have hnone : ∀ flag, document ≠ .bool flag := fun flag heq => hbool ⟨flag, heq⟩
    obtain ⟨c, r, rfl, hascii, hopening⟩ := value_begins h
    obtain ⟨htrue, hfalse⟩ := opening_of_not_bool hnone
    rw [asBool?_value hnone, octets_cons_ascii hascii]
    exact readBool_fails hbefore hopening htrue hfalse

theorem readText_follows {document : Document String} {w : List Char}
    (h : Value Content document w) (origin : Origin) {before : List Char}
    (hbefore : Blank before) (rest : Octets) :
    (readText origin (octets before ++ (octets w ++ rest))).Follows
      (asString? document.value) rest := by
  by_cases hstring : ∃ text, document = .string text
  · obtain ⟨text, rfl⟩ := hstring
    cases h with
    | string hquoted =>
        cases hquoted with
        | quotes hcontent =>
            rw [octets_quoted]
            exact readText_yields hbefore (readString_of_content hcontent origin rest)
  · have hnone : ∀ text, document ≠ .string text := fun text heq => hstring ⟨text, heq⟩
    obtain ⟨c, r, rfl, hascii, hopening⟩ := value_begins h
    rw [asString?_value hnone, octets_cons_ascii hascii]
    exact readText_fails hbefore hopening (opening_of_not_string hnone)

/-! ## One setting -/

theorem readField_follows {document : Document String} {w : List Char}
    (h : Element Content document w) (origin : Origin) (draft : Draft) (field : Field)
    (rest : Octets) :
    ∃ after, Blank after ∧
      (readField origin draft field (octets w ++ rest)).Follows
        (draft.set? field document.value) (octets after ++ rest) := by
  cases h with
  | @padded before v after _ hbefore hvalue hafter =>
      refine ⟨after, hafter, ?_⟩
      rw [octets_append, octets_append, List.append_assoc, List.append_assoc]
      have hbool := readBool_follows hvalue origin hbefore (octets after ++ rest)
      have htext := readText_follows hvalue origin hbefore (octets after ++ rest)
      cases field with
      | enabled =>
          apply hbool.map
          · rintro flag ⟨shorter, hread⟩
            exact ⟨shorter, by simp only [readField, hread, Taken.map]⟩
          · intro fault hread
            simp only [readField, hread]
      | hostname =>
          apply htext.map
          · rintro text ⟨shorter, hread⟩
            exact ⟨shorter, by simp only [readField, hread, Taken.map]⟩
          · intro fault hread
            simp only [readField, hread]
      | port =>
          apply htext.map
          · rintro text ⟨shorter, hread⟩
            exact ⟨shorter, by simp only [readField, hread, Taken.map]⟩
          · intro fault hread
            simp only [readField, hread]

/-! ## Members -/

theorem readMemberValue_follows {document : Document String} {w : List Char}
    (h : Element Content document w) (origin : Origin) (draft : Draft) (key : String)
    {afterKey : List Char} (hafterKey : Blank afterKey) {rest : Octets}
    (hrest : EndsNumber rest) :
    ∃ after, Blank after ∧
      (readMemberValue origin draft key
          (octets afterKey ++ ascii ':' :: (octets w ++ rest))).Follows
        (draft.put? key document.value) (octets after ++ rest) := by
  obtain ⟨shorter, hcolon⟩ := readColon_of_blank hafterKey (octets w ++ rest)
  unfold Draft.put?
  cases hkey : Field.ofKey? key with
  | none =>
      have hoctets : ElementOctets (octets w) := elementOctets_of_element content_inStringOctets h
      obtain ⟨after, hafter, hshorter, hskip⟩ := element_skipped hoctets hrest
      refine ⟨after, hafter, Nat.lt_trans hshorter shorter, ?_⟩
      simp only [readMemberValue, hkey, hcolon, hskip, Taken.map, Taken.past]
  | some field =>
      obtain ⟨after, hafter, hread⟩ := readField_follows h origin draft field rest
      refine ⟨after, hafter, ?_⟩
      by_cases hhas : draft.has field = true
      · -- A repeated key is refused before anything after it is looked at.
        simp only [hhas, if_true]
        refine ⟨repeated field (octets afterKey ++ ascii ':' :: (octets w ++ rest)), ?_⟩
        simp only [readMemberValue, hkey, hhas, if_true]
      · simp only [hhas]
        apply hread.lift
        · rintro next ⟨hshorter, hread⟩
          refine ⟨Nat.lt_trans hshorter shorter, ?_⟩
          simp only [readMemberValue, hkey, hhas, hcolon, hread, Taken.past]
          rfl
        · intro fault hread
          simp only [readMemberValue, hkey, hhas, hcolon, hread]
          rfl

section Steps

variable {origin : Origin} {draft : Draft} {key : String} {outcome : Option Draft}
  {s r₁ r₂ rest : Octets}

theorem readFields_last (hkey : (readKey origin s).Yields key r₁)
    (hvalue : (readMemberValue origin draft key r₁).Follows outcome r₂)
    (hclose : (Container.object.afterItemStrict r₂).Yields .close rest) :
    (readFields origin draft s).Follows outcome rest := by
  obtain ⟨shorter₁, hkey⟩ := hkey
  obtain ⟨shorter, hclose⟩ := hclose
  apply hvalue.lift
  · rintro next ⟨shorter₂, hvalue⟩
    refine ⟨Nat.lt_trans (Nat.lt_trans shorter shorter₂) shorter₁, ?_⟩
    rw [readFields, hkey]
    simp only [hvalue, hclose, Taken.past]
  · intro fault hvalue
    rw [readFields, hkey]
    simp only [hvalue]

theorem readFields_more {r₃ : Octets} {more : Draft → Option Draft}
    (hkey : (readKey origin s).Yields key r₁)
    (hvalue : (readMemberValue origin draft key r₁).Follows outcome r₂)
    (hcomma : (Container.object.afterItemStrict r₂).Yields .comma r₃)
    (hmembers : ∀ next, (readFields origin next r₃).Follows (more next) rest) :
    (readFields origin draft s).Follows (outcome.bind more) rest := by
  obtain ⟨shorter₁, hkey⟩ := hkey
  obtain ⟨shorter₃, hcomma⟩ := hcomma
  apply hvalue.bind
  · rintro next ⟨shorter₂, hvalue⟩
    apply (hmembers next).lift
    · rintro last ⟨shorter, hrest⟩
      refine ⟨by omega, ?_⟩
      rw [readFields, hkey]
      simp only [hvalue, hcomma, hrest, Taken.past]
    · intro fault hrest
      rw [readFields, hkey]
      simp only [hvalue, hcomma, hrest]
  · intro fault hvalue
    rw [readFields, hkey]
    simp only [hvalue]

end Steps

theorem readFields_follows {members : List (String × Document String)} {w : List Char}
    (h : Members Content members w) (origin : Origin) (draft : Draft) (rest : Octets) :
    (readFields origin draft (octets w ++ ascii '\x7d' :: rest)).Follows
      (draft.putAll? (Document.memberValues members)) rest := by
  induction members generalizing w draft with
  | nil => cases h
  | cons member members ih =>
      cases h with
      | last hmember =>
          cases hmember with
          | pair hbefore hkey hafterKey hitem =>
              obtain ⟨after, hafter, hvalue⟩ := readMemberValue_follows hitem origin draft _
                hafterKey (endsNumber_close .object rest)
              have hsingle : ∀ key value, draft.putAll? [(key, value)] = draft.put? key value :=
                fun key value => Option.bind_fun_some (draft.put? key value)
              rw [octets_member, Document.memberValues, Document.memberValues, hsingle]
              exact readFields_last (readKey_of_quoted hbefore hkey origin _) hvalue
                (Container.object.afterItemStrict_close hafter rest)
      | more hmember hmembers =>
          cases hmember with
          | pair hbefore hkey hafterKey hitem =>
              obtain ⟨after, hafter, hvalue⟩ := readMemberValue_follows hitem origin draft _
                hafterKey (endsNumber_comma _)
              have hcomma := afterItemStrict_members hafter hmembers rest
              rw [octets_separated, octets_member]
              exact readFields_more (readKey_of_quoted hbefore hkey origin _) hvalue hcomma
                fun draft => ih hmembers draft

/-! ## Elements -/

theorem readArrayEnd_close {w : List Char} (hw : Blank w) (rest : Octets) :
    (readArrayEnd (octets w ++ ascii ']' :: rest)).Yields () rest := by
  obtain ⟨shorter, hmark⟩ :=
    nextMark_of_blank hw (show isBlank (ascii ']') = false by decide) rest
  refine ⟨shorter, ?_⟩
  simp only [readArrayEnd, hmark, if_true, Taken.map]

theorem readArrayEnd_comma {w : List Char} (hw : Blank w) (rest : Octets) :
    (readArrayEnd (octets w ++ ascii ',' :: rest)).Fails := by
  obtain ⟨shorter, hmark⟩ :=
    nextMark_of_blank hw (show isBlank (ascii ',') = false by decide) rest
  have hcomma : ascii ',' ≠ ascii ']' := by decide
  unfold readArrayEnd
  simp only [hmark, hcomma, if_false, if_true]
  cases Container.array.refuseEnd rest with
  | error fault => exact ⟨fault, rfl⟩
  | ok _ => exact ⟨_, rfl⟩

section Steps

variable {origin : Origin} {draft : Draft} {field : Field} {value : Json}
  {s r rest : Octets}

theorem readElements_last (others : List Field) {w : List Char} (hw : Blank w)
    (hfield : (readField origin draft field s).Follows (draft.set? field value)
      (octets w ++ ascii ']' :: rest)) :
    (readElements origin draft field others s).Follows
      (draft.takeAll? (field :: others) [value]) rest := by
  rw [Draft.takeAll?]
  apply hfield.bind
  · rintro next ⟨shorter, hfield⟩
    cases others with
    | nil =>
        obtain ⟨hshorter, hclose⟩ := readArrayEnd_close hw rest
        refine ⟨Nat.lt_trans hshorter shorter, ?_⟩
        rw [readElements, hfield]
        simp only [hclose, Taken.map, Taken.past]
    | cons other others =>
        obtain ⟨hshorter, hclose⟩ := Container.array.afterItemStrict_close hw rest
        change Container.array.afterItemStrict (octets w ++ ascii ']' :: rest) = _ at hclose
        refine ⟨Nat.lt_trans hshorter shorter, ?_⟩
        rw [readElements, hfield]
        simp only [hclose, Taken.past]
  · intro fault hfield
    rw [readElements, hfield]

theorem readElements_more (others : List Field) {w : List Char} (hw : Blank w)
    {second : Json} {values : List Json}
    (hfield : (readField origin draft field s).Follows (draft.set? field value)
      (octets w ++ ascii ',' :: r))
    (hcomma : (Container.array.afterItemStrict (octets w ++ ascii ',' :: r)).Yields
      .comma r)
    (hvalues : ∀ draft other others,
      (readElements origin draft other others r).Follows
        (draft.takeAll? (other :: others) (second :: values)) rest) :
    (readElements origin draft field others s).Follows
      (draft.takeAll? (field :: others) (value :: second :: values)) rest := by
  rw [Draft.takeAll?]
  apply hfield.bind
  · rintro next ⟨shorter, hfield⟩
    cases others with
    | nil =>
        obtain ⟨fault, hend⟩ := readArrayEnd_comma hw r
        refine ⟨fault, ?_⟩
        rw [readElements, hfield]
        simp only [hend]
    | cons other others =>
        obtain ⟨shorter', hcomma⟩ := hcomma
        apply (hvalues next other others).lift
        · rintro last ⟨hshorter, hrest⟩
          refine ⟨Nat.lt_trans (Nat.lt_trans hshorter shorter') shorter, ?_⟩
          rw [readElements, hfield]
          simp only [hcomma, hrest, Taken.past]
        · intro fault hrest
          rw [readElements, hfield]
          simp only [hcomma, hrest]
  · intro fault hfield
    rw [readElements, hfield]

end Steps

theorem elementValues_of_elements {items : List (Document String)} {w : List Char}
    (h : Elements Content items w) :
    ∃ first rest, Document.elementValues items = first :: rest := by
  cases h with
  | last _ => exact ⟨_, _, rfl⟩
  | more _ _ => exact ⟨_, _, rfl⟩

theorem readElements_follows {items : List (Document String)} {w : List Char}
    (h : Elements Content items w) (origin : Origin) (draft : Draft) (field : Field)
    (others : List Field) (rest : Octets) :
    (readElements origin draft field others (octets w ++ ascii ']' :: rest)).Follows
      (draft.takeAll? (field :: others) (Document.elementValues items)) rest := by
  -- The reader asks for another element only where a setting is left, and the list is
  -- never empty there: the statement is about the next setting and those after it.
  induction items generalizing w draft field others with
  | nil => cases h
  | cons item items ih =>
      cases h with
      | last hitem =>
          obtain ⟨after, hafter, hfield⟩ :=
            readField_follows hitem origin draft field (ascii ']' :: rest)
          exact readElements_last others hafter hfield
      | more hitem hitems =>
          rw [octets_separated]
          obtain ⟨after, hafter, hfield⟩ := readField_follows hitem origin draft field _
          have hcomma := afterItemStrict_elements hafter hitems rest
          obtain ⟨second, values, hvalues⟩ := elementValues_of_elements hitems
          rw [Document.elementValues, hvalues]
          refine readElements_more others hafter hfield hcomma ?_
          intro draft other others
          rw [← hvalues]
          exact ih hitems draft other others

/-! ## The record -/

/-- The draft of what is in a container. -/
def itemsDraft? : Document String → Option Draft
  | .array items =>
      Draft.empty.takeAll? [.enabled, .hostname, .port] (Document.elementValues items)
  | .object members => Draft.empty.putAll? (Document.memberValues members)
  | _ => none

section Steps

variable {origin : Origin} {before : List Char} {b : UInt8} {r rest : Octets}

theorem read_of_items (hbefore : Blank before) {container : Container}
    (hopening : opening? b = some (.container container)) {outcome : Option Draft}
    (hitems : (readItems origin container r).Follows outcome rest) :
    (read origin (octets before ++ b :: r)).Follows (outcome.map Draft.complete) rest := by
  obtain ⟨shorter, hmark⟩ := nextMark_of_blank hbefore (isBlank_of_opening? hopening) r
  apply hitems.map
  · rintro draft ⟨hshorter, hitems⟩
    refine ⟨Nat.lt_trans hshorter shorter, ?_⟩
    simp only [read, hmark, hopening, hitems, Taken.map, Taken.past]
  · intro fault hitems
    simp only [read, hmark, hopening, hitems]

theorem read_of_scalar (hbefore : Blank before) {kind : Scalar}
    (hopening : opening? b = some (.scalar kind)) :
    (read origin (octets before ++ b :: r)).Fails := by
  obtain ⟨shorter, hmark⟩ := nextMark_of_blank hbefore (isBlank_of_opening? hopening) r
  refine ⟨mismatch origin .record b r, ?_⟩
  simp only [read, hmark, hopening]

theorem readItems_empty {container : Container} {shorter : rest.length < r.length}
    (hends : container.endsAtOnce r = .ok (some ⟨(), rest, shorter⟩)) :
    (readItems origin container r).Yields Draft.empty rest := by
  refine ⟨shorter, ?_⟩
  simp only [readItems, hends, Taken.map]

end Steps

theorem read_follows {document : Document String} {w : List Char}
    (h : Value Content document w) (origin : Origin) {before : List Char}
    (hbefore : Blank before) (rest : Octets) :
    (read origin (octets before ++ (octets w ++ rest))).Follows
      ((itemsDraft? document).map Draft.complete) rest := by
  obtain ⟨c, r, hw, hascii, hopening⟩ := value_begins h
  have hscalar : ∀ kind, document.opening = .scalar kind →
      (read origin (octets before ++ (octets w ++ rest))).Fails := by
    intro kind hkind
    rw [hw, octets_cons_ascii hascii]
    exact read_of_scalar hbefore (hopening.trans (congrArg some hkind))
  cases h with
  | null => exact hscalar _ rfl
  | true => exact hscalar _ rfl
  | false => exact hscalar _ rfl
  | number _ => exact hscalar _ rfl
  | string _ => exact hscalar _ rfl
  | emptyArray hblank =>
      rw [octets_array]
      obtain ⟨_, hends⟩ := Container.array.endsAtOnce_of_blank hblank rest
      exact read_of_items hbefore rfl (readItems_empty hends)
  | emptyObject hblank =>
      rw [octets_object]
      obtain ⟨_, hends⟩ := Container.object.endsAtOnce_of_blank hblank rest
      exact read_of_items hbefore rfl (readItems_empty hends)
  | array hitems =>
      rw [octets_array]
      apply read_of_items hbefore rfl
      have hends := endsAtOnce_of_elements hitems rest
      simp only [readItems, hends]
      exact readElements_follows hitems origin .empty .enabled [.hostname, .port] rest
  | object hmembers =>
      rw [octets_object]
      apply read_of_items hbefore rfl
      have hends := endsAtOnce_of_members hmembers rest
      simp only [readItems, hends]
      exact readFields_follows hmembers origin .empty rest

/-- With nothing but white space after the record, its outcome is that of the document. -/
theorem toOption_readDocument_of_follows {origin : Origin} {s : Octets}
    {outcome : Option Settings} {after : List Char} (hafter : Blank after)
    (h : (read origin s).Follows outcome (octets after)) :
    (Settings.readDocument origin s).toOption = outcome := by
  unfold Settings.readDocument readWhole
  cases outcome with
  | none =>
      obtain ⟨fault, hread⟩ := h
      rw [hread]
      rfl
  | some settings =>
      obtain ⟨shorter, hread⟩ := h
      rw [hread]
      simp only [nextMark_of_only_blank hafter]
      rfl

/-- The settings that are read from a written document are those of its draft. -/
theorem toOption_readDocument {document : Document String} {text : String}
    (h : document.WrittenAs text) (origin : Origin) :
    (Settings.readDocument origin (Utf8.encode text)).toOption =
      (itemsDraft? document).map Draft.complete := by
  unfold Document.WrittenAs at h
  rw [encode_eq_octets]
  generalize text.toList = w at h
  cases h with
  | @padded before v after _ hbefore hvalue hafter =>
      have hread := read_follows hvalue origin hbefore (octets after)
      rw [octets_append, octets_append, List.append_assoc]
      exact toOption_readDocument_of_follows hafter hread

end Settings

end JsonReport
