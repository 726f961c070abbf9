import JsonReport.Proofs.SettingsGrammar
import JsonReport.Proofs.SettingsReading
import JsonReport.Proofs.ValueSoundness
import Mathlib.Tactic

/-!
# Settings that were read were written

Where the reader of settings yields a record, the record was written there.  What stands
under the foreign keys is known only as far as the skipper tells, which depends on where
the octets come from; everything else is the encoding of characters in either case.

White space after an item is read together with the mark behind it, so an item is said to
stand somewhere if it was written there with any white space one likes after it.
-/

namespace JsonReport

open Utf8
open Spelling

/-- What is passed over, and white space after it, is of this kind. -/
def Origin.Skips (origin : Origin) (foreign : Octets → Prop) : Prop :=
  ∀ s (skipped : Taken s Unit), origin.Covers s → skipValue s = .ok skipped →
    ∃ v, s = v ++ skipped.rest ∧ origin.Covers skipped.rest ∧
      ∀ after, Blank after → foreign (v ++ octets after)

namespace Settings

/-! ## Documents of settings -/

theorem asBool?_eq_some {document : Document String} {flag : Bool}
    (h : asBool? document.value = some flag) : document = .bool flag := by
  by_cases hbool : ∃ flag, document = .bool flag
  · obtain ⟨other, rfl⟩ := hbool
    exact congrArg Document.bool (Option.some.inj h)
  · rw [asBool?_value fun flag heq => hbool ⟨flag, heq⟩] at h
    cases h

theorem asString?_eq_some {document : Document String} {text : String}
    (h : asString? document.value = some text) : document = .string text := by
  by_cases hstring : ∃ text, document = .string text
  · obtain ⟨other, rfl⟩ := hstring
    exact congrArg Document.string (Option.some.inj h)
  · rw [asString?_value fun text heq => hstring ⟨text, heq⟩] at h
    cases h

namespace Draft

/-- A document goes into the draft exactly if it states the setting. -/
theorem set?_eq_some_iff {draft next : Draft} {field : Field} {document : Document String} :
    draft.set? field document.value = some next ↔
      ∃ setting : Setting, setting.field = field ∧ setting.document = document ∧
        draft.put setting = next := by
  constructor
  · intro h
    cases field with
    | enabled =>
        obtain ⟨flag, hflag, rfl⟩ := Option.map_eq_some_iff.mp h
        exact ⟨.enabled flag, rfl, (asBool?_eq_some hflag).symm, rfl⟩
    | hostname =>
        obtain ⟨text, htext, rfl⟩ := Option.map_eq_some_iff.mp h
        exact ⟨.hostname text, rfl, (asString?_eq_some htext).symm, rfl⟩
    | port =>
        obtain ⟨text, htext, rfl⟩ := Option.map_eq_some_iff.mp h
        exact ⟨.port text, rfl, (asString?_eq_some htext).symm, rfl⟩
  · rintro ⟨setting, rfl, rfl, rfl⟩
    cases setting <;> rfl

/-- Elements go into the draft exactly if they state the first settings in their order. -/
theorem takeAll?_eq_some_iff {draft next : Draft} {fields : List Field}
    {items : List (Document String)} :
    draft.takeAll? fields (Document.elementValues items) = some next ↔
      ∃ settings : List Setting, settings.map Setting.field <+: fields ∧
        settings.map Setting.document = items ∧ settings.foldl put draft = next := by
  induction items generalizing draft fields with
  | nil =>
      constructor
      · intro h
        exact ⟨[], List.nil_prefix, rfl, by simpa [Document.elementValues, takeAll?] using h⟩
      · rintro ⟨settings, -, hnil, rfl⟩
        obtain rfl := List.map_eq_nil_iff.mp hnil
        simp [Document.elementValues, takeAll?]
  | cons item items ih =>
      cases fields with
      | nil =>
          constructor
          · intro h
            cases h
          · rintro ⟨settings, hprefix, hitems, -⟩
            obtain rfl := List.map_eq_nil_iff.mp (List.prefix_nil.mp hprefix)
            cases hitems
      | cons field fields =>
          rw [Document.elementValues, takeAll?, Option.bind_eq_some_iff]
          constructor
          · rintro ⟨middle, hitem, hitems⟩
            obtain ⟨setting, rfl, rfl, rfl⟩ := set?_eq_some_iff.mp hitem
            obtain ⟨settings, hprefix, rfl, rfl⟩ := ih.mp hitems
            exact ⟨setting :: settings, List.cons_prefix_cons.mpr ⟨rfl, hprefix⟩, rfl, rfl⟩
          · rintro ⟨settings, hprefix, hitems, rfl⟩
            cases settings with
            | nil => cases hitems
            | cons setting settings =>
                obtain ⟨rfl, htail⟩ := List.cons_prefix_cons.mp hprefix
                obtain ⟨rfl, rfl⟩ := List.cons.inj hitems
                exact ⟨_, set?_eq_some_iff.mpr ⟨setting, rfl, rfl, rfl⟩,
                  ih.mpr ⟨settings, htail, rfl, rfl⟩⟩

end Draft

/-! ## One setting -/

section Soundness

variable {origin : Origin} {s : Octets}

theorem readBool_sound {flag : Taken s Bool} (h : readBool origin s = .ok flag) :
    ∃ before w, Blank before ∧ Value Content (.bool flag.value) w ∧
      s = octets before ++ (octets w ++ flag.rest) := by
  unfold readBool at h
  split at h
  · cases h
  · next b r hr hmark =>
      obtain ⟨before, hbefore, hsplit⟩ := blank_of_nextMark_eq_some hmark
      simp only at h
      split at h
      · cases h
      · next word hword =>
          injection h with h
          subst h
          split at hword
          · next hopening =>
              obtain rfl : b = ascii 't' := eq_mark_of_opening? hopening rfl
              obtain ⟨hrest, hvalue⟩ := readWord_sound rfl hword
              have hw : Value Content (.bool word.value) ['t', 'r', 'u', 'e'] := by
                rw [hvalue]
                exact .true
              refine ⟨before, _, hbefore, hw, ?_⟩
              exact hsplit.trans (congrArg (octets before ++ ascii 't' :: ·) hrest)
          · next hopening =>
              obtain rfl : b = ascii 'f' := eq_mark_of_opening? hopening rfl
              obtain ⟨hrest, hvalue⟩ := readWord_sound rfl hword
              have hw : Value Content (.bool word.value) ['f', 'a', 'l', 's', 'e'] := by
                rw [hvalue]
                exact .false
              refine ⟨before, _, hbefore, hw, ?_⟩
              exact hsplit.trans (congrArg (octets before ++ ascii 'f' :: ·) hrest)
          · cases hword

theorem readText_sound (hs : origin.Covers s) {text : Taken s String}
    (h : readText origin s = .ok text) :
    ∃ before w, Blank before ∧ Value Content (.string text.value) w ∧
      s = octets before ++ (octets w ++ text.rest) := by
  unfold readText at h
  split at h
  · cases h
  · next b r hr hmark =>
      obtain ⟨before, hbefore, hsplit⟩ := blank_of_nextMark_eq_some hmark
      split at h
      · next hquote =>
          subst hquote
          split at h
          · cases h
          · next inner hinner =>
              injection h with h
              subst h
              have hcovers : origin.Covers r := (hs.after hsplit).of_mark (by decide)
              obtain ⟨w, hw, hrest⟩ := readString_sound hcovers hinner
              refine ⟨before, _, hbefore, .string (.quotes hw), ?_⟩
              rw [octets_quoted]
              exact hsplit.trans (congrArg (octets before ++ ascii '"' :: ·) hrest)
      · cases h

/-- Where a setting is read, a document stands that goes into the draft. -/
theorem readField_sound (hs : origin.Covers s) {draft : Draft} {field : Field}
    {next : Taken s Draft} (h : readField origin draft field s = .ok next) :
    ValueStands Content (fun document => draft.set? field document.value = some next.value)
      s next.rest := by
  cases field with
  | enabled =>
      simp only [readField] at h
      split at h
      · cases h
      · next flag hflag =>
          injection h with h
          subst h
          obtain ⟨before, w, hbefore, hw, hsplit⟩ := readBool_sound hflag
          exact ⟨before, _, w, hbefore, hw, rfl, hsplit⟩
  | hostname =>
      simp only [readField] at h
      split at h
      · cases h
      · next text htext =>
          injection h with h
          subst h
          obtain ⟨before, w, hbefore, hw, hsplit⟩ := readText_sound hs htext
          exact ⟨before, _, w, hbefore, hw, rfl, hsplit⟩
  | port =>
      simp only [readField] at h
      split at h
      · cases h
      · next text htext =>
          injection h with h
          subst h
          obtain ⟨before, w, hbefore, hw, hsplit⟩ := readText_sound hs htext
          exact ⟨before, _, w, hbefore, hw, rfl, hsplit⟩

/-! ## Elements -/

theorem readArrayEnd_sound {closed : Taken s Unit} (h : readArrayEnd s = .ok closed) :
    ∃ w, Blank w ∧ s = octets w ++ ascii ']' :: closed.rest := by
  unfold readArrayEnd at h
  split at h
  · cases h
  · next mark hmark =>
      split at h
      · next hclose =>
          injection h with h
          subst h
          obtain ⟨w, hw, hsplit⟩ := blank_of_nextMark_eq_some hmark
          exact ⟨w, hw, hclose ▸ hsplit⟩
      · split at h
        · split at h <;> cases h
        · cases h

/-- Elements that go into the draft and the bracket after them stand before the rest. -/
def SettingsStand (draft : Draft) (fields : List Field) (last : Draft) (s rest : Octets) :
    Prop :=
  ∃ items w, Elements Content items w ∧
    draft.takeAll? fields (Document.elementValues items) = some last ∧
    s = octets w ++ ascii ']' :: rest

section Steps

variable {draft next last : Draft} {field : Field} {fields : List Field} {after : List Char}
  {r r' rest : Octets}

theorem settingsStand_last
    (h : ValueStands Content (fun document => draft.set? field document.value = some next) s r)
    (hafter : Blank after) (hr : r = octets after ++ ascii ']' :: rest) :
    SettingsStand draft (field :: fields) next s rest := by
  obtain ⟨before, document, w, hbefore, hw, hset, hs⟩ := h
  refine ⟨[document], _, .last (.padded hbefore hw hafter), ?_, ?_⟩
  · simp [Document.elementValues, Draft.takeAll?, hset]
  · rw [octets_append, octets_append, List.append_assoc, List.append_assoc, ← hr, hs]

theorem settingsStand_more
    (h : ValueStands Content (fun document => draft.set? field document.value = some next) s r)
    (hafter : Blank after) (hr : r = octets after ++ ascii ',' :: r')
    (hmore : SettingsStand next fields last r' rest) :
    SettingsStand draft (field :: fields) last s rest := by
  obtain ⟨before, document, w, hbefore, hw, hset, hs⟩ := h
  obtain ⟨items, ws, hws, htake, hr'⟩ := hmore
  refine ⟨document :: items, _, .more (.padded hbefore hw hafter) hws, ?_, ?_⟩
  · rw [Document.elementValues, Draft.takeAll?, hset, Option.bind_some, htake]
  · rw [octets_separated, ← hr', octets_append, octets_append, List.append_assoc,
      List.append_assoc, ← hr, hs]

end Steps

theorem readElements_sound (hs : origin.Covers s) {draft : Draft} {field : Field}
    {others : List Field} {last : Taken s Draft}
    (h : readElements origin draft field others s = .ok last) :
    SettingsStand draft (field :: others) last.value s last.rest := by
  -- The loop goes down the settings that are left, and behind the last one it asks for the
  -- bracket without offering a comma.
  induction others generalizing draft field s with
  | nil =>
      rw [readElements] at h
      split at h
      · cases h
      · next draft' r hr hfield =>
          have hstands := readField_sound hs hfield
          simp only at h
          split at h
          · cases h
          · next closed hend =>
              injection h with h
              subst h
              obtain ⟨after, hafter, hclose⟩ := readArrayEnd_sound hend
              exact settingsStand_last hstands hafter hclose
  | cons other others ih =>
      rw [readElements] at h
      split at h
      · cases h
      · next draft' r hr hfield =>
          have hstands := readField_sound hs hfield
          simp only at h
          split at h
          · cases h
          · next r' hr' hnext =>
              injection h with h
              subst h
              obtain ⟨after, hafter, hclose⟩ := closes_of_afterItemStrict hnext
              exact settingsStand_last hstands hafter hclose
          · next r' hr' hnext =>
              obtain ⟨after, hafter, hcomma⟩ := continues_of_afterItemStrict hnext
              split at h
              · cases h
              · next more hmore =>
                  injection h with h
                  subst h
                  have hcovers := covers_of_comma hcomma (hstands.covers hs)
                  exact settingsStand_more hstands hafter hcomma (ih hcovers hmore)

/-! ## Members -/

/-- A member stands before the rest, whatever white space comes after it. -/
def MemberStands (foreign : Octets → Prop) (member : Option Setting) (s rest : Octets) :
    Prop :=
  ∃ v, s = v ++ rest ∧ ∀ after, Blank after → MemberWritten foreign member (v ++ octets after)

/-- Members that go into the draft and the brace after them stand before the rest. -/
def DraftStands (foreign : Octets → Prop) (draft last : Draft) (s rest : Octets) : Prop :=
  ∃ member members v, MembersWritten foreign (member :: members) v ∧
    draft.addAll? (member :: members) = some last ∧ s = v ++ ascii '\x7d' :: rest

variable {foreign : Octets → Prop}

section Steps

variable {draft next final : Draft} {member : Option Setting} {key : String}
  {before k afterKey after : List Char} {r r' rest : Octets}

/-- A key and the document of a setting make a member. -/
theorem memberStands_known (hbefore : Blank before) (hk : Quoted Content key k)
    (hs : s = octets before ++ (octets k ++ (octets afterKey ++ ascii ':' :: r)))
    (hafterKey : Blank afterKey) {field : Field} (hkey : Field.ofKey? key = some field)
    (hhas : draft.has field = false)
    (h : ValueStands Content (fun document => draft.set? field document.value = some next)
      r rest) :
    ∃ member, draft.add? member = some next ∧ MemberStands foreign member s rest := by
  obtain ⟨blank, document, w, hblank, hw, hset, hr⟩ := h
  obtain ⟨setting, rfl, rfl, rfl⟩ := Draft.set?_eq_some_iff.mp hset
  obtain rfl := ofKey?_eq_some hkey
  refine ⟨some setting, ?_, octets (before ++ k ++ afterKey ++ ':' :: (blank ++ w)), ?_, ?_⟩
  · simp [Draft.add?, hhas]
  · rw [octets_member, octets_append, List.append_assoc, ← hr, hs]
  · intro after hafter
    rw [← octets_append, List.append_assoc, List.cons_append]
    exact .known (.pair hbefore hk hafterKey (.padded hblank hw hafter))

/-- A foreign key and what is passed over make a member. -/
theorem memberStands_foreign (hbefore : Blank before) (hk : Quoted Content key k)
    (hs : s = octets before ++ (octets k ++ (octets afterKey ++ ascii ':' :: r)))
    (hafterKey : Blank afterKey) (hkey : Field.ofKey? key = none) {v : Octets}
    (hr : r = v ++ rest) (hv : ∀ after, Blank after → foreign (v ++ octets after)) :
    MemberStands foreign none s rest := by
  refine ⟨octets (before ++ k ++ afterKey ++ [':']) ++ v, ?_, ?_⟩
  · rw [List.append_assoc, ← hr, hs]
    have hmark : octets [':'] ++ r = ascii ':' :: r := rfl
    simp only [octets_append, List.append_assoc, hmark]
  · intro after hafter
    rw [List.append_assoc]
    exact .foreign hbefore hk (ofKey?_eq_none hkey) hafterKey (hv after hafter)

theorem MemberStands.last (h : MemberStands foreign member s r)
    (hadd : draft.add? member = some final) (hafter : Blank after)
    (hr : r = octets after ++ ascii '\x7d' :: rest) :
    DraftStands foreign draft final s rest := by
  obtain ⟨v, hs, hwritten⟩ := h
  refine ⟨member, [], _, .last (hwritten after hafter), ?_, ?_⟩
  · rw [Draft.addAll?, hadd]
    rfl
  · rw [List.append_assoc, ← hr, hs]

theorem MemberStands.more (h : MemberStands foreign member s r)
    (hadd : draft.add? member = some next) (hafter : Blank after)
    (hr : r = octets after ++ ascii ',' :: r')
    (hmore : DraftStands foreign next final r' rest) :
    DraftStands foreign draft final s rest := by
  obtain ⟨v, hs, hwritten⟩ := h
  obtain ⟨second, members, ws, hws, hmembers, hr'⟩ := hmore
  refine ⟨member, second :: members, _, .more (hwritten after hafter) hws, ?_, ?_⟩
  · rw [Draft.addAll?, hadd, Option.bind_some, hmembers]
  · rw [List.append_assoc, List.cons_append, ← hr', List.append_assoc, ← hr, hs]

end Steps

theorem member_sound (hskips : origin.Skips foreign) (hs : origin.Covers s) {draft : Draft}
    {key : Taken s String} (hkey : readKey origin s = .ok key) {next : Taken key.rest Draft}
    (h : readMemberValue origin draft key.value key.rest = .ok next) :
    ∃ member, draft.add? member = some next.value ∧ MemberStands foreign member s next.rest ∧
      origin.Covers next.rest := by
  obtain ⟨before, k, hbefore, hk, hsplit⟩ := readKey_sound hs hkey
  have hcovers : origin.Covers key.rest := (hs.after hsplit).of_append
  simp only [readMemberValue] at h
  split at h
  · next hforeign =>
      split at h
      · cases h
      · next colon hcolon =>
          obtain ⟨afterKey, hafterKey, hrest⟩ := blank_of_readColon hcolon
          rw [hrest] at hsplit hcovers
          have hcolonRest : origin.Covers colon.rest := hcovers.of_append.of_mark (by decide)
          split at h
          · cases h
          · next past hpast =>
              injection h with h
              subst h
              split at hpast
              · cases hpast
              · next skipped hskipped =>
                  injection hpast with hpast
                  subst hpast
                  obtain ⟨v, hv, hskippedRest, hforeignValue⟩ := hskips _ _ hcolonRest hskipped
                  exact ⟨none, rfl, memberStands_foreign hbefore hk hsplit hafterKey hforeign hv
                    hforeignValue, hskippedRest⟩
  · next field hfield =>
      split at h
      · cases h
      · next hhas =>
          split at h
          · cases h
          · next colon hcolon =>
              obtain ⟨afterKey, hafterKey, hrest⟩ := blank_of_readColon hcolon
              rw [hrest] at hsplit hcovers
              have hcolonRest : origin.Covers colon.rest :=
                hcovers.of_append.of_mark (by decide)
              split at h
              · cases h
              · next past hpast =>
                  injection h with h
                  subst h
                  have hstands := readField_sound hcolonRest hpast
                  obtain ⟨member, hadd, hmember⟩ := memberStands_known hbefore hk hsplit
                    hafterKey hfield (Bool.eq_false_iff.mpr hhas) hstands
                  exact ⟨member, hadd, hmember, hstands.covers hcolonRest⟩

theorem readFields_sound {s : Octets} (hskips : origin.Skips foreign) (hs : origin.Covers s)
    {draft : Draft} {last : Taken s Draft} (h : readFields origin draft s = .ok last) :
    DraftStands foreign draft last.value s last.rest := by
  rw [readFields] at h
  split at h
  · cases h
  · next key r₁ hr₁ hkey =>
      split at h
      · cases h
      · next next r₂ hr₂ hvalue =>
          obtain ⟨member, hadd, hstands, hcovers⟩ := member_sound hskips hs hkey hvalue
          split at h
          · cases h
          · next r₃ hr₃ hnext =>
              injection h with h
              subst h
              obtain ⟨after, hafter, hclose⟩ := closes_of_afterItemStrict hnext
              exact hstands.last hadd hafter hclose
          · next r₃ hr₃ hnext =>
              obtain ⟨after, hafter, hcomma⟩ := continues_of_afterItemStrict hnext
              split at h
              · cases h
              · next more hmore =>
                  injection h with h
                  subst h
                  have hmore : DraftStands foreign next more.value r₃ more.rest :=
                    readFields_sound hskips (covers_of_comma hcomma hcovers) hmore
                  exact hstands.more hadd hafter hcomma hmore
termination_by s.length

/-! ## The record -/

/-- A record stands before the rest, whatever white space comes after it. -/
def RecordStands (foreign : Octets → Prop) (settings : Settings) (s rest : Octets) : Prop :=
  ∃ v, s = v ++ rest ∧ ∀ after, Blank after → Written foreign settings (v ++ octets after)

section Steps

variable {last : Draft} {before after : List Char} {r rest : Octets}

theorem SettingsStand.record
    (h : SettingsStand .empty [.enabled, .hostname, .port] last r rest)
    (hbefore : Blank before) (hs : s = octets before ++ ascii '[' :: r) :
    RecordStands foreign last.complete s rest := by
  obtain ⟨items, w, hw, htake, hr⟩ := h
  obtain ⟨settings, hprefix, rfl, rfl⟩ := Draft.takeAll?_eq_some_iff.mp htake
  have hnodup : (settings.map Setting.field).Nodup :=
    hprefix.sublist.nodup (by decide)
  rw [Draft.complete_foldl_put hnodup]
  refine ⟨octets (before ++ '[' :: (w ++ [']'])), ?_, ?_⟩
  · rw [octets_append, List.append_assoc, octets_array, ← hr, hs]
  · intro after hafter
    rw [← octets_append]
    exact .array (.padded hbefore (.array hw) hafter) hprefix

theorem DraftStands.record (h : DraftStands foreign .empty last r rest)
    (hbefore : Blank before) (hs : s = octets before ++ ascii '\x7b' :: r) :
    RecordStands foreign last.complete s rest := by
  obtain ⟨member, members, v, hv, hadd, hr⟩ := h
  obtain ⟨hlacks, rfl⟩ := Draft.addAll?_eq_some_iff.mp hadd
  have hnodup := Draft.lacks_empty.mp hlacks
  rw [Draft.complete_foldl_put hnodup]
  refine ⟨octets before ++ ascii '\x7b' :: (v ++ [ascii '\x7d']), ?_, ?_⟩
  · rw [hs, hr]
    simp only [List.append_assoc, List.cons_append, List.nil_append]
  · intro after hafter
    have hobject : ObjectWritten foreign (member :: members) _ := .braces hbefore hv hafter
    simpa only [List.append_assoc, List.cons_append, List.nil_append] using
      Written.object hobject hnodup

theorem recordStands_empty {container : Container} {b : UInt8}
    (hopening : opening? b = some (.container container)) (hbefore : Blank before)
    (hs : s = octets before ++ b :: r) {inside : List Char} (hinside : Blank inside)
    (hr : r = octets inside ++ container.close :: rest) :
    RecordStands foreign default s rest := by
  cases container with
  | array =>
      obtain rfl : b = ascii '[' := eq_mark_of_opening? hopening rfl
      refine ⟨octets (before ++ '[' :: (inside ++ [']'])), ?_, ?_⟩
      · rw [octets_append, List.append_assoc, octets_array, hs, hr]
        rfl
      · intro after hafter
        rw [← octets_append]
        have helement : Element Content (.array (List.map Setting.document []))
            (before ++ '[' :: (inside ++ [']']) ++ after) :=
          .padded hbefore (.emptyArray hinside) hafter
        exact .array helement List.nil_prefix
  | object =>
      obtain rfl : b = ascii '\x7b' := eq_mark_of_opening? hopening rfl
      refine ⟨octets before ++ ascii '\x7b' :: (octets inside ++ [ascii '\x7d']), ?_, ?_⟩
      · rw [hs, hr]
        simp only [List.append_assoc, List.cons_append, List.nil_append]
        rfl
      · intro after hafter
        have hobject : ObjectWritten foreign [] _ := .braces hbefore (.none hinside) hafter
        have hwritten : Written foreign default _ := .object hobject List.nodup_nil
        simpa only [List.append_assoc, List.cons_append, List.nil_append] using hwritten

end Steps

theorem readItems_sound (hskips : origin.Skips foreign) (hs : origin.Covers s)
    {before : List Char} {b : UInt8} {r : Octets} (hbefore : Blank before)
    (hsplit : s = octets before ++ b :: r) {container : Container}
    (hopening : opening? b = some (.container container)) {draft : Taken r Draft}
    (h : readItems origin container r = .ok draft) :
    RecordStands foreign draft.value.complete s draft.rest := by
  have hmark : origin.Covers (b :: r) := hs.after hsplit
  unfold readItems at h
  split at h
  · cases h
  · next closed hends =>
      injection h with h
      subst h
      obtain ⟨inside, hinside, hclose⟩ := Container.blank_of_endsAtOnce hends
      exact recordStands_empty hopening hbefore hsplit hinside hclose
  · next hends =>
      cases container with
      | array =>
          obtain rfl : b = ascii '[' := eq_mark_of_opening? hopening rfl
          have hinside := hmark.of_mark (by decide)
          exact (readElements_sound hinside h).record hbefore hsplit
      | object =>
          obtain rfl : b = ascii '\x7b' := eq_mark_of_opening? hopening rfl
          have hinside := hmark.of_mark (by decide)
          exact (readFields_sound hskips hinside h).record hbefore hsplit

theorem read_sound (hskips : origin.Skips foreign) (hs : origin.Covers s)
    {settings : Taken s Settings} (h : read origin s = .ok settings) :
    RecordStands foreign settings.value s settings.rest := by
  rw [read] at h
  split at h
  · cases h
  · next b r hr hmark =>
      obtain ⟨before, hbefore, hsplit⟩ := blank_of_nextMark_eq_some hmark
      split at h
      · next container hopening =>
          split at h
          · cases h
          · next draft hdraft =>
              injection h with h
              subst h
              exact readItems_sound hskips hs hbefore hsplit hopening hdraft
      · cases h

/-- Where a record is read, it was written. -/
theorem written_of_readDocument (hskips : origin.Skips foreign) (hs : origin.Covers s)
    {settings : Settings} (h : Settings.readDocument origin s = .ok settings) :
    Written foreign settings s := by
  rw [Settings.readDocument, readWhole] at h
  split at h
  · cases h
  · next taken htaken =>
      split at h
      · next hend =>
          injection h with h
          subst h
          obtain ⟨v, hsplit, hwritten⟩ := read_sound hskips hs htaken
          obtain ⟨after, hafter, hrest⟩ := blank_of_nextMark_eq_none hend
          have hwhole := hwritten after hafter
          rw [← hrest, ← hsplit] at hwhole
          exact hwhole
      · cases h

end Soundness

end Settings

end JsonReport
