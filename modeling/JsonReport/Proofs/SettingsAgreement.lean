import JsonReport.Proofs.DecodeFailure
import JsonReport.Proofs.SettingsReading
import JsonReport.Proofs.ValueSoundness
import Mathlib.Tactic

/-!
# Settings and values of one text

The reader of settings and the reader of values go different ways through a text: one
knows three keys, refuses them when they come again and passes over all others, and the
other builds everything and merges what comes again.  On a text that both can read, the
settings are still those that the value holds.
-/

namespace JsonReport

open Spelling

/-- The settings that a value holds: an object by key and an array by place, with
defaults for what is absent. -/
def Json.settings? : Json → Option Settings
  | .object members => Settings.ofParts? fun field => Members.lookup? members field.key
  | .array items =>
      if items.length ≤ 3 then Settings.ofParts? fun field => items[Settings.place field]?
      else none
  | _ => none

/-- A document is an object in which the key of a setting comes again. -/
def Document.RepeatsSetting : Document String → Prop
  | .object members => ∃ field : Field, 1 < (members.map Prod.fst).count field.key
  | _ => False

namespace Settings

theorem keys_memberValues (members : List (String × Document String)) :
    (Document.memberValues members).map Prod.fst = members.map Prod.fst := by
  rw [Document.memberValues_eq_map, List.map_map]
  rfl

theorem itemsDraft?_of_repeated {document : Document String}
    (h : document.RepeatsSetting) : itemsDraft? document = none := by
  cases document with
  | object members =>
      obtain ⟨field, hfield⟩ := h
      rw [← keys_memberValues] at hfield
      rw [itemsDraft?, Draft.putAll?_eq_fillAll?]
      exact Draft.fillAll?_of_repeated hfield
  | _ => exact h.elim

theorem itemsDraft?_of_single {document : Document String}
    (h : ¬document.RepeatsSetting) :
    (itemsDraft? document).map Draft.complete = document.value.settings? := by
  cases document with
  | object members =>
      have hsingle : ∀ field : Field,
          ((Document.memberValues members).map Prod.fst).count field.key ≤ 1 := by
        intro field
        rw [keys_memberValues]
        exact Nat.le_of_not_lt fun hfield => h ⟨field, hfield⟩
      rw [itemsDraft?, Draft.putAll?_eq_fillAll?, Document.value, Json.settings?]
      exact Draft.fillAll?_of_single hsingle
  | array items =>
      rw [itemsDraft?, Document.value, Json.settings?]
      exact takeAll?_record (Document.elementValues items)
  | number literal =>
      rw [Document.value]
      split <;> rfl
  | _ => rfl

theorem toOption_ofText {document : Document String} {text : String}
    (h : document.WrittenAs text) :
    (Settings.ofText text).toOption = (itemsDraft? document).map Draft.complete := by
  unfold Settings.ofText
  rw [toOption_decodeWith]
  exact toOption_readDocument h .text

theorem exists_failure_of_toOption {outcome : Except Failure Settings}
    (h : outcome.toOption = none) : ∃ failure, outcome = .error failure := by
  cases outcome with
  | ok settings => cases h
  | error failure => exact ⟨failure, rfl⟩

end Settings

/-- On a text that is decoded into a value, the settings fail where a setting is
repeated, and elsewhere they are what the value holds. -/
theorem ofText_agrees {text : String} {value : Json}
    (hdecoded : decodeText text = .ok value) :
    (∃ document : Document String, document.WrittenAs text) ∧
      (∀ document : Document String, document.WrittenAs text →
        document.value = value ∧
          (document.RepeatsSetting →
            ∃ failure, Settings.ofText text = .error failure) ∧
          (¬document.RepeatsSetting →
            (Settings.ofText text).toOption = value.settings?)) ∧
      ∀ failure, Settings.ofText text = .error failure → failure.kind = .decode := by
  have hread := decodeWith_eq_ok.mp hdecoded
  refine ⟨?_, ?_, fun failure hfailure => kind_of_decodeWith hfailure⟩
  · obtain ⟨document, hwritten, _⟩ := exists_written_of_readDocument hread
    exact ⟨document, hwritten⟩
  · intro document hwritten
    have hvalue := value_of_readDocument hwritten hread
    have hsettings := Settings.toOption_ofText hwritten
    refine ⟨hvalue, ?_, ?_⟩
    · intro hrepeats
      rw [Settings.itemsDraft?_of_repeated hrepeats] at hsettings
      exact Settings.exists_failure_of_toOption hsettings
    · intro hsingle
      rw [hsettings, Settings.itemsDraft?_of_single hsingle, hvalue]

/-- A foreign key comes twice, and the key of a setting is spelled with an escape. -/
def foreignKeysDocument : Document String :=
  .object
    [("x", .array [.object []]), ("lt_enabled", .bool false), ("x", .null)]

def foreignKeysText : String :=
  "\x7b\"x\":[\x7b\x7d],\"\\u006Ct_enabled\":false,\"x\":null\x7d"

theorem foreignKeysDocument_writtenAs :
    foreignKeysDocument.WrittenAs foreignKeysText := by
  have hx : Quoted Content "x" ['"', 'x', '"'] :=
    .quotes (content_of_plain (w := ['x']) rfl)
  have hzero : HexDigit 0 '0' := hexDigit_digitChar (by decide)
  have hsix : HexDigit 6 '6' := hexDigit_digitChar (by decide)
  have htwelve : HexDigit 12 'C' := ⟨by decide, .inr rfl⟩
  have hcode : HexCode 'l'.toNat ['0', '0', '6', 'C'] := .digits hzero hzero hsix htwelve
  have hrest : Content "t_enabled" "t_enabled".toList :=
    content_of_plain (w := "t_enabled".toList) rfl
  have hescaped : Content "lt_enabled"
      ('\\' :: 'u' :: ['0', '0', '6', 'C'] ++ "t_enabled".toList) :=
    Run.cons (.code hcode) hrest
  have henabled : Quoted Content "lt_enabled" "\"\\u006Ct_enabled\"".toList :=
    .quotes hescaped
  have hitem : Element Content (.object []) ['\x7b', '\x7d'] :=
    .padded blank_nil (.emptyObject blank_nil) blank_nil
  have hfirst : Member Content ("x", .array [.object []]) "\"x\":[\x7b\x7d]".toList :=
    .pair blank_nil hx blank_nil (.padded blank_nil (.array (.last hitem)) blank_nil)
  have hsecond : Member Content ("lt_enabled", .bool false)
      "\"\\u006Ct_enabled\":false".toList :=
    .pair blank_nil henabled blank_nil (.padded blank_nil .false blank_nil)
  have hthird : Member Content ("x", .null) "\"x\":null".toList :=
    .pair blank_nil hx blank_nil (.padded blank_nil .null blank_nil)
  exact .padded blank_nil (.object (.more hfirst (.more hsecond (.last hthird))))
    blank_nil

theorem ofText_agrees_foreignKeysText :
    decodeText foreignKeysText = .ok (.object [("x", .null), ("lt_enabled", .bool false)]) ∧
      (Settings.ofText foreignKeysText).toOption =
        some ⟨false, Settings.default.hostname, Settings.default.port⟩ := by
  have hdepth : foreignKeysDocument.depth ≤ greatestDepth := by decide
  have hrange : foreignKeysDocument.InRange :=
    ⟨trivial, ⟨trivial, trivial⟩, trivial, trivial, trivial, trivial, trivial⟩
  have hdecoded : decodeText foreignKeysText = .ok foreignKeysDocument.value :=
    decodeWith_eq_ok.mpr
      ((readDocument_of_written foreignKeysDocument_writtenAs hrange .text).1 hdepth)
  have hsingle : ¬foreignKeysDocument.RepeatsSetting := by
    rintro ⟨field, hfield⟩
    cases field <;> exact absurd hfield (by decide)
  obtain ⟨-, hagrees, -⟩ := ofText_agrees hdecoded
  exact ⟨hdecoded, (hagrees foreignKeysDocument foreignKeysDocument_writtenAs).2.2 hsingle⟩

end JsonReport
