import JsonReport.Proofs.RenderRoundTrip
import JsonReport.Proofs.RunOutcome
import JsonReport.Proofs.SettingsAgreement
import JsonReport.Proofs.SettingsFiles
import Mathlib.Tactic

/-!
# Settings that are printed and read again

A record is printed as an object with its three keys, each once, in the order of the
record.  So the text is a document in which no setting is repeated, what it denotes holds
the record, and reading it gives the record back whatever its strings are.
-/

namespace JsonReport

open Spelling

namespace Settings

/-! ## The printed record -/

theorem nodup_keys_members (settings : Settings) : (settings.members.map Prod.fst).Nodup := by
  have hkeys : settings.members.map Prod.fst =
      [Field.enabled.key, Field.hostname.key, Field.port.key] := rfl
  rw [hkeys]
  decide

/-- The object of a record holds the record. -/
theorem settings?_toJson (settings : Settings) : settings.toJson.settings? = some settings := by
  have henabled : Members.lookup? settings.members Field.enabled.key =
      some (.bool settings.enabled) := rfl
  have hhostname : Members.lookup? settings.members Field.hostname.key =
      some (.string settings.hostname) := rfl
  have hport : Members.lookup? settings.members Field.port.key =
      some (.string settings.port) := rfl
  rw [toJson_eq, Json.settings?, ofParts?]
  simp only [henabled, hhostname, hport]
  rfl

/-- A document that a record is printed as. -/
structure PrintedAs (settings : Settings) (document : Document String) : Prop where
  value_eq : document.value = settings.toJson
  depth_le : document.depth ≤ greatestDepth
  inRange : document.InRange
  single : ¬document.RepeatsSetting

/-- Each layout of a record is a document, and white space may follow it. -/
theorem exists_printed (settings : Settings) (pretty : Bool) (after : String)
    (hafter : Blank after.toList) :
    ∃ document, settings.PrintedAs document ∧
      document.WrittenAs (settings.toJson.render ⟨pretty, false⟩ ++ after) := by
  obtain ⟨flag, hflag, hbool⟩ :=
    Report.value_written pretty 1 (.bool settings.enabled) (.bool _) (.bool _)
  obtain ⟨documents, hmembers, hrepresent⟩ := Report.members_written pretty 1
    [("lt_api_hostname", .string settings.hostname), ("lt_api_port", .string settings.port)]
    (by
      intro member hmember
      simp only [List.mem_cons, List.not_mem_nil, or_false] at hmember
      rcases hmember with rfl | rfl <;> exact .string _)
    (by
      intro member hmember
      simp only [List.mem_cons, List.not_mem_nil, or_false] at hmember
      rcases hmember with rfl | rfl <;> exact .string _)
    "lt_enabled" hflag hbool (Report.blank_lineBreak pretty 0)
  have hvalues : Document.memberValues (("lt_enabled", flag) :: documents) = settings.members :=
    hrepresent.values_eq
  refine ⟨.object (("lt_enabled", flag) :: documents), ⟨?_, ?_, hrepresent.inRange, ?_⟩, ?_⟩
  · rw [Document.value, hvalues, Members.merged_of_nodup settings.nodup_keys_members, toJson_eq]
  · have hdepth : (Document.object (("lt_enabled", flag) :: documents)).depth = 1 :=
      congrArg (· + 1) hrepresent.depth_eq
    rw [hdepth]
    decide
  · rintro ⟨field, hfield⟩
    rw [← keys_memberValues, hvalues] at hfield
    exact Nat.not_lt_of_le (List.nodup_iff_count_le_one.1 settings.nodup_keys_members _) hfield
  · have hvalue := Value.object hmembers
    have hwritten := Element.padded blank_nil hvalue hafter
    have htext : (settings.toJson.render ⟨pretty, false⟩).toList =
        Report.plainText (Report.pieces pretty 0 settings.toJson) := String.toList_ofList
    unfold Document.WrittenAs
    rw [String.toList_append, htext]
    simpa [toJson_eq, members, Report.pieces, Report.mark] using hwritten

/-! ## Reading it again -/

section Reading

variable {settings : Settings} {document : Document String} {text : String}

theorem PrintedAs.readDocument_eq (h : settings.PrintedAs document)
    (hwritten : document.WrittenAs text) (origin : Origin) :
    Settings.readDocument origin (Utf8.encode text) = .ok settings := by
  apply toOption_eq_some_iff.1
  rw [toOption_readDocument hwritten, itemsDraft?_of_single h.single, h.value_eq,
    settings?_toJson]

theorem PrintedAs.readValue_eq (h : settings.PrintedAs document)
    (hwritten : document.WrittenAs text) (origin : Origin) :
    JsonReport.readDocument origin (Utf8.encode text) = .ok settings.toJson := by
  rw [← h.value_eq]
  exact (readDocument_of_written hwritten h.inRange origin).1 h.depth_le

end Reading

theorem decodes_of_ofOctets {options : Options} {path input : Octets} {settings : Settings}
    (hread : Settings.ofOctets input = .ok settings) (hfile : options.file = some path)
    (htyped : options.typed = true) : options.Decodes (.ok input) (.ok settings.toJson) := by
  have hdecodes : options.Decodes (.ok input)
      (((Settings.ofOctets input).mapError (·.withPath path)).map Settings.toJson) :=
    .settingsFile hfile htyped
  rw [hread] at hdecodes
  exact hdecodes

/-- What a run has printed of a record, a run with the settings decodes into this record. -/
theorem decodes_printed (settings : Settings) (pretty : Bool) {options : Options} {path : Octets}
    (hfile : options.file = some path) (htyped : options.typed = true) :
    options.Decodes (.ok (Utf8.encode (settings.toJson.render ⟨pretty, false⟩ ++ "\n")))
      (.ok settings.toJson) := by
  have hline : Blank "\n".toList := blank_cons (.inr (.inr (.inl rfl))) blank_nil
  obtain ⟨document, hprinted, hwritten⟩ := settings.exists_printed pretty "\n" hline
  have hread : Settings.ofOctets (Utf8.encode (settings.toJson.render ⟨pretty, false⟩ ++ "\n")) =
      .ok settings := decodeWith_eq_ok.2 (hprinted.readDocument_eq hwritten .raw)
  exact decodes_of_ofOctets hread hfile htyped

end Settings

/-- A printed record is read as itself, in either layout and whatever its strings are, and
as a value it is the object of its three members in their order.  So a run with the
settings, on what another run has printed of them, prints the same text. -/
theorem settings_read_back (settings : Settings) (pretty : Bool) :
    Settings.ofText (settings.toJson.render ⟨pretty, false⟩) = .ok settings ∧
    decodeText (settings.toJson.render ⟨pretty, false⟩) = .ok (.object
      [("lt_enabled", .bool settings.enabled), ("lt_api_hostname", .string settings.hostname),
        ("lt_api_port", .string settings.port)]) ∧
    ∀ (first second : Options) (content : Except FileError Octets)
        (surroundings surroundings' : Surroundings) (path : Octets),
      first.Decodes content (.ok settings.toJson) →
      first.rendering surroundings.stdoutTerminal = ⟨pretty, false⟩ →
      surroundings.stdoutError = none →
      second.file = some path → second.typed = true →
      second.rendering surroundings'.stdoutTerminal = ⟨pretty, false⟩ →
      surroundings'.stdoutError = none →
      (second.run (.ok (Utf8.encode (first.run content surroundings).stdout))
          surroundings').stdout =
        (first.run content surroundings).stdout := by
  obtain ⟨document, hprinted, hwritten⟩ := settings.exists_printed pretty "" blank_nil
  rw [String.append_empty] at hwritten
  refine ⟨?_, ?_, ?_⟩
  · exact decodeWith_eq_ok.2 (hprinted.readDocument_eq hwritten .text)
  · exact decodeWith_eq_ok.2 (hprinted.readValue_eq hwritten .text)
  · intro first second content surroundings surroundings' path hdecodes hrendering hstdout hfile
      htyped hrendering' hstdout'
    have hfirst := (Options.run_of_decodes hdecodes hstdout).1.value _ rfl
    rw [hrendering] at hfirst
    have hsecond := (Options.run_of_decodes (settings.decodes_printed pretty hfile htyped)
      hstdout').1.value _ rfl
    rw [hrendering'] at hsecond
    rw [hfirst, hsecond]

/-- A file in which the port is a control character and a quote. -/
def escapedPortOctets : Octets :=
  Utf8.encode "\x7b\"lt_api_port\":\"\\u001b\\\"\"\x7d"

/-- The record of this file. -/
def escapedPort : Settings := { Settings.default with port := "\x1b\"" }

/-- A run with the settings on a file, without colour. -/
def plainSettingsFile : Options := ⟨some [], true, false, .never⟩

theorem settings_read_back_escapedPort :
    Settings.ofText (escapedPort.toJson.render ⟨true, false⟩) = .ok escapedPort ∧
    (plainSettingsFile.run (.ok (Utf8.encode
        (plainSettingsFile.run (.ok escapedPortOctets) Options.pipes).stdout)) Options.pipes).stdout =
      (plainSettingsFile.run (.ok escapedPortOctets) Options.pipes).stdout := by
  have hread : Settings.ofOctets escapedPortOctets = .ok escapedPort :=
    toOption_eq_some_iff.mp (by decide +kernel)
  constructor
  · exact (settings_read_back escapedPort true).1
  · exact (settings_read_back escapedPort false).2.2 plainSettingsFile plainSettingsFile _
      Options.pipes Options.pipes [] (Settings.decodes_of_ofOctets hread rfl rfl) rfl rfl rfl rfl
      rfl rfl

end JsonReport
