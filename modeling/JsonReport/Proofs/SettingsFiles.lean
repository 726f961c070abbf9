import JsonReport.Proofs.RunOutcome
import JsonReport.Proofs.SettingsRecognition
import Mathlib.Tactic

/-!
# Which files hold settings

The octets of a settings file are checked string by string, where the strings are read.
What stands under a foreign key is only passed over, and inside its strings octets are
accepted that encode no text.  Everywhere else a file that holds settings is written as a
text is.  Every other file makes a decode failure that names it, and a run on the file
reports this failure and no record.
-/

namespace JsonReport

open Utf8
open Spelling

theorem skips_raw : Origin.raw.Skips ElementOctets := by
  intro s skipped _ h
  obtain ⟨v, hsplit, hv⟩ := (skipValue_sound h).element
  exact ⟨v, hsplit, Origin.covers_raw _, hv⟩

namespace Settings

theorem ofOctets_eq_ok_iff {b : Octets} {settings : Settings} :
    Settings.ofOctets b = .ok settings ↔ Written ElementOctets settings b := by
  constructor
  · intro h
    exact written_of_readDocument skips_raw (Origin.covers_raw b) (decodeWith_eq_ok.mp h)
  · intro h
    apply toOption_eq_some_iff.mp
    rw [Settings.ofOctets, toOption_decodeWith]
    exact toOption_readDocument_of_written h .raw

theorem ofFile_of_failure {path b : Octets} {failure : Failure}
    (h : Settings.ofOctets b = .error failure) :
    Settings.ofFile path (.ok b) = .error (failure.withPath path) := by
  rw [Settings.ofFile, h]
  rfl

theorem ofFile_eq_ok_iff {path b : Octets} {settings : Settings} :
    Settings.ofFile path (.ok b) = .ok settings ↔ Settings.ofOctets b = .ok settings := by
  rw [Settings.ofFile]
  cases Settings.ofOctets b with
  | ok other => exact Iff.rfl
  | error failure => constructor <;> intro h <;> cases h

/-- What a run with the settings decodes of a file. -/
theorem decodes_of_ofFile {options : Options} {path b : Octets} (hfile : options.file = some path)
    (htyped : options.typed = true) {failure : Failure}
    (h : Settings.ofFile path (.ok b) = .error failure) :
    options.Decodes (.ok b) (.error failure) := by
  have hread : (Settings.ofOctets b).mapError (·.withPath path) = .error failure := h
  have hdecodes : options.Decodes (.ok b)
      (((Settings.ofOctets b).mapError (·.withPath path)).map (.object ·.members)) :=
    .settingsFile hfile htyped
  rwa [hread] at hdecodes

end Settings

/-- Nothing that reports a failure shows a value. -/
theorem Outcome.Reports.stdout_ne {outcome : Outcome} {failure : Failure}
    {rendering : RenderOptions} (h : outcome.Reports (.error failure) rendering) (value : Json)
    (rendering' : RenderOptions) : outcome.stdout ≠ value.render rendering' ++ "\n" := by
  intro hvalue
  have hlabel := h.label_iff.mpr ⟨failure, rfl⟩
  rw [hvalue] at hlabel
  exact value.not_beginsWithLabel rendering' hlabel

/-- Settings are read from a file exactly if it writes them, where a foreign value may have
any octets in its strings.  Every other file makes a decode failure that names it, and a run
with the settings writes the line of this failure and never a value. -/
theorem ofFile_recognizes (path b : Octets) :
    (∀ settings, Settings.ofFile path (.ok b) = .ok settings ↔
      Settings.Written ElementOctets settings b) ∧
    ((¬∃ settings, Settings.Written ElementOctets settings b) →
      ∃ failure, Settings.ofFile path (.ok b) = .error failure ∧ failure.kind = .decode ∧
        failure.path = some path ∧
        ∀ (options : Options) (surroundings : Surroundings), options.file = some path →
          options.typed = true → surroundings.stdoutError = none →
            (∃ rendering, options.Governs surroundings.stdoutTerminal rendering ∧
              (options.run (.ok b) surroundings).Reports (.error failure) rendering) ∧
            ∀ (value : Json) (rendering : RenderOptions),
              (options.run (.ok b) surroundings).stdout ≠ value.render rendering ++ "\n") := by
  constructor
  · intro settings
    exact Settings.ofFile_eq_ok_iff.trans Settings.ofOctets_eq_ok_iff
  · intro hnot
    cases hread : Settings.ofOctets b with
    | ok settings => exact absurd ⟨settings, Settings.ofOctets_eq_ok_iff.mp hread⟩ hnot
    | error failure =>
        have hfile : Settings.ofFile path (.ok b) = .error (failure.withPath path) :=
          Settings.ofFile_of_failure hread
        have hkind : failure.kind = .decode := kind_of_decodeWith hread
        refine ⟨failure.withPath path, hfile, hkind, rfl, ?_⟩
        intro options surroundings hoptions htyped hstdout
        have hreports := (Options.run_of_decodes
          (Settings.decodes_of_ofFile hoptions htyped hfile) hstdout).1
        exact ⟨⟨_, options.governs_rendering _, hreports⟩, hreports.stdout_ne⟩

/-- An octet that begins no character stands in a string under the key `x`. -/
def strayOctets : Octets :=
  Utf8.encode "\x7b\"x\":\"" ++ 0xFF :: Utf8.encode "\"\x7d"

theorem strayOctets_not_text : ¬∃ text, strayOctets = Utf8.encode text :=
  not_text_of_decode (show Utf8.decode strayOctets = .error 6 by cbv)

theorem ofOctets_strayOctets : Settings.ofOctets strayOctets = .ok Settings.default :=
  toOption_eq_some_iff.mp (by decide +kernel)

/-- The same octet stands in the string of a setting, behind a foreign member. -/
def strayPortOctets : Octets :=
  Utf8.encode "\x7b\"x\":1,\"lt_api_port\":\"" ++ 0xFF :: Utf8.encode "\"\x7d"

theorem strayPortOctets_not_text : ¬∃ text, strayPortOctets = Utf8.encode text :=
  not_text_of_decode (show Utf8.decode strayPortOctets = .error 22 by cbv)

theorem ofFile_recognizes_strayPortOctets :
    Settings.Written ElementOctets Settings.default strayOctets ∧
      (¬∃ text, strayPortOctets = Utf8.encode text) ∧
      (¬∃ settings, Settings.Written ElementOctets settings strayPortOctets) ∧
      ∃ failure : Failure, Settings.ofFile [] (.ok strayPortOctets) = .error failure ∧
        failure.kind = .decode ∧
        BeginsWithLabel (Options.run ⟨some [], true, false, .never⟩ (.ok strayPortOctets)
          Options.pipes).stdout := by
  have hstray : Settings.Written ElementOctets Settings.default strayOctets :=
    ((ofFile_recognizes [] strayOctets).1 _).mp
      (Settings.ofFile_eq_ok_iff.mpr ofOctets_strayOctets)
  obtain ⟨hport, hrefused⟩ := ofFile_recognizes [] strayPortOctets
  have hnone : (Settings.ofOctets strayPortOctets).toOption = none := by decide +kernel
  have hnot : ¬∃ settings, Settings.Written ElementOctets settings strayPortOctets := by
    rintro ⟨settings, hwritten⟩
    rw [Settings.ofFile_eq_ok_iff.mp ((hport settings).mpr hwritten)] at hnone
    cases hnone
  obtain ⟨failure, hfailure, hkind, -, hrun⟩ := hrefused hnot
  obtain ⟨⟨rendering, -, hreports⟩, -⟩ :=
    hrun ⟨some [], true, false, .never⟩ Options.pipes rfl rfl rfl
  exact ⟨hstray, strayPortOctets_not_text, hnot, failure, hfailure, hkind,
    hreports.label_iff.mpr ⟨failure, rfl⟩⟩

theorem strayOctets_accepted :
    (¬∃ text, strayOctets = Utf8.encode text) ∧
      Settings.ofFile (Utf8.encode "s.json") (.ok strayOctets) = .ok Settings.default :=
  ⟨strayOctets_not_text, Settings.ofFile_eq_ok_iff.mpr ofOctets_strayOctets⟩

end JsonReport
