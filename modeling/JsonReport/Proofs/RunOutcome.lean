import JsonReport.Proofs.DecodeFailure
import JsonReport.Proofs.PaintedText
import JsonReport.Run
import Mathlib.Tactic

/-!
# What a run leaves behind

A file that cannot be read leaves a block on the standard error and nothing else.  A run
that can read its document writes one report, in colour and over several lines as the
options and the terminal have it.  Whether the document could be decoded shows in how the
report begins: no value begins as the label of a failure does, in any layout and with or
without colour.  What is logged never changes the report nor the exit code.
-/

namespace JsonReport

/-! ## How reports begin -/

/-- A text begins with the label of a decode failure, plain or red. -/
def BeginsWithLabel (text : String) : Prop :=
  "Error decoding JSON:".toList <+: text.toList ∨
    "\x1b[31mError decoding JSON:\x1b[0m".toList <+: text.toList

theorem Failure.beginsWithLabel_errorLine (failure : Failure) (colored : Bool) (rest : String) :
    BeginsWithLabel (failure.errorLine colored ++ rest) := by
  have hbegins : ∀ label tail : String, label.toList <+: (label ++ tail).toList := by
    intro label tail
    rw [String.toList_append]
    exact List.prefix_append _ _
  unfold errorLine
  rw [String.append_assoc, String.append_assoc]
  cases colored with
  | false => exact .inl (hbegins _ _)
  | true => exact .inr (hbegins _ _)

namespace Report

/-- A value begins with a token. -/
theorem exists_first_token (pretty : Bool) (depth : ℕ) (value : Json) :
    ∃ role text rest, pieces pretty depth value = .token role text :: rest := by
  cases value with
  | bool flag => cases flag <;> exact ⟨_, _, _, rfl⟩
  | array items => cases items <;> exact ⟨_, _, _, rfl⟩
  | object members => cases members <;> exact ⟨_, _, _, rfl⟩
  | _ => exact ⟨_, _, _, rfl⟩

/-- No token has the colour of a failure. -/
theorem exists_code_of_role (role : Role) : ∃ d, d ≠ '1' ∧ role.colour.code = ['3', d] := by
  cases role <;> exact ⟨_, by decide, rfl⟩

/-- The plain text of a value does not begin as a plain label does. -/
theorem head_plainText (pretty : Bool) (value : Json) :
    ∃ c rest, plainText (pieces pretty 0 value) ++ ['\n'] = c :: rest ∧ c ≠ 'E' := by
  cases value with
  | bool flag => cases flag <;> exact ⟨_, _, rfl, by decide⟩
  | array items => cases items <;> exact ⟨_, _, rfl, by decide⟩
  | object members => cases members <;> exact ⟨_, _, rfl, by decide⟩
  | number n =>
      have hmarks : ∀ c ∈ ['-', '+', '.', 'e'], c ≠ 'E' := by decide
      have hnumeral := n.numeral_text
      have htext : plainText (pieces pretty 0 (.number n)) = n.text := by
        simp [plainText, pieces, Piece.render]
      rw [htext]
      cases hfirst : n.text with
      | nil => exact ⟨_, _, rfl, by decide⟩
      | cons c text =>
          refine ⟨c, text ++ ['\n'], rfl, ?_⟩
          rw [hfirst] at hnumeral
          rcases hnumeral c List.mem_cons_self with hdigit | hmark
          · rintro rfl
            exact absurd hdigit (by decide)
          · exact hmarks c hmark
  | _ => exact ⟨_, _, rfl, by decide⟩

end Report

/-- No value is reported as a failure is, whatever it holds. -/
theorem Json.not_beginsWithLabel (value : Json) (rendering : RenderOptions) :
    ¬BeginsWithLabel (value.render rendering ++ "\n") := by
  obtain ⟨pretty, colored⟩ := rendering
  have htext : (value.render ⟨pretty, colored⟩ ++ "\n").toList =
      (Report.pieces pretty 0 value).flatMap (Piece.render colored) ++ ['\n'] := by
    rw [String.toList_append, render, String.toList_ofList]
    rfl
  rw [BeginsWithLabel, htext]
  cases colored with
  | false =>
      have hplain : '\x1b' ∉ Report.plainText (Report.pieces pretty 0 value) ++ ['\n'] := by
        rw [List.mem_append, not_or]
        exact ⟨Report.escape_not_mem_plainText (Report.piecesPrinted_pieces pretty 0 value),
          by decide⟩
      rintro (hlabel | hred)
      · obtain ⟨c, rest, hfirst, hc⟩ := Report.head_plainText pretty value
        change _ <+: Report.plainText (Report.pieces pretty 0 value) ++ ['\n'] at hlabel
        rw [hfirst] at hlabel
        exact hc (List.cons_prefix_cons.1 hlabel).1.symm
      · exact hplain (hred.subset List.mem_cons_self)
  | true =>
      obtain ⟨role, text, rest, hpieces⟩ := Report.exists_first_token pretty 0 value
      obtain ⟨d, hd, hcode⟩ := Report.exists_code_of_role role
      rw [hpieces, List.flatMap_cons, Piece.render, if_pos rfl, Colour.paint, escapeSequence,
        hcode]
      rintro (hlabel | hred)
      · exact absurd (List.cons_prefix_cons.1 hlabel).1 (by decide)
      · -- The sequences agree up to the second digit.
        have hdigit := (List.cons_prefix_cons.1 (List.cons_prefix_cons.1
          (List.cons_prefix_cons.1 (List.cons_prefix_cons.1 hred).2).2).2).1
        exact hd hdigit.symm

/-! ## How reports are written -/

/-- Colour is asked for, or it is left to the terminal and there is one. -/
def ColorMode.Colors (mode : ColorMode) (terminal : Bool) : Prop :=
  mode = .always ∨ mode = .auto ∧ terminal = true

instance (mode : ColorMode) (terminal : Bool) : Decidable (mode.Colors terminal) :=
  inferInstanceAs (Decidable (_ ∨ _ ∧ _))

theorem ColorMode.useColor_iff (mode : ColorMode) (terminal : Bool) :
    mode.useColor terminal = true ↔ mode.Colors terminal := by
  unfold Colors
  cases mode <;> simp [useColor]

/-- How the options have a report written.  Unless it is to be compact it takes several lines
on a terminal, and also where it has colour. -/
structure Options.Governs (options : Options) (terminal : Bool) (rendering : RenderOptions) :
    Prop where
  colored_iff : rendering.colored = true ↔ options.color.Colors terminal
  pretty_iff : rendering.pretty = true ↔
    options.compact = false ∧ (terminal = true ∨ rendering.colored = true)

theorem Options.governs_rendering (options : Options) (terminal : Bool) :
    options.Governs terminal (options.rendering terminal) where
  colored_iff := options.color.useColor_iff terminal
  pretty_iff := by simp [rendering]

/-- The options leave one way to write a report. -/
theorem Options.Governs.eq_rendering {options : Options} {terminal : Bool}
    {rendering : RenderOptions} (h : options.Governs terminal rendering) :
    rendering = options.rendering terminal := by
  obtain ⟨pretty, colored⟩ := rendering
  have hpolicy := options.governs_rendering terminal
  have hcolored : colored = (options.rendering terminal).colored :=
    Bool.eq_iff_iff.2 (h.colored_iff.trans hpolicy.colored_iff.symm)
  have hpretty : pretty = (options.rendering terminal).pretty := by
    apply Bool.eq_iff_iff.2
    rw [hpolicy.pretty_iff, ← hcolored]
    exact h.pretty_iff
  rw [hcolored, hpretty]

/-- A label, in colour between the sequence that selects it and the one that ends it. -/
def labelled (colored : Bool) (code label : String) : String :=
  if colored then "\x1b[" ++ code ++ "m" ++ label ++ "\x1b[0m" else label

theorem paintLabel_eq_labelled (label : String) (colored : Bool) (colour : Colour) :
    paintLabel label colored colour = labelled colored (String.ofList colour.code) label := by
  cases colored with
  | false => rfl
  | true =>
      apply String.toList_injective
      simp [paintLabel, labelled, Colour.paint, escapeSequence]

/-! ## Runs -/

/-- The members of a record, in their order. -/
def Settings.members (settings : Settings) : List (String × Json) :=
  [("lt_enabled", .bool settings.enabled), ("lt_api_hostname", .string settings.hostname),
    ("lt_api_port", .string settings.port)]

theorem Settings.toJson_eq (settings : Settings) : settings.toJson = .object settings.members :=
  rfl

namespace Options

/-- What a run decodes with these options, and with which outcome: the file that is named,
if it can be read, or else the built-in document, into a value or into the settings. -/
inductive Decodes (options : Options) :
    Except FileError Octets → Except Failure Json → Prop where
  | file {path input : Octets} : options.file = some path → options.typed = false →
      Decodes options (.ok input) (decodeOctets input)
  | settingsFile {path input : Octets} : options.file = some path → options.typed = true →
      Decodes options (.ok input)
        (((Settings.ofOctets input).mapError (·.withPath path)).map (.object ·.members))
  | builtIn {content : Except FileError Octets} :
      options.file = none → options.typed = false →
      Decodes options content (decodeText builtInPayload)
  | builtInSettings {content : Except FileError Octets} :
      options.file = none → options.typed = true →
      Decodes options content ((Settings.ofText builtInPayload).map (.object ·.members))

variable {options : Options} {content : Except FileError Octets} {decoded : Except Failure Json}

theorem Decodes.decode_eq (h : options.Decodes content decoded) :
    options.decode content = decoded := by
  cases h with
  | file hfile htyped => simp only [decode, hfile, htyped, decodeFile]
  | settingsFile hfile htyped =>
      simp only [decode, hfile, htyped, Settings.ofFile]
      rfl
  | builtIn hfile htyped => simp only [decode, hfile, htyped]
  | builtInSettings hfile htyped =>
      simp only [decode, hfile, htyped]
      rfl

/-- What fails to be decoded fails with a message. -/
theorem Decodes.failure_eq {failure : Failure} (h : options.Decodes content (.error failure)) :
    failure.kind = .decode ∧ ∃ message, failure.message = some message := by
  have hread {α : Type} {target : Target} {read : Octets → Except Fault α} {input : Octets}
      {inner : Failure} (hinner : decodeWith target read input = .error inner) :
      inner.kind = .decode ∧ ∃ message, inner.message = some message := by
    obtain ⟨fault, -, rfl⟩ := exists_fault_of_decodeWith hinner
    exact ⟨Failure.kind_ofFault _ _ _, _, Failure.message_ofFault _ _ _⟩
  generalize hdecoded : Except.error failure = decoded at h
  cases h with
  | file _ _ => exact hread hdecoded.symm
  | settingsFile _ _ =>
      obtain ⟨inner, hinner, rfl⟩ := exists_error_of_mapError (eq_error_of_map hdecoded.symm)
      obtain ⟨hkind, hmessage⟩ := hread hinner
      exact ⟨hkind, hmessage⟩
  | builtIn _ _ => exact hread hdecoded.symm
  | builtInSettings _ _ => exact hread (eq_error_of_map hdecoded.symm)

/-- Unless a file is named that cannot be read, there is something to decode. -/
theorem exists_decodes
    (h : ∀ path error, options.file = some path → content ≠ .error error) :
    ∃ decoded, options.Decodes content decoded := by
  cases hfile : options.file with
  | none =>
      cases htyped : options.typed with
      | false => exact ⟨_, .builtIn hfile htyped⟩
      | true => exact ⟨_, .builtInSettings hfile htyped⟩
  | some path =>
      cases content with
      | error error => exact absurd rfl (h path error hfile)
      | ok input =>
          cases htyped : options.typed with
          | false => exact ⟨_, .file hfile htyped⟩
          | true => exact ⟨_, .settingsFile hfile htyped⟩

end Options

namespace Outcome

/-- A run could not read a file: the standard output is empty, and behind what has been
logged the failure is shown with the path and the error.  The path is shown as its text, and
one that is no text at least as far as it is. -/
structure ShowsUnreadable (outcome : Outcome) (logged : String) (colored : Bool) (what : String)
    (path : Octets) (error : FileError) : Prop where
  stdout : outcome.stdout = ""
  exitCode : outcome.exitCode = 8
  stderr : outcome.stderr = logged ++
    (labelled colored "31" "error:" ++ " failed to read " ++ what ++ "\n" ++
      labelled colored "33" "path:" ++ " " ++ Utf8.display path ++ "\n" ++
      labelled colored "33" "caused by:" ++ " " ++ error.message ++ "\n")
  path_text : ∀ text, path = Utf8.encode text → Utf8.display path = text
  path_beginning : ∀ text rest, path = Utf8.encode text ++ rest →
    Utf8.display path = text ++ Utf8.display rest

/-- A run reports what was decoded, or why it was not, and nothing besides. -/
structure Reports (outcome : Outcome) (decoded : Except Failure Json)
    (rendering : RenderOptions) : Prop where
  exitCode : outcome.exitCode = 0
  value : ∀ value, decoded = .ok value → outcome.stdout = value.render rendering ++ "\n"
  failure : ∀ failure, decoded = .error failure → ∃ message, failure.message = some message ∧
    outcome.stdout =
      labelled rendering.colored "31" "Error decoding JSON:" ++ " " ++ message ++ "\n"
  label_iff : BeginsWithLabel outcome.stdout ↔ ∃ failure, decoded = .error failure

end Outcome

/-- The block about a file that cannot be read. -/
theorem Failure.text_ofFile (what : String) (path : Octets) (error : FileError) (colored : Bool) :
    (ofFile what path error).text colored =
      labelled colored "31" "error:" ++ " failed to read " ++ what ++ "\n" ++
        labelled colored "33" "path:" ++ " " ++ Utf8.display path ++ "\n" ++
        labelled colored "33" "caused by:" ++ " " ++ error.message := by
  have hlines : (ofFile what path error).lines colored =
      [detailLine colored .red "error:" ("failed to read " ++ what),
        detailLine colored .yellow "path:" (Utf8.display path),
        detailLine colored .yellow "caused by:" error.message] := rfl
  have hword : " failed to read " = " " ++ "failed to read " := rfl
  have hjoined : ∀ first second third : String,
      String.intercalate "\n" [first, second, third] =
        first ++ "\n" ++ second ++ "\n" ++ third := fun _ _ _ => rfl
  have hlabel (label : String) (colour : Colour) := paintLabel_eq_labelled label colored colour
  rw [text, hlines, hjoined, hword]
  simp only [detailLine, hlabel, String.append_assoc]
  rfl

theorem Failure.errorLine_of_message {failure : Failure} {message : String}
    (h : failure.message = some message) (colored : Bool) :
    failure.errorLine colored =
      labelled colored "31" "Error decoding JSON:" ++ " " ++ message := by
  rw [errorLine, h, paintLabel_eq_labelled]
  rfl

/-- Where nothing is said about logging, a run logs nothing. -/
theorem Log.textOf_default {surroundings : Surroundings}
    (h : surroundings.directive = .default) (lines : List Line) :
    textOf surroundings lines = "" := by
  have hshows : ∀ line, surroundings.directive.shows line = false := by
    intro line
    rw [h, Directive.shows]
    cases line.level <;> rfl
  rw [textOf, List.filter_eq_nil_iff.2 fun line _ => by rw [hshows]; decide]
  rfl

namespace Options

variable {options : Options} {content : Except FileError Octets} {surroundings : Surroundings}
  {decoded : Except Failure Json}

theorem run_of_unreadable {path : Octets} {error : FileError} (hfile : options.file = some path)
    (hcontent : content = .error error) :
    (options.run content surroundings).ShowsUnreadable
      (Log.textOf surroundings (Log.linesOf options content))
      (options.color.useColor surroundings.stderrTerminal)
      (if options.typed then "config file" else "input file") path error := by
  have hdecode : options.decode content = .error (.ofFile
      (if options.typed then "config file" else "input file") path error) := by
    cases htyped : options.typed <;>
      simp only [decode, hfile, htyped, hcontent, Settings.ofFile, decodeFile] <;> rfl
  have hrun : options.run content surroundings = .ofFailure surroundings options.color
      (Log.textOf surroundings (Log.linesOf options content))
      (.ofFile (if options.typed then "config file" else "input file") path error) := by
    simp only [run, hdecode]
    rfl
  rw [hrun]
  refine ⟨rfl, rfl, ?_, ?_, ?_⟩
  · rw [Outcome.ofFailure, Failure.text_ofFile, String.append_assoc]
  · rintro text rfl
    exact Utf8.display_encode text
  · rintro text rest rfl
    exact Utf8.display_append text rest

theorem run_of_value {value : Json} (hdecode : options.decode content = .ok value) :
    options.run content surroundings = .ofOutput surroundings options.color
      (Log.textOf surroundings (Log.linesOf options content)) "stdout"
      (value.report (options.rendering surroundings.stdoutTerminal)) := by
  simp only [run, hdecode]

theorem run_of_decodeFailure {failure : Failure}
    (hdecode : options.decode content = .error failure) (hkind : failure.kind = .decode) :
    options.run content surroundings = .ofOutput surroundings options.color
      (Log.textOf surroundings (Log.linesOf options content)) "stdout"
      (failure.report (options.rendering surroundings.stdoutTerminal).colored) := by
  simp only [run, hdecode, hkind, if_true]

/-- A run that can read its document writes one report, unless it cannot be written. -/
theorem exists_report_of_decodes (h : options.Decodes content decoded)
    (surroundings : Surroundings) :
    ∃ report, options.run content surroundings = .ofOutput surroundings options.color
        (Log.textOf surroundings (Log.linesOf options content)) "stdout" report ∧
      (∀ value, decoded = .ok value →
        report = value.render (options.rendering surroundings.stdoutTerminal) ++ "\n") ∧
      (∀ failure, decoded = .error failure → report =
        failure.errorLine (options.rendering surroundings.stdoutTerminal).colored ++ "\n") := by
  cases decoded with
  | ok value =>
      refine ⟨_, run_of_value h.decode_eq, ?_, nofun⟩
      rintro _ ⟨⟩
      rfl
  | error failure =>
      refine ⟨_, run_of_decodeFailure h.decode_eq h.failure_eq.1, nofun, ?_⟩
      rintro _ ⟨⟩
      rfl

theorem run_of_decodes (h : options.Decodes content decoded)
    (hstdout : surroundings.stdoutError = none) :
    (options.run content surroundings).Reports decoded
        (options.rendering surroundings.stdoutTerminal) ∧
      (options.run content surroundings).stderr =
        Log.textOf surroundings (Log.linesOf options content) := by
  obtain ⟨report, hrun, hvalue, hfailure⟩ := exists_report_of_decodes h surroundings
  have hwritten : options.run content surroundings =
      ⟨0, report, Log.textOf surroundings (Log.linesOf options content)⟩ := by
    rw [hrun, Outcome.ofOutput, hstdout]
  rw [hwritten]
  refine ⟨⟨rfl, hvalue, ?_, ?_⟩, rfl⟩
  · rintro failure rfl
    obtain ⟨message, hmessage⟩ := h.failure_eq.2
    refine ⟨message, hmessage, ?_⟩
    rw [← Failure.errorLine_of_message hmessage]
    exact hfailure failure rfl
  cases decoded with
  | ok value =>
      refine iff_of_false ?_ nofun
      rw [hvalue value rfl]
      exact value.not_beginsWithLabel _
  | error failure =>
      refine iff_of_true ?_ ⟨failure, rfl⟩
      rw [hfailure failure rfl]
      exact failure.beginsWithLabel_errorLine _ _

theorem exitCode_of_unwritable (h : options.Decodes content decoded) {error : FileError}
    (hstdout : surroundings.stdoutError = some error) :
    (options.run content surroundings).exitCode = 8 := by
  obtain ⟨report, hrun, -, -⟩ := exists_report_of_decodes h surroundings
  rw [hrun, Outcome.ofOutput, hstdout]
  rfl

/-- Neither what is logged nor the standard error changes the report or the exit code. -/
theorem run_of_same_stdout (options : Options) (content : Except FileError Octets)
    {other : Surroundings} (hterminal : other.stdoutTerminal = surroundings.stdoutTerminal)
    (herror : other.stdoutError = surroundings.stdoutError) :
    (options.run content other).stdout = (options.run content surroundings).stdout ∧
      (options.run content other).exitCode = (options.run content surroundings).exitCode := by
  have houtput (mode : ColorMode) (logged logged' what text : String) :
      (Outcome.ofOutput other mode logged what text).stdout =
          (Outcome.ofOutput surroundings mode logged' what text).stdout ∧
        (Outcome.ofOutput other mode logged what text).exitCode =
          (Outcome.ofOutput surroundings mode logged' what text).exitCode := by
    simp only [Outcome.ofOutput, herror]
    cases surroundings.stdoutError <;> exact ⟨rfl, rfl⟩
  simp only [run, hterminal]
  cases options.decode content with
  | ok value => exact houtput _ _ _ _ _
  | error failure =>
      dsimp only
      split_ifs
      · exact houtput _ _ _ _ _
      · exact ⟨rfl, rfl⟩

/-- The outcome of a run.  A file that cannot be read leaves the standard output empty, the
exit code 8 and a block that names it.  Otherwise a run that can write decodes its document,
exits with 0 and writes one report as the options have it, which begins with the label exactly
if the decoding failed, and nothing else unless logging was asked for; a run that cannot write
exits with 8.  Report and exit code depend on nothing but the standard output. -/
theorem run_outcome (options : Options) (content : Except FileError Octets)
    (surroundings : Surroundings) :
    (∀ path error, options.file = some path → content = .error error →
      ∃ colored, (colored = true ↔ options.color.Colors surroundings.stderrTerminal) ∧
        (options.run content surroundings).ShowsUnreadable
          (Log.textOf surroundings (Log.linesOf options content)) colored
          (if options.typed then "config file" else "input file") path error) ∧
    ((∀ path error, options.file = some path → content ≠ .error error) →
      ∃ decoded, options.Decodes content decoded ∧
        (surroundings.stdoutError = none →
          (∃ rendering, options.Governs surroundings.stdoutTerminal rendering ∧
            (options.run content surroundings).Reports decoded rendering) ∧
          (surroundings.directive = .default → (options.run content surroundings).stderr = "")) ∧
        (surroundings.stdoutError ≠ none → (options.run content surroundings).exitCode = 8)) ∧
    ∀ other : Surroundings, other.stdoutTerminal = surroundings.stdoutTerminal →
      other.stdoutError = surroundings.stdoutError →
      (options.run content other).stdout = (options.run content surroundings).stdout ∧
        (options.run content other).exitCode = (options.run content surroundings).exitCode := by
  refine ⟨?_, ?_, ?_⟩
  · intro path error hfile hcontent
    exact ⟨_, options.color.useColor_iff _, run_of_unreadable hfile hcontent⟩
  · intro hreadable
    obtain ⟨decoded, hdecodes⟩ := exists_decodes hreadable
    refine ⟨decoded, hdecodes, ?_, ?_⟩
    · intro hstdout
      obtain ⟨hreports, hstderr⟩ := run_of_decodes hdecodes hstdout
      refine ⟨⟨_, options.governs_rendering _, hreports⟩, fun hdirective => ?_⟩
      rw [hstderr, Log.textOf_default hdirective]
    · intro hstdout
      obtain ⟨error, herror⟩ := Option.ne_none_iff_exists'.1 hstdout
      exact exitCode_of_unwritable hdecodes herror
  · intro other hterminal herror
    exact run_of_same_stdout options content hterminal herror

/-- A run on a file, without the settings. -/
def namedFile (compact : Bool) (color : ColorMode) : Options :=
  ⟨some (Utf8.encode "é.json"), false, compact, color⟩

/-- Both outputs are pipes, and nothing is said about logging. -/
def pipes : Surroundings := ⟨false, none, false, .default, ""⟩

/-- The standard output is a terminal. -/
def onTerminal : Surroundings := { pipes with stdoutTerminal := true }

/-- In colour an array takes three lines, unless it is to be compact; by itself a pipe has no
colour, and a terminal has. -/
theorem run_outcome_namedFile :
    ((namedFile false .auto).run (.error .notFound) pipes).stderr =
      "error: failed to read input file\npath: é.json\n" ++
        "caused by: No such file or directory (os error 2)\n" ∧
    ((namedFile false .always).run (.ok (Utf8.encode "[true]")) pipes).stdout =
      "\x1b[39m[\x1b[0m\n  \x1b[35mtrue\x1b[0m\n\x1b[39m]\x1b[0m\n" ∧
    ((namedFile true .always).run (.ok (Utf8.encode "[true]")) pipes).stdout =
      "\x1b[39m[\x1b[0m\x1b[35mtrue\x1b[0m\x1b[39m]\x1b[0m\n" ∧
    ((namedFile false .auto).run (.ok (Utf8.encode "[true]")) pipes).stdout = "[true]\n" ∧
    ((namedFile false .auto).run (.ok (Utf8.encode "[true]")) onTerminal).stdout =
      "\x1b[39m[\x1b[0m\n  \x1b[35mtrue\x1b[0m\n\x1b[39m]\x1b[0m\n" ∧
    ((namedFile false .never).run (.ok (Utf8.encode "[true]")) onTerminal).stdout =
      "[\n  true\n]\n" ∧
    ((namedFile false .auto).run (.ok (Utf8.encode "[true]")) pipes).stderr = "" ∧
    BeginsWithLabel ((namedFile false .auto).run (.ok []) pipes).stdout ∧
    ((namedFile false .auto).run (.ok []) { pipes with stdoutError := some .noSpace }).exitCode =
      8 ∧
    ((namedFile false .auto).run (.ok []) { pipes with directive := ⟨[], .trace⟩ }).stdout =
      ((namedFile false .auto).run (.ok []) pipes).stdout := by
  have hreadable (options : Options) (input : Octets) : ∀ path error,
      options.file = some path → (.ok input : Except FileError Octets) ≠ .error error := by
    intro path error _ h
    cases h
  have htrue : readDocument .raw (Utf8.encode "[true]") = .ok (.array [.bool true]) := by cbv
  have hnone : readDocument .raw [] = .error (.leaving .endOfValue []) := by cbv
  have hprints (compact : Bool) (color : ColorMode) (surroundings : Surroundings)
      (hstdout : surroundings.stdoutError = none) :
      ((namedFile compact color).run (.ok (Utf8.encode "[true]")) surroundings).stdout =
        (Json.array [.bool true]).render
          ((namedFile compact color).rendering surroundings.stdoutTerminal) ++ "\n" := by
    obtain ⟨decoded, hdecodes, hwritten, -⟩ :=
      (run_outcome (namedFile compact color) _ surroundings).2.1 (hreadable _ _)
    obtain ⟨⟨rendering, hgoverns, hreports⟩, -⟩ := hwritten hstdout
    rw [← hgoverns.eq_rendering]
    exact hreports.value _ (hdecodes.decode_eq.symm.trans (decodeWith_eq_ok.2 htrue))
  obtain ⟨colored, hcolored, hunreadable⟩ :=
    (run_outcome (namedFile false .auto) (.error .notFound) pipes).1 _ .notFound rfl rfl
  obtain ⟨value, -, hvalue, -⟩ := (run_outcome (namedFile false .auto)
    (.ok (Utf8.encode "[true]")) pipes).2.1 (hreadable _ _)
  obtain ⟨decoded, hdecodes, hwritten, -⟩ :=
    (run_outcome (namedFile false .auto) (.ok []) pipes).2.1 (hreadable _ _)
  obtain ⟨⟨rendering, -, hreports⟩, -⟩ := hwritten rfl
  obtain ⟨-, -, -, hunwritable⟩ := (run_outcome (namedFile false .auto) (.ok [])
    { pipes with stdoutError := some .noSpace }).2.1 (hreadable _ _)
  have hsame := (run_outcome (namedFile false .auto) (.ok []) pipes).2.2
    { pipes with directive := ⟨[], .trace⟩ } rfl rfl
  refine ⟨?_, hprints _ _ _ rfl, hprints _ _ _ rfl, hprints _ _ _ rfl, hprints _ _ _ rfl,
    hprints _ _ _ rfl, (hvalue rfl).2 rfl, ?_, hunwritable (Option.some_ne_none _), hsame.1⟩
  · have hplain : colored = false := by
      rw [← Bool.not_eq_true, hcolored]
      decide
    rw [hunreadable.stderr, hunreadable.path_text "é.json" rfl, hplain]
    rfl
  · exact hreports.label_iff.2
      ⟨_, hdecodes.decode_eq.symm.trans (decodeWith_of_fault hnone)⟩

end Options

end JsonReport
