import JsonReport.Proofs.FailurePlaces
import JsonReport.Proofs.WrittenCharacters
import Mathlib.Tactic

/-!
# A decode failure is one line

What a message quotes of the payload is escaped, controls first of all, and everything else
in it is wording and numbers.  So the report of a decode failure has one line feed, at its
end, and no other control character; colour adds its two sequences around the label and
changes nothing else.
-/

namespace JsonReport

/-! ## Control characters -/

/-- The control characters, in ASCII and right behind it. -/
def IsControl (c : Char) : Prop := c.toNat ≤ 0x1F ∨ 0x7F ≤ c.toNat ∧ c.toNat ≤ 0x9F

instance (c : Char) : Decidable (IsControl c) := inferInstanceAs (Decidable (_ ∨ _ ∧ _))

/-- Text without control characters. -/
def FreeOfControls (text : List Char) : Prop := ∀ c ∈ text, ¬IsControl c

instance (text : List Char) : Decidable (FreeOfControls text) :=
  inferInstanceAs (Decidable (∀ c ∈ text, ¬IsControl c))

namespace FreeOfControls

variable {first rest : List Char}

theorem append (hfirst : FreeOfControls first) (hrest : FreeOfControls rest) :
    FreeOfControls (first ++ rest) := fun c hc =>
  (List.mem_append.1 hc).elim (hfirst c) (hrest c)

theorem cons {c : Char} (hc : ¬IsControl c) (h : FreeOfControls rest) :
    FreeOfControls (c :: rest) :=
  List.forall_mem_cons.2 ⟨hc, h⟩

theorem of_numeral {text : List Char} (h : Numeral text) : FreeOfControls text := by
  have hmarks : ∀ c ∈ ['-', '+', '.', 'e'], ¬IsControl c := by decide
  intro c hc
  rcases h c hc with hdigit | hmark
  · have hlow : 0x20 ≤ c.toNat := NumeralCharacter.printed (.inl hdigit)
    have hhigh : c.toNat ≤ '9'.toNat := by
      simp only [Char.isDigit, Bool.and_eq_true, decide_eq_true_eq] at hdigit
      exact UInt32.le_iff_toNat_le.1 hdigit.2
    have hnine : '9'.toNat < 0x7F := by decide
    unfold IsControl
    omega
  · exact hmarks c hmark

/-- Digits of a base in which each has a character are no controls. -/
theorem toDigits {base : ℕ} (hone : 1 < base) (hbase : base ≤ 16) (n : ℕ) :
    FreeOfControls (Nat.toDigits base n) := by
  have hdigit : ∀ d < 16, ¬IsControl (Nat.digitChar d) := by decide
  induction n using Nat.strong_induction_on with
  | _ n ih =>
      rw [Nat.toDigits_eq_if hone]
      split
      · next hlt => exact cons (hdigit n (hlt.trans_le hbase)) nofun
      · next hle =>
          apply append
          · exact ih (n / base) (Nat.div_lt_self (by omega) hone)
          · have hlt : n % base < 16 := (Nat.mod_lt n (by omega)).trans_le hbase
            exact cons (hdigit _ hlt) nofun

end FreeOfControls

/-! ## Messages -/

namespace Escaped

/-- Among the characters without a printed form are the controls. -/
theorem unprintable_of_isControl {c : Char} (h : IsControl c) : unprintable.has c.toNat = true := by
  have hlow : (0x0, 0x1F) ∈ unprintable := .head _
  have hhigh : (0x7F, 0xA0) ∈ unprintable := .tail _ (.head _)
  rcases h with hcontrol | ⟨hdelete, hcontrol⟩
  · refine List.any_eq_true.2 ⟨_, hlow, ?_⟩
    exact Bool.and_eq_true_iff.2 ⟨decide_eq_true (Nat.zero_le _), decide_eq_true hcontrol⟩
  · refine List.any_eq_true.2 ⟨_, hhigh, ?_⟩
    exact Bool.and_eq_true_iff.2
      ⟨decide_eq_true hdelete, decide_eq_true (hcontrol.trans (by decide))⟩

theorem freeOfControls_codePoint (c : Char) : FreeOfControls (codePoint c) := by
  have hdigits := FreeOfControls.toDigits (show 1 < 16 by decide) (Nat.le_refl 16) c.toNat
  have hopen : FreeOfControls ['\\', 'u', '\x7b'] := by decide
  have hclose : FreeOfControls ['\x7d'] := by decide
  exact hopen.append (hdigits.append hclose)

theorem freeOfControls_character (c : Char) : FreeOfControls (character c) := by
  unfold character
  split_ifs with _ _ _ _ _ _ hescaped
  · decide
  · decide
  · decide
  · decide
  · decide
  · decide
  · exact freeOfControls_codePoint c
  · -- Only this branch shows the character itself.
    have hprinted : unprintable.has c.toNat = false :=
      (Bool.or_eq_false_iff.1 (Bool.eq_false_iff.2 hescaped)).2
    have hcontrol : ¬IsControl c := fun h =>
      Bool.false_ne_true (hprinted.symm.trans (unprintable_of_isControl h))
    exact .cons hcontrol nofun

theorem freeOfControls_quote (text : List Char) : FreeOfControls (quote text) := by
  have hmark : ¬IsControl '"' := by decide
  apply FreeOfControls.cons hmark
  apply FreeOfControls.append
  · intro c hc
    obtain ⟨d, -, hc⟩ := List.mem_flatMap.1 hc
    exact freeOfControls_character d c hc
  · exact .cons hmark nofun

end Escaped

theorem Found.freeOfControls_message (found : Found) : FreeOfControls found.message.toList := by
  have hnumber (kind : String) (hkind : FreeOfControls kind.toList) (n : Number) :
      FreeOfControls (kind ++ String.ofList n.text ++ "`").toList := by
    rw [String.toList_append, String.toList_append, String.toList_ofList]
    exact (hkind.append (.of_numeral n.numeral_text)).append (by decide)
  cases found with
  | bool flag => cases flag <;> decide
  | number n =>
      cases n with
      | whole n => exact hnumber "integer `" (by decide) (.whole n)
      | double x => exact hnumber "floating point `" (by decide) (.double x)
  | null => decide
  | string text =>
      have hkind : FreeOfControls "string ".toList := by decide
      rw [show (Found.string text).message =
        "string " ++ String.ofList (Escaped.quote text.toList) from rfl, String.toList_append,
        String.toList_ofList (l := Escaped.quote text.toList)]
      exact hkind.append (Escaped.freeOfControls_quote text.toList)
  | sequence => decide
  | map => decide

theorem Cause.freeOfControls_message (cause : Cause) : FreeOfControls cause.message.toList := by
  cases cause with
  | wrongType found wanted =>
      have hfirst : FreeOfControls "invalid type: ".toList := by decide
      have hbetween : FreeOfControls ", expected ".toList := by decide
      have hwanted : FreeOfControls wanted.message.toList := by cases wanted <;> decide
      rw [show (Cause.wrongType found wanted).message =
        "invalid type: " ++ found.message ++ ", expected " ++ wanted.message from rfl]
      simp only [String.toList_append]
      exact ((hfirst.append found.freeOfControls_message).append hbetween).append hwanted
  | duplicate field => cases field <;> decide
  | _ => decide

theorem Position.freeOfControls_message (place : Position) :
    FreeOfControls place.message.toList := by
  have hrepr (n : ℕ) : FreeOfControls (Nat.repr n).toList := by
    rw [Nat.repr_eq_ofList_toDigits, String.toList_ofList]
    exact .of_numeral (.toDigits n)
  have hline : FreeOfControls " at line ".toList := by decide
  have hcolumn : FreeOfControls " column ".toList := by decide
  rw [Position.message, String.toList_append, String.toList_append, String.toList_append]
  exact ((hline.append (hrepr place.line)).append hcolumn).append (hrepr place.column)

theorem Fault.freeOfControls_message (fault : Fault) (input : Octets) :
    FreeOfControls (fault.message input).toList := by
  rw [Fault.message, String.toList_append]
  exact fault.cause.freeOfControls_message.append (fault.position input).freeOfControls_message

/-! ## Reports -/

namespace Failure

/-- The report of a failure is the label, a description and one line feed, which is the
only control character in it.  In colour the label is red and the rest as it was. -/
def ReportedOnOneLine (failure : Failure) : Prop :=
  ∃ description, description ≠ "" ∧
    failure.report false = "Error decoding JSON: " ++ description ++ "\n" ∧
    FreeOfControls ("Error decoding JSON: " ++ description).toList ∧
    failure.report true = "\x1b[31mError decoding JSON:\x1b[0m " ++ description ++ "\n"

variable {failure : Failure} {description : String}

theorem reportedOnOneLine_of_message (hmessage : failure.message = some description)
    (hne : description ≠ "") (hfree : FreeOfControls description.toList) :
    failure.ReportedOnOneLine := by
  have hlabel : FreeOfControls "Error decoding JSON: ".toList := by decide
  refine ⟨description, hne, ?_, ?_, ?_⟩
  · rw [report, errorLine, hmessage]
    rfl
  · rw [String.toList_append]
    exact hlabel.append hfree
  · rw [report, errorLine, hmessage]
    rfl

theorem reportedOnOneLine_ofFault (target : Target) (input : Octets) (fault : Fault) :
    (ofFault target input fault).ReportedOnOneLine := by
  apply reportedOnOneLine_of_message (message_ofFault target input fault)
  · intro hnil
    exact message_ne_empty fault.cause (String.append_eq_empty_iff.1 hnil).1
  · exact fault.freeOfControls_message input

theorem reportedOnOneLine_of_decodeWith {α : Type} {target : Target}
    {read : Octets → Except Fault α} {input : Octets}
    (h : decodeWith target read input = .error failure) : failure.ReportedOnOneLine := by
  obtain ⟨fault, -, rfl⟩ := exists_fault_of_decodeWith h
  exact reportedOnOneLine_ofFault target input fault

/-- The path of a failure is not reported on its line. -/
theorem ReportedOnOneLine.withPath (h : failure.ReportedOnOneLine) (path : Octets) :
    (failure.withPath path).ReportedOnOneLine := h

theorem reportedOnOneLine_of_ofFile {path : Octets} {content : Except FileError Octets}
    (h : Settings.ofFile path content = .error failure) (hkind : failure.kind = .decode) :
    failure.ReportedOnOneLine := by
  cases content with
  | error error =>
      cases h
      cases hkind
  | ok input =>
      obtain ⟨inner, hinner, rfl⟩ := exists_error_of_mapError h
      exact (reportedOnOneLine_of_decodeWith hinner).withPath path

theorem reportedOnOneLine_of_decode {options : Options} {content : Except FileError Octets}
    (h : options.decode content = .error failure) (hkind : failure.kind = .decode) :
    failure.ReportedOnOneLine := by
  unfold Options.decode at h
  split at h
  · exact reportedOnOneLine_of_ofFile (eq_error_of_map h) hkind
  · cases content with
    | error error =>
        cases h
        cases hkind
    | ok input => exact reportedOnOneLine_of_decodeWith h
  · exact reportedOnOneLine_of_decodeWith (eq_error_of_map h)
  · exact reportedOnOneLine_of_decodeWith h

end Failure

/-- Whatever is decoded, from whatever octets or text, alone or in a run: if that fails, the
failure is reported on one line. -/
theorem decode_failures_reportedOnOneLine :
    (∀ input failure, decodeOctets input = .error failure → failure.ReportedOnOneLine) ∧
    (∀ input failure, Settings.ofOctets input = .error failure → failure.ReportedOnOneLine) ∧
    (∀ text failure, decodeText text = .error failure → failure.ReportedOnOneLine) ∧
    (∀ text failure, Settings.ofText text = .error failure → failure.ReportedOnOneLine) ∧
    ∀ (options : Options) content failure, options.decode content = .error failure →
      failure.kind = .decode → failure.ReportedOnOneLine :=
  ⟨fun _ _ h => Failure.reportedOnOneLine_of_decodeWith h,
    fun _ _ h => Failure.reportedOnOneLine_of_decodeWith h,
    fun _ _ h => Failure.reportedOnOneLine_of_decodeWith h,
    fun _ _ h => Failure.reportedOnOneLine_of_decodeWith h,
    fun _ _ _ h hkind => Failure.reportedOnOneLine_of_decode h hkind⟩

/-- A record whose flag is a string with an escape, a line feed and a null in it. -/
def controlFlagOctets : Octets :=
  Utf8.encode "\x7b\"lt_enabled\":\"\\u001b\\n\\u0000\"\x7d"

theorem decode_failures_reportedOnOneLine_controlFlag :
    (∃ failure, decodeOctets [] = .error failure ∧ failure.ReportedOnOneLine) ∧
    (∃ failure, decodeText "" = .error failure ∧ failure.ReportedOnOneLine) ∧
    (∃ failure, Settings.ofText "" = .error failure ∧ failure.ReportedOnOneLine) ∧
    ∃ failure, Settings.ofOctets controlFlagOctets = .error failure ∧
      failure.ReportedOnOneLine ∧
      failure.message = some ("invalid type: string \"\\u\x7b1b\x7d\\n\\0\", " ++
        "expected a boolean at line 1 column 30") ∧
      (failure.withPath []).ReportedOnOneLine := by
  obtain ⟨hdecodeOctets, hofOctets, hdecodeText, hofText, hdecode⟩ :=
    decode_failures_reportedOnOneLine
  have hvalue (origin : Origin) : readDocument origin [] = .error (.leaving .endOfValue []) := by
    cbv
  have hsettings : Settings.readDocument .text [] = .error (.leaving .endOfValue []) := by
    cbv
  have hcontrol : Settings.readDocument .raw controlFlagOctets =
      .error (.leaving (.wrongType (.string "\x1b\n\x00") .boolean) (Utf8.encode "\x7d")) := by
    decide +kernel
  have hnone : decodeOctets [] = .error _ := decodeWith_of_fault (hvalue .raw)
  have hempty : decodeText "" = .error _ := decodeWith_of_fault (hvalue .text)
  have hemptySettings : Settings.ofText "" = .error _ := decodeWith_of_fault hsettings
  have hflag : Settings.ofOctets controlFlagOctets = .error _ := decodeWith_of_fault hcontrol
  refine ⟨⟨_, hnone, hdecodeOctets _ _ hnone⟩, ⟨_, hempty, hdecodeText _ _ hempty⟩,
    ⟨_, hemptySettings, hofText _ _ hemptySettings⟩, _, hflag, hofOctets _ _ hflag, ?_, ?_⟩
  · refine (Failure.message_ofFault _ _ _).trans ?_
    decide +kernel
  · have hfile : Settings.ofFile [] (.ok controlFlagOctets) = .error _ :=
      congrArg (Except.mapError (Failure.withPath · [])) hflag
    have hrun : (Options.mk (some []) true false .auto).decode (.ok controlFlagOctets) =
        .error _ := congrArg (Except.map Settings.toJson) hfile
    exact hdecode _ _ _ hrun (Failure.kind_ofFault _ _ _)

end JsonReport
