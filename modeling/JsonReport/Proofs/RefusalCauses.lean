import JsonReport.Proofs.OctetAgreement
import JsonReport.Proofs.SettledDocuments
import Mathlib.Tactic

/-!
# What a document is refused for

A reader refuses a text for causes of its own.  The causes of settings are not among those
of documents, and octets can only be broken where they come raw.  The message of such a
cause holds no phrase of another category, so the hint of a failure, which is found by
searching the message, tells the category of the cause itself.
-/

namespace JsonReport

open Utf8

/-- The causes for which a document is refused. -/
def Cause.OfDocument (origin : Origin) : Cause → Prop
  | .wrongType _ _ => False
  | .duplicate _ => False
  | .invalidCodePoint => origin = .raw
  | _ => True

/-! ## Steps -/

/-- If `s` is refused, then for a cause that is allowed. -/
structure RefusesFor {β : Type} (allowed : Cause → Prop) (read : Octets → Except Fault β)
    (s : Octets) : Prop where
  cause_of_error : ∀ fault, read s = .error fault → allowed fault.cause

section Steps

variable {α β : Type} {allowed : Cause → Prop} {s : Octets}

theorem refusesFor_of_ok {read : Octets → Except Fault β} {outcome : β}
    (h : read s = .ok outcome) : RefusesFor allowed read s := by
  constructor
  intro fault hfault
  rw [h] at hfault
  cases hfault

theorem refusesFor_of_error {read : Octets → Except Fault β} {fault : Fault}
    (h : read s = .error fault) (hcause : allowed fault.cause) : RefusesFor allowed read s := by
  constructor
  intro other hother
  rw [h, Except.error.injEq] at hother
  exact hother ▸ hcause

theorem refusesFor_yielding (value : α) : RefusesFor allowed (yielding value) s :=
  refusesFor_of_ok rfl

theorem refusesFor_stopping {cause : Cause} (h : allowed cause) :
    RefusesFor allowed (stopping cause : Octets → Except Fault β) s :=
  refusesFor_of_error rfl h

theorem refusesFor_octet {atEnd : Cause} (h : allowed atEnd) :
    RefusesFor allowed (octet atEnd) s := by
  cases s with
  | nil => exact refusesFor_of_error rfl h
  | cons b r => exact refusesFor_of_ok rfl

theorem refusesFor_mark {atEnd : Cause} (h : allowed atEnd) :
    RefusesFor allowed (mark atEnd) s := by
  constructor
  intro fault hfault
  obtain ⟨-, rfl⟩ := mark_error hfault
  exact h

theorem refusesFor_optional {absent : α}
    {call : UInt8 → Option (Octets → Except Fault (α × Octets))}
    (h : ∀ b read r, s = b :: r → call b = some read → RefusesFor allowed read r) :
    RefusesFor allowed (optional absent call) s := by
  cases s with
  | nil => exact refusesFor_of_ok rfl
  | cons b r =>
      constructor
      intro fault hfault
      rw [optional] at hfault
      split at hfault
      · cases hfault
      · next read hread => exact (h b read r rfl hread).cause_of_error fault hfault

/-- Of two readers one after the other, each refuses for what it is allowed to. -/
theorem RefusesFor.andThen {first : Octets → Except Fault (α × Octets)}
    {next : α → Octets → Except Fault β} (h : RefusesFor allowed first s)
    (hnext : ∀ value r, first s = .ok (value, r) → RefusesFor allowed (next value) r) :
    RefusesFor allowed (JsonReport.andThen first next) s := by
  constructor
  intro fault hfault
  rw [JsonReport.andThen] at hfault
  split at hfault
  · next other hother =>
      cases hfault
      exact h.cause_of_error fault hother
  · next value r hfirst => exact (hnext value r hfirst).cause_of_error fault hfault

theorem refusesFor_onMark {b : UInt8} {atEnd : Cause} {here there : Octets → Except Fault β}
    (hatEnd : allowed atEnd) (hhere : ∀ r, RefusesFor allowed here r)
    (hthere : RefusesFor allowed there s) :
    RefusesFor allowed (onMark b atEnd here there) s := by
  constructor
  intro fault hfault
  rw [onMark] at hfault
  split at hfault
  · next other hmark =>
      cases hfault
      exact (refusesFor_mark hatEnd).cause_of_error fault hmark
  · next first r hmark =>
      split_ifs at hfault
      · exact (hhere r).cause_of_error fault hfault
      · exact hthere.cause_of_error fault hfault

end Steps

section Documents

variable (origin : Origin)

/-- What is refused for a cause of documents. -/
abbrev RefusesDocument {β : Type} (read : Octets → Except Fault β) (s : Octets) : Prop :=
  RefusesFor (Cause.OfDocument origin) read s

/-! ## Words -/

theorem refuses_readLetters (letters : List Char) (s : Octets) :
    RefusesDocument origin (passing (readLetters letters)) s := by
  induction letters generalizing s with
  | nil => exact refusesFor_yielding ()
  | cons c letters ih =>
      rw [passing_readLetters_cons]
      refine RefusesFor.andThen (refusesFor_octet trivial) fun b r _ => ?_
      split_ifs
      · exact ih r
      · exact refusesFor_stopping trivial

theorem refuses_readWord {α : Type} (letters : List Char) (meaning : α) (b : UInt8)
    (r : Octets) : RefusesDocument origin (fun r => (readWord letters meaning b r).outcome) r := by
  rw [outcome_readWord]
  exact (refuses_readLetters origin letters r).andThen fun _ _ _ => refusesFor_yielding meaning

/-! ## Strings -/

theorem refuses_readHex (s : Octets) : RefusesDocument origin readHex s := by
  rw [readHex_eq]
  refine RefusesFor.andThen (refusesFor_octet trivial) fun a s₁ _ => ?_
  refine RefusesFor.andThen (refusesFor_octet trivial) fun b s₂ _ => ?_
  refine RefusesFor.andThen (refusesFor_octet trivial) fun c s₃ _ => ?_
  refine RefusesFor.andThen (refusesFor_octet trivial) fun d r _ => ?_
  split
  · exact refusesFor_yielding _
  · exact refusesFor_stopping trivial

theorem refuses_readPairMark (c : Char) (s : Octets) :
    RefusesDocument origin (passing (readPairMark c)) s := by
  rw [passing_readPairMark]
  refine RefusesFor.andThen (refusesFor_octet trivial) fun b r _ => ?_
  split_ifs
  · exact refusesFor_yielding ()
  · exact refusesFor_stopping trivial

theorem refuses_readPair (high : ℕ) (s : Octets) : RefusesDocument origin (readPair high) s := by
  rw [readPair_eq]
  refine (refuses_readPairMark origin '\\' s).andThen fun _ s₁ _ => ?_
  refine (refuses_readPairMark origin 'u' s₁).andThen fun _ s₂ _ => ?_
  refine (refuses_readHex origin s₂).andThen fun low r _ => ?_
  split_ifs
  · exact refusesFor_yielding _
  · exact refusesFor_stopping trivial

theorem refuses_readCodePoint (s : Octets) : RefusesDocument origin readCodePoint s := by
  rw [readCodePoint_eq]
  refine (refuses_readHex origin s).andThen fun n r _ => ?_
  split_ifs
  · exact refusesFor_stopping trivial
  · exact refuses_readPair origin n r
  · exact refusesFor_yielding _

theorem refuses_readEscape (s : Octets) : RefusesDocument origin readEscape s := by
  rw [readEscape_eq]
  refine RefusesFor.andThen (refusesFor_octet trivial) fun b r _ => ?_
  split
  · exact refusesFor_yielding _
  · split_ifs
    · exact refuses_readCodePoint origin r
    · exact refusesFor_stopping trivial

theorem octet_length {atEnd : Cause} {s r : Octets} {b : UInt8}
    (h : octet atEnd s = .ok (b, r)) : r.length < s.length := by
  cases s with
  | nil => cases h
  | cons c s =>
      cases h
      exact Nat.lt_succ_self _

theorem refuses_readContent (s : Octets) :
    RefusesDocument origin (fun s => (readContent s).outcome) s := by
  rw [outcome_readContent]
  refine RefusesFor.andThen (refusesFor_octet trivial) fun b r hoctet => ?_
  have hr := octet_length hoctet
  split_ifs
  · exact refusesFor_yielding []
  · refine (refuses_readEscape origin r).andThen fun c r' hescape => ?_
    have hr' := readEscape_length hescape
    exact (refuses_readContent r').andThen fun _ _ _ => refusesFor_yielding _
  · exact refusesFor_stopping trivial
  · exact (refuses_readContent r).andThen fun _ _ _ => refusesFor_yielding _
termination_by s.length

/-- The characters of a content are in question only where it came raw. -/
theorem refuses_ofContent (content s : Octets) :
    RefusesDocument origin (ofContent origin content) s := by
  cases origin with
  | text => exact refusesFor_of_ok rfl
  | raw =>
      cases hcharacters : Origin.raw.characters content with
      | ok characters =>
          exact refusesFor_of_ok (by rw [ofContent, hcharacters])
      | error valid =>
          refine refusesFor_of_error (by rw [ofContent, hcharacters]) ?_
          rfl

theorem refuses_readString (s : Octets) :
    RefusesDocument origin (fun s => (readString origin s).outcome) s := by
  rw [outcome_readString]
  exact (refuses_readContent origin s).andThen fun content r _ =>
    refuses_ofContent origin content r

/-! ## Numbers -/

theorem refuses_afterDigit {α : Type} {next : Digit → Octets → Except Fault (α × Octets)}
    (h : ∀ d r, RefusesDocument origin (next d) r) (s : Octets) :
    RefusesDocument origin (afterDigit next) s := by
  refine RefusesFor.andThen (refusesFor_octet trivial) fun b r _ => ?_
  split
  · exact refusesFor_stopping trivial
  · next d _ => exact h d r

theorem refuses_takeDigits (d : Digit) (s : Octets) :
    RefusesDocument origin (andThen (fun s => .ok (takeDigits s)) fun digits =>
      yielding (d :: digits)) s :=
  refusesFor_of_ok rfl

theorem refuses_readDigits (s : Octets) : RefusesDocument origin (readDigits .endOfValue) s := by
  rw [readDigits_eq]
  exact refuses_afterDigit origin (refuses_takeDigits origin) s

theorem refuses_readWholePart (s : Octets) :
    RefusesDocument origin (readWholePart .endOfValue) s := by
  rw [readWholePart_eq]
  refine refuses_afterDigit origin (fun d r => ?_) s
  split_ifs
  · refine refusesFor_optional fun b read r' _ hread => ?_
    obtain ⟨_, -, rfl⟩ := Option.map_eq_some_iff.1 hread
    exact refusesFor_stopping trivial
  · exact refuses_takeDigits origin d r

theorem refuses_readFraction (s : Octets) :
    RefusesDocument origin (readFraction .endOfValue) s := by
  rw [readFraction_eq]
  refine refusesFor_optional fun b read r _ hread => ?_
  split_ifs at hread
  cases hread
  exact (refuses_readDigits origin r).andThen fun _ _ _ => refusesFor_yielding _

theorem refuses_readExponent (s : Octets) :
    RefusesDocument origin (readExponent .endOfValue) s := by
  rw [readExponent_eq]
  refine refusesFor_optional fun b read r _ hread => ?_
  split_ifs at hread
  cases hread
  refine RefusesFor.andThen (refusesFor_of_ok rfl) fun negative r' _ => ?_
  exact (refuses_readDigits origin r').andThen fun _ _ _ => refusesFor_yielding _

theorem refuses_ofLiteral (literal : NumberLiteral) (s : Octets) :
    RefusesDocument origin (ofLiteral literal) s := by
  cases hnumber : literal.number with
  | ok n => exact refusesFor_of_ok (by rw [ofLiteral, hnumber])
  | error unseen =>
      refine refusesFor_of_error (by rw [ofLiteral, hnumber]) ?_
      trivial

theorem refuses_readNumber (negative : Bool) (s : Octets) :
    RefusesDocument origin (fun s => (readNumber negative s).outcome) s := by
  rw [outcome_readNumber, outcome_readLiteral]
  refine RefusesFor.andThen ?_ fun literal r _ => refuses_ofLiteral origin literal r
  refine (refuses_readWholePart origin s).andThen fun whole s₁ _ => ?_
  refine (refuses_readFraction origin s₁).andThen fun fraction s₂ _ => ?_
  exact (refuses_readExponent origin s₂).andThen fun _ _ _ => refusesFor_yielding _

/-! ## Values -/

theorem refuses_readScalar (kind : Scalar) (b : UInt8) (r : Octets) :
    RefusesDocument origin (fun r => (readScalar origin kind b r).outcome) r := by
  cases kind with
  | null => exact refuses_readWord origin _ _ b r
  | true => exact refuses_readWord origin _ _ b r
  | false => exact refuses_readWord origin _ _ b r
  | minus =>
      rw [outcome_readScalar_minus]
      exact (refuses_readNumber origin true r).andThen fun _ _ _ => refusesFor_yielding _
  | digit =>
      rw [outcome_readScalar_digit]
      refine RefusesFor.andThen ⟨fun fault hfault => ?_⟩ fun _ _ _ => refusesFor_yielding _
      exact (refuses_readNumber origin false (b :: r)).cause_of_error fault hfault
  | quote =>
      rw [outcome_readScalar_quote]
      exact (refuses_readString origin r).andThen fun _ _ _ => refusesFor_yielding _

theorem refuses_readKey (s : Octets) :
    RefusesDocument origin (fun s => (readKey origin s).outcome) s := by
  rw [outcome_readKey]
  refine RefusesFor.andThen (refusesFor_mark trivial) fun b r _ => ?_
  split_ifs
  · exact refuses_readString origin r
  · exact refusesFor_stopping trivial

theorem refuses_readColon (s : Octets) :
    RefusesDocument origin (fun s => (readColon s).outcome) s := by
  rw [outcome_readColon]
  refine RefusesFor.andThen (refusesFor_mark trivial) fun b r _ => ?_
  split_ifs
  · exact refusesFor_yielding ()
  · exact refusesFor_stopping trivial

theorem refuses_itemsBehind {β : Type} (container : Container) (item : β) {s : Octets}
    {more : Octets → Except Fault (List β × Octets)}
    (hmore : ∀ r, r.length < s.length → RefusesDocument origin more r) :
    RefusesDocument origin (container.itemsBehind item more) s := by
  have hnext : RefusesDocument origin (fun s => (container.afterItem s).outcome) s := by
    rw [Container.outcome_afterItem]
    have hunfinished : container.unfinished.OfDocument origin := by cases container <;> trivial
    have hunexpected : container.unexpected.OfDocument origin := by cases container <;> trivial
    refine (refusesFor_mark hunfinished).andThen fun b r _ => ?_
    split_ifs
    · exact refusesFor_yielding _
    · exact refusesFor_yielding _
    · exact refusesFor_stopping hunexpected
  refine hnext.andThen fun next r hread => ?_
  have hr : r.length < s.length := Reading.outcome_length hread
  cases next with
  | close => exact refusesFor_yielding _
  | comma =>
      refine refusesFor_onMark trivial (fun _ => refusesFor_stopping trivial) ?_
      exact (hmore r hr).andThen fun _ _ _ => refusesFor_yielding _

-- The induction is on what is left of the text, as in the readers themselves.

mutual

theorem refuses_readValue (room : ℕ) (s : Octets) :
    RefusesDocument origin (fun s => (readValue origin room s).outcome) s := by
  rw [outcome_readValue]
  refine RefusesFor.andThen (refusesFor_mark trivial) fun b r hmark => ?_
  have hr : r.length < s.length := mark_length hmark
  split
  · exact refusesFor_stopping trivial
  · next kind _ => exact refuses_readScalar origin kind b r
  · next container _ =>
      cases room with
      | zero => exact refusesFor_stopping trivial
      | succ room =>
          cases container with
          | array =>
              refine refusesFor_onMark trivial (fun _ => refusesFor_yielding _) ?_
              exact (refuses_readElements room r).andThen fun _ _ _ => refusesFor_yielding _
          | object =>
              refine refusesFor_onMark trivial (fun _ => refusesFor_yielding _) ?_
              exact (refuses_readMembers room r).andThen fun _ _ _ => refusesFor_yielding _
termination_by 2 * s.length

theorem refuses_readElements (room : ℕ) (s : Octets) :
    RefusesDocument origin (fun s => (readElements origin room s).outcome) s := by
  rw [outcome_readElements]
  refine (refuses_readValue room s).andThen fun item r hitem => ?_
  have hr := Reading.outcome_length hitem
  exact refuses_itemsBehind origin .array item fun r' _ => refuses_readElements room r'
termination_by 2 * s.length + 1

theorem refuses_readMembers (room : ℕ) (s : Octets) :
    RefusesDocument origin (fun s => (readMembers origin room s).outcome) s := by
  rw [outcome_readMembers]
  refine (refuses_readKey origin s).andThen fun key r₁ hkey => ?_
  have h₁ := Reading.outcome_length hkey
  refine (refuses_readColon origin r₁).andThen fun _ r₂ hcolon => ?_
  have h₂ := Reading.outcome_length hcolon
  refine (refuses_readValue room r₂).andThen fun value r₃ hvalue => ?_
  have h₃ := Reading.outcome_length hvalue
  exact refuses_itemsBehind origin .object (key, value)
    fun r₄ _ => refuses_readMembers room r₄
termination_by 2 * s.length + 1

end

theorem refuses_readDocument (s : Octets) : RefusesDocument origin (readDocument origin) s := by
  have hwhole : RefusesDocument origin
      (andThen (fun s => (readValue origin greatestDepth s).outcome) ending) s := by
    refine (refuses_readValue origin greatestDepth s).andThen fun value r _ => ⟨?_⟩
    intro fault hfault
    rw [ending] at hfault
    split at hfault
    · cases hfault
    · cases hfault
      trivial
  constructor
  intro fault hfault
  rw [readDocument_eq] at hfault
  exact hwhole.cause_of_error fault (eq_error_of_map hfault)

end Documents

/-! ## Hints -/

namespace Cause

/-- Causes for which a text is refused because it ends too early. -/
def EndsTooEarly (cause : Cause) : Prop :=
  cause ∈ [.endOfValue, .endOfList, .endOfObject, .endOfString]

instance (cause : Cause) : Decidable cause.EndsTooEarly :=
  inferInstanceAs (Decidable (cause ∈ _))

variable {cause : Cause}

theorem category_eq_depthLimit : cause.category = .depthLimit ↔ cause = .tooDeep := by
  cases cause <;> simp [category, Category.ofCause]

theorem category_eq_numericRange : cause.category = .numericRange ↔ cause = .numberOutOfRange := by
  cases cause <;> simp [category, Category.ofCause]

theorem category_eq_unicode : cause.category = .unicode ↔ cause = .invalidCodePoint := by
  cases cause <;> simp [category, Category.ofCause]

theorem category_eq_endOfInput : cause.category = .endOfInput ↔ cause.EndsTooEarly := by
  cases cause <;> simp [category, Category.ofCause, EndsTooEarly]

theorem OfDocument.category_ne_data {origin : Origin} (h : cause.OfDocument origin) :
    cause.category ≠ .data := by
  cases cause with
  | wrongType found wanted => exact absurd h id
  | duplicate field => exact absurd h id
  | _ => simp [category, Category.ofCause]

end Cause

namespace Failure

/-- The hint of a failure to decode a value tells this label. -/
def TellsLabel (failure : Failure) (label : String) : Prop :=
  failure.hint = some ("parse category: " ++ label ++ "; context: decode")

/-- The label that a failure tells is that of the cause of its fault. -/
structure SortedBy (failure : Failure) (cause : Cause) : Prop where
  depthLimit : failure.TellsLabel "depth-limit" ↔ cause = .tooDeep
  numericRange : failure.TellsLabel "numeric-range" ↔ cause = .numberOutOfRange
  unicode : failure.TellsLabel "unicode" ↔ cause = .invalidCodePoint
  endOfInput : failure.TellsLabel "eof" ↔ cause.EndsTooEarly
  grammar : failure.TellsLabel "syntax" ↔
    cause ≠ .tooDeep ∧ cause ≠ .numberOutOfRange ∧ cause ≠ .invalidCodePoint ∧
      ¬cause.EndsTooEarly
  nothingElse : ∀ label ∈ ["data", "io", "unknown"], ¬failure.TellsLabel label

variable {origin : Origin} {input : Octets} {fault : Fault}

/-- What the search finds in the message is the category of the cause. -/
theorem hint_of_document (h : fault.cause.OfDocument origin) :
    (ofFault .value input fault).hint = some (fault.cause.category.hint "decode") := by
  rw [hint_ofFault, Category.ofFault_eq_category]
  · rfl
  · intro found wanted hwrong
    rw [hwrong] at h
    exact h

theorem tellsLabel_iff (h : fault.cause.OfDocument origin) (label : String) :
    (ofFault .value input fault).TellsLabel label ↔ fault.cause.category.label = label := by
  have hcontext : "; context: " ++ "decode" = "; context: decode" := by decide
  have hhint : fault.cause.category.hint "decode" =
      "parse category: " ++ fault.cause.category.label ++ "; context: decode" :=
    String.append_assoc.trans (congrArg _ hcontext)
  rw [TellsLabel, hint_of_document h, Option.some_inj, hhint, String.append_left_inj,
    String.append_right_inj]

theorem sortedBy_ofFault (input : Octets) (h : fault.cause.OfDocument origin) :
    (ofFault .value input fault).SortedBy fault.cause := by
  have htells (category : Category) :
      (ofFault .value input fault).TellsLabel category.label ↔
        fault.cause.category = category :=
    (tellsLabel_iff h _).trans ⟨Category.label_injective, congrArg Category.label⟩
  refine ⟨?_, ?_, ?_, ?_, ?_, ?_⟩
  · exact (htells .depthLimit).trans Cause.category_eq_depthLimit
  · exact (htells .numericRange).trans Cause.category_eq_numericRange
  · exact (htells .unicode).trans Cause.category_eq_unicode
  · exact (htells .endOfInput).trans Cause.category_eq_endOfInput
  · rw [ne_eq, ne_eq, ne_eq, ← Cause.category_eq_depthLimit, ← Cause.category_eq_numericRange,
      ← Cause.category_eq_unicode, ← Cause.category_eq_endOfInput]
    have hdata := h.category_ne_data
    refine (htells .grammar).trans ?_
    cases hcategory : fault.cause.category <;> simp_all
  · have hforeign : ∀ category : Category, category ≠ .data →
        category.label ∉ ["data", "io", "unknown"] := by
      intro category
      cases category <;> decide
    intro label hlabel htold
    rw [← (tellsLabel_iff h label).1 htold] at hlabel
    exact hforeign _ h.category_ne_data hlabel

end Failure

/-- Where a value is not decoded, the hint tells the cause for which the reader refused the
input; and a text is never refused for its octets. -/
theorem decode_failures_sorted :
    (∀ text failure, decodeText text = .error failure →
      ∃ fault, readDocument .text (encode text) = .error fault ∧ failure.SortedBy fault.cause ∧
        ¬failure.TellsLabel "unicode") ∧
    ∀ input failure, decodeOctets input = .error failure →
      ∃ fault, readDocument .raw input = .error fault ∧ failure.SortedBy fault.cause ∧
        (failure.TellsLabel "unicode" → ¬∃ text, input = encode text) := by
  constructor
  · intro text failure h
    obtain ⟨fault, hread, rfl⟩ := exists_fault_of_decodeWith h
    have hcause := (refuses_readDocument .text (encode text)).cause_of_error fault hread
    have hsorted := Failure.sortedBy_ofFault (encode text) hcause
    refine ⟨fault, hread, hsorted, fun hunicode => ?_⟩
    rw [hsorted.unicode.1 hunicode] at hcause
    cases hcause
  · intro input failure h
    obtain ⟨fault, hread, rfl⟩ := exists_fault_of_decodeWith h
    have hcause := (refuses_readDocument .raw input).cause_of_error fault hread
    have hsorted := Failure.sortedBy_ofFault input hcause
    refine ⟨fault, hread, hsorted, ?_⟩
    rintro hunicode ⟨text, rfl⟩
    have hencoded : Encoded (encode text) := ⟨text.toList, encode_eq_octets text⟩
    rw [readDocument_agrees hencoded] at hread
    have htext := (refuses_readDocument .text (encode text)).cause_of_error fault hread
    rw [hsorted.unicode.1 hunicode] at htext
    cases htext

theorem decode_failures_sorted_hugeNumber :
    (∃ failure, decodeText "[1e9999999999" = .error failure ∧ failure.TellsLabel "numeric-range" ∧
      ¬failure.TellsLabel "eof") ∧
    ∃ failure, decodeOctets brokenOctets = .error failure ∧ failure.TellsLabel "unicode" ∧
      ¬∃ text, brokenOctets = encode text := by
  have hnumber : readDocument .text (encode "[1e9999999999") =
      .error (.leaving .numberOutOfRange []) := by
    cbv
  have hbroken : readDocument .raw brokenOctets =
      .error ⟨.invalidCodePoint, [], 3⟩ := by
    cbv
  constructor
  · obtain ⟨fault, hread, hsorted, -⟩ :=
      decode_failures_sorted.1 "[1e9999999999" _ (decodeWith_of_fault hnumber)
    rw [hnumber] at hread
    cases hread
    refine ⟨_, decodeWith_of_fault hnumber, hsorted.numericRange.2 rfl, ?_⟩
    rw [hsorted.endOfInput]
    decide
  · obtain ⟨fault, hread, hsorted, htext⟩ :=
      decode_failures_sorted.2 brokenOctets _ (decodeWith_of_fault hbroken)
    rw [hbroken] at hread
    cases hread
    have hunicode := hsorted.unicode.2 rfl
    exact ⟨_, decodeWith_of_fault hbroken, hunicode, htext hunicode⟩

end JsonReport
