import JsonReport.Proofs.EscapedText
import JsonReport.Proofs.PhraseSearch
import JsonReport.Proofs.SettingsReading
import Mathlib.Tactic

/-!
# Hints about values of the wrong kind

Where a value has the wrong kind, the message says what was found, and a string is quoted
there with its escapes.  The message is searched for phrases as a whole, so a string can
tell one, and the hint is then that of the phrase.  Nothing else can: the rest of the
message holds no phrase, and none reaches into the quotation or out of it.  So the hint is
that of mismatched data exactly where the quotation tells no phrase.
-/

namespace JsonReport

open Category
open Spelling
open Utf8

/-- The payload text that a message quotes. -/
def Found.quotation : Found → List Char
  | .string text => Escaped.quote text.toList
  | _ => []

theorem Found.quotation_eq_nil {found : Found} (h : ∀ content, found ≠ .string content) :
    found.quotation = [] := by
  cases found with
  | string content => exact absurd rfl (h content)
  | _ => rfl

/-- The category that goes with what was found. -/
def Found.category (found : Found) : Category :=
  (ofMessage? (String.ofList found.quotation)).getD .data

/-! ## What a mismatch tells -/

section Telling

variable {phrase : String × Category} (hphrase : phrase ∈ phrases)

include hphrase

theorem not_tells_numeral {text : List Char} (h : Numeral text) : ¬Tells text phrase := by
  intro htells
  have hspace := htells.subset (space_mem_phrase hphrase)
  obtain ⟨c, hc, hlower⟩ := List.mem_map.mp hspace
  rcases h c hc with hdigit | hmark
  · exact not_phraseCharacter_of_digit hdigit (.inl hlower)
  · have hmarks : ∀ c ∈ ['-', '+', '.', 'e'], c.toLower ≠ ' ' := by decide
    exact hmarks c hmark hlower

/-- Of a mismatch only what was found can tell a phrase. -/
theorem tells_wrongType_iff (found : Found) (wanted : Wanted) :
    Tells ((Cause.wrongType found wanted).message ++ " at line ").toList phrase ↔
      Tells (' ' :: found.message.toList) phrase := by
  have hstart : ∀ phrase ∈ phrases, ¬Tells "invalid type".toList phrase := by decide
  have hend : ∀ phrase ∈ phrases,
      ¬Tells (" expected ".toList ++ (wanted.message.toList ++ " at line ".toList)) phrase := by
    cases wanted <;> decide
  have hmessage : ((Cause.wrongType found wanted).message ++ " at line ").toList =
      "invalid type".toList ++ ':' :: (' ' :: found.message.toList ++
        ',' :: (" expected ".toList ++ (wanted.message.toList ++ " at line ".toList))) := by
    rw [show (Cause.wrongType found wanted).message =
      "invalid type: " ++ found.message ++ ", expected " ++ wanted.message from rfl]
    simp only [String.toList_append, List.append_assoc]
    rfl
  rw [hmessage, tells_around hphrase _ _ (by decide), tells_around hphrase _ _ (by decide)]
  simp only [hstart phrase hphrase, hend phrase hphrase, false_or, or_false]

/-- What was found tells what stands between two equal barriers at its end. -/
theorem tells_found {found : Found} {kind : String} {c : Char} {inside : List Char}
    (hfound : found.message.toList = kind.toList ++ c :: (inside ++ [c]))
    (hkind : ∀ phrase ∈ phrases, ¬Tells (' ' :: kind.toList) phrase)
    (hc : ¬PhraseCharacter c.toLower) :
    Tells (' ' :: found.message.toList) phrase ↔ Tells inside phrase := by
  rw [hfound, ← List.cons_append]
  exact tells_enclosed hphrase (hkind phrase hphrase) (not_tells_nil hphrase) hc inside

/-- What was found tells what its quotation tells. -/
theorem tells_quotation (found : Found) :
    Tells (' ' :: found.message.toList) phrase ↔ Tells found.quotation phrase := by
  have hnil := not_tells_nil hphrase
  have hclosed : ∀ found ∈ [Found.bool false, .bool true, .null, .sequence, .map],
      ∀ phrase ∈ phrases, ¬Tells (' ' :: found.message.toList) phrase := by
    decide
  cases found with
  | bool flag =>
      refine iff_of_false (hclosed _ ?_ phrase hphrase) hnil
      cases flag <;> simp
  | null => exact iff_of_false (hclosed _ (by simp) phrase hphrase) hnil
  | sequence => exact iff_of_false (hclosed _ (by simp) phrase hphrase) hnil
  | map => exact iff_of_false (hclosed _ (by simp) phrase hphrase) hnil
  | number n =>
      have hnumber : ∀ kind : String, (Found.number n).message.toList =
          kind.toList ++ '`' :: (n.text ++ ['`']) →
          (∀ phrase ∈ phrases, ¬Tells (' ' :: kind.toList) phrase) →
          (Tells (' ' :: (Found.number n).message.toList) phrase ↔
            Tells (Found.number n).quotation phrase) := by
        intro kind hmessage hkind
        rw [tells_found hphrase hmessage hkind (by decide)]
        exact iff_of_false (not_tells_numeral hphrase n.numeral_text) hnil
      cases n with
      | whole n =>
          apply hnumber "integer " _ (by decide)
          rw [show (Found.number (.whole n)).message =
            "integer `" ++ String.ofList n.text ++ "`" from rfl, String.toList_append,
            String.toList_append, String.toList_ofList (l := n.text), List.append_assoc]
          rfl
      | double x =>
          apply hnumber "floating point " _ (by decide)
          rw [show (Found.number (.double x)).message =
            "floating point `" ++ String.ofList x.text ++ "`" from rfl, String.toList_append,
            String.toList_append, String.toList_ofList (l := x.text), List.append_assoc]
          rfl
  | string text =>
      have hmessage : (Found.string text).message.toList =
          "string ".toList ++ '"' :: (text.toList.flatMap Escaped.character ++ ['"']) := by
        rw [show (Found.string text).message =
          "string " ++ String.ofList (Escaped.quote text.toList) from rfl, String.toList_append,
          String.toList_ofList (l := Escaped.quote text.toList), Escaped.quote]
      have hquotation := tells_enclosed hphrase hnil hnil (c := '"') (by decide)
        (text.toList.flatMap Escaped.character)
      rw [tells_found hphrase hmessage (by decide) (by decide)]
      exact hquotation.symm

end Telling

/-- A mismatch is sorted by what was found alone. -/
theorem Category.ofFault_wrongType {fault : Fault} {found : Found} {wanted : Wanted}
    (h : fault.cause = .wrongType found wanted) (input : Octets) :
    ofFault fault input = found.category := by
  have hmessage : ofMessage? (fault.message input) =
      ofMessage? (String.ofList found.quotation) := by
    apply ofMessage?_congr
    intro phrase hphrase
    rw [tells_message hphrase, h, tells_wrongType_iff hphrase, tells_quotation hphrase,
      String.toList_ofList]
  rw [ofFault, hmessage, h]
  rfl

/-- The hint is that of mismatched data exactly where no phrase is told. -/
theorem Found.category_eq_data_iff (found : Found) :
    found.category = .data ↔ ∀ phrase ∈ phrases, ¬Tells found.quotation phrase := by
  have hdata : ∀ phrase ∈ phrases, phrase.2 ≠ .data := by decide
  unfold category ofMessage?
  simp only [String.toList_ofList]
  cases hfind : phrases.find? _ with
  | none =>
      simp only [Option.map_none, Option.getD_none, true_iff]
      intro phrase hphrase htells
      have hnot := List.find?_eq_none.mp hfind phrase hphrase
      exact hnot ((occursIn_iff _ _).mpr htells)
  | some phrase =>
      have hphrase := List.mem_of_find?_eq_some hfind
      have hoccurs := List.find?_some hfind
      have htells := (occursIn_iff _ _).mp hoccurs
      simp only [Option.map_some, Option.getD_some]
      exact iff_of_false (hdata phrase hphrase) fun h => h phrase hphrase htells

/-! ## Strings in the wrong place -/

/-- Texts that begin with a string where the record is wanted, or in which the first element or
the value of the first member is a string and the flag is wanted there.  The string is spelled
in any way, and anything may stand behind it. -/
inductive StringMisplaced (content : String) : List Char → Prop where
  | record {before literal rest : List Char} :
      Blank before → Quoted Content content literal →
        StringMisplaced content (before ++ (literal ++ rest))
  | element {before inside literal rest : List Char} :
      Blank before → Blank inside → Quoted Content content literal →
        StringMisplaced content (before ++ '[' :: (inside ++ (literal ++ rest)))
  | member {before inside key afterKey afterColon literal rest : List Char} :
      Blank before → Blank inside → Quoted Content Field.enabled.key key → Blank afterKey →
        Blank afterColon → Quoted Content content literal →
        StringMisplaced content (before ++ '\x7b' ::
          (inside ++ (key ++ (afterKey ++ ':' :: (afterColon ++ (literal ++ rest))))))

section Strings

variable {origin : Origin} {before literal : List Char} {content : String}

theorem nextMark_of_quoted (hbefore : Blank before) (hliteral : Quoted Content content literal)
    (rest : Octets) :
    ∃ w shorter, Content content w ∧
      nextMark (octets before ++ (octets literal ++ rest)) =
        some ⟨ascii '"', octets w ++ ascii '"' :: rest, shorter⟩ := by
  cases hliteral with
  | @quotes w hcontent =>
      rw [octets_quoted]
      obtain ⟨shorter, hmark⟩ := nextMark_of_blank hbefore
        (show isBlank (ascii '"') = false by decide) (octets w ++ ascii '"' :: rest)
      exact ⟨w, shorter, hcontent, hmark⟩

theorem begins_of_quoted (hbefore : Blank before) (hliteral : Quoted Content content literal)
    (rest : Octets) : Begins (ascii '"') (octets before ++ (octets literal ++ rest)) := by
  obtain ⟨w, shorter, -, hmark⟩ := nextMark_of_quoted hbefore hliteral rest
  exact ⟨_, shorter, hmark⟩

theorem mismatch_string (wanted : Wanted) (hliteral : Content content literal)
    (rest : Octets) :
    mismatch origin wanted (ascii '"') (octets literal ++ ascii '"' :: rest) =
      .leaving (.wrongType (.string content) wanted) rest := by
  obtain ⟨shorter, hread⟩ := readString_of_content hliteral origin rest
  have hopening : opening? (ascii '"') = some (.scalar .quote) := by decide
  simp only [mismatch, hopening, readScalar, hread]
  rfl

theorem readBool_string (hbefore : Blank before) (hliteral : Quoted Content content literal)
    (rest : Octets) :
    readBool origin (octets before ++ (octets literal ++ rest)) =
      .error (.leaving (.wrongType (.string content) .boolean) rest) := by
  obtain ⟨w, shorter, hcontent, hmark⟩ := nextMark_of_quoted hbefore hliteral rest
  have hopening : opening? (ascii '"') = some (.scalar .quote) := by decide
  simp only [readBool, hmark, hopening, mismatch_string .boolean hcontent]

namespace Settings

theorem read_string (hbefore : Blank before) (hliteral : Quoted Content content literal)
    (rest : Octets) :
    read origin (octets before ++ (octets literal ++ rest)) =
      .error (.leaving (.wrongType (.string content) .record) rest) := by
  obtain ⟨w, shorter, hcontent, hmark⟩ := nextMark_of_quoted hbefore hliteral rest
  have hopening : opening? (ascii '"') = some (.scalar .quote) := by decide
  simp only [read, hmark, hopening, mismatch_string .record hcontent]

theorem read_items_error {container : Container} {b : UInt8} {r : Octets} {fault : Fault}
    (hbefore : Blank before) (hopening : opening? b = some (.container container))
    (hitems : readItems origin container r = .error fault) :
    read origin (octets before ++ b :: r) = .error fault := by
  obtain ⟨shorter, hmark⟩ := nextMark_of_blank hbefore (isBlank_of_opening? hopening) r
  simp only [read, hmark, hopening, hitems]

theorem readItems_element {inside : List Char} (hinside : Blank inside)
    (hliteral : Quoted Content content literal) (rest : Octets) :
    readItems origin .array (octets inside ++ (octets literal ++ rest)) =
      .error (.leaving (.wrongType (.string content) .boolean) rest) := by
  have hends : Container.array.endsAtOnce (octets inside ++ (octets literal ++ rest)) = .ok none :=
    Container.endsAtOnce_of_begins (begins_of_quoted hinside hliteral rest) (by decide)
  have hread : readBool origin (octets inside ++ (octets literal ++ rest)) = _ :=
    readBool_string hinside hliteral rest
  simp only [readItems, hends]
  rw [readElements]
  simp only [readField, hread]

theorem readItems_member {inside key afterKey afterColon : List Char} (hinside : Blank inside)
    (hkey : Quoted Content Field.enabled.key key) (hafterKey : Blank afterKey)
    (hafterColon : Blank afterColon) (hliteral : Quoted Content content literal)
    (rest : Octets) :
    readItems origin .object (octets inside ++ (octets key ++ (octets afterKey ++
        ascii ':' :: (octets afterColon ++ (octets literal ++ rest))))) =
      .error (.leaving (.wrongType (.string content) .boolean) rest) := by
  obtain ⟨_, hreadKey⟩ := readKey_of_quoted hinside hkey origin (octets afterKey ++
    ascii ':' :: (octets afterColon ++ (octets literal ++ rest)))
  obtain ⟨_, hcolon⟩ :=
    readColon_of_blank hafterKey (octets afterColon ++ (octets literal ++ rest))
  have hends : Container.object.endsAtOnce (octets inside ++ (octets key ++ (octets afterKey ++
      ascii ':' :: (octets afterColon ++ (octets literal ++ rest))))) = .ok none :=
    Container.endsAtOnce_of_begins (begins_of_quoted hinside hkey _) (by decide)
  have hread : readBool origin (octets afterColon ++ (octets literal ++ rest)) = _ :=
    readBool_string hafterColon hliteral rest
  simp only [readItems, hends]
  rw [readFields, hreadKey]
  simp only [readMemberValue, Field.ofKey?_key, hcolon, readField, hread]
  rfl

/-- A misplaced string is found, whatever it holds and whatever follows it. -/
theorem readDocument_misplaced {text : String} (h : StringMisplaced content text.toList) :
    ∃ fault wanted, Settings.readDocument .text (Utf8.encode text) = .error fault ∧
      fault.cause = .wrongType (.string content) wanted := by
  have hread : ∃ wanted rest, read .text (octets text.toList) =
      .error (.leaving (.wrongType (.string content) wanted) rest) := by
    generalize text.toList = w at h
    cases h with
    | record hbefore hliteral =>
        rw [octets_append, octets_append]
        exact ⟨.record, _, read_string hbefore hliteral _⟩
    | element hbefore hinside hliteral =>
        rw [octets_append, octets_cons_ascii (by decide), octets_append, octets_append]
        exact ⟨.boolean, _,
          read_items_error hbefore rfl (readItems_element hinside hliteral _)⟩
    | member hbefore hinside hkey hafterKey hafterColon hliteral =>
        rw [octets_append, octets_cons_ascii (by decide), octets_append, octets_append,
          octets_append, octets_cons_ascii (by decide), octets_append, octets_append]
        exact ⟨.boolean, _, read_items_error hbefore rfl
          (readItems_member hinside hkey hafterKey hafterColon hliteral _)⟩
  obtain ⟨wanted, rest, hread⟩ := hread
  refine ⟨.leaving (.wrongType (.string content) wanted) rest, wanted, ?_, rfl⟩
  rw [Settings.readDocument, readWhole, encode_eq_octets, hread]

end Settings

end Strings

/-! ## The hint -/

/-- Decoding the text fails with the hint about what was found.  That is the hint of
mismatched data exactly where the quotation tells no phrase, so always where no string was
found. -/
def Settings.HintsAt (text : String) (found : Found) : Prop :=
  ∃ failure, Settings.ofText text = .error failure ∧ failure.kind = .decode ∧
    failure.hint = some (found.category.hint "config") ∧
    (failure.hint = some "parse category: data; context: config" ↔
      ∀ phrase ∈ phrases, ¬Tells found.quotation phrase) ∧
    ((∀ content, found ≠ .string content) →
      failure.hint = some "parse category: data; context: config")

theorem Category.hint_eq_data_iff (category : Category) :
    category.hint "config" = "parse category: data; context: config" ↔ category = .data := by
  cases category <;> decide

theorem Settings.hintsAt_of_wrongType {text : String} {fault : Fault} {found : Found}
    {wanted : Wanted} (hread : Settings.readDocument .text (Utf8.encode text) = .error fault)
    (hcause : fault.cause = .wrongType found wanted) : Settings.HintsAt text found := by
  have hhint : (Failure.ofFault .settings (Utf8.encode text) fault).hint =
      some (found.category.hint "config") := by
    rw [Failure.hint_ofFault, Category.ofFault_wrongType hcause]
    rfl
  have hdata : (Failure.ofFault .settings (Utf8.encode text) fault).hint =
      some "parse category: data; context: config" ↔
        ∀ phrase ∈ phrases, ¬Tells found.quotation phrase := by
    rw [hhint, Option.some_inj, hint_eq_data_iff, Found.category_eq_data_iff]
  refine ⟨_, decodeWith_of_fault hread, Failure.kind_ofFault _ _ _, hhint, hdata, ?_⟩
  intro hnot
  apply hdata.mpr
  intro phrase hphrase
  rw [Found.quotation_eq_nil hnot]
  exact not_tells_nil hphrase

theorem Settings.hintsAt_of_misplaced {content text : String}
    (h : StringMisplaced content text.toList) : Settings.HintsAt text (.string content) := by
  obtain ⟨fault, wanted, hread, hcause⟩ := Settings.readDocument_misplaced h
  exact Settings.hintsAt_of_wrongType hread hcause

/-! ## A string in the place of the flag -/

/-- A record whose flag is a string. -/
def stringFlagText (content : String) : String :=
  "\x7b\"lt_enabled\": \"" ++ content ++ "\"\x7d"

theorem quoted_of_shown {content : String} (h : ∀ c ∈ content.toList, Escaped.Shown c) :
    Quoted Content content ('"' :: (content.toList ++ ['"'])) := by
  have hplain : content.toList.all (Plain ·) = true := by
    apply List.all_eq_true.mpr
    intro c hc
    obtain ⟨hlow, -, hquote, hbackslash⟩ := h c hc
    exact decide_eq_true ⟨hlow, hquote, hbackslash⟩
  have hcontent := content_of_plain hplain
  rw [String.ofList_toList] at hcontent
  exact .quotes hcontent

theorem stringFlagText_misplaced {content : String}
    (h : ∀ c ∈ content.toList, Escaped.Shown c) :
    StringMisplaced content (stringFlagText content).toList := by
  have hkey : Quoted Content Field.enabled.key ('"' :: (Field.enabled.key.toList ++ ['"'])) :=
    quoted_of_shown (by decide)
  have hspace : Blank [' '] := blank_cons (.inl rfl) blank_nil
  change StringMisplaced content ("\x7b\"lt_enabled\": \"" ++ content ++ "\"\x7d").toList
  simpa [Field.key] using StringMisplaced.member blank_nil blank_nil hkey blank_nil hspace
    (quoted_of_shown h)

theorem Found.category_of_shown {content : String} (h : ∀ c ∈ content.toList, Escaped.Shown c) :
    (Found.string content).category =
      (ofMessage? (String.ofList ('"' :: (content.toList ++ ['"'])))).getD .data := by
  rw [Found.category, Found.quotation, Escaped.quote_of_shown h]

/-! ## The hint of a mismatch -/

/-- Where a value has the wrong kind, whatever it is and wherever it stands, the hint is
that of mismatched data exactly where the quotation of the value tells no phrase.  A string in
the place of the record is such a value, and so is one in the place of the flag where the flag
comes first. -/
theorem Settings.hint_of_wrongType (text : String) :
    (∀ fault found wanted,
      Settings.readDocument .text (Utf8.encode text) = .error fault →
        fault.cause = .wrongType found wanted → Settings.HintsAt text found) ∧
    ∀ content, StringMisplaced content text.toList →
      Settings.HintsAt text (.string content) := by
  constructor
  · intro fault found wanted hread hcause
    exact Settings.hintsAt_of_wrongType hread hcause
  · intro content h
    exact Settings.hintsAt_of_misplaced h

/-- A flag that names the depth limit, beside one that names nothing. -/
theorem Settings.hint_of_wrongType_flag :
    Settings.HintsAt (stringFlagText "recursion limit exceeded")
        (.string "recursion limit exceeded") ∧
      ∃ failure, Settings.ofText (stringFlagText "yes") = .error failure ∧
        failure.hint = some "parse category: data; context: config" := by
  have hshown : ∀ c ∈ "recursion limit exceeded".toList, Escaped.Shown c := by decide
  obtain ⟨fault, wanted, hfault, hcause⟩ :=
    Settings.readDocument_misplaced (stringFlagText_misplaced hshown)
  have hsteered := (Settings.hint_of_wrongType (stringFlagText "recursion limit exceeded")).1
  have hplain := (Settings.hint_of_wrongType (stringFlagText "yes")).2
  obtain ⟨failure, hfailure, -, hhint, -⟩ :=
    hplain "yes" (stringFlagText_misplaced (by decide))
  refine ⟨hsteered fault _ wanted hfault hcause, failure, hfailure, ?_⟩
  rw [hhint, Found.category_of_shown (by decide)]
  decide

/-- The string decides the hint of the mismatch. -/
theorem Settings.hint_steered :
    ∃ fault wanted failure,
      Settings.readDocument .text (Utf8.encode (stringFlagText "recursion limit exceeded")) =
          .error fault ∧
        fault.cause = .wrongType (.string "recursion limit exceeded") wanted ∧
        Settings.ofText (stringFlagText "recursion limit exceeded") = .error failure ∧
        failure.hint = some "parse category: depth-limit; context: config" := by
  have hshown : ∀ c ∈ "recursion limit exceeded".toList, Escaped.Shown c := by decide
  obtain ⟨fault, wanted, hfault, hcause⟩ :=
    Settings.readDocument_misplaced (stringFlagText_misplaced hshown)
  obtain ⟨failure, hfailure, -, hhint, -⟩ := Settings.hintsAt_of_wrongType hfault hcause
  refine ⟨fault, wanted, failure, hfault, hcause, hfailure, ?_⟩
  rw [hhint, Found.category_of_shown hshown]
  decide

end JsonReport
