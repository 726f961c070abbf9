import JsonReport.Proofs.DecodeFailure
import JsonReport.Proofs.RenderedTokens
import JsonReport.Proofs.ValueReading
import JsonReport.Proofs.ValueShape
import JsonReport.Report.Layout
import Mathlib.Tactic

/-!
# Rendering and decoding

Without colour, both layouts of a value write a document that denotes this value and
nests as deep.  Decoding therefore gives the value back where it fits, and where it does
not the only thing wrong with the text is its depth.
-/

namespace JsonReport

open Spelling

/-- A document in range that denotes this value and nests as deep. -/
structure Document.Represents (document : Document String) (value : Json) : Prop where
  value_eq : document.value = value
  depth_eq : document.depth = value.depth
  inRange : document.InRange

structure Document.ElementsRepresent (documents : List (Document String))
    (items : List Json) : Prop where
  values_eq : elementValues documents = items
  depth_eq : elementsDepth documents = Json.elementsDepth items
  inRange : ElementsForall NumberLiteral.InRange (fun _ => True) documents

structure Document.MembersRepresent (documents : List (String × Document String))
    (members : List (String × Json)) : Prop where
  values_eq : memberValues documents = members
  depth_eq : membersDepth documents = Json.membersDepth members
  inRange : MembersForall NumberLiteral.InRange (fun _ => True) documents

namespace Report

/-- What pieces leave on a page without colour. -/
def plainText (pieces : List Piece) : List Char := pieces.flatMap (Piece.render false)

@[simp] theorem plainText_nil : plainText [] = [] := rfl

@[simp] theorem plainText_append (first rest : List Piece) :
    plainText (first ++ rest) = plainText first ++ plainText rest :=
  List.flatMap_append

@[simp] theorem plainText_token (role : Role) (text : List Char) (rest : List Piece) :
    plainText (.token role text :: rest) = text ++ plainText rest := rfl

theorem blank_lineBreak (pretty : Bool) (depth : ℕ) :
    Blank (plainText (lineBreak pretty depth)) := by
  cases pretty with
  | false => exact blank_nil
  | true =>
      have hspaces : Blank (List.replicate (2 * depth) ' ') := by
        intro c hc
        exact .inl (List.eq_of_mem_replicate hc)
      have htext : plainText (lineBreak true depth) =
          '\n' :: List.replicate (2 * depth) ' ' := List.append_nil _
      rw [htext]
      exact blank_cons (.inr (.inr (.inl rfl))) hspaces

/-- The space between the colon of a key and its value. -/
def keySpace (pretty : Bool) : List Char := if pretty then [' '] else []

theorem blank_keySpace (pretty : Bool) : Blank (keySpace pretty) := by
  cases pretty with
  | false => exact blank_nil
  | true => exact blank_cons (.inl rfl) blank_nil

theorem plainText_keyPieces (pretty : Bool) (key : String) :
    plainText (keyPieces pretty key) =
      Quoted.quote key.toList ++ ':' :: keySpace pretty := by
  cases pretty <;> rfl

/-- A member on its line. -/
theorem member_written (pretty : Bool) (depth : ℕ) (key : String)
    {document : Document String} {w : List Char} (h : Value Content document w)
    {after : List Char} (hafter : Blank after) :
    Member Content (key, document) (plainText (lineBreak pretty depth) ++
      plainText (keyPieces pretty key) ++ w ++ after) := by
  have hmember := Member.pair (blank_lineBreak pretty depth) (quoted_written key) blank_nil
    (.padded (blank_keySpace pretty) h hafter)
  rw [plainText_keyPieces]
  simpa only [List.append_assoc, List.append_nil, List.cons_append] using hmember

mutual

theorem value_written (pretty : Bool) (depth : ℕ) (value : Json)
    (hwhole : value.WholeNumbers) (hdistinct : value.DistinctKeys) :
    ∃ document, Value Content document (plainText (pieces pretty depth value)) ∧
      document.Represents value := by
  cases value with
  | null => exact ⟨.null, .null, rfl, rfl, trivial⟩
  | bool flag =>
      cases flag with
      | false => exact ⟨.bool false, .false, rfl, rfl, trivial⟩
      | true => exact ⟨.bool true, .true, rfl, rfl, trivial⟩
  | number n =>
      cases hwhole with
      | number n =>
          obtain ⟨literal, hliteral, hnumber⟩ := exists_literal_of_whole n
          refine ⟨.number literal, ?_, ?_, rfl, ⟨_, hnumber⟩⟩
          · have hvalue : Value Content (.number literal) (Number.whole n).text :=
              .number hliteral
            simpa [pieces] using hvalue
          · rw [Document.value, hnumber]
  | string text =>
      refine ⟨.string text, ?_, rfl, rfl, trivial⟩
      have hvalue := Value.string (quoted_written text)
      simpa [pieces] using hvalue
  | array items =>
      cases hwhole with
      | array hwholeItems =>
          cases hdistinct with
          | array hdistinctItems =>
              cases items with
              | nil => exact ⟨.array [], .emptyArray blank_nil, rfl, rfl, trivial⟩
              | cons item items =>
                  obtain ⟨hwholeItem, hwholeItems⟩ := List.forall_mem_cons.mp hwholeItems
                  obtain ⟨hdistinctItem, hdistinctItems⟩ :=
                    List.forall_mem_cons.mp hdistinctItems
                  obtain ⟨first, hfirst, hitem⟩ :=
                    value_written pretty (depth + 1) item hwholeItem hdistinctItem
                  obtain ⟨documents, helements, hitems⟩ :=
                    elements_written pretty (depth + 1) items hwholeItems hdistinctItems
                      hfirst hitem (blank_lineBreak pretty depth)
                  refine ⟨.array (first :: documents), ?_,
                    congrArg Json.array hitems.values_eq, congrArg (· + 1) hitems.depth_eq,
                    hitems.inRange⟩
                  have hvalue := Value.array helements
                  simpa [pieces, mark] using hvalue
  | object members =>
      cases hwhole with
      | object hwholeItems =>
          cases hdistinct with
          | object hkeys hdistinctItems =>
              cases members with
              | nil => exact ⟨.object [], .emptyObject blank_nil, rfl, rfl, trivial⟩
              | cons member members =>
                  obtain ⟨key, item⟩ := member
                  obtain ⟨hwholeItem, hwholeItems⟩ := List.forall_mem_cons.mp hwholeItems
                  obtain ⟨hdistinctItem, hdistinctItems⟩ :=
                    List.forall_mem_cons.mp hdistinctItems
                  obtain ⟨first, hfirst, hitem⟩ :=
                    value_written pretty (depth + 1) item hwholeItem hdistinctItem
                  obtain ⟨documents, hmembers, hitems⟩ :=
                    members_written pretty (depth + 1) members hwholeItems hdistinctItems
                      key hfirst hitem (blank_lineBreak pretty depth)
                  refine ⟨.object ((key, first) :: documents), ?_, ?_,
                    congrArg (· + 1) hitems.depth_eq, hitems.inRange⟩
                  · have hvalue := Value.object hmembers
                    simpa [pieces, mark] using hvalue
                  · rw [Document.value, hitems.values_eq, Members.merged_of_nodup hkeys]

/-- The first element is written by the caller, so that the run begins after it. -/
theorem elements_written (pretty : Bool) (depth : ℕ) (items : List Json)
    (hwhole : ∀ item ∈ items, item.WholeNumbers)
    (hdistinct : ∀ item ∈ items, item.DistinctKeys) {first : Document String}
    {value : Json} {w : List Char} (hfirst : Value Content first w)
    (hvalue : first.Represents value) {after : List Char} (hafter : Blank after) :
    ∃ documents, Elements Content (first :: documents)
        (plainText (lineBreak pretty depth) ++ w ++
          plainText (elementPieces pretty depth items) ++ after) ∧
      Document.ElementsRepresent (first :: documents) (value :: items) := by
  cases items with
  | nil =>
      refine ⟨[], ?_, ?_⟩
      · have hitem := Element.padded (blank_lineBreak pretty depth) hfirst hafter
        have hlast := Elements.last hitem
        simpa [elementPieces] using hlast
      · exact ⟨congrArg ([·]) hvalue.value_eq, congrArg (max · 0) hvalue.depth_eq,
          hvalue.inRange, trivial⟩
  | cons item items =>
      obtain ⟨hwholeItem, hwholeItems⟩ := List.forall_mem_cons.mp hwhole
      obtain ⟨hdistinctItem, hdistinctItems⟩ := List.forall_mem_cons.mp hdistinct
      obtain ⟨second, hsecond, hitem⟩ :=
        value_written pretty depth item hwholeItem hdistinctItem
      obtain ⟨documents, helements, hitems⟩ := elements_written pretty depth items
        hwholeItems hdistinctItems hsecond hitem hafter
      refine ⟨second :: documents, ?_, ?_⟩
      · have hhead := Element.padded (blank_lineBreak pretty depth) hfirst blank_nil
        have hmore := Elements.more hhead helements
        simpa [elementPieces, mark] using hmore
      · exact ⟨congrArg₂ List.cons hvalue.value_eq hitems.values_eq,
          congrArg₂ max hvalue.depth_eq hitems.depth_eq, hvalue.inRange, hitems.inRange⟩

theorem members_written (pretty : Bool) (depth : ℕ) (members : List (String × Json))
    (hwhole : ∀ member ∈ members, member.2.WholeNumbers)
    (hdistinct : ∀ member ∈ members, member.2.DistinctKeys) (key : String)
    {first : Document String} {value : Json} {w : List Char}
    (hfirst : Value Content first w) (hvalue : first.Represents value)
    {after : List Char} (hafter : Blank after) :
    ∃ documents, Members Content ((key, first) :: documents)
        (plainText (lineBreak pretty depth) ++ plainText (keyPieces pretty key) ++ w ++
          plainText (memberPieces pretty depth members) ++ after) ∧
      Document.MembersRepresent ((key, first) :: documents) ((key, value) :: members) := by
  cases members with
  | nil =>
      refine ⟨[], ?_, ?_⟩
      · have hlast := Members.last (member_written pretty depth key hfirst hafter)
        simpa [memberPieces] using hlast
      · exact ⟨congrArg (fun value => [(key, value)]) hvalue.value_eq,
          congrArg (max · 0) hvalue.depth_eq, trivial, hvalue.inRange, trivial⟩
  | cons member members =>
      obtain ⟨key', item⟩ := member
      obtain ⟨hwholeItem, hwholeItems⟩ := List.forall_mem_cons.mp hwhole
      obtain ⟨hdistinctItem, hdistinctItems⟩ := List.forall_mem_cons.mp hdistinct
      obtain ⟨second, hsecond, hitem⟩ :=
        value_written pretty depth item hwholeItem hdistinctItem
      obtain ⟨documents, hmembers, hitems⟩ := members_written pretty depth members
        hwholeItems hdistinctItems key' hsecond hitem hafter
      refine ⟨(key', second) :: documents, ?_, ?_⟩
      · have hmore :=
          Members.more (member_written pretty depth key hfirst blank_nil) hmembers
        simpa [memberPieces, mark] using hmore
      · exact ⟨congrArg₂ (fun value members => (key, value) :: members) hvalue.value_eq
            hitems.values_eq,
          congrArg₂ max hvalue.depth_eq hitems.depth_eq, trivial, hvalue.inRange,
          hitems.inRange⟩

end

end Report

/-- What was rendered without colour is decoded to the same value, in either layout, up
to the greatest depth, and is refused for its depth alone beyond it. -/
theorem decodeText_render {value : Json} (hwhole : value.WholeNumbers)
    (hdistinct : value.DistinctKeys) (pretty : Bool) :
    (value.depth ≤ 127 → decodeText (value.render ⟨pretty, false⟩) = .ok value) ∧
      (127 < value.depth →
        ∃ failure, decodeText (value.render ⟨pretty, false⟩) = .error failure ∧
          failure.kind = .decode ∧
          failure.hint = some "parse category: depth-limit; context: decode") := by
  obtain ⟨document, hvalue, hrepresents⟩ :=
    Report.value_written pretty 0 value hwhole hdistinct
  have hwritten : document.WrittenAs (value.render ⟨pretty, false⟩) := by
    have helement := Element.padded blank_nil hvalue blank_nil
    rw [List.append_nil] at helement
    unfold Document.WrittenAs Json.render
    rw [String.toList_ofList]
    exact helement
  obtain ⟨hfits, hexceeds⟩ :=
    readDocument_of_written hwritten hrepresents.inRange .text
  rw [hrepresents.depth_eq] at hfits hexceeds
  constructor
  · intro hdepth
    rw [hrepresents.value_eq] at hfits
    exact decodeWith_eq_ok.mpr (hfits hdepth)
  · intro hdepth
    obtain ⟨fault, hfault, hcause⟩ := hexceeds hdepth
    refine ⟨_, decodeWith_of_fault hfault, Failure.kind_ofFault _ _ _, ?_⟩
    rw [Failure.hint_ofFault, Category.ofFault_tooDeep hcause]
    decide

/-- Arrays inside each other, with the least whole number and an escaped key inside. -/
def nestedArrays : ℕ → Json
  | 0 => .object [("\n", .number (.whole ⟨leastWord, by decide⟩)), ("", .string "\x00/")]
  | n + 1 => .array [nestedArrays n]

theorem depth_nestedArrays (n : ℕ) : (nestedArrays n).depth = n + 1 := by
  induction n with
  | zero => rfl
  | succ n ih => simp [nestedArrays, Json.depth, Json.elementsDepth, ih]

theorem wholeNumbers_nestedArrays (n : ℕ) : (nestedArrays n).WholeNumbers := by
  induction n with
  | zero =>
      refine .object fun member hmember => ?_
      simp only [List.mem_cons, List.not_mem_nil, or_false] at hmember
      rcases hmember with rfl | rfl
      · exact .number _
      · exact .string _
  | succ n ih => exact .array fun item hitem => List.mem_singleton.mp hitem ▸ ih

theorem distinctKeys_nestedArrays (n : ℕ) : (nestedArrays n).DistinctKeys := by
  induction n with
  | zero =>
      refine .object (by decide) fun member hmember => ?_
      simp only [List.mem_cons, List.not_mem_nil, or_false] at hmember
      rcases hmember with rfl | rfl
      · exact .number _
      · exact .string _
  | succ n ih => exact .array fun item hitem => List.mem_singleton.mp hitem ▸ ih

theorem decodeText_render_nestedArrays :
    decodeText ((nestedArrays 126).render ⟨true, false⟩) = .ok (nestedArrays 126) ∧
      ∃ failure, decodeText ((nestedArrays 127).render ⟨false, false⟩) = .error failure ∧
        failure.kind = .decode ∧
        failure.hint = some "parse category: depth-limit; context: decode" := by
  constructor
  · have hrender :=
      decodeText_render (wholeNumbers_nestedArrays 126) (distinctKeys_nestedArrays 126) true
    exact hrender.1 (depth_nestedArrays 126).le
  · have hrender :=
      decodeText_render (wholeNumbers_nestedArrays 127) (distinctKeys_nestedArrays 127) false
    exact hrender.2 (depth_nestedArrays 127).ge

end JsonReport
