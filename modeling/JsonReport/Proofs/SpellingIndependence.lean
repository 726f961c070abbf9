import JsonReport.Proofs.DecodeFailure
import JsonReport.Proofs.ValueReading
import JsonReport.Proofs.ValueShape
import Mathlib.Tactic

/-!
# The value depends on the document alone

A document has unboundedly many spellings: white space at every gap, and for every
character of a string the character itself, a letter escape, an escape by code point in
either case or a pair of surrogates.  Decoding sees through all of them.  What it yields
is the value of the document, in which repeated keys are merged at every level.
-/

namespace JsonReport

open Spelling

/-- Every spelling of a document within the limits is decoded, and all of them to the
same value, which repeats no key. -/
theorem decodeText_written {document : Document String} {text : String}
    (hwritten : document.WrittenAs text) (hdepth : document.depth ≤ 127)
    (hrange : document.InRange) :
    decodeText text = .ok document.value ∧ document.value.DistinctKeys := by
  refine ⟨?_, document.distinctKeys_value⟩
  exact decodeWith_eq_ok.mpr ((readDocument_of_written hwritten hrange .text).1 hdepth)

/-- The second `a` comes late, is spelled otherwise, and replaces an array in place. -/
def repeatedKeyDocument : Document String :=
  .object
    [("a", .array [.number ⟨false, [1], none, none⟩]), ("b", .null), ("a", .bool true)]

def repeatedKeyText : String := "\x7b\"a\":[1],\"b\":null, \"\\u0061\" : true\x7d"

theorem repeatedKeyDocument_writtenAs :
    repeatedKeyDocument.WrittenAs repeatedKeyText := by
  have hblank : Blank [' '] := blank_cons (.inl rfl) blank_nil
  have hzero : HexDigit 0 '0' := hexDigit_digitChar (by decide)
  have hone : HexDigit 1 '1' := hexDigit_digitChar (by decide)
  have hsix : HexDigit 6 '6' := hexDigit_digitChar (by decide)
  have hcode : HexCode 'a'.toNat ['0', '0', '6', '1'] := .digits hzero hzero hsix hone
  have ha : Quoted Content "a" ['"', 'a', '"'] :=
    .quotes (content_of_plain (w := ['a']) rfl)
  have hb : Quoted Content "b" ['"', 'b', '"'] :=
    .quotes (content_of_plain (w := ['b']) rfl)
  have hescaped : Content "a" ('\\' :: 'u' :: ['0', '0', '6', '1'] ++ []) :=
    Run.cons (.code hcode) .nil
  have ha' : Quoted Content "a" ['"', '\\', 'u', '0', '0', '6', '1', '"'] :=
    .quotes hescaped
  have hnumber : Spelling.Number ⟨false, [1], none, none⟩ ['1'] :=
    .positive rfl (.parts (.digits (by decide)) .absent .absent)
  have hitem : Element Content (.number ⟨false, [1], none, none⟩) ['1'] :=
    .padded blank_nil (.number hnumber) blank_nil
  have hfirst : Member Content ("a", .array [.number ⟨false, [1], none, none⟩])
      "\"a\":[1]".toList :=
    .pair blank_nil ha blank_nil (.padded blank_nil (.array (.last hitem)) blank_nil)
  have hsecond : Member Content ("b", .null) "\"b\":null".toList :=
    .pair blank_nil hb blank_nil (.padded blank_nil .null blank_nil)
  have hthird : Member Content ("a", .bool true) " \"\\u0061\" : true".toList :=
    .pair hblank ha' hblank (.padded hblank .true blank_nil)
  exact .padded blank_nil (.object (.more hfirst (.more hsecond (.last hthird))))
    blank_nil

theorem decodeText_repeatedKeyText :
    repeatedKeyDocument.WrittenAs repeatedKeyText ∧ repeatedKeyDocument.depth ≤ 127 ∧
      repeatedKeyDocument.InRange ∧
      decodeText repeatedKeyText = .ok (.object [("a", .bool true), ("b", .null)]) := by
  have hdepth : repeatedKeyDocument.depth ≤ 127 := by decide
  have hrange : repeatedKeyDocument.InRange :=
    ⟨trivial, ⟨⟨_, rfl⟩, trivial⟩, trivial, trivial, trivial, trivial, trivial⟩
  have hdecoded := decodeText_written repeatedKeyDocument_writtenAs hdepth hrange
  exact ⟨repeatedKeyDocument_writtenAs, hdepth, hrange, hdecoded.1⟩

end JsonReport
