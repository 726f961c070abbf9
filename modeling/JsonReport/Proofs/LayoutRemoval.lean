import JsonReport.Proofs.PaintedText
import Mathlib.Tactic

/-!
# Taking the layout out of a report

Whoever reads a report from left to right and keeps to its quotes and backslashes knows at
each character whether it stands in a string literal.  At the end of every piece the scan
is outside again: a number or a mark has no quote, and in a literal each quote that is not
the last one follows a backslash of its own.  So the blanks outside the literals are the
layout, and what is left without them is the compact report.
-/

namespace JsonReport
namespace LiteralScan

/-! ## Scanning -/

/-- Where a character stands. -/
inductive Place where
  | outside
  | inside
  | escaped
deriving DecidableEq

/-- The place behind a character. -/
def Place.advance : Place → Char → Place
  | .outside, c => if c = '"' then .inside else .outside
  | .inside, c => if c = '"' then .outside else if c = '\\' then .escaped else .inside
  | .escaped, _ => .inside

/-- The characters of a text with their places. -/
def placed (place : Place) : List Char → List (Place × Char)
  | [] => []
  | c :: text => (place, c) :: placed (place.advance c) text

/-- The place behind a text. -/
def placeAfter (place : Place) (text : List Char) : Place := text.foldl Place.advance place

/-- Blanks outside of literals. -/
def IsBlank (cell : Place × Char) : Prop := cell.1 = .outside ∧ (cell.2 = ' ' ∨ cell.2 = '\n')

instance : DecidablePred IsBlank := fun _ => inferInstanceAs (Decidable (_ ∧ _))

/-- A text without the blanks outside of its literals. -/
def squeezed (text : List Char) : List Char :=
  ((placed .outside text).filter (¬IsBlank ·)).map Prod.snd

/-- The blanks outside of the literals of a text. -/
def blanks (text : List Char) : List Char :=
  ((placed .outside text).filter (IsBlank ·)).map Prod.snd

theorem placed_append (place : Place) (first rest : List Char) :
    placed place (first ++ rest) = placed place first ++ placed (placeAfter place first) rest := by
  induction first generalizing place with
  | nil => rfl
  | cons c first ih => simp [placed, placeAfter, ih]

theorem placeAfter_append (place : Place) (first rest : List Char) :
    placeAfter place (first ++ rest) = placeAfter (placeAfter place first) rest :=
  List.foldl_append

theorem squeezed_append {first : List Char} (h : placeAfter .outside first = .outside)
    (rest : List Char) : squeezed (first ++ rest) = squeezed first ++ squeezed rest := by
  simp only [squeezed, placed_append, h, List.filter_append, List.map_append]

theorem blanks_append {first : List Char} (h : placeAfter .outside first = .outside)
    (rest : List Char) : blanks (first ++ rest) = blanks first ++ blanks rest := by
  simp only [blanks, placed_append, h, List.filter_append, List.map_append]

theorem map_snd_placed (place : Place) (text : List Char) :
    (placed place text).map Prod.snd = text := by
  induction text generalizing place with
  | nil => rfl
  | cons c text ih => rw [placed, List.map_cons, ih]

/-- Without a quote, everything stands outside. -/
theorem placed_of_no_quote {text : List Char} (h : '"' ∉ text) :
    placeAfter .outside text = .outside ∧ placed .outside text = text.map (.outside, ·) := by
  induction text with
  | nil => exact ⟨rfl, rfl⟩
  | cons c text ih =>
      simp only [List.mem_cons, not_or] at h
      have hstep : Place.advance .outside c = .outside := if_neg (Ne.symm h.1)
      obtain ⟨hafter, hplaced⟩ := ih h.2
      constructor
      · rw [placeAfter, List.foldl_cons, hstep]
        exact hafter
      · rw [placed, hstep, hplaced, List.map_cons]

/-! ## Literals -/

/-- A run of characters that begins and ends inside of a literal and does not leave it. -/
structure StaysInside (text : List Char) : Prop where
  after : placeAfter .inside text = .inside
  places : ∀ cell ∈ placed .inside text, cell.1 ≠ .outside

namespace StaysInside

theorem nil : StaysInside [] := ⟨rfl, by simp [placed]⟩

theorem append {first rest : List Char} (hfirst : StaysInside first) (hrest : StaysInside rest) :
    StaysInside (first ++ rest) := by
  constructor
  · rw [placeAfter_append, hfirst.after, hrest.after]
  · rw [placed_append, hfirst.after]
    exact List.forall_mem_append.2 ⟨hfirst.places, hrest.places⟩

theorem single {c : Char} (hquote : c ≠ '"') (hbackslash : c ≠ '\\') : StaysInside [c] := by
  constructor
  · simp [placeAfter, Place.advance, hquote, hbackslash]
  · simp [placed]

theorem escape (c : Char) : StaysInside ['\\', c] := by
  constructor
  · simp [placeAfter, Place.advance]
  · simp [placed, Place.advance]

end StaysInside

theorem staysInside_hexDigit (n : ℕ) : StaysInside [Quoted.hexDigit n] := by
  have hdigits : ∀ k < 16, Nat.digitChar k ≠ '"' ∧ Nat.digitChar k ≠ '\\' := by decide
  obtain ⟨hquote, hbackslash⟩ := hdigits (n % 16) (Nat.mod_lt n (by decide))
  exact .single hquote hbackslash

/-- A character of a string is written so that it does not end the literal. -/
theorem staysInside_character (c : Char) : StaysInside (Quoted.character c) := by
  unfold Quoted.character
  split_ifs with hquote hbackslash hb hf hn hr ht hcontrol
  · exact .escape '"'
  · exact .escape '\\'
  · exact .escape 'b'
  · exact .escape 'f'
  · exact .escape 'n'
  · exact .escape 'r'
  · exact .escape 't'
  · have hzero : StaysInside ['0'] := .single (by decide) (by decide)
    exact (StaysInside.escape 'u').append (hzero.append (hzero.append
      ((staysInside_hexDigit (c.toNat / 16)).append (staysInside_hexDigit c.toNat))))
  · exact .single hquote hbackslash

theorem staysInside_content (text : List Char) :
    StaysInside (text.flatMap Quoted.character) := by
  induction text with
  | nil => exact .nil
  | cons c text ih =>
      rw [List.flatMap_cons]
      exact (staysInside_character c).append ih

end LiteralScan

/-! ## Pieces -/

open LiteralScan

namespace Piece

/-- What a piece adds to the tokens of a report. -/
def tokenText : Piece → List Char
  | .token _ text => text
  | .layout _ => []

/-- What a piece adds to the layout of a report. -/
def layoutText : Piece → List Char
  | .token _ _ => []
  | .layout text => text

/-- The scan is outside behind the piece, and its blanks are those of the layout. -/
structure Scans (piece : Piece) : Prop where
  after : placeAfter .outside piece.text = .outside
  squeezed_eq : squeezed piece.text = piece.tokenText
  blanks_eq : blanks piece.text = piece.layoutText

theorem scans_token {role : Role} {text : List Char}
    (hafter : placeAfter .outside text = .outside)
    (hplaced : ∀ cell ∈ placed .outside text, ¬IsBlank cell) : (token role text).Scans := by
  refine ⟨hafter, ?_, ?_⟩
  · have hall : (placed .outside text).filter (¬IsBlank ·) = placed .outside text := by
      simpa [List.filter_eq_self] using hplaced
    rw [Piece.text, squeezed, hall, map_snd_placed, tokenText]
  · have hnone : (placed .outside text).filter (IsBlank ·) = [] := by
      simpa [List.filter_eq_nil_iff] using hplaced
    rw [Piece.text, blanks, hnone]
    rfl

theorem scans_bare {role : Role} {text : List Char}
    (h : ∀ c ∈ text, c ≠ '"' ∧ c ≠ ' ' ∧ c ≠ '\n') : (token role text).Scans := by
  obtain ⟨hafter, hplaced⟩ := placed_of_no_quote fun hmem => (h _ hmem).1 rfl
  refine scans_token hafter fun cell hcell hblank => ?_
  rw [hplaced] at hcell
  obtain ⟨c, hc, rfl⟩ := List.mem_map.1 hcell
  exact hblank.2.elim (h c hc).2.1 (h c hc).2.2

theorem scans_quote (role : Role) (text : List Char) : (token role (Quoted.quote text)).Scans := by
  have hinside := staysInside_content text
  have hopen : Place.advance .outside '"' = .inside := rfl
  apply scans_token
  · rw [Quoted.quote, placeAfter, List.foldl_cons, hopen]
    change placeAfter .inside (_ ++ ['"']) = .outside
    rw [placeAfter_append, hinside.after]
    rfl
  · rw [Quoted.quote, placed, hopen, placed_append, hinside.after]
    simp only [List.forall_mem_cons, List.forall_mem_append]
    refine ⟨fun hblank => absurd hblank.2 (by decide), ?_, ?_⟩
    · exact fun cell hcell hblank => hinside.places cell hcell hblank.1
    · rintro cell hcell ⟨hplace, -⟩
      rw [placed, placed, List.mem_singleton] at hcell
      rw [hcell] at hplace
      cases hplace

theorem scans_layout {text : List Char} (h : ∀ c ∈ text, c = '\n' ∨ c = ' ') :
    (layout text).Scans := by
  have hquote : '"' ∉ text := fun hmem => absurd (h _ hmem) (by decide)
  obtain ⟨hafter, hplaced⟩ := placed_of_no_quote hquote
  have hblank : ∀ cell ∈ placed .outside text, IsBlank cell := by
    intro cell hcell
    rw [hplaced] at hcell
    obtain ⟨c, hc, rfl⟩ := List.mem_map.1 hcell
    exact ⟨rfl, (h c hc).symm⟩
  refine ⟨hafter, ?_, ?_⟩
  · have hnone : (placed .outside text).filter (¬IsBlank ·) = [] := by
      simpa [List.filter_eq_nil_iff] using hblank
    rw [Piece.text, squeezed, hnone]
    rfl
  · have hall : (placed .outside text).filter (IsBlank ·) = placed .outside text := by
      simpa [List.filter_eq_self] using hblank
    rw [Piece.text, blanks, hall, map_snd_placed, layoutText]

end Piece

namespace Report

theorem scans_ofEveryKind : OfEveryKind Piece.Scans where
  fixed := fun role text htext => by
    have hfixed : ∀ text ∈ fixedTokens, ∀ c ∈ text, c ≠ '"' ∧ c ≠ ' ' ∧ c ≠ '\n' := by decide
    exact Piece.scans_bare (hfixed text htext)
  number := fun n => by
    apply Piece.scans_bare
    rintro c hc
    rcases n.numeral_text c hc with hdigit | hmark
    · refine ⟨?_, ?_, ?_⟩ <;> rintro rfl <;> exact absurd hdigit (by decide)
    · have hmarks : ∀ c ∈ ['-', '+', '.', 'e'], c ≠ '"' ∧ c ≠ ' ' ∧ c ≠ '\n' := by decide
      exact hmarks c hmark
  quoted := fun role text => Piece.scans_quote role text.toList
  layout := fun _ htext => Piece.scans_layout htext

/-- A scan of pieces that each scan parts their tokens from their layout. -/
theorem squeezed_pieces {pieces : List Piece} (h : ∀ piece ∈ pieces, piece.Scans) :
    squeezed (plainText pieces) = pieces.flatMap Piece.tokenText ∧
      blanks (plainText pieces) = pieces.flatMap Piece.layoutText := by
  rw [plainText_eq]
  induction pieces with
  | nil => exact ⟨rfl, rfl⟩
  | cons piece pieces ih =>
      obtain ⟨hpiece, hpieces⟩ := List.forall_mem_cons.1 h
      obtain ⟨hsqueezed, hblanks⟩ := ih hpieces
      simp only [List.flatMap_cons, squeezed_append hpiece.after, blanks_append hpiece.after,
        hpiece.squeezed_eq, hpiece.blanks_eq, hsqueezed, hblanks, and_self]

/-! ## Both layouts -/

@[simp] theorem plainText_compactBreak (depth : ℕ) : plainText (lineBreak false depth) = [] := rfl

@[simp] theorem tokenText_lineBreak (depth : ℕ) :
    (lineBreak true depth).flatMap Piece.tokenText = [] := rfl

@[simp] theorem plainText_compactKey (key : String) :
    plainText (keyPieces false key) = (keyPieces true key).flatMap Piece.tokenText := rfl

-- The depths are apart, because in the compact layout no piece depends on its own.

mutual

/-- The tokens of the pretty layout are all that there is in the compact one. -/
theorem plainText_pieces (depth depth' : ℕ) (value : Json) :
    plainText (pieces false depth' value) =
      (pieces true depth value).flatMap Piece.tokenText := by
  cases value with
  | bool flag => cases flag <;> rfl
  | array items =>
      cases items with
      | nil => rfl
      | cons item items =>
          simp [pieces, mark, Piece.tokenText, plainText_pieces (depth + 1) (depth' + 1) item,
            plainText_elementPieces (depth + 1) (depth' + 1) items]
  | object members =>
      cases members with
      | nil => rfl
      | cons member members =>
          obtain ⟨key, value⟩ := member
          simp [pieces, mark, Piece.tokenText, plainText_pieces (depth + 1) (depth' + 1) value,
            plainText_memberPieces (depth + 1) (depth' + 1) members]
  | _ => rfl

theorem plainText_elementPieces (depth depth' : ℕ) (items : List Json) :
    plainText (elementPieces false depth' items) =
      (elementPieces true depth items).flatMap Piece.tokenText := by
  cases items with
  | nil => rfl
  | cons item items =>
      simp [elementPieces, mark, Piece.tokenText, plainText_pieces depth depth' item,
        plainText_elementPieces depth depth' items]

theorem plainText_memberPieces (depth depth' : ℕ) (members : List (String × Json)) :
    plainText (memberPieces false depth' members) =
      (memberPieces true depth members).flatMap Piece.tokenText := by
  cases members with
  | nil => rfl
  | cons member members =>
      obtain ⟨key, value⟩ := member
      simp [memberPieces, mark, Piece.tokenText, plainText_pieces depth depth' value,
        plainText_memberPieces depth depth' members]

end

theorem printed_tokens {pieces : List Piece} (h : PiecesPrinted pieces) :
    ∀ c ∈ pieces.flatMap Piece.tokenText, Printed c := by
  intro c hc
  obtain ⟨piece, hpiece, hmem⟩ := List.mem_flatMap.1 hc
  cases piece with
  | token role text => exact h _ hpiece c hmem
  | layout text => cases hmem

end Report

/-- A control character is a blank, or it is among what is left without the blanks. -/
theorem LiteralScan.isBlank_of_control {text : List Char} (h : ∀ c ∈ squeezed text, Printed c)
    {cell : Place × Char} (hcell : cell ∈ placed .outside text) (hcontrol : ¬Printed cell.2) :
    cell.1 = .outside ∧ cell.2 = '\n' := by
  by_cases hblank : IsBlank cell
  · obtain ⟨hplace, hspace | hbreak⟩ := hblank
    · rw [hspace] at hcontrol
      exact absurd (by decide) hcontrol
    · exact ⟨hplace, hbreak⟩
  · have hkept : cell ∈ (placed .outside text).filter (¬IsBlank ·) := by
      simpa using ⟨hcell, hblank⟩
    exact absurd (h _ (List.mem_map_of_mem hkept)) hcontrol

/-- Without the blanks outside of its literals the pretty report is the compact one, and these
blanks are the pretty report's layout.  The compact report has no control character, and in
the pretty one each control character is a line feed outside of the literals. -/
theorem render_squeezed (value : Json) :
    squeezed (value.render ⟨true, false⟩).toList = (value.render ⟨false, false⟩).toList ∧
      blanks (value.render ⟨true, false⟩).toList =
        (Report.pieces true 0 value).flatMap Piece.layoutText ∧
      (∀ c ∈ (value.render ⟨false, false⟩).toList, Printed c) ∧
      ∀ cell ∈ placed .outside (value.render ⟨true, false⟩).toList,
        ¬Printed cell.2 → cell.1 = .outside ∧ cell.2 = '\n' := by
  have hrender (pretty : Bool) : (value.render ⟨pretty, false⟩).toList =
      Report.plainText (Report.pieces pretty 0 value) := String.toList_ofList
  have hcompact := Report.plainText_pieces 0 0 value
  have hprinted : ∀ c ∈ Report.plainText (Report.pieces false 0 value), Printed c := by
    rw [hcompact]
    exact Report.printed_tokens (Report.piecesPrinted_pieces true 0 value)
  obtain ⟨hsqueezed, hblanks⟩ :=
    Report.squeezed_pieces (Report.scans_ofEveryKind.pieces true 0 value)
  rw [← hcompact] at hsqueezed
  rw [hrender, hrender]
  refine ⟨hsqueezed, hblanks, hprinted, fun cell => ?_⟩
  rw [← hsqueezed] at hprinted
  exact isBlank_of_control hprinted

end JsonReport
