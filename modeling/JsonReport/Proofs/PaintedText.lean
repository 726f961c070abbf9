import JsonReport.Proofs.WrittenCharacters
import Mathlib.Tactic

/-!
# Painted text on a terminal

A terminal reads a report from left to right and knows nothing of its pieces: where `ESC`,
`[`, digits and `m` stand, it takes a sequence, and it shows everything else in the colour
that is on.  The plain text of a value has no `ESC`, so a sequence in the painted text is
one that was put there around a token, whatever the strings of the value hold.
-/

namespace JsonReport
namespace Terminal

/-! ## Reading -/

/-- What a terminal meets in a text. -/
inductive Cell where
  | sequence (code : List Char)
  | character (c : Char)

/-- The digits of a sequence that stands at the beginning, with what follows it. -/
def sequence? : List Char → Option (List Char × List Char)
  | '\x1b' :: '[' :: text =>
    match text.takeWhile Char.isDigit, text.dropWhile Char.isDigit with
    | d :: code, 'm' :: rest => some (d :: code, rest)
    | _, _ => none
  | _ => none

theorem sequence?_length {text code rest : List Char} (h : sequence? text = some (code, rest)) :
    rest.length < text.length := by
  unfold sequence? at h
  split at h
  · next text =>
      split at h
      · next d digits after _ hafter =>
          simp only [Option.some.injEq, Prod.mk.injEq] at h
          have hlength := (List.dropWhile_sublist Char.isDigit (l := text)).length_le
          rw [hafter, h.2, List.length_cons] at hlength
          simp only [List.length_cons]
          omega
      · cases h
  · cases h

/-- The cells of a text. -/
def scan (text : List Char) : List Cell :=
  match text with
  | [] => []
  | c :: text =>
    match h : sequence? (c :: text) with
    | some (code, rest) =>
      have : rest.length < text.length + 1 := sequence?_length h
      .sequence code :: scan rest
    | none => .character c :: scan text
termination_by text.length

def Cell.character? : Cell → Option Char
  | .sequence _ => none
  | .character c => some c

def Cell.code? : Cell → Option (List Char)
  | .sequence code => some code
  | .character _ => none

/-- A text without its sequences. -/
def stripped (text : List Char) : List Char := (scan text).filterMap Cell.character?

/-- The digits of the sequences of a text, in their order. -/
def codes (text : List Char) : List (List Char) := (scan text).filterMap Cell.code?

/-- The colour that is on, and what has been shown in which colour. -/
structure Screen where
  colour : Option (List Char)
  shown : List (Option (List Char) × Char)

/-- The code that takes all colour off. -/
def reset : List Char := ['0']

def Screen.meet (screen : Screen) : Cell → Screen
  | .sequence code => { screen with colour := if code = reset then none else some code }
  | .character c => { screen with shown := screen.shown ++ [(screen.colour, c)] }

/-- The screen after a text, in the beginning without colour. -/
def display (text : List Char) : Screen := (scan text).foldl Screen.meet ⟨none, []⟩

/-! ## Scanning -/

theorem scan_nil : scan [] = [] := by
  rw [scan]

theorem scan_cons {c : Char} (hc : c ≠ '\x1b') (text : List Char) :
    scan (c :: text) = .character c :: scan text := by
  have hnone : sequence? (c :: text) = none := by
    unfold sequence?
    split
    · next text' htext => exact absurd (List.cons.inj htext).1 hc
    · rfl
  rw [scan]
  split
  · next code rest h =>
      rw [hnone] at h
      cases h
  · rfl

theorem scan_append {text : List Char} (h : '\x1b' ∉ text) (rest : List Char) :
    scan (text ++ rest) = text.map .character ++ scan rest := by
  induction text with
  | nil => rfl
  | cons c text ih =>
      simp only [List.mem_cons, not_or] at h
      rw [List.cons_append, scan_cons (Ne.symm h.1), ih h.2]
      rfl

theorem sequence?_escapeSequence {d : Char} {code : List Char}
    (h : ∀ c ∈ d :: code, c.isDigit = true) (rest : List Char) :
    sequence? (escapeSequence (d :: code) ++ rest) = some (d :: code, rest) := by
  have hm : Char.isDigit 'm' = false := by decide
  have htake : (d :: code ++ 'm' :: rest).takeWhile Char.isDigit = d :: code := by
    rw [List.takeWhile_append_of_pos h, List.takeWhile_cons_of_neg (by simp [hm]),
      List.append_nil]
  have hdrop : (d :: code ++ 'm' :: rest).dropWhile Char.isDigit = 'm' :: rest := by
    rw [List.dropWhile_append_of_pos h, List.dropWhile_cons_of_neg (by simp [hm])]
  have htext : escapeSequence (d :: code) ++ rest =
      '\x1b' :: '[' :: (d :: code ++ 'm' :: rest) := by
    simp [escapeSequence]
  rw [htext, sequence?, htake, hdrop]
  rfl

theorem scan_escapeSequence {code : List Char} (hcode : code ≠ [])
    (h : ∀ c ∈ code, c.isDigit = true) (rest : List Char) :
    scan (escapeSequence code ++ rest) = .sequence code :: scan rest := by
  obtain ⟨d, code, rfl⟩ := List.exists_cons_of_ne_nil hcode
  have hsequence := sequence?_escapeSequence h rest
  rw [escapeSequence, List.cons_append] at hsequence ⊢
  rw [scan]
  split
  · next code' rest' h' =>
      rw [hsequence] at h'
      cases h'
      rfl
  · next h' =>
      rw [hsequence] at h'
      cases h'

end Terminal

/-! ## Pieces -/

open Terminal

theorem Colour.isDigit_code (colour : Colour) : ∀ c ∈ colour.code, c.isDigit = true := by
  cases colour <;> decide

theorem Colour.code_ne_reset (colour : Colour) : colour.code ≠ reset := by
  cases colour <;> decide

theorem Colour.code_ne_nil (colour : Colour) : colour.code ≠ [] := by
  cases colour <;> decide

/-- The text of a piece without paint. -/
def Piece.text : Piece → List Char
  | .token _ text => text
  | .layout text => text

/-- The colours that a piece turns on. -/
def Piece.colours : Piece → List Colour
  | .token role _ => [role.colour]
  | .layout _ => []

/-- The cells of a painted piece. -/
def Piece.cells : Piece → List Cell
  | .token role text =>
    .sequence role.colour.code :: (text.map .character ++ [.sequence reset])
  | .layout text => text.map .character

/-- The characters of a piece, a token's in its colour and the layout's in none. -/
def Piece.coloured : Piece → List (Option (List Char) × Char)
  | .token role text => text.map (some role.colour.code, ·)
  | .layout text => text.map (none, ·)

namespace Piece

theorem Printed.escape_not_mem {piece : Piece} (h : piece.Printed) : '\x1b' ∉ piece.text := by
  intro hescape
  cases piece with
  | token role text => exact absurd (h _ hescape) (by decide)
  | layout text => exact absurd (h _ hescape) (by decide)

theorem scan_render {piece : Piece} (h : piece.Printed) (rest : List Char) :
    scan (piece.render true ++ rest) = piece.cells ++ scan rest := by
  cases piece with
  | token role text =>
      have hescape : '\x1b' ∉ text := h.escape_not_mem
      have hon := scan_escapeSequence role.colour.code_ne_nil role.colour.isDigit_code
      have hoff : scan (escapeSequence reset ++ rest) = .sequence reset :: scan rest :=
        scan_escapeSequence (by decide) (by decide) rest
      have htoken : (Piece.token role text).render true ++ rest =
          escapeSequence role.colour.code ++ (text ++ (escapeSequence reset ++ rest)) := by
        simp [render, Colour.paint, reset]
      rw [htoken, hon, scan_append hescape, hoff]
      simp [cells]
  | layout text => exact scan_append h.escape_not_mem rest

theorem character?_cells (piece : Piece) :
    piece.cells.filterMap Cell.character? = piece.text := by
  have hcharacters (text : List Char) :
      (text.map Cell.character).filterMap Cell.character? = text := by
    simp [List.filterMap_map, Function.comp_def, Cell.character?]
  cases piece with
  | token role text =>
      rw [cells, List.filterMap_cons_none rfl, List.filterMap_append, hcharacters]
      exact List.append_nil text
  | layout text => exact hcharacters text

theorem code?_cells (piece : Piece) :
    piece.cells.filterMap Cell.code? =
      piece.colours.flatMap fun colour => [colour.code, reset] := by
  cases piece <;> simp [cells, colours, Cell.code?, List.filterMap_map, Function.comp_def]

end Piece

theorem Terminal.Screen.meet_characters (screen : Screen) (text : List Char) :
    (text.map Cell.character).foldl Screen.meet screen =
      { screen with shown := screen.shown ++ text.map (screen.colour, ·) } := by
  induction text generalizing screen with
  | nil => simp
  | cons c text ih => simp [meet, ih]

/-- A piece is met without colour and leaves none. -/
theorem Terminal.Screen.meet_cells (shown : List (Option (List Char) × Char)) (piece : Piece) :
    piece.cells.foldl Screen.meet ⟨none, shown⟩ = ⟨none, shown ++ piece.coloured⟩ := by
  cases piece with
  | token role text =>
      simp [Piece.cells, Piece.coloured, meet, meet_characters, role.colour.code_ne_reset]
  | layout text => exact meet_characters ⟨none, shown⟩ text

namespace Report

variable {pieces : List Piece}

theorem plainText_eq (pieces : List Piece) : plainText pieces = pieces.flatMap Piece.text := by
  have hrender : Piece.render false = Piece.text := by
    funext piece
    cases piece <;> rfl
  rw [plainText, hrender]

theorem escape_not_mem_plainText (h : PiecesPrinted pieces) : '\x1b' ∉ plainText pieces := by
  rw [plainText_eq]
  intro hescape
  obtain ⟨piece, hpiece, hmem⟩ := List.mem_flatMap.mp hescape
  exact (h piece hpiece).escape_not_mem hmem

theorem scan_pieces (h : PiecesPrinted pieces) :
    scan (pieces.flatMap (Piece.render true)) = pieces.flatMap Piece.cells := by
  induction pieces with
  | nil => exact scan_nil
  | cons piece pieces ih =>
      rw [piecesPrinted_cons] at h
      rw [List.flatMap_cons, List.flatMap_cons, Piece.scan_render h.1, ih h.2]

theorem meet_pieces (shown : List (Option (List Char) × Char)) (pieces : List Piece) :
    (pieces.flatMap Piece.cells).foldl Screen.meet ⟨none, shown⟩ =
      ⟨none, shown ++ pieces.flatMap Piece.coloured⟩ := by
  induction pieces generalizing shown with
  | nil => simp
  | cons piece pieces ih => simp [Screen.meet_cells, ih]

/-- A value has a token that is not empty. -/
theorem colours_pieces_ne_nil (pretty : Bool) (depth : ℕ) (value : Json) :
    (Report.pieces pretty depth value).flatMap Piece.colours ≠ [] := by
  cases value with
  | bool flag => cases flag <;> simp [Report.pieces, Piece.colours]
  | array items => cases items <;> simp [Report.pieces, mark, Piece.colours]
  | object members => cases members <;> simp [Report.pieces, mark, Piece.colours]
  | _ => simp [Report.pieces, Piece.colours]

end Report

/-- The plain text of a value has no `ESC`; without its sequences the painted text is the
plain one; every colour that is turned on is taken off before the next; and a terminal
shows each token in the colour of its role, the layout in none, and ends without colour. -/
theorem render_painted (value : Json) (pretty : Bool) :
    '\x1b' ∉ (value.render ⟨pretty, false⟩).toList ∧
      stripped (value.render ⟨pretty, true⟩).toList =
        (value.render ⟨pretty, false⟩).toList ∧
      (∃ colours : List Colour, colours ≠ [] ∧
        codes (value.render ⟨pretty, true⟩).toList =
          colours.flatMap fun colour => [colour.code, reset]) ∧
      display (value.render ⟨pretty, true⟩).toList =
        ⟨none, (Report.pieces pretty 0 value).flatMap Piece.coloured⟩ := by
  have hprinted := Report.piecesPrinted_pieces pretty 0 value
  have hplain : (value.render ⟨pretty, false⟩).toList =
      Report.plainText (Report.pieces pretty 0 value) := String.toList_ofList
  have hscan : scan (value.render ⟨pretty, true⟩).toList =
      (Report.pieces pretty 0 value).flatMap Piece.cells := by
    rw [Json.render, String.toList_ofList]
    exact Report.scan_pieces hprinted
  refine ⟨?_, ?_, ?_, ?_⟩
  · rw [hplain]
    exact Report.escape_not_mem_plainText hprinted
  · rw [hplain, Report.plainText_eq, stripped, hscan, List.filterMap_flatMap]
    simp only [Piece.character?_cells]
  · refine ⟨_, Report.colours_pieces_ne_nil pretty 0 value, ?_⟩
    rw [codes, hscan, List.filterMap_flatMap, List.flatMap_assoc]
    simp only [Piece.code?_cells]
  · rw [display, hscan, Report.meet_pieces]
    rfl

end JsonReport
