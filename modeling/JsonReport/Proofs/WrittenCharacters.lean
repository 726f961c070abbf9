import JsonReport.Proofs.RenderRoundTrip
import Mathlib.Tactic

/-!
# The characters of a report

A number is written with digits, signs, a point and the mark of an exponent.  A string
shows no control below `20`, since each of them is escaped.  So the only control in a
value's plain text is the line feed, and that comes from the layout.
-/

namespace JsonReport

/-- A property of the characters of a text is decided along the text, and not by trying all
characters that there are. -/
instance (priority := 1100) decidableForallMem {P : Char → Prop} [DecidablePred P] (text : List Char) :
    Decidable (∀ c ∈ text, P c) :=
  List.decidableBAll P text

/-- The characters with which numbers are written. -/
def NumeralCharacter (c : Char) : Prop :=
  c.isDigit = true ∨ c ∈ ['-', '+', '.', 'e']

/-- Texts of such characters. -/
def Numeral (text : List Char) : Prop := ∀ c ∈ text, NumeralCharacter c

namespace Numeral

theorem nil : Numeral [] := fun _ h => absurd h List.not_mem_nil

theorem cons {c : Char} {text : List Char} (hc : NumeralCharacter c) (h : Numeral text) :
    Numeral (c :: text) :=
  List.forall_mem_cons.mpr ⟨hc, h⟩

theorem append {first rest : List Char} (hfirst : Numeral first) (hrest : Numeral rest) :
    Numeral (first ++ rest) := fun c hc =>
  (List.mem_append.mp hc).elim (hfirst c) (hrest c)

theorem of_subset {text part : List Char} (h : Numeral text) (hpart : part ⊆ text) :
    Numeral part := fun c hc => h c (hpart hc)

theorem replicate (n : ℕ) : Numeral (List.replicate n '0') := fun c hc => by
  rw [List.eq_of_mem_replicate hc]
  exact .inl rfl

theorem toDigits (n : ℕ) : Numeral (Nat.toDigits 10 n) := fun _ hc =>
  .inl (Nat.isDigit_of_mem_toDigits (by decide) (by decide) hc)

end Numeral

/-! ## Doubles -/

namespace Binary64

theorem numeral_ofPoint (point place : ℕ) : Numeral (Decimal.ofPoint point place).digits := by
  apply (Numeral.toDigits point).of_subset
  intro c hc
  have hreversed := List.mem_reverse.mp hc
  exact List.mem_reverse.mp ((List.dropWhile_sublist _).subset hreversed)

theorem numeral_shortestFrom? (rank : ℕ) (places : List ℕ) :
    Numeral ((shortestFrom? rank places).getD (.ofPoint 0 0)).digits := by
  induction places with
  | nil => exact numeral_ofPoint 0 0
  | cons place finer ih =>
      rw [shortestFrom?]
      split
      · next point hpoint => exact numeral_ofPoint point place
      · exact ih

theorem numeral_shortest (rank : ℕ) : Numeral (shortest rank).digits :=
  numeral_shortestFrom? rank _

theorem numeral_positionalText {decimal : Decimal} (h : Numeral decimal.digits) :
    Numeral decimal.positionalText := by
  unfold Decimal.positionalText
  split
  · apply Numeral.cons (.inl rfl)
    apply Numeral.cons (.inr (by decide))
    exact (Numeral.replicate _).append h
  · have hwhole := (h.of_subset (List.take_subset (decimal.exponent.toNat + 1) _)).append
      (Numeral.replicate (decimal.exponent.toNat + 1 - decimal.digits.length))
    apply hwhole.append
    apply Numeral.cons (.inr (by decide))
    split
    · exact Numeral.replicate 1
    · exact h.of_subset (List.drop_subset _ _)

theorem numeral_exponentText (exponent : ℤ) : Numeral (exponentText exponent) := by
  unfold exponentText
  apply Numeral.cons (.inr (by decide))
  apply Numeral.cons
  · split <;> exact .inr (by decide)
  · exact Numeral.toDigits _

theorem numeral_exponentialText {decimal : Decimal} (h : Numeral decimal.digits) :
    Numeral decimal.exponentialText := by
  unfold Decimal.exponentialText
  apply Numeral.append
  · apply (h.of_subset (List.take_subset 1 _)).append
    split
    · exact Numeral.nil
    · exact Numeral.cons (.inr (by decide)) (h.of_subset (List.drop_subset 1 _))
  · exact numeral_exponentText _

theorem numeral_rankText (rank : ℕ) : Numeral (rankText rank) := by
  unfold rankText
  split
  · exact Numeral.cons (.inl rfl) (.cons (.inr (by decide)) (.replicate 1))
  · unfold Decimal.text
    split
    · exact numeral_positionalText (numeral_shortest rank)
    · exact numeral_exponentialText (numeral_shortest rank)

theorem numeral_text (x : Binary64) : Numeral x.text := by
  unfold text
  split
  · exact Numeral.cons (.inr (by decide)) (numeral_rankText x.rank)
  · exact numeral_rankText x.rank

end Binary64

/-! ## Numbers -/

theorem WholeNumber.numeral_text (n : WholeNumber) : Numeral n.text := by
  unfold WholeNumber.text
  split
  · exact Numeral.cons (.inr (by decide)) (Numeral.toDigits _)
  · exact Numeral.toDigits _

theorem Number.numeral_text (n : Number) : Numeral n.text := by
  cases n with
  | whole n => exact WholeNumber.numeral_text n
  | double x => exact Binary64.numeral_text x

/-! ## Strings -/

/-- Characters that are no controls below `20`. -/
def Printed (c : Char) : Prop := 0x20 ≤ c.toNat

instance (c : Char) : Decidable (Printed c) := inferInstanceAs (Decidable (0x20 ≤ c.toNat))

theorem NumeralCharacter.printed {c : Char} (h : NumeralCharacter c) : Printed c := by
  rcases h with hdigit | hmark
  · have hlow : '0'.toNat ≤ c.toNat := by
      simp only [Char.isDigit, Bool.and_eq_true, decide_eq_true_eq] at hdigit
      exact UInt32.le_iff_toNat_le.mp hdigit.1
    exact Nat.le_trans (by decide) hlow
  · have hmarks : ∀ c ∈ ['-', '+', '.', 'e'], Printed c := by decide
    exact hmarks c hmark

namespace Quoted

theorem printed_hexDigit (n : ℕ) : Printed (hexDigit n) := by
  have hdigits : ∀ k < 16, Printed (Nat.digitChar k) := by decide
  exact hdigits (n % 16) (Nat.mod_lt n (by decide))

theorem printed_character (c : Char) : ∀ d ∈ character c, Printed d := by
  unfold character
  split_ifs with hquote hbackslash hb hf hn hr ht hcontrol
  all_goals try decide
  · -- The two digits of the code point are the only ones that depend on it.
    have hmarks : ∀ d ∈ ['\\', 'u', '0', '0'], Printed d := by decide
    have hdigits :
        ∀ d ∈ [hexDigit (c.toNat / 16), hexDigit c.toNat], Printed d := by
      simp [printed_hexDigit]
    exact List.forall_mem_append.mpr ⟨hmarks, hdigits⟩
  · intro d hd
    rw [List.mem_singleton.mp hd]
    exact Nat.le_of_not_lt hcontrol

theorem printed_quote (text : List Char) : ∀ d ∈ quote text, Printed d := by
  intro d hd
  simp only [quote, List.mem_cons, List.mem_append, List.mem_flatMap, List.not_mem_nil,
    or_false] at hd
  rcases hd with rfl | ⟨c, -, hcharacter⟩ | rfl
  · decide
  · exact printed_character c d hcharacter
  · decide

end Quoted

/-! ## Pieces -/

namespace Report

/-- The tokens that are the same in every report: words and marks. -/
def fixedTokens : List (List Char) :=
  [['n', 'u', 'l', 'l'], ['t', 'r', 'u', 'e'], ['f', 'a', 'l', 's', 'e'], ['[', ']'], ['['], [']'],
    ['\x7b', '\x7d'], ['\x7b'], ['\x7d'], [','], [':']]

/-- A property that each kind of piece has. -/
structure OfEveryKind (P : Piece → Prop) : Prop where
  fixed : ∀ role, ∀ text ∈ fixedTokens, P (.token role text)
  number : ∀ n : Number, P (.token .number n.text)
  quoted : ∀ role (text : String), P (.token role (Quoted.quote text.toList))
  layout : ∀ text : List Char, (∀ c ∈ text, c = '\n' ∨ c = ' ') → P (.layout text)

variable {P : Piece → Prop} (h : OfEveryKind P)

include h

theorem OfEveryKind.mark {text : List Char} (htext : text ∈ fixedTokens) : P (mark text) :=
  h.fixed .punctuation text htext

theorem OfEveryKind.lineBreak (pretty : Bool) (depth : ℕ) :
    ∀ piece ∈ lineBreak pretty depth, P piece := by
  cases pretty with
  | false => exact fun _ hmem => absurd hmem List.not_mem_nil
  | true =>
      refine List.forall_mem_singleton.2 (h.layout _ (List.forall_mem_cons.2 ⟨.inl rfl, ?_⟩))
      exact fun c hc => .inr (List.eq_of_mem_replicate hc)

theorem OfEveryKind.keyPieces (pretty : Bool) (key : String) :
    ∀ piece ∈ keyPieces pretty key, P piece := by
  have hspace : P (.layout [' ']) := h.layout _ (by simp)
  have hcolon : P (Report.mark [':']) := h.mark (by decide)
  cases pretty <;> simp [Report.keyPieces, h.quoted, hcolon, hspace]

mutual

/-- What each kind of piece has all pieces of a value have. -/
theorem OfEveryKind.pieces (pretty : Bool) (depth : ℕ) (value : Json) :
    ∀ piece ∈ pieces pretty depth value, P piece := by
  cases value with
  | null => simpa [Report.pieces] using h.fixed .null _ (by decide)
  | bool flag => cases flag <;> simpa [Report.pieces] using h.fixed .bool _ (by decide)
  | number n => simpa [Report.pieces] using h.number n
  | string text => simpa [Report.pieces] using h.quoted .string text
  | array items =>
      cases items with
      | nil => simpa [Report.pieces] using h.mark (by decide)
      | cons item items =>
          simp only [Report.pieces, List.forall_mem_cons, List.forall_mem_append]
          exact ⟨h.mark (by decide), ⟨⟨⟨h.lineBreak pretty _, OfEveryKind.pieces pretty _ item⟩,
            OfEveryKind.elementPieces pretty _ items⟩, h.lineBreak pretty _⟩,
            h.mark (by decide), by simp⟩
  | object members =>
      cases members with
      | nil => simpa [Report.pieces] using h.mark (by decide)
      | cons member members =>
          obtain ⟨key, value⟩ := member
          simp only [Report.pieces, List.forall_mem_cons, List.forall_mem_append]
          exact ⟨h.mark (by decide), ⟨⟨⟨⟨h.lineBreak pretty _, h.keyPieces pretty key⟩,
            OfEveryKind.pieces pretty _ value⟩, OfEveryKind.memberPieces pretty _ members⟩,
            h.lineBreak pretty _⟩, h.mark (by decide), by simp⟩

theorem OfEveryKind.elementPieces (pretty : Bool) (depth : ℕ) (items : List Json) :
    ∀ piece ∈ elementPieces pretty depth items, P piece := by
  cases items with
  | nil => exact fun _ hmem => absurd hmem List.not_mem_nil
  | cons item items =>
      simp only [Report.elementPieces, List.forall_mem_cons, List.forall_mem_append]
      exact ⟨h.mark (by decide), ⟨h.lineBreak pretty depth, OfEveryKind.pieces pretty depth item⟩,
        OfEveryKind.elementPieces pretty depth items⟩

theorem OfEveryKind.memberPieces (pretty : Bool) (depth : ℕ) (members : List (String × Json)) :
    ∀ piece ∈ memberPieces pretty depth members, P piece := by
  cases members with
  | nil => exact fun _ hmem => absurd hmem List.not_mem_nil
  | cons member members =>
      obtain ⟨key, value⟩ := member
      simp only [Report.memberPieces, List.forall_mem_cons, List.forall_mem_append]
      exact ⟨h.mark (by decide), ⟨⟨h.lineBreak pretty depth, h.keyPieces pretty key⟩,
        OfEveryKind.pieces pretty depth value⟩, OfEveryKind.memberPieces pretty depth members⟩

end

end Report

/-- A token shows printed characters only, the layout line feeds and spaces. -/
def Piece.Printed : Piece → Prop
  | .token _ text => ∀ c ∈ text, JsonReport.Printed c
  | .layout text => ∀ c ∈ text, c = '\n' ∨ c = ' '

namespace Report

def PiecesPrinted (pieces : List Piece) : Prop := ∀ piece ∈ pieces, piece.Printed

@[simp] theorem piecesPrinted_cons (piece : Piece) (pieces : List Piece) :
    PiecesPrinted (piece :: pieces) ↔ piece.Printed ∧ PiecesPrinted pieces :=
  List.forall_mem_cons

theorem printed_ofEveryKind : OfEveryKind Piece.Printed where
  fixed := fun _ => by
    have hfixed : ∀ text ∈ fixedTokens, ∀ c ∈ text, Printed c := by decide
    exact hfixed
  number := fun n c hc => (n.numeral_text c hc).printed
  quoted := fun _ text => Quoted.printed_quote text.toList
  layout := fun _ htext => htext

theorem piecesPrinted_pieces (pretty : Bool) (depth : ℕ) (value : Json) :
    PiecesPrinted (pieces pretty depth value) :=
  printed_ofEveryKind.pieces pretty depth value

end Report

end JsonReport
