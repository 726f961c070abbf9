import JsonReport.Json.NumberLiteral
import JsonReport.Proofs.MemberMerging
import Mathlib.Tactic

/-!
# Documents and how they are written

A document is what a text says before anybody interprets it: members are listed one by
one, so that a key may come again, and number literals keep their digits.  The grammar
below says which texts write a document.  It follows the productions of RFC 8259 and
is not bounded in any way: nesting and the size of numbers are measured on the
document afterwards.

What stands between the quotes of a string is a parameter.  A document whose strings
are texts is written character by character, each in any of the forms that JSON has
for it; a document whose strings are runs of symbols is written by the letter of the
grammar, where an escape of a lone surrogate is a symbol like every other.
-/

namespace JsonReport

/-- A document whose strings and keys are given as `Text`. -/
inductive Document (Text : Type) where
  | null
  | bool (flag : Bool)
  | number (literal : NumberLiteral)
  | string (text : Text)
  | array (items : List (Document Text))
  | object (members : List (Text × Document Text))

/-- A number literal that stands for a number: the conversion does not overflow. -/
def NumberLiteral.InRange (literal : NumberLiteral) : Prop :=
  ∃ n, literal.number = .ok n

namespace Document

variable {Text : Type}

mutual

/-- How deep the arrays and objects of a document nest, empty ones included. -/
def depth : Document Text → ℕ
  | .null => 0
  | .bool _ => 0
  | .number _ => 0
  | .string _ => 0
  | .array items => elementsDepth items + 1
  | .object members => membersDepth members + 1

def elementsDepth : List (Document Text) → ℕ
  | [] => 0
  | item :: items => max item.depth (elementsDepth items)

def membersDepth : List (Text × Document Text) → ℕ
  | [] => 0
  | (_, item) :: members => max item.depth (membersDepth members)

end

mutual

/-- All number literals of a document and all its strings, keys included, are as
given. -/
def Forall (number : NumberLiteral → Prop) (string : Text → Prop) :
    Document Text → Prop
  | .null => True
  | .bool _ => True
  | .number literal => number literal
  | .string text => string text
  | .array items => ElementsForall number string items
  | .object members => MembersForall number string members

def ElementsForall (number : NumberLiteral → Prop) (string : Text → Prop) :
    List (Document Text) → Prop
  | [] => True
  | item :: items => item.Forall number string ∧ ElementsForall number string items

def MembersForall (number : NumberLiteral → Prop) (string : Text → Prop) :
    List (Text × Document Text) → Prop
  | [] => True
  | (key, item) :: members =>
      string key ∧ item.Forall number string ∧ MembersForall number string members

end

/-- The number literals of a document stand for numbers. -/
def InRange (document : Document Text) : Prop :=
  document.Forall NumberLiteral.InRange fun _ => True

mutual

/-- The value that a document denotes.  An object keeps each key at its first place
with its last value; a literal that is too great for a number denotes nothing, and
`null` stands in its place. -/
def value : Document String → Json
  | .null => .null
  | .bool flag => .bool flag
  | .number literal =>
      match literal.number with
      | .ok n => .number n
      | .error _ => .null
  | .string text => .string text
  | .array items => .array (elementValues items)
  | .object members => .object (Members.merged (memberValues members))

def elementValues : List (Document String) → List Json
  | [] => []
  | item :: items => item.value :: elementValues items

def memberValues : List (String × Document String) → List (String × Json)
  | [] => []
  | (key, item) :: members => (key, item.value) :: memberValues members

end

theorem memberValues_eq_map (members : List (String × Document String)) :
    memberValues members = members.map fun member => (member.1, member.2.value) := by
  induction members with
  | nil => rfl
  | cons member members ih => rw [memberValues, ih, List.map_cons]

end Document

namespace Spelling

/-! ## Tokens -/

/-- White space between tokens. -/
def Blank (w : List Char) : Prop :=
  ∀ c ∈ w, c = ' ' ∨ c = '\t' ∨ c = '\n' ∨ c = '\r'

def digitText (digits : List Digit) : List Char :=
  digits.map fun d => Nat.digitChar d.val

inductive WholePart : List Digit → List Char → Prop where
  | zero : WholePart [0] ['0']
  | digits {d : Digit} {ds : List Digit} :
      d ≠ 0 → WholePart (d :: ds) (digitText (d :: ds))

inductive FractionPart : Option (List Digit) → List Char → Prop where
  | absent : FractionPart none []
  | digits {d : Digit} {ds : List Digit} :
      FractionPart (some (d :: ds)) ('.' :: digitText (d :: ds))

inductive ExponentSign : Bool → List Char → Prop where
  | absent : ExponentSign false []
  | plus : ExponentSign false ['+']
  | minus : ExponentSign true ['-']

inductive Exponent : Option ExponentPart → List Char → Prop where
  | absent : Exponent none []
  | digits {mark : Char} {negative : Bool} {sign : List Char} {d : Digit}
      {ds : List Digit} :
      mark = 'e' ∨ mark = 'E' → ExponentSign negative sign →
        Exponent (some ⟨negative, d :: ds⟩) (mark :: (sign ++ digitText (d :: ds)))

inductive Unsigned : NumberLiteral → List Char → Prop where
  | parts {negative : Bool} {whole : List Digit} {fraction : Option (List Digit)}
      {exponent : Option ExponentPart} {w f e : List Char} :
      WholePart whole w → FractionPart fraction f → Exponent exponent e →
        Unsigned ⟨negative, whole, fraction, exponent⟩ (w ++ f ++ e)

/-- The ways to write a number literal. -/
inductive Number : NumberLiteral → List Char → Prop where
  | positive {literal : NumberLiteral} {w : List Char} :
      literal.negative = false → Unsigned literal w → Number literal w
  | negative {literal : NumberLiteral} {w : List Char} :
      literal.negative = true → Unsigned literal w → Number literal ('-' :: w)

/-! ## Strings -/

/-- A hexadecimal digit in either case. -/
def HexDigit (n : ℕ) (c : Char) : Prop :=
  n < 16 ∧ (c = Nat.digitChar n ∨ c = (Nat.digitChar n).toUpper)

theorem hexDigit_digitChar {n : ℕ} (h : n < 16) : HexDigit n (Nat.digitChar n) :=
  ⟨h, .inl rfl⟩

inductive HexCode : ℕ → List Char → Prop where
  | digits {n₁ n₂ n₃ n₄ : ℕ} {c₁ c₂ c₃ c₄ : Char} :
      HexDigit n₁ c₁ → HexDigit n₂ c₂ → HexDigit n₃ c₃ → HexDigit n₄ c₄ →
        HexCode (((n₁ * 16 + n₂) * 16 + n₃) * 16 + n₄) [c₁, c₂, c₃, c₄]

/-- The letters that may follow a backslash, with the characters they stand for. -/
def shortEscapes : List (Char × Char) :=
  [('"', '"'), ('\\', '\\'), ('/', '/'), ('b', '\x08'), ('f', '\x0c'), ('n', '\n'),
    ('r', '\r'), ('t', '\t')]

/-- The characters that may stand in a string as they are. -/
def Plain (c : Char) : Prop := 0x20 ≤ c.toNat ∧ c ≠ '"' ∧ c ≠ '\\'

instance (c : Char) : Decidable (Plain c) :=
  inferInstanceAs (Decidable (_ ∧ _ ∧ _))

def HighSurrogate (n : ℕ) : Prop := 0xD800 ≤ n ∧ n ≤ 0xDBFF

def LowSurrogate (n : ℕ) : Prop := 0xDC00 ≤ n ∧ n ≤ 0xDFFF

/-- The ways to write a character of a string. -/
inductive Character : Char → List Char → Prop where
  | plain {c : Char} : Plain c → Character c [c]
  | short {letter c : Char} : (letter, c) ∈ shortEscapes → Character c ['\\', letter]
  | code {c : Char} {w : List Char} :
      HexCode c.toNat w → Character c ('\\' :: 'u' :: w)
  | pair {c : Char} {high low : ℕ} {w w' : List Char} :
      HighSurrogate high → LowSurrogate low →
        c.toNat = 0x10000 + (high - 0xD800) * 0x400 + (low - 0xDC00) →
        HexCode high w → HexCode low w' →
        Character c ('\\' :: 'u' :: (w ++ '\\' :: 'u' :: w'))

/-- Things written one after another. -/
inductive Run {α : Type} (one : α → List Char → Prop) : List α → List Char → Prop where
  | nil : Run one [] []
  | cons {a : α} {as : List α} {w ws : List Char} :
      one a w → Run one as ws → Run one (a :: as) (w ++ ws)

/-- The ways to write what stands between the quotes of a string. -/
def Content (text : String) (w : List Char) : Prop := Run Character text.toList w

theorem content_of_plain {w : List Char} (h : w.all (Plain ·) = true) :
    Content (String.ofList w) w := by
  unfold Content
  rw [String.toList_ofList]
  induction w with
  | nil => exact .nil
  | cons c w ih =>
      rw [List.all_cons, Bool.and_eq_true, decide_eq_true_eq] at h
      exact Run.cons (.plain h.1) (ih h.2)

/-! ## Documents -/

section Documents

variable {Text : Type} (content : Text → List Char → Prop)

/-- A string literal. -/
inductive Quoted : Text → List Char → Prop where
  | quotes {text : Text} {w : List Char} :
      content text w → Quoted text ('"' :: (w ++ ['"']))

mutual

/-- The ways to write a document, without white space around it. -/
inductive Value : Document Text → List Char → Prop where
  | null : Value .null ['n', 'u', 'l', 'l']
  | true : Value (.bool true) ['t', 'r', 'u', 'e']
  | false : Value (.bool false) ['f', 'a', 'l', 's', 'e']
  | number {literal : NumberLiteral} {w : List Char} :
      Number literal w → Value (.number literal) w
  | string {text : Text} {w : List Char} :
      Quoted content text w → Value (.string text) w
  | emptyArray {w : List Char} : Blank w → Value (.array []) ('[' :: (w ++ [']']))
  | array {items : List (Document Text)} {w : List Char} :
      Elements items w → Value (.array items) ('[' :: (w ++ [']']))
  | emptyObject {w : List Char} :
      Blank w → Value (.object []) ('\x7b' :: (w ++ ['\x7d']))
  | object {members : List (Text × Document Text)} {w : List Char} :
      Members members w → Value (.object members) ('\x7b' :: (w ++ ['\x7d']))

/-- The ways to write a document with white space around it. -/
inductive Element : Document Text → List Char → Prop where
  | padded {before w after : List Char} {item : Document Text} :
      Blank before → Value item w → Blank after → Element item (before ++ w ++ after)

inductive Elements : List (Document Text) → List Char → Prop where
  | last {item : Document Text} {w : List Char} : Element item w → Elements [item] w
  | more {item : Document Text} {items : List (Document Text)} {w ws : List Char} :
      Element item w → Elements items ws → Elements (item :: items) (w ++ ',' :: ws)

inductive Member : Text × Document Text → List Char → Prop where
  | pair {before k after w : List Char} {key : Text} {item : Document Text} :
      Blank before → Quoted content key k → Blank after → Element item w →
        Member (key, item) (before ++ k ++ after ++ ':' :: w)

inductive Members : List (Text × Document Text) → List Char → Prop where
  | last {member : Text × Document Text} {w : List Char} :
      Member member w → Members [member] w
  | more {member : Text × Document Text} {members : List (Text × Document Text)}
      {w ws : List Char} :
      Member member w → Members members ws →
        Members (member :: members) (w ++ ',' :: ws)

end

end Documents

end Spelling

/-- Whether a text writes a document. -/
def Document.WrittenAs (document : Document String) (text : String) : Prop :=
  Spelling.Element Spelling.Content document text.toList

end JsonReport
