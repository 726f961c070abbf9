import JsonReport.Binary64.Scaled
import JsonReport.Json.Scan

/-!
# Number literals

A number literal is a sign, the digits before the point, and possibly digits after a point and an
exponent.  Reading one keeps its digits; what number it stands for is decided afterwards, from the
digits alone.

Digits are gathered into a significand as long as it stays below `2 ^ 64`.  Before the point every
digit left out is a power of ten more; after the point every digit gathered is one less, and the
rest is dropped.  A literal without point and exponent whose digits all fit is a whole number where
a word holds it.
-/

namespace JsonReport

abbrev Digit := Fin 10

def digit? (b : UInt8) : Option Digit :=
  if h : ascii '0' ≤ b ∧ b ≤ ascii '9' then
    some ⟨b.toNat - 48, by
      have h2 : b.toNat ≤ 57 := UInt8.le_iff_toNat_le.1 h.2
      omega⟩
  else none

def Digit.octet (d : Digit) : UInt8 := ascii '0' + d.val.toUInt8

structure ExponentPart where
  negative : Bool
  digits : List Digit
deriving DecidableEq, Repr

structure NumberLiteral where
  negative : Bool
  whole : List Digit
  fraction : Option (List Digit)
  exponent : Option ExponentPart
deriving DecidableEq, Repr

/-- Gathers digits while the number stays below `limit`; yields it with the digits left out. -/
def gather (limit : Nat) : Nat → List Digit → Nat × List Digit
  | n, [] => (n, [])
  | n, d :: digits =>
    if 10 * n + d.val < limit then gather limit (10 * n + d.val) digits else (n, d :: digits)

namespace NumberLiteral

def significandLimit : Nat := 0x10000000000000000

def exponentLimit : Nat := 0x80000000

/-- The whole number of a literal, where it stands for one. -/
def whole? (literal : NumberLiteral) : Option WholeNumber :=
  match literal.fraction, literal.exponent, gather significandLimit 0 literal.whole with
  | none, none, (n, []) =>
    if literal.negative then
      if n = 0 then none else WholeNumber.ofInt? (-n)
    else
      WholeNumber.ofInt? n
  | _, _, _ => none

/-- The significand of a literal with the power of ten that its digits leave to it. -/
def scaled (literal : NumberLiteral) : Nat × Int :=
  let digits := literal.fraction.getD []
  let whole := gather significandLimit 0 literal.whole
  let all := gather significandLimit whole.1 digits
  (all.1, whole.2.length - (digits.length - all.2.length : Nat))

/-- The double of a literal.  It fails on a number that is too great, with the digits that need no
longer be looked at: an exponent shows by itself when it reaches its limit. -/
def double (literal : NumberLiteral) : Except (List Digit) Binary64 :=
  let (significand, scale) := literal.scaled
  let finish (power : Int) : Except (List Digit) Binary64 :=
    match Binary64.ofScaled? literal.negative significand power with
    | some x => .ok x
    | none => .error []
  match literal.exponent with
  | none => finish scale
  | some exponent =>
    match gather exponentLimit 0 exponent.digits with
    | (power, []) => finish (if exponent.negative then scale - power else scale + power)
    | (_, _ :: unseen) =>
      if significand ≠ 0 && !exponent.negative then .error unseen
      else .ok (.zero literal.negative)

def number (literal : NumberLiteral) : Except (List Digit) Number :=
  match literal.whole? with
  | some n => .ok (.whole n)
  | none => literal.double.map .double

end NumberLiteral

def takeDigits (s : Octets) : List Digit × Octets :=
  match s with
  | [] => ([], [])
  | b :: r =>
    match digit? b with
    | none => ([], b :: r)
    | some d => (d :: (takeDigits r).1, (takeDigits r).2)

theorem takeDigits_length (s : Octets) : (takeDigits s).2.length ≤ s.length := by
  induction s with
  | nil => simp [takeDigits]
  | cons b r ih =>
    rw [takeDigits]
    split
    · simp
    · exact Nat.le_succ_of_le ih

/-- At least one digit; where the text ends instead, the cause is `atEnd`. -/
def readDigits (atEnd : Cause) (s : Octets) : Except Fault (List Digit × Octets) :=
  match s with
  | [] => .error (.leaving atEnd [])
  | b :: r =>
    match digit? b with
    | none => .error (.leaving .invalidNumber r)
    | some d => .ok (d :: (takeDigits r).1, (takeDigits r).2)

/-- The digits before the point: a single zero, or digits that begin with another one. -/
def readWholePart (atEnd : Cause) (s : Octets) : Except Fault (List Digit × Octets) :=
  match readDigits atEnd s with
  | .ok (0 :: _ :: _, _) => .error (.leaving .invalidNumber (s.drop 2))
  | outcome => outcome

def readFraction (atEnd : Cause) (s : Octets) : Except Fault (Option (List Digit) × Octets) :=
  match s with
  | [] => .ok (none, [])
  | b :: r =>
    if b = ascii '.' then
      match readDigits atEnd r with
      | .error fault => .error fault
      | .ok (digits, rest) => .ok (some digits, rest)
    else .ok (none, b :: r)

/-- Whether a minus sign stands here, with what follows the sign if there is one. -/
def readSign (s : Octets) : Bool × Octets :=
  match s with
  | [] => (false, [])
  | b :: r =>
    if b = ascii '-' then (true, r) else if b = ascii '+' then (false, r) else (false, b :: r)

def readExponent (atEnd : Cause) (s : Octets) : Except Fault (Option ExponentPart × Octets) :=
  match s with
  | [] => .ok (none, [])
  | b :: r =>
    if b = ascii 'e' ∨ b = ascii 'E' then
      match readDigits atEnd (readSign r).2 with
      | .error fault => .error fault
      | .ok (digits, rest) => .ok (some ⟨(readSign r).1, digits⟩, rest)
    else .ok (none, b :: r)

theorem readDigits_length {atEnd : Cause} {s rest : Octets} {digits : List Digit}
    (h : readDigits atEnd s = .ok (digits, rest)) : rest.length < s.length := by
  cases s with
  | nil => simp [readDigits] at h
  | cons b r =>
    rw [readDigits] at h
    split at h
    · simp at h
    · simp only [Except.ok.injEq, Prod.mk.injEq] at h
      rw [← h.2]
      exact Nat.lt_succ_of_le (takeDigits_length r)

theorem readWholePart_length {atEnd : Cause} {s rest : Octets} {digits : List Digit}
    (h : readWholePart atEnd s = .ok (digits, rest)) : rest.length < s.length := by
  rw [readWholePart] at h
  split at h
  · simp at h
  · exact readDigits_length h

theorem readFraction_length {atEnd : Cause} {s rest : Octets} {digits : Option (List Digit)}
    (h : readFraction atEnd s = .ok (digits, rest)) : rest.length ≤ s.length := by
  cases s with
  | nil => simp_all [readFraction]
  | cons b r =>
    rw [readFraction] at h
    split at h
    · split at h
      · simp at h
      · next hdigits =>
        simp only [Except.ok.injEq, Prod.mk.injEq] at h
        exact h.2 ▸ Nat.le_succ_of_le (Nat.le_of_lt (readDigits_length hdigits))
    · simp_all

theorem readSign_length (s : Octets) : (readSign s).2.length ≤ s.length := by
  cases s with
  | nil => simp [readSign]
  | cons b r =>
    rw [readSign]
    split
    · simp
    · split <;> simp

theorem readExponent_length {atEnd : Cause} {s rest : Octets} {exponent : Option ExponentPart}
    (h : readExponent atEnd s = .ok (exponent, rest)) : rest.length ≤ s.length := by
  cases s with
  | nil => simp_all [readExponent]
  | cons b r =>
    rw [readExponent] at h
    split at h
    · split at h
      · simp at h
      · next hdigits =>
        simp only [Except.ok.injEq, Prod.mk.injEq] at h
        have hsign := readSign_length r
        have := readDigits_length hdigits
        rw [← h.2, List.length_cons]
        omega
    · simp_all

/-- A number literal after its sign; where the text ends and a digit is wanted, the cause is
`atEnd`. -/
def readLiteral (atEnd : Cause) (negative : Bool) (s : Octets) : Reading s NumberLiteral :=
  match hwhole : readWholePart atEnd s with
  | .error fault => .error fault
  | .ok (whole, s₁) =>
    match hfraction : readFraction atEnd s₁ with
    | .error fault => .error fault
    | .ok (fraction, s₂) =>
      match hexponent : readExponent atEnd s₂ with
      | .error fault => .error fault
      | .ok (exponent, s₃) =>
        .ok ⟨⟨negative, whole, fraction, exponent⟩, s₃, by
          have := readWholePart_length hwhole
          have := readFraction_length hfraction
          have := readExponent_length hexponent
          omega⟩

def readNumber (negative : Bool) (s : Octets) : Reading s Number :=
  match readLiteral .endOfValue negative s with
  | .error fault => .error fault
  | .ok literal =>
    match literal.value.number with
    | .ok n => .ok (literal.map fun _ => n)
    | .error unseen => .error (.leaving .numberOutOfRange (unseen.map Digit.octet ++ literal.rest))

end JsonReport
