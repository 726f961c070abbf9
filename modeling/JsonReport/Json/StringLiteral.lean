import JsonReport.Json.Scan
import JsonReport.Text.Utf8

/-!
# String literals

Between its quotes a string holds octets as they are and escapes.  An escape by code point stands
for one character; two of them make a pair where the first is a high surrogate and the second a low
one, and no other surrogate is allowed.  The content is read as octets and becomes characters at
the closing quote, because only there it is known to be complete.
-/

namespace JsonReport

/-- How the octets of a document came: as a text, whose strings need no further check, or raw. -/
inductive Origin where
  | text
  | raw
deriving DecidableEq, Repr

/-- The characters of a string's content, or the length of its longest valid beginning. -/
def Origin.characters (origin : Origin) (content : Octets) : Except Nat (List Char) :=
  match origin with
  | .text => .ok (Utf8.decodeLossy content)
  | .raw => Utf8.decode content

def hexDigit? (b : UInt8) : Option Nat :=
  if ascii '0' ≤ b ∧ b ≤ ascii '9' then some (b.toNat - 48)
  else if ascii 'a' ≤ b ∧ b ≤ ascii 'f' then some (b.toNat - 87)
  else if ascii 'A' ≤ b ∧ b ≤ ascii 'F' then some (b.toNat - 55)
  else none

def hexValue? (a b c d : UInt8) : Option Nat := do
  let a ← hexDigit? a
  let b ← hexDigit? b
  let c ← hexDigit? c
  let d ← hexDigit? d
  return ((a * 16 + b) * 16 + c) * 16 + d

def readHex (s : Octets) : Except Fault (Nat × Octets) :=
  match s with
  | a :: b :: c :: d :: r =>
    match hexValue? a b c d with
    | some n => .ok (n, r)
    | none => .error (.leaving .invalidEscape r)
  | _ => .error (.leaving .endOfString [])

/-- The high surrogates, which begin a pair. -/
def isHighSurrogate (n : Nat) : Bool := 0xD800 ≤ n && n ≤ 0xDBFF

/-- The low surrogates, which end a pair. -/
def isLowSurrogate (n : Nat) : Bool := 0xDC00 ≤ n && n ≤ 0xDFFF

def pairCode (high low : Nat) : Nat := 0x10000 + (high - 0xD800) * 0x400 + (low - 0xDC00)

/-- One octet of a pair's second escape. -/
def readPairMark (mark : Char) (s : Octets) : Except Fault Octets :=
  match s with
  | [] => .error (.leaving .endOfString [])
  | b :: r => if b = ascii mark then .ok r else .error (.leaving .unfinishedPair r)

/-- The second escape of a pair that began with `high`. -/
def readPair (high : Nat) (s : Octets) : Except Fault (Char × Octets) :=
  match readPairMark '\\' s with
  | .error fault => .error fault
  | .ok s₁ =>
    match readPairMark 'u' s₁ with
    | .error fault => .error fault
    | .ok s₂ =>
      match readHex s₂ with
      | .error fault => .error fault
      | .ok (low, r) =>
        if isLowSurrogate low then .ok (Char.ofNat (pairCode high low), r)
        else .error (.leaving .loneSurrogate r)

def readCodePoint (s : Octets) : Except Fault (Char × Octets) :=
  match readHex s with
  | .error fault => .error fault
  | .ok (n, r) =>
    if isLowSurrogate n then .error (.leaving .loneSurrogate r)
    else if isHighSurrogate n then readPair n r
    else .ok (Char.ofNat n, r)

def letterEscape? (b : UInt8) : Option Char :=
  if b = ascii '"' then some '"'
  else if b = ascii '\\' then some '\\'
  else if b = ascii '/' then some '/'
  else if b = ascii 'b' then some '\x08'
  else if b = ascii 'f' then some '\x0c'
  else if b = ascii 'n' then some '\n'
  else if b = ascii 'r' then some '\r'
  else if b = ascii 't' then some '\t'
  else none

/-- The character of an escape, after its backslash. -/
def readEscape (s : Octets) : Except Fault (Char × Octets) :=
  match s with
  | [] => .error (.leaving .endOfString [])
  | b :: r =>
    match letterEscape? b with
    | some c => .ok (c, r)
    | none => if b = ascii 'u' then readCodePoint r else .error (.leaving .invalidEscape r)

theorem readHex_length {s rest : Octets} {n : Nat} (h : readHex s = .ok (n, rest)) :
    rest.length ≤ s.length := by
  unfold readHex at h
  split at h
  · next r =>
    split at h
    · simp only [Except.ok.injEq, Prod.mk.injEq] at h
      simp only [← h.2, List.length_cons]
      omega
    · simp at h
  · simp at h

theorem readPairMark_length {mark : Char} {s rest : Octets} (h : readPairMark mark s = .ok rest) :
    rest.length ≤ s.length := by
  cases s with
  | nil => simp [readPairMark] at h
  | cons b r =>
    rw [readPairMark] at h
    split at h
    · simp_all
    · simp at h

theorem readPair_length {high : Nat} {s rest : Octets} {c : Char}
    (h : readPair high s = .ok (c, rest)) : rest.length ≤ s.length := by
  rw [readPair] at h
  split at h
  · simp at h
  · next h₁ =>
    split at h
    · simp at h
    · next h₂ =>
      split at h
      · simp at h
      · next h₃ =>
        split at h
        · have := readPairMark_length h₁
          have := readPairMark_length h₂
          have := readHex_length h₃
          simp only [Except.ok.injEq, Prod.mk.injEq] at h
          rw [← h.2]
          omega
        · simp at h

theorem readCodePoint_length {s rest : Octets} {c : Char} (h : readCodePoint s = .ok (c, rest)) :
    rest.length ≤ s.length := by
  rw [readCodePoint] at h
  split at h
  · simp at h
  · next hhex =>
    split at h
    · simp at h
    · split at h
      · exact Nat.le_trans (readPair_length h) (readHex_length hhex)
      · simp only [Except.ok.injEq, Prod.mk.injEq] at h
        exact h.2 ▸ readHex_length hhex

theorem readEscape_length {s rest : Octets} {c : Char} (h : readEscape s = .ok (c, rest)) :
    rest.length < s.length := by
  cases s with
  | nil => simp [readEscape] at h
  | cons b r =>
    rw [readEscape] at h
    split at h
    · simp only [Except.ok.injEq, Prod.mk.injEq] at h
      simp [h.2]
    · split at h
      · exact Nat.lt_succ_of_le (readCodePoint_length h)
      · simp at h

/-- The content of a string up to its closing quote, with what follows the quote. -/
def readContent (s : Octets) : Reading s Octets :=
  match s with
  | [] => .error (.leaving .endOfString [])
  | b :: r =>
    if b = ascii '"' then .ok ⟨[], r, Nat.lt_succ_self _⟩
    else if b = ascii '\\' then
      match h : readEscape r with
      | .error fault => .error fault
      | .ok (c, r') =>
        have hr : r'.length < r.length := readEscape_length h
        match readContent r' with
        | .error fault => .error fault
        | .ok content =>
          .ok (((content.map (String.utf8EncodeChar c ++ ·)).past hr).cons b)
    else if b < 0x20 then .error (.leaving .controlCharacter r)
    else
      match readContent r with
      | .error fault => .error fault
      | .ok content => .ok ((content.map (b :: ·)).cons b)
termination_by s.length

def readString (origin : Origin) (s : Octets) : Reading s String :=
  match readContent s with
  | .error fault => .error fault
  | .ok content =>
    -- Raw octets are checked only here, when the closing quote has been reached.
    match origin.characters content.value with
    | .ok characters => .ok (content.map fun _ => String.ofList characters)
    | .error valid => .error ⟨.invalidCodePoint, content.rest, content.value.length - valid⟩

end JsonReport
