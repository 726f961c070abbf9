import JsonReport.Text.Octets

/-!
# UTF-8

The first octet of a character says how many octets follow it, in which range the first of these
stands, and which bits it brings itself; every later octet stands in `80` to `BF`.  The narrower
ranges rule out long forms, surrogates and what lies above `10FFFF`.  Where a text breaks off or an
octet stands outside its range, the octets up to there are one broken part: reading text for
display puts one `U+FFFD` in its place.
-/

namespace JsonReport.Utf8

def encode (text : String) : Octets :=
  text.toList.flatMap String.utf8EncodeChar

structure Lead where
  following : Nat
  low : UInt8
  high : UInt8
  bits : Nat

/-- What an octet announces, where it can stand first. -/
def lead? (b : UInt8) : Option Lead :=
  if b < 0x80 then some ⟨0, 0x80, 0xBF, b.toNat⟩
  else if b < 0xC2 then none
  else if b < 0xE0 then some ⟨1, 0x80, 0xBF, b.toNat - 0xC0⟩
  else if b = 0xE0 then some ⟨2, 0xA0, 0xBF, 0⟩
  else if b = 0xED then some ⟨2, 0x80, 0x9F, 0xD⟩
  else if b < 0xF0 then some ⟨2, 0x80, 0xBF, b.toNat - 0xE0⟩
  else if b = 0xF0 then some ⟨3, 0x90, 0xBF, 0⟩
  else if b < 0xF4 then some ⟨3, 0x80, 0xBF, b.toNat - 0xF0⟩
  else if b = 0xF4 then some ⟨3, 0x80, 0x8F, 4⟩
  else none

/-- The outcome of reading one character: its code point with what is left, or the number of
octets of the broken part with what is left after it. -/
inductive Step where
  | character (code : Nat) (rest : Octets)
  | broken (width : Nat) (rest : Octets)

def Step.rest : Step → Octets
  | .character _ rest => rest
  | .broken _ rest => rest

/-- Reads the octets that follow a first one; `width` of them have been seen. -/
def follow : Nat → UInt8 → UInt8 → Nat → Nat → Octets → Step
  | 0, _, _, bits, _, s => .character bits s
  | _ + 1, _, _, _, width, [] => .broken width []
  | n + 1, low, high, bits, width, b :: s =>
    if low ≤ b ∧ b ≤ high then
      follow n 0x80 0xBF (bits * 64 + (b.toNat - 0x80)) (width + 1) s
    else
      .broken width (b :: s)

def step (b : UInt8) (s : Octets) : Step :=
  match lead? b with
  | none => .broken 1 s
  | some lead => follow lead.following lead.low lead.high lead.bits 1 s

theorem follow_rest_length (n : Nat) (low high : UInt8) (bits width : Nat) (s : Octets) :
    (follow n low high bits width s).rest.length ≤ s.length := by
  induction n generalizing low high bits width s with
  | zero => simp [follow, Step.rest]
  | succ n ih =>
    cases s with
    | nil => simp [follow, Step.rest]
    | cons b s =>
      rw [follow]
      split
      · exact Nat.le_succ_of_le (ih ..)
      · simp [Step.rest]

theorem step_rest_length (b : UInt8) (s : Octets) : (step b s).rest.length ≤ s.length := by
  rw [step]
  split
  · simp [Step.rest]
  · exact follow_rest_length ..

/-- The characters of a text and, where it is not valid throughout, the length of the longest
valid beginning. -/
def decode (s : Octets) : Except Nat (List Char) :=
  match s with
  | [] => .ok []
  | b :: s =>
    match h : step b s with
    | .broken _ _ => .error 0
    | .character code rest =>
      have : rest.length ≤ s.length := by simpa [h, Step.rest] using step_rest_length b s
      match decode rest with
      | .ok characters => .ok (Char.ofNat code :: characters)
      | .error valid => .error ((s.length + 1 - rest.length) + valid)
termination_by s.length
decreasing_by simp; omega

/-- The characters of a text, each broken part shown as one `U+FFFD`. -/
def decodeLossy (s : Octets) : List Char :=
  match s with
  | [] => []
  | b :: s =>
    match h : step b s with
    | .character code rest =>
      have : rest.length ≤ s.length := by simpa [h, Step.rest] using step_rest_length b s
      Char.ofNat code :: decodeLossy rest
    | .broken _ rest =>
      have : rest.length ≤ s.length := by simpa [h, Step.rest] using step_rest_length b s
      '\uFFFD' :: decodeLossy rest
termination_by s.length
decreasing_by all_goals simp; omega

def display (s : Octets) : String := String.ofList (decodeLossy s)

end JsonReport.Utf8
