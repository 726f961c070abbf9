import JsonReport.Json.Fault

/-!
# Between the tokens

White space between tokens is space, tab, line feed and carriage return.  The first octet after it
tells which kind of value begins there, if any; inside a container it tells whether the container
ends or goes on.  A comma has to be followed by another item, which a strict reading checks at the
comma and a loose one leaves to the item.
-/

namespace JsonReport

def isBlank (b : UInt8) : Bool :=
  b = ascii ' ' || b = ascii '\t' || b = ascii '\n' || b = ascii '\r'

/-- The first octet that is not white space. -/
def nextMark (s : Octets) : Option (Taken s UInt8) :=
  match s with
  | [] => none
  | b :: r =>
    if isBlank b then (nextMark r).map (·.cons b)
    else some ⟨b, r, Nat.lt_succ_self _⟩

inductive Scalar where
  | null
  | true
  | false
  | minus
  | digit
  | quote
deriving DecidableEq, Repr

inductive Container where
  | array
  | object
deriving DecidableEq, Repr

inductive Opening where
  | scalar (kind : Scalar)
  | container (kind : Container)
deriving DecidableEq, Repr

def opening? (b : UInt8) : Option Opening :=
  if b = ascii 'n' then some (.scalar .null)
  else if b = ascii 't' then some (.scalar .true)
  else if b = ascii 'f' then some (.scalar .false)
  else if b = ascii '-' then some (.scalar .minus)
  else if ascii '0' ≤ b ∧ b ≤ ascii '9' then some (.scalar .digit)
  else if b = ascii '"' then some (.scalar .quote)
  else if b = ascii '[' then some (.container .array)
  else if b = ascii '\x7b' then some (.container .object)
  else none

namespace Container

def close : Container → UInt8
  | .array => ascii ']'
  | .object => ascii '\x7d'

/-- The cause where the text ends between the items of a container. -/
def unfinished : Container → Cause
  | .array => .endOfList
  | .object => .endOfObject

/-- The cause where something else follows an item. -/
def unexpected : Container → Cause
  | .array => .expectedListCommaOrEnd
  | .object => .expectedObjectCommaOrEnd

/-- Whether a container that has just been opened ends at once. -/
def endsAtOnce (container : Container) (s : Octets) : Except Fault (Option (Taken s Unit)) :=
  match nextMark s with
  | none => .error (.leaving container.unfinished [])
  | some mark => .ok (if mark.value = container.close then some (mark.map fun _ => ()) else none)

inductive Continuation where
  | close
  | comma
deriving DecidableEq, Repr

def afterItem (container : Container) (s : Octets) : Reading s Continuation :=
  match nextMark s with
  | none => .error (.leaving container.unfinished [])
  | some mark =>
    if mark.value = container.close then .ok (mark.map fun _ => .close)
    else if mark.value = ascii ',' then .ok (mark.map fun _ => .comma)
    else .error (.leaving container.unexpected mark.rest)

/-- Refuses the end of a container at a place where an item has to stand. -/
def refuseEnd (container : Container) (s : Octets) : Except Fault Unit :=
  match nextMark s with
  | none => .ok ()
  | some mark =>
    if mark.value = container.close then .error (.leaving .trailingComma mark.rest) else .ok ()

/-- The mark after an item, where a comma must not be followed by the end. -/
def afterItemStrict (container : Container) (s : Octets) : Reading s Continuation :=
  match container.afterItem s with
  | .error fault => .error fault
  | .ok next =>
    match next.value with
    | .close => .ok next
    | .comma =>
      match container.refuseEnd next.rest with
      | .error fault => .error fault
      | .ok () => .ok next

end Container

def readColon (s : Octets) : Reading s Unit :=
  match nextMark s with
  | none => .error (.leaving .endOfObject [])
  | some mark =>
    if mark.value = ascii ':' then .ok (mark.map fun _ => ())
    else .error (.leaving .expectedColon mark.rest)

def readLetters (letters : List Char) (s : Octets) : Except Fault Octets :=
  match letters, s with
  | [], s => .ok s
  | _ :: _, [] => .error (.leaving .endOfValue [])
  | c :: letters, b :: s =>
    if b = ascii c then readLetters letters s else .error (.leaving .expectedWord s)

theorem readLetters_length {letters : List Char} {s rest : Octets}
    (h : readLetters letters s = .ok rest) : rest.length ≤ s.length := by
  induction letters generalizing s with
  | nil => simp_all [readLetters]
  | cons c letters ih =>
    cases s with
    | nil => simp [readLetters] at h
    | cons b s =>
      rw [readLetters] at h
      split at h
      · exact Nat.le_succ_of_le (ih h)
      · simp at h

/-- The letters of a word after its first one, and what the word means. -/
def readWord {α : Type} (letters : List Char) (meaning : α) (b : UInt8) (r : Octets) :
    Reading (b :: r) α :=
  match h : readLetters letters r with
  | .error fault => .error fault
  | .ok rest => .ok ⟨meaning, rest, Nat.lt_succ_of_le (readLetters_length h)⟩

end JsonReport
