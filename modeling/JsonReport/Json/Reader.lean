import JsonReport.Json.NumberLiteral
import JsonReport.Json.StringLiteral
import JsonReport.Json.Value

/-!
# Reading a value

A value is read from left to right, without looking back: a scalar by its own reader, a container
as its items one after another.  `room` says how many more containers may be opened inside each
other.  The two loops over items begin where an item has to stand, so that they meet what follows
an opening bracket and what follows a comma alike.
-/

namespace JsonReport

/-- How deep the containers of a document may nest. -/
def greatestDepth : Nat := 127

def readScalar (origin : Origin) (kind : Scalar) (b : UInt8) (r : Octets) : Reading (b :: r) Json :=
  match kind with
  | .null => readWord ['u', 'l', 'l'] .null b r
  | .true => readWord ['r', 'u', 'e'] (.bool true) b r
  | .false => readWord ['a', 'l', 's', 'e'] (.bool false) b r
  | .minus =>
    match readNumber true r with
    | .error fault => .error fault
    | .ok n => .ok ((n.map .number).cons b)
  | .digit =>
    match readNumber false (b :: r) with
    | .error fault => .error fault
    | .ok n => .ok (n.map .number)
  | .quote =>
    match readString origin r with
    | .error fault => .error fault
    | .ok text => .ok ((text.map .string).cons b)

/-- The key of a member, up to its closing quote. -/
def readKey (origin : Origin) (s : Octets) : Reading s String :=
  match nextMark s with
  | none => .error (.leaving .endOfValue [])
  | some mark =>
    if mark.value = ascii '"' then
      match readString origin mark.rest with
      | .error fault => .error fault
      | .ok key => .ok (key.past mark.shorter)
    else .error (.leaving .keyMustBeString mark.rest)

mutual

def readValue (origin : Origin) (room : Nat) (s : Octets) : Reading s Json :=
  match nextMark s with
  | none => .error (.leaving .endOfValue [])
  | some ⟨b, r, hr⟩ =>
    match opening? b with
    | none => .error (.leaving .expectedValue r)
    | some (.scalar kind) =>
      match readScalar origin kind b r with
      | .error fault => .error fault
      | .ok value => .ok (value.found hr)
    | some (.container container) =>
      -- A container takes room before it is known whether anything is in it.
      match room with
      | 0 => .error (.leaving .tooDeep r)
      | room + 1 =>
        match container, container.endsAtOnce r with
        | _, .error fault => .error fault
        | .array, .ok (some closed) =>
          .ok ((closed.map fun _ => .array []).past hr)
        | .object, .ok (some closed) =>
          .ok ((closed.map fun _ => .object []).past hr)
        | .array, .ok none =>
          match readElements origin room r with
          | .error fault => .error fault
          | .ok items => .ok ((items.map .array).past hr)
        | .object, .ok none =>
          match readMembers origin room r with
          | .error fault => .error fault
          | .ok members => .ok ((members.map .ofMembers).past hr)
termination_by 2 * s.length
decreasing_by all_goals omega

/-- The elements of an array from here to its end. -/
def readElements (origin : Origin) (room : Nat) (s : Octets) : Reading s (List Json) :=
  match readValue origin room s with
  | .error fault => .error fault
  | .ok ⟨item, r, hr⟩ =>
    match Container.array.afterItemStrict r with
    | .error fault => .error fault
    | .ok ⟨.close, r', hr'⟩ => .ok (Taken.past ⟨[item], r', hr'⟩ hr)
    | .ok ⟨.comma, r', hr'⟩ =>
      match readElements origin room r' with
      | .error fault => .error fault
      | .ok items => .ok (((items.map (item :: ·)).past hr').past hr)
termination_by 2 * s.length + 1
decreasing_by all_goals omega

def readMembers (origin : Origin) (room : Nat) (s : Octets) : Reading s (List (String × Json)) :=
  match readKey origin s with
  | .error fault => .error fault
  | .ok ⟨key, r₁, h₁⟩ =>
    match readColon r₁ with
    | .error fault => .error fault
    | .ok ⟨_, r₂, h₂⟩ =>
      match readValue origin room r₂ with
      | .error fault => .error fault
      | .ok ⟨value, r₃, h₃⟩ =>
        match Container.object.afterItemStrict r₃ with
        | .error fault => .error fault
        | .ok ⟨.close, r₄, h₄⟩ =>
          .ok (((Taken.past ⟨[(key, value)], r₄, h₄⟩ h₃).past h₂).past h₁)
        | .ok ⟨.comma, r₄, h₄⟩ =>
          match readMembers origin room r₄ with
          | .error fault => .error fault
          | .ok members =>
            .ok (((((members.map ((key, value) :: ·)).past h₄).past h₃).past h₂).past h₁)
termination_by 2 * s.length + 1
decreasing_by all_goals omega

end

/-- Reads a whole text: what is read by `read`, and nothing but white space after it. -/
def readWhole {α : Type} (read : (s : Octets) → Reading s α) (s : Octets) : Except Fault α :=
  match read s with
  | .error fault => .error fault
  | .ok taken =>
    match nextMark taken.rest with
    | none => .ok taken.value
    | some mark => .error (.leaving .trailingCharacters mark.rest)

def readDocument (origin : Origin) (s : Octets) : Except Fault Json :=
  readWhole (readValue origin greatestDepth) s

end JsonReport
