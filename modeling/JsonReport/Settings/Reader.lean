import JsonReport.Json.Skipper
import JsonReport.Settings.Record

/-!
# Reading the settings record

The record is read from an object, whose members may come in any order and may have any other keys,
or from an array of at most three elements in the order of the record.  Where a value of another
kind stands, a scalar is read first, so that its own faults come before the mismatch, and a
container is not entered.

A setting that comes twice is noticed at its second key.  The place shown lies after the white
space behind that key, and behind the closing brace if one stands there.
-/

namespace JsonReport

/-- What a value counts as where another kind is wanted. -/
def Json.found : Json → Found
  | .null => .null
  | .bool flag => .bool flag
  | .number n => .number n
  | .string text => .string text
  | .array _ => .sequence
  | .object _ => .map

/-- The fault of a value that begins with `b` where another kind is wanted. -/
def mismatch (origin : Origin) (wanted : Wanted) (b : UInt8) (r : Octets) : Fault :=
  match opening? b with
  | none => .leaving .expectedValue r
  | some (.container .array) => .leaving (.wrongType .sequence wanted) (b :: r)
  | some (.container .object) => .leaving (.wrongType .map wanted) (b :: r)
  | some (.scalar kind) =>
    match readScalar origin kind b r with
    | .error fault => fault
    | .ok value => .leaving (.wrongType value.value.found wanted) value.rest

def readBool (origin : Origin) (s : Octets) : Reading s Bool :=
  match nextMark s with
  | none => .error (.leaving .endOfValue [])
  | some ⟨b, r, hr⟩ =>
    let flag : Reading (b :: r) Bool :=
      match opening? b with
      | some (.scalar .true) => readWord ['r', 'u', 'e'] true b r
      | some (.scalar .false) => readWord ['a', 'l', 's', 'e'] false b r
      | _ => .error (mismatch origin .boolean b r)
    match flag with
    | .error fault => .error fault
    | .ok flag => .ok (flag.found hr)

def readText (origin : Origin) (s : Octets) : Reading s String :=
  match nextMark s with
  | none => .error (.leaving .endOfValue [])
  | some ⟨b, r, hr⟩ =>
    if b = ascii '"' then
      match readString origin r with
      | .error fault => .error fault
      | .ok text => .ok (text.past hr)
    else .error (mismatch origin .string b r)

namespace Settings

/-- The value of a setting, put into the draft. -/
def readField (origin : Origin) (draft : Draft) (field : Field) (s : Octets) : Reading s Draft :=
  match field with
  | .enabled =>
    match readBool origin s with
    | .error fault => .error fault
    | .ok flag => .ok (flag.map fun flag => { draft with enabled := some flag })
  | .hostname =>
    match readText origin s with
    | .error fault => .error fault
    | .ok text => .ok (text.map fun text => { draft with hostname := some text })
  | .port =>
    match readText origin s with
    | .error fault => .error fault
    | .ok text => .ok (text.map fun text => { draft with port := some text })

/-- The fault of a setting whose key has come before; `s` is what follows the key. -/
def repeated (field : Field) (s : Octets) : Fault :=
  .leaving (.duplicate field)
    (match nextMark s with
    | none => []
    | some mark =>
      if mark.value = Container.object.close then mark.rest else mark.value :: mark.rest)

def readMemberValue (origin : Origin) (draft : Draft) (key : String) (s : Octets) :
    Reading s Draft :=
  let pastColon (read : (r : Octets) → Reading r Draft) : Reading s Draft :=
    match readColon s with
    | .error fault => .error fault
    | .ok colon =>
      match read colon.rest with
      | .error fault => .error fault
      | .ok draft => .ok (draft.past colon.shorter)
  match Field.ofKey? key with
  | none =>
    pastColon fun r =>
      match skipValue r with
      | .error fault => .error fault
      | .ok skipped => .ok (skipped.map fun _ => draft)
  | some field =>
    -- A key that comes again is refused whether or not a colon follows it.
    if draft.has field then .error (repeated field s) else pastColon (readField origin draft field)

/-- The members of the record from here to its end. -/
def readFields (origin : Origin) (draft : Draft) (s : Octets) : Reading s Draft :=
  match readKey origin s with
  | .error fault => .error fault
  | .ok ⟨key, r₁, h₁⟩ =>
    match readMemberValue origin draft key r₁ with
    | .error fault => .error fault
    | .ok ⟨draft, r₂, h₂⟩ =>
      match Container.object.afterItemStrict r₂ with
      | .error fault => .error fault
      | .ok ⟨.close, r₃, h₃⟩ => .ok ((Taken.past ⟨draft, r₃, h₃⟩ h₂).past h₁)
      | .ok ⟨.comma, r₃, h₃⟩ =>
        match readFields origin draft r₃ with
        | .error fault => .error fault
        | .ok draft => .ok (((draft.past h₃).past h₂).past h₁)
termination_by s.length
decreasing_by omega

/-- The end of the array, where all settings have come. -/
def readArrayEnd (s : Octets) : Reading s Unit :=
  match nextMark s with
  | none => .error (.leaving .endOfList [])
  | some mark =>
    if mark.value = ascii ']' then .ok (mark.map fun _ => ())
    else if mark.value = ascii ',' then
      match Container.array.refuseEnd mark.rest with
      | .error fault => .error fault
      | .ok () =>
        .error (.leaving .trailingCharacters
          (match nextMark mark.rest with
          | none => []
          | some next => next.rest))
    else .error (.leaving .trailingCharacters mark.rest)

/-- The elements of the record from here to its end; `field` stands first, then the others. -/
def readElements (origin : Origin) (draft : Draft) (field : Field) (others : List Field)
    (s : Octets) : Reading s Draft :=
  match readField origin draft field s with
  | .error fault => .error fault
  | .ok ⟨draft, r, hr⟩ =>
    match others with
    | [] =>
      match readArrayEnd r with
      | .error fault => .error fault
      | .ok closed => .ok ((closed.map fun _ => draft).past hr)
    | next :: others =>
      match Container.array.afterItemStrict r with
      | .error fault => .error fault
      | .ok ⟨.close, r', hr'⟩ => .ok (Taken.past ⟨draft, r', hr'⟩ hr)
      | .ok ⟨.comma, r', hr'⟩ =>
        match readElements origin draft next others r' with
        | .error fault => .error fault
        | .ok draft => .ok ((draft.past hr').past hr)

def readItems (origin : Origin) (container : Container) (s : Octets) : Reading s Draft :=
  match container.endsAtOnce s with
  | .error fault => .error fault
  | .ok (some closed) => .ok (closed.map fun _ => .empty)
  | .ok none =>
    match container with
    | .array => readElements origin .empty .enabled [.hostname, .port] s
    | .object => readFields origin .empty s

def read (origin : Origin) (s : Octets) : Reading s Settings :=
  match nextMark s with
  | none => .error (.leaving .endOfValue [])
  | some ⟨b, r, hr⟩ =>
    match opening? b with
    | some (.container container) =>
      match readItems origin container r with
      | .error fault => .error fault
      | .ok draft => .ok ((draft.map Draft.complete).past hr)
    | _ => .error (mismatch origin .record b r)

end Settings

end JsonReport
