import JsonReport.Json.Reader

/-!
# Passing over a value

A value that nobody asks for is passed over without being built.  The grammar is looser than that
of a value that is read: containers nest to any depth, numbers have any magnitude, the octets of a
string are not looked at, and an escape by code point needs four hexadecimal digits and no more.
What is refused is refused at the same places, but for a few causes that differ: a text that ends
inside a number is an invalid number, a control character is not passed before it is refused, and
the end of a container after a comma counts as a missing item.
-/

namespace JsonReport

/-- Passes over an escape, after its backslash. -/
def skipEscape (s : Octets) : Except Fault Octets :=
  match s with
  | [] => .error (.leaving .endOfString [])
  | b :: r =>
    if (letterEscape? b).isSome then .ok r
    else if b = ascii 'u' then (readHex r).map Prod.snd
    else .error (.leaving .invalidEscape r)

theorem skipEscape_length {s rest : Octets} (h : skipEscape s = .ok rest) :
    rest.length < s.length := by
  cases s with
  | nil => simp [skipEscape] at h
  | cons b r =>
    rw [skipEscape] at h
    split at h
    · simp_all
    · split at h
      · cases hhex : readHex r with
        | error fault => simp [hhex, Except.map] at h
        | ok pair =>
          simp only [hhex, Except.map, Except.ok.injEq] at h
          exact h ▸ Nat.lt_succ_of_le (readHex_length hhex)
      · simp at h

/-- Passes over a string, after its opening quote. -/
def skipString (s : Octets) : Reading s Unit :=
  match s with
  | [] => .error (.leaving .endOfString [])
  | b :: r =>
    if b = ascii '"' then .ok ⟨(), r, Nat.lt_succ_self _⟩
    else if b = ascii '\\' then
      match h : skipEscape r with
      | .error fault => .error fault
      | .ok r' =>
        have hr : r'.length < r.length := skipEscape_length h
        match skipString r' with
        | .error fault => .error fault
        | .ok skipped => .ok ((skipped.past hr).cons b)
    else if b < 0x20 then .error (.leaving .controlCharacter (b :: r))
    else
      match skipString r with
      | .error fault => .error fault
      | .ok skipped => .ok (skipped.cons b)
termination_by s.length

def skipScalar (kind : Scalar) (b : UInt8) (r : Octets) : Reading (b :: r) Unit :=
  match kind with
  | .null => readWord ['u', 'l', 'l'] () b r
  | .true => readWord ['r', 'u', 'e'] () b r
  | .false => readWord ['a', 'l', 's', 'e'] () b r
  | .minus =>
    match readLiteral .invalidNumber true r with
    | .error fault => .error fault
    | .ok literal => .ok ((literal.map fun _ => ()).cons b)
  | .digit =>
    match readLiteral .invalidNumber false (b :: r) with
    | .error fault => .error fault
    | .ok literal => .ok (literal.map fun _ => ())
  | .quote =>
    match skipString r with
    | .error fault => .error fault
    | .ok skipped => .ok (skipped.cons b)

/-- Passes over the key of a member, with the colon after it. -/
def skipKey (s : Octets) : Reading s Unit :=
  match nextMark s with
  | none => .error (.leaving .endOfObject [])
  | some mark =>
    if mark.value = ascii '"' then
      match skipString mark.rest with
      | .error fault => .error fault
      | .ok key =>
        match readColon key.rest with
        | .error fault => .error fault
        | .ok colon =>
          .ok ((colon.past key.shorter).past mark.shorter)
    else .error (.leaving .keyMustBeString mark.rest)

mutual

def skipValue (s : Octets) : Reading s Unit :=
  match nextMark s with
  | none => .error (.leaving .endOfValue [])
  | some ⟨b, r, hr⟩ =>
    match opening? b with
    | none => .error (.leaving .expectedValue r)
    | some (.scalar kind) =>
      match skipScalar kind b r with
      | .error fault => .error fault
      | .ok skipped => .ok (skipped.found hr)
    | some (.container container) =>
      match container.endsAtOnce r with
      | .error fault => .error fault
      | .ok (some closed) => .ok (closed.past hr)
      | .ok none =>
        match skipItems container r with
        | .error fault => .error fault
        | .ok skipped => .ok (skipped.past hr)
termination_by 3 * s.length
decreasing_by all_goals omega

def skipItem (container : Container) (s : Octets) : Reading s Unit :=
  match container with
  | .array => skipValue s
  | .object =>
    match skipKey s with
    | .error fault => .error fault
    | .ok ⟨_, r, hr⟩ =>
      match skipValue r with
      | .error fault => .error fault
      | .ok skipped => .ok (skipped.past hr)
termination_by 3 * s.length + 1
decreasing_by all_goals omega

/-- Passes over the items of a container from here to its end. -/
def skipItems (container : Container) (s : Octets) : Reading s Unit :=
  match skipItem container s with
  | .error fault => .error fault
  | .ok ⟨_, r, hr⟩ =>
    match container.afterItem r with
    | .error fault => .error fault
    | .ok ⟨.close, r', hr'⟩ => .ok (Taken.past ⟨(), r', hr'⟩ hr)
    | .ok ⟨.comma, r', hr'⟩ =>
      match skipItems container r' with
      | .error fault => .error fault
      | .ok skipped => .ok ((skipped.past hr').past hr)
termination_by 3 * s.length + 2
decreasing_by all_goals omega

end

end JsonReport
