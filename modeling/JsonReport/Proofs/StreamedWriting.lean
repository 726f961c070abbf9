import JsonReport.Proofs.RenderRoundTrip
import Mathlib.Tactic

/-!
# Writing a value event by event

A value can also be written without knowing its depth, by a writer that is told of one
event after another: brackets, items, keys and scalars.  Such a writer keeps an indent,
which every bracket moves, and a flag that tells whether the innermost open container has
had a value; only then a line is begun before the closing bracket.  Both survive from one
item to the next.  The layouts of a report are what this writer leaves: its indent is the
depth, and its flag after a value is set exactly by a container that is not empty.
-/

namespace JsonReport
namespace Streamed

/-! ## Events -/

/-- What a writer is told, in this order. -/
inductive Event where
  | scalar (text : List Char)
  | opens (container : Container)
  | beginItem (first : Bool)
  | afterKey
  | endItem
  | closes (container : Container)

def openMark : Container → Char
  | .array => '['
  | .object => '\x7b'

def closeMark : Container → Char
  | .array => ']'
  | .object => '\x7d'

mutual

/-- The events of a value. -/
def events : Json → List Event
  | .null => [.scalar ['n', 'u', 'l', 'l']]
  | .bool true => [.scalar ['t', 'r', 'u', 'e']]
  | .bool false => [.scalar ['f', 'a', 'l', 's', 'e']]
  | .number n => [.scalar n.text]
  | .string text => [.scalar (Quoted.quote text.toList)]
  | .array items => .opens .array :: (elementEvents true items ++ [.closes .array])
  | .object members => .opens .object :: (memberEvents true members ++ [.closes .object])

/-- The events of the elements from here on; `first` tells whether none came before. -/
def elementEvents (first : Bool) : List Json → List Event
  | [] => []
  | item :: items =>
    .beginItem first :: (events item ++ .endItem :: elementEvents false items)

/-- The events of the members from here on. -/
def memberEvents (first : Bool) : List (String × Json) → List Event
  | [] => []
  | (key, value) :: members =>
    .beginItem first :: .scalar (Quoted.quote key.toList) :: .afterKey ::
      (events value ++ .endItem :: memberEvents false members)

end

/-! ## Writers -/

/-- What the writer of the compact layout adds at an event; it keeps no state. -/
def compactText : Event → List Char
  | .scalar text => text
  | .opens container => [openMark container]
  | .beginItem true => []
  | .beginItem false => [',']
  | .afterKey => [':']
  | .endItem => []
  | .closes container => [closeMark container]

/-- The writer of the pretty layout. -/
structure Writer where
  indent : ℕ
  hasValue : Bool
  written : List Char

namespace Writer

def start : Writer := ⟨0, false, []⟩

def write (writer : Writer) (text : List Char) : Writer :=
  { writer with written := writer.written ++ text }

def beginLine (writer : Writer) : Writer :=
  writer.write ('\n' :: (List.replicate writer.indent [' ', ' ']).flatten)

def step (writer : Writer) : Event → Writer
  | .scalar text => writer.write text
  | .opens container =>
    { writer.write [openMark container] with
      indent := writer.indent + 1
      hasValue := false }
  | .beginItem true => writer.beginLine
  | .beginItem false => (writer.write [',']).beginLine
  | .afterKey => writer.write [':', ' ']
  | .endItem => { writer with hasValue := true }
  | .closes container =>
    let outer := { writer with indent := writer.indent - 1 }
    (if outer.hasValue then outer.beginLine else outer).write [closeMark container]

def run (writer : Writer) (events : List Event) : Writer := events.foldl step writer

end Writer

/-! ## Compact -/

open Report

mutual

theorem compact_events (depth : ℕ) (value : Json) :
    (events value).flatMap compactText = plainText (pieces false depth value) := by
  cases value with
  | null => rfl
  | bool flag => cases flag <;> rfl
  | number n => simp [events, compactText, pieces]
  | string text => simp [events, compactText, pieces]
  | array items =>
      cases items with
      | nil => rfl
      | cons item items =>
          simp [events, elementEvents, compactText, openMark, closeMark, pieces, mark,
            lineBreak, compact_events (depth + 1) item, compact_elementEvents (depth + 1) items]
  | object members =>
      cases members with
      | nil => rfl
      | cons member members =>
          obtain ⟨key, value⟩ := member
          simp [events, memberEvents, compactText, openMark, closeMark, pieces, mark,
            lineBreak, plainText_keyPieces, keySpace, compact_events (depth + 1) value,
            compact_memberEvents (depth + 1) members]

theorem compact_elementEvents (depth : ℕ) (items : List Json) :
    (elementEvents false items).flatMap compactText =
      plainText (elementPieces false depth items) := by
  cases items with
  | nil => rfl
  | cons item items =>
      simp [elementEvents, compactText, elementPieces, mark, lineBreak,
        compact_events depth item, compact_elementEvents depth items]

theorem compact_memberEvents (depth : ℕ) (members : List (String × Json)) :
    (memberEvents false members).flatMap compactText =
      plainText (memberPieces false depth members) := by
  cases members with
  | nil => rfl
  | cons member members =>
      obtain ⟨key, value⟩ := member
      simp [memberEvents, compactText, memberPieces, mark, lineBreak, plainText_keyPieces,
        keySpace, compact_events depth value, compact_memberEvents depth members]

end

/-! ## Pretty -/

/-- The flag after a value: a container sets it anew, anything else leaves it. -/
def flagAfter (flag : Bool) : Json → Bool
  | .array items => !items.isEmpty
  | .object members => !members.isEmpty
  | _ => flag

theorem plainText_lineBreak (depth : ℕ) :
    plainText (lineBreak true depth) = '\n' :: (List.replicate depth [' ', ' ']).flatten := by
  have hspaces :
      List.replicate (2 * depth) ' ' = (List.replicate depth [' ', ' ']).flatten := by
    induction depth with
    | zero => rfl
    | succ depth ih => simp [Nat.mul_succ, List.replicate_succ, ih]
  rw [← hspaces]
  exact List.append_nil _

namespace Writer

variable (depth : ℕ) (flag : Bool) (written : List Char) (container : Container)

@[simp] theorem step_scalar (text : List Char) :
    step ⟨depth, flag, written⟩ (.scalar text) = ⟨depth, flag, written ++ text⟩ := rfl

@[simp] theorem step_opens :
    step ⟨depth, flag, written⟩ (.opens container) =
      ⟨depth + 1, false, written ++ [openMark container]⟩ := rfl

@[simp] theorem step_beginItem (first : Bool) :
    step ⟨depth, flag, written⟩ (.beginItem first) =
      ⟨depth, flag,
        written ++ (if first then [] else [',']) ++ plainText (lineBreak true depth)⟩ := by
  rw [plainText_lineBreak]
  cases first with
  | false => rfl
  | true =>
      rw [if_pos rfl, List.append_nil]
      rfl

@[simp] theorem step_afterKey :
    step ⟨depth, flag, written⟩ .afterKey = ⟨depth, flag, written ++ [':', ' ']⟩ := rfl

@[simp] theorem step_endItem :
    step ⟨depth, flag, written⟩ .endItem = ⟨depth, true, written⟩ := rfl

/-- A container that has had no value is closed where it was opened. -/
@[simp] theorem step_closes_empty :
    step ⟨depth + 1, false, written⟩ (.closes container) =
      ⟨depth, false, written ++ [closeMark container]⟩ := rfl

/-- A container that has had a value is closed on a line of its own, one indent further out. -/
@[simp] theorem step_closes_filled :
    step ⟨depth + 1, true, written⟩ (.closes container) =
      ⟨depth, true, written ++ plainText (lineBreak true depth) ++ [closeMark container]⟩ := by
  rw [plainText_lineBreak]
  rfl

@[simp] theorem run_nil (writer : Writer) : writer.run [] = writer := rfl

@[simp] theorem run_cons (writer : Writer) (event : Event) (events : List Event) :
    writer.run (event :: events) = (writer.step event).run events := rfl

@[simp] theorem run_append (writer : Writer) (first rest : List Event) :
    writer.run (first ++ rest) = (writer.run first).run rest :=
  List.foldl_append

end Writer

open Writer

mutual

/-- The events of a value leave the indent as it was and write its pieces at this depth. -/
theorem run_events (depth : ℕ) (flag : Bool) (written : List Char) (value : Json) :
    run ⟨depth, flag, written⟩ (events value) =
      ⟨depth, flagAfter flag value, written ++ plainText (pieces true depth value)⟩ := by
  cases value with
  | null => rfl
  | bool value => cases value <;> rfl
  | number n => simp [events, flagAfter, pieces]
  | string text => simp [events, flagAfter, pieces]
  | array items =>
      cases items with
      | nil => simp [events, elementEvents, flagAfter, pieces, mark, openMark, closeMark]
      | cons item items =>
          simp [events, elementEvents, flagAfter, pieces, mark, openMark, closeMark,
            run_events (depth + 1), run_elementEvents (depth + 1)]
  | object members =>
      cases members with
      | nil => simp [events, memberEvents, flagAfter, pieces, mark, openMark, closeMark]
      | cons member members =>
          obtain ⟨key, value⟩ := member
          simp [events, memberEvents, flagAfter, pieces, mark, openMark, closeMark,
            plainText_keyPieces, keySpace, run_events (depth + 1), run_memberEvents (depth + 1)]

/-- The first element has come before, so the flag is set and stays so. -/
theorem run_elementEvents (depth : ℕ) (written : List Char) (items : List Json) :
    run ⟨depth, true, written⟩ (elementEvents false items) =
      ⟨depth, true, written ++ plainText (elementPieces true depth items)⟩ := by
  cases items with
  | nil => simp [elementEvents, elementPieces]
  | cons item items =>
      simp [elementEvents, elementPieces, mark, run_events depth, run_elementEvents depth]

theorem run_memberEvents (depth : ℕ) (written : List Char) (members : List (String × Json)) :
    run ⟨depth, true, written⟩ (memberEvents false members) =
      ⟨depth, true, written ++ plainText (memberPieces true depth members)⟩ := by
  cases members with
  | nil => simp [memberEvents, memberPieces]
  | cons member members =>
      obtain ⟨key, value⟩ := member
      simp [memberEvents, memberPieces, mark, plainText_keyPieces, keySpace, run_events depth,
        run_memberEvents depth]

end

end Streamed

/-- Without colour a value is rendered as it is streamed, in either layout. -/
theorem render_eq_streamed (value : Json) :
    value.render ⟨false, false⟩ =
        String.ofList ((Streamed.events value).flatMap Streamed.compactText) ∧
      value.render ⟨true, false⟩ =
        String.ofList (Streamed.Writer.start.run (Streamed.events value)).written := by
  constructor
  · rw [Streamed.compact_events 0 value]
    rfl
  · rw [Streamed.Writer.start, Streamed.run_events 0 false [] value]
    rfl

end JsonReport
