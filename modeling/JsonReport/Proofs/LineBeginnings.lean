import JsonReport.Proofs.DecodeFailure
import JsonReport.Proofs.FailurePlaces
import Mathlib.Tactic

/-!
# Failures at the beginning of a line

Lines are counted from one.  A column counts the octets of its line up to where the reading stood,
and unless the text is empty at least one octet has been read there.  The reading may stand right
behind a line feed, though: the text ends there, the line feed is what is refused, or a container
that is not entered begins there.  Nothing of the new line has been read then, and the failure
tells column zero, which is not taken for an unknown one.
-/

namespace JsonReport

namespace Position

/-- At index `i` of a text nothing of the line has been read: the text is empty, or a line feed
stands before. -/
def BeginsLine (s : Octets) (i : ℕ) : Prop :=
  s = [] ∨ (s.take i).getLast? = some (ascii '\n')

theorem columnOf_eq_zero_iff (s : Octets) :
    columnOf s = 0 ↔ s = [] ∨ s.getLast? = some (ascii '\n') := by
  induction s using List.reverseRecOn with
  | nil => simp [columnOf]
  | append_singleton s b _ =>
      by_cases hb : b = ascii '\n'
      · simp [columnOf, hb]
      · simp [columnOf, hb]

theorem columnOf_take_eq_zero_iff {s : Octets} {i : ℕ} (hi : s ≠ [] → 0 < i) :
    columnOf (s.take i) = 0 ↔ BeginsLine s i := by
  have hread : s.take i = [] ↔ s = [] := by
    rw [List.take_eq_nil_iff]
    constructor
    · rintro (hzero | hnil)
      · by_contra hs
        exact absurd hzero (Nat.pos_iff_ne_zero.mp (hi hs))
      · exact hnil
    · exact Or.inr
  rw [columnOf_eq_zero_iff, hread, BeginsLine]

end Position

theorem Fault.StandsIn.index_pos {fault : Fault} {s : Octets} (h : fault.StandsIn s.tail)
    (hs : s ≠ []) : 0 < fault.index s := by
  obtain ⟨before, passed, htail, hlength, -⟩ := h
  obtain ⟨b, r, rfl⟩ := List.exists_cons_of_ne_nil hs
  rw [List.tail_cons] at htail
  rw [Fault.index, htail]
  simp only [List.length_cons, List.length_append]
  omega

namespace Failure

/-- A failure tells no line and no column zero. -/
def CountsFromOne (failure : Failure) : Prop :=
  (∀ line, failure.line? = some line → 1 ≤ line) ∧
    ∀ column, failure.column? = some column → 1 ≤ column

/-- The failure tells the place at index `i` of its input, which lies behind the first octet where
there is one.  The line is counted from one, and so is the column unless the place begins a line:
there it is zero, and told all the same. -/
structure CountsPlace (failure : Failure) (input : Octets) (i : ℕ) : Prop where
  pointsTo : failure.PointsTo input i
  index_pos : input ≠ [] → 0 < i
  line_pos : ∃ line, failure.line? = some line ∧ 1 ≤ line
  column_zero_iff : failure.column? = some 0 ↔ Position.BeginsLine input i
  countsFromOne_iff : failure.CountsFromOne ↔ ¬Position.BeginsLine input i

variable {failure : Failure} {input : Octets}

theorem countsFromOne_iff {line column : ℕ} (hline : failure.line? = some line)
    (hcolumn : failure.column? = some column) :
    failure.CountsFromOne ↔ 1 ≤ line ∧ 1 ≤ column := by
  rw [CountsFromOne, hline, hcolumn]
  constructor
  · rintro ⟨hlines, hcolumns⟩
    exact ⟨hlines line rfl, hcolumns column rfl⟩
  · rintro ⟨hlines, hcolumns⟩
    exact ⟨fun _ hsame => Option.some.inj hsame ▸ hlines,
      fun _ hsame => Option.some.inj hsame ▸ hcolumns⟩

theorem PointsTo.countsPlace {i : ℕ} (h : failure.PointsTo input i)
    (hi : input ≠ [] → 0 < i) : failure.CountsPlace input i := by
  have hline := h.2.1
  have hcolumn := h.2.2.1
  have hlineOf : 1 ≤ Position.lineOf (input.take i) := Nat.le_add_right 1 _
  have hzero := Position.columnOf_take_eq_zero_iff hi
  refine ⟨h, hi, ⟨_, hline, hlineOf⟩, ?_, ?_⟩
  · rw [hcolumn, Option.some_inj, hzero]
  · rw [countsFromOne_iff hline hcolumn, ← hzero]
    exact (and_iff_right hlineOf).trans Nat.one_le_iff_ne_zero

theorem countsPlace_of_decodeWith {α : Type} {target : Target} {read : Octets → Except Fault α}
    (hread : ∀ fault, read input = .error fault → fault.StandsIn input.tail)
    (h : decodeWith target read input = .error failure) :
    ∃ i, failure.CountsPlace input i := by
  obtain ⟨fault, hfault, rfl⟩ := exists_fault_of_decodeWith h
  have hstands := hread fault hfault
  exact ⟨fault.index input,
    (pointsTo_ofFault target (hstands.mono (List.tail_suffix input))).countsPlace
      hstands.index_pos⟩

end Failure

/-- Every decode failure counts from one except at the beginning of a line, where it tells column
zero: of a text and of octets, of a value and of settings. -/
theorem decode_failures_counted (text : String) (input : Octets) (failure : Failure) :
    (decodeText text = .error failure → ∃ i, failure.CountsPlace (Utf8.encode text) i) ∧
    (decodeOctets input = .error failure → ∃ i, failure.CountsPlace input i) ∧
    (Settings.ofText text = .error failure →
      ∃ i, failure.CountsPlace (Utf8.encode text) i) ∧
    (Settings.ofOctets input = .error failure → ∃ i, failure.CountsPlace input i) := by
  have hvalue (origin : Origin) (input : Octets) (fault : Fault)
      (h : readDocument origin input = .error fault) : fault.StandsIn input.tail :=
    readWhole_standsIn (readValue_advances origin greatestDepth input) h
  have hsettings (origin : Origin) (input : Octets) (fault : Fault)
      (h : Settings.readDocument origin input = .error fault) : fault.StandsIn input.tail :=
    readWhole_standsIn (Settings.read_advances origin input) h
  exact ⟨Failure.countsPlace_of_decodeWith (hvalue .text _),
    Failure.countsPlace_of_decodeWith (hvalue .raw _),
    Failure.countsPlace_of_decodeWith (hsettings .text _),
    Failure.countsPlace_of_decodeWith (hsettings .raw _)⟩

/-- A list that breaks off behind a comma and a line feed. -/
def brokenOffText : String := "[1,\n"

theorem decode_failures_counted_lineFeeds :
    (∃ failure, decodeText brokenOffText = .error failure ∧
      (∃ i, failure.CountsPlace (Utf8.encode brokenOffText) i) ∧ failure.column? = some 0) ∧
    (∃ failure, decodeOctets [0x5B, 0x0A, 0xFF] = .error failure ∧
      (∃ i, failure.CountsPlace [0x5B, 0x0A, 0xFF] i) ∧ failure.column? = some 1) ∧
    (∃ failure, Settings.ofText "[\n[" = .error failure ∧
      (∃ i, failure.CountsPlace (Utf8.encode "[\n[") i) ∧ failure.column? = some 0) ∧
    ∃ failure, Settings.ofOctets [] = .error failure ∧
      (∃ i, failure.CountsPlace [] i) ∧ failure.column? = some 0 := by
  refine ⟨?_, ?_, ?_, ?_⟩
  · have hread : readDocument .text (Utf8.encode brokenOffText) =
        .error (.leaving .endOfValue []) := by
      cbv
    have hfailure : decodeText brokenOffText = .error _ := decodeWith_of_fault hread
    exact ⟨_, hfailure, (decode_failures_counted _ [] _).1 hfailure, rfl⟩
  · have hread : readDocument .raw [0x5B, 0x0A, 0xFF] =
        .error (.leaving .expectedValue []) := by
      cbv
    have hfailure : decodeOctets [0x5B, 0x0A, 0xFF] = .error _ := decodeWith_of_fault hread
    exact ⟨_, hfailure, (decode_failures_counted "" _ _).2.1 hfailure, rfl⟩
  · have hread : Settings.readDocument .text (Utf8.encode "[\n[") =
        .error (.leaving (.wrongType .sequence .boolean) (Utf8.encode "[")) := by
      cbv
    have hfailure : Settings.ofText "[\n[" = .error _ := decodeWith_of_fault hread
    exact ⟨_, hfailure, (decode_failures_counted _ [] _).2.2.1 hfailure, rfl⟩
  · have hread : Settings.readDocument .raw [] = .error (.leaving .endOfValue []) := by cbv
    have hfailure : Settings.ofOctets [] = .error _ := decodeWith_of_fault hread
    exact ⟨_, hfailure, (decode_failures_counted "" _ _).2.2.2 hfailure, rfl⟩

/-- Behind the line feed the column is zero, and it is not dropped. -/
theorem decodeText_zeroColumn :
    (∃ failure, decodeText brokenOffText = .error failure ∧
      failure.line? = some 2 ∧ failure.column? = some 0) ∧
    ¬∀ text failure, decodeText text = .error failure → failure.CountsFromOne := by
  have hread : readDocument .text (Utf8.encode brokenOffText) =
      .error (.leaving .endOfValue []) := by
    cbv
  have hfailure : decodeText brokenOffText = .error _ := decodeWith_of_fault hread
  refine ⟨⟨_, hfailure, rfl, rfl⟩, fun hcounted => ?_⟩
  exact absurd ((hcounted _ _ hfailure).2 0 rfl) (by decide)

end JsonReport
