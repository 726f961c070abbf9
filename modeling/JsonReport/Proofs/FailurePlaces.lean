import JsonReport.Proofs.DecodeFailure
import JsonReport.Proofs.FaultPlaces
import JsonReport.Run
import Mathlib.Tactic

/-!
# Places of decode failures

Every reader keeps to its text, down to the values that are passed over and to the faults
that are noticed late: a value of the wrong kind is refused behind it or before it, a
repeated setting behind its key.  So a decode failure points into the input, and its
message ends with the same place.
-/

namespace JsonReport

/-! ## Scalars and keys -/

theorem readScalar_advances (origin : Origin) (kind : Scalar) (b : UInt8) (r : Octets) :
    (readScalar origin kind b r).Advances := by
  cases kind with
  | null => exact readWord_advances _ _ b r
  | true => exact readWord_advances _ _ b r
  | false => exact readWord_advances _ _ b r
  | minus =>
      have hnumber := (readNumber_advances true r).keeps
      rw [readScalar]
      split
      · next fault hfault => exact hnumber.standsIn hfault
      · next n hn => exact hnumber.suffix hn
  | digit =>
      have hnumber := readNumber_advances false (b :: r)
      rw [readScalar]
      split
      · next fault hfault => exact hnumber.standsIn hfault
      · next n hn => exact hnumber.suffix hn
  | quote =>
      have hstring := readString_keeps origin r
      rw [readScalar]
      split
      · next fault hfault => exact hstring.standsIn hfault
      · next text htext => exact hstring.suffix htext

theorem readKey_keeps (origin : Origin) (s : Octets) : (readKey origin s).Keeps := by
  rw [readKey]
  split
  · exact Fault.standsIn_end
  · next mark hmark =>
      have hrest := rest_suffix_of_nextMark hmark
      split
      · have hstring := (readString_keeps origin mark.rest).mono hrest
        split
        · next fault hfault => exact hstring.standsIn hfault
        · next key hkey => exact hstring.suffix hkey
      · exact Fault.standsIn_leaving hrest

/-! ## Values -/

-- The induction is on what is left of the text, as in the readers themselves: each part
-- keeps to its own text, which is an end of the whole.

mutual

theorem readValue_advances (origin : Origin) (room : ℕ) (s : Octets) :
    (readValue origin room s).Advances := by
  rw [readValue]
  split
  · exact Fault.standsIn_end
  · next b r hr hmark =>
      have hrest : r <:+ s.tail := rest_suffix_tail_of_nextMark hmark
      split
      · exact Fault.standsIn_leaving hrest
      · next kind hopening =>
          have hscalar := (readScalar_advances origin kind b r).mono hrest
          split
          · next fault hfault => exact hscalar.standsIn hfault
          · next value hvalue => exact hscalar.suffix hvalue
      · next container hopening =>
          split
          · exact Fault.standsIn_leaving hrest
          · next room =>
              split
              · next fault hfault => exact (Container.endsAtOnce_fault hfault).mono hrest
              · next closed hclosed => exact (Container.endsAtOnce_suffix hclosed).trans hrest
              · next closed hclosed => exact (Container.endsAtOnce_suffix hclosed).trans hrest
              · have helements := (readElements_keeps origin room r).mono hrest
                split
                · next fault hfault => exact helements.standsIn hfault
                · next items hitems => exact helements.suffix hitems
              · have hmembers := (readMembers_keeps origin room r).mono hrest
                split
                · next fault hfault => exact hmembers.standsIn hfault
                · next members hmembersRead => exact hmembers.suffix hmembersRead
termination_by 2 * s.length
decreasing_by all_goals omega

theorem readElements_keeps (origin : Origin) (room : ℕ) (s : Octets) :
    (readElements origin room s).Keeps := by
  have hitem := (readValue_advances origin room s).keeps
  rw [readElements]
  split
  · next fault hfault => exact hitem.standsIn hfault
  · next item r hr hread =>
      have hnext := (Container.array.afterItemStrict_keeps r).mono (hitem.suffix hread)
      split
      · next fault hfault => exact hnext.standsIn hfault
      · next r' hr' hclose => exact hnext.suffix hclose
      · next r' hr' hcomma =>
          have helements := (readElements_keeps origin room r').mono (hnext.suffix hcomma)
          split
          · next fault hfault => exact helements.standsIn hfault
          · next items hitems =>
              have hrest : items.rest <:+ s := helements.suffix hitems
              exact hrest
termination_by 2 * s.length + 1
decreasing_by all_goals omega

theorem readMembers_keeps (origin : Origin) (room : ℕ) (s : Octets) :
    (readMembers origin room s).Keeps := by
  have hkey := readKey_keeps origin s
  rw [readMembers]
  split
  · next fault hfault => exact hkey.standsIn hfault
  · next key r₁ h₁ hkeyRead =>
      have hcolon := (readColon_keeps r₁).mono (hkey.suffix hkeyRead)
      split
      · next fault hfault => exact hcolon.standsIn hfault
      · next r₂ h₂ hcolonRead =>
          have hvalue := (readValue_advances origin room r₂).keeps.mono
            (hcolon.suffix hcolonRead)
          split
          · next fault hfault => exact hvalue.standsIn hfault
          · next value r₃ h₃ hvalueRead =>
              have hnext := (Container.object.afterItemStrict_keeps r₃).mono
                (hvalue.suffix hvalueRead)
              split
              · next fault hfault => exact hnext.standsIn hfault
              · next r₄ h₄ hclose => exact hnext.suffix hclose
              · next r₄ h₄ hcomma =>
                  have hmembers := (readMembers_keeps origin room r₄).mono
                    (hnext.suffix hcomma)
                  split
                  · next fault hfault => exact hmembers.standsIn hfault
                  · next members hmembersRead =>
                      have hrest : members.rest <:+ s := hmembers.suffix hmembersRead
                      exact hrest
termination_by 2 * s.length + 1
decreasing_by all_goals omega

end

theorem readValue_keeps (origin : Origin) (room : ℕ) (s : Octets) :
    (readValue origin room s).Keeps :=
  (readValue_advances origin room s).keeps

/-! ## Values that are passed over -/

theorem skipEscape_keeps (s : Octets) : KeepsTo s id (skipEscape s) := by
  cases s with
  | nil => exact Fault.standsIn_end
  | cons b r =>
      have hr := List.suffix_cons b r
      have hhex := (readHex_keeps r).mono hr
      rw [skipEscape]
      split
      · exact hr
      · split
        · cases hread : readHex r with
          | ok code => exact hhex.suffix hread
          | error fault => exact hhex.standsIn hread
        · exact Fault.standsIn_leaving hr

theorem skipString_keeps (s : Octets) : (skipString s).Keeps := by
  cases s with
  | nil =>
      rw [skipString]
      exact Fault.standsIn_end
  | cons b r =>
      have hr := List.suffix_cons b r
      rw [skipString]
      split
      · exact hr
      · split
        · have hescape := (skipEscape_keeps r).mono hr
          split
          · next fault hfault => exact hescape.standsIn hfault
          · next r' hread =>
              have hshorter := skipEscape_length hread
              have hinner := (skipString_keeps r').mono (hescape.suffix hread)
              split
              · next fault hfault => exact hinner.standsIn hfault
              · next skipped hskipped => exact hinner.suffix hskipped
        · split
          · exact Fault.standsIn_leaving (List.suffix_refl (b :: r))
          · have hinner := (skipString_keeps r).mono hr
            split
            · next fault hfault => exact hinner.standsIn hfault
            · next skipped hskipped => exact hinner.suffix hskipped
termination_by s.length

theorem skipScalar_keeps (kind : Scalar) (b : UInt8) (r : Octets) :
    (skipScalar kind b r).Keeps := by
  have hr := List.suffix_cons b r
  cases kind with
  | null => exact (readWord_advances _ _ b r).keeps
  | true => exact (readWord_advances _ _ b r).keeps
  | false => exact (readWord_advances _ _ b r).keeps
  | minus =>
      have hliteral := (readLiteral_advances .invalidNumber true r).keeps.mono hr
      rw [skipScalar]
      split
      · next fault hfault => exact hliteral.standsIn hfault
      · next literal hread =>
          have hrest : literal.rest <:+ b :: r := hliteral.suffix hread
          exact hrest
  | digit =>
      have hliteral := (readLiteral_advances .invalidNumber false (b :: r)).keeps
      rw [skipScalar]
      split
      · next fault hfault => exact hliteral.standsIn hfault
      · next literal hread =>
          have hrest : literal.rest <:+ b :: r := hliteral.suffix hread
          exact hrest
  | quote =>
      have hstring := (skipString_keeps r).mono hr
      rw [skipScalar]
      split
      · next fault hfault => exact hstring.standsIn hfault
      · next skipped hskipped => exact hstring.suffix hskipped

theorem skipKey_keeps (s : Octets) : (skipKey s).Keeps := by
  rw [skipKey]
  split
  · exact Fault.standsIn_end
  · next mark hmark =>
      have hrest := rest_suffix_of_nextMark hmark
      split
      · have hstring := (skipString_keeps mark.rest).mono hrest
        split
        · next fault hfault => exact hstring.standsIn hfault
        · next key hkey =>
            have hcolon := (readColon_keeps key.rest).mono (hstring.suffix hkey)
            split
            · next fault hfault => exact hcolon.standsIn hfault
            · next colon hcolonRead => exact hcolon.suffix hcolonRead
      · exact Fault.standsIn_leaving hrest

mutual

theorem skipValue_keeps (s : Octets) : (skipValue s).Keeps := by
  rw [skipValue]
  split
  · exact Fault.standsIn_end
  · next b r hr hmark =>
      have hmarked : b :: r <:+ s := suffix_of_nextMark hmark
      have hrest : r <:+ s := rest_suffix_of_nextMark hmark
      split
      · exact Fault.standsIn_leaving hrest
      · next kind hopening =>
          have hscalar := (skipScalar_keeps kind b r).mono hmarked
          split
          · next fault hfault => exact hscalar.standsIn hfault
          · next skipped hskipped => exact hscalar.suffix hskipped
      · next container hopening =>
          split
          · next fault hfault => exact (Container.endsAtOnce_fault hfault).mono hrest
          · next closed hclosed => exact (Container.endsAtOnce_suffix hclosed).trans hrest
          · have hitems := (skipItems_keeps container r).mono hrest
            split
            · next fault hfault => exact hitems.standsIn hfault
            · next skipped hskipped => exact hitems.suffix hskipped
termination_by 3 * s.length
decreasing_by all_goals omega

theorem skipItem_keeps (container : Container) (s : Octets) : (skipItem container s).Keeps := by
  cases container with
  | array =>
      simp only [skipItem]
      exact skipValue_keeps s
  | object =>
      have hkey := skipKey_keeps s
      simp only [skipItem]
      split
      · next fault hfault => exact hkey.standsIn hfault
      · next key r hr hkeyRead =>
          have hvalue := (skipValue_keeps r).mono (hkey.suffix hkeyRead)
          split
          · next fault hfault => exact hvalue.standsIn hfault
          · next skipped hskipped => exact hvalue.suffix hskipped
termination_by 3 * s.length + 1
decreasing_by all_goals omega

theorem skipItems_keeps (container : Container) (s : Octets) :
    (skipItems container s).Keeps := by
  have hitem := skipItem_keeps container s
  rw [skipItems]
  split
  · next fault hfault => exact hitem.standsIn hfault
  · next item r hr hread =>
      have hnext := (container.afterItem_keeps r).mono (hitem.suffix hread)
      split
      · next fault hfault => exact hnext.standsIn hfault
      · next r' hr' hclose => exact hnext.suffix hclose
      · next r' hr' hcomma =>
          have hitems := (skipItems_keeps container r').mono (hnext.suffix hcomma)
          split
          · next fault hfault => exact hitems.standsIn hfault
          · next skipped hskipped => exact hitems.suffix hskipped
termination_by 3 * s.length + 2
decreasing_by all_goals omega

end

/-! ## Settings -/

/-- Only a container is refused before its first octet. -/
theorem mismatch_standsIn_rest (origin : Origin) (wanted : Wanted) {b : UInt8} (r : Octets)
    (hb : ∀ container, opening? b ≠ some (.container container)) :
    (mismatch origin wanted b r).StandsIn r := by
  unfold mismatch
  split
  · exact Fault.standsIn_leaving (List.suffix_refl r)
  · next harray => exact absurd harray (hb .array)
  · next hobject => exact absurd hobject (hb .object)
  · next kind hopening =>
      have hscalar := readScalar_advances origin kind b r
      split
      · next fault hfault => exact hscalar.standsIn hfault
      · next value hvalue => exact Fault.standsIn_leaving (hscalar.suffix hvalue)

theorem mismatch_standsIn (origin : Origin) (wanted : Wanted) (b : UInt8) (r : Octets) :
    (mismatch origin wanted b r).StandsIn (b :: r) := by
  by_cases hb : ∀ container, opening? b ≠ some (.container container)
  · exact (mismatch_standsIn_rest origin wanted r hb).mono (List.suffix_cons b r)
  · push Not at hb
    obtain ⟨container, hcontainer⟩ := hb
    unfold mismatch
    rw [hcontainer]
    cases container with
    | array => exact Fault.standsIn_leaving (List.suffix_refl (b :: r))
    | object => exact Fault.standsIn_leaving (List.suffix_refl (b :: r))

theorem readBool_keeps (origin : Origin) (s : Octets) : (readBool origin s).Keeps := by
  unfold readBool
  split
  · exact Fault.standsIn_end
  · next b r hr hmark =>
      have hmarked : b :: r <:+ s := suffix_of_nextMark hmark
      simp only
      split
      · next fault hflag =>
          refine Fault.StandsIn.mono ?_ hmarked
          split at hflag
          · exact (readWord_advances _ _ b r).keeps.standsIn hflag
          · exact (readWord_advances _ _ b r).keeps.standsIn hflag
          · injection hflag with hflag
            subst hflag
            exact mismatch_standsIn origin .boolean b r
      · next flag hflag =>
          have hrest : flag.rest <:+ b :: r := by
            split at hflag
            · exact (readWord_advances _ _ b r).keeps.suffix hflag
            · exact (readWord_advances _ _ b r).keeps.suffix hflag
            · cases hflag
          exact hrest.trans hmarked

theorem readText_keeps (origin : Origin) (s : Octets) : (readText origin s).Keeps := by
  unfold readText
  split
  · exact Fault.standsIn_end
  · next b r hr hmark =>
      have hmarked : b :: r <:+ s := suffix_of_nextMark hmark
      split
      · have hstring := (readString_keeps origin r).mono (rest_suffix_of_nextMark hmark)
        split
        · next fault hfault => exact hstring.standsIn hfault
        · next text htext => exact hstring.suffix htext
      · exact (mismatch_standsIn origin .string b r).mono hmarked

namespace Settings

theorem readField_keeps (origin : Origin) (draft : Draft) (field : Field) (s : Octets) :
    (readField origin draft field s).Keeps := by
  have hbool := readBool_keeps origin s
  have htext := readText_keeps origin s
  unfold readField
  split
  · split
    · next fault hfault => exact hbool.standsIn hfault
    · next flag hread => exact hbool.suffix hread
  · split
    · next fault hfault => exact htext.standsIn hfault
    · next text hread => exact htext.suffix hread
  · split
    · next fault hfault => exact htext.standsIn hfault
    · next text hread => exact htext.suffix hread

-- The place of a repeated setting lies behind its key, before anything of its value is read.
theorem repeated_standsIn (field : Field) (s : Octets) : (repeated field s).StandsIn s := by
  apply Fault.standsIn_leaving
  split
  · exact List.nil_suffix
  · next mark hmark =>
      split
      · exact rest_suffix_of_nextMark hmark
      · exact suffix_of_nextMark hmark

theorem readMemberValue_keeps (origin : Origin) (draft : Draft) (key : String) (s : Octets) :
    (readMemberValue origin draft key s).Keeps := by
  have hcolon := readColon_keeps s
  unfold readMemberValue
  simp only
  split
  · split
    · next fault hfault => exact hcolon.standsIn hfault
    · next colon hcolonRead =>
        have hvalue := (skipValue_keeps colon.rest).mono (hcolon.suffix hcolonRead)
        cases hskip : skipValue colon.rest with
        | error fault => exact hvalue.standsIn hskip
        | ok skipped =>
            have hrest : skipped.rest <:+ s := hvalue.suffix hskip
            exact hrest
  · next field _ =>
      split
      · exact repeated_standsIn field s
      · split
        · next fault hfault => exact hcolon.standsIn hfault
        · next colon hcolonRead =>
            have hvalue := (readField_keeps origin draft field colon.rest).mono
              (hcolon.suffix hcolonRead)
            split
            · next fault hfault => exact hvalue.standsIn hfault
            · next next hnext => exact hvalue.suffix hnext

theorem readFields_keeps (origin : Origin) (draft : Draft) (s : Octets) :
    (readFields origin draft s).Keeps := by
  have hkey := readKey_keeps origin s
  rw [readFields]
  split
  · next fault hfault => exact hkey.standsIn hfault
  · next key r₁ h₁ hkeyRead =>
      have hvalue := (readMemberValue_keeps origin draft key r₁).mono (hkey.suffix hkeyRead)
      split
      · next fault hfault => exact hvalue.standsIn hfault
      · next draft r₂ h₂ hvalueRead =>
          have hnext := (Container.object.afterItemStrict_keeps r₂).mono
            (hvalue.suffix hvalueRead)
          split
          · next fault hfault => exact hnext.standsIn hfault
          · next r₃ h₃ hclose => exact hnext.suffix hclose
          · next r₃ h₃ hcomma =>
              have hfields := (readFields_keeps origin draft r₃).mono (hnext.suffix hcomma)
              split
              · next fault hfault => exact hfields.standsIn hfault
              · next draft hfieldsRead => exact hfields.suffix hfieldsRead
termination_by s.length
decreasing_by omega

theorem readArrayEnd_keeps (s : Octets) : (readArrayEnd s).Keeps := by
  unfold readArrayEnd
  split
  · exact Fault.standsIn_end
  · next mark hmark =>
      have hrest := rest_suffix_of_nextMark hmark
      split
      · exact hrest
      · split
        · split
          · next fault hfault => exact (Container.refuseEnd_fault hfault).mono hrest
          · apply Fault.standsIn_leaving
            split
            · exact List.nil_suffix
            · next next hnext => exact (rest_suffix_of_nextMark hnext).trans hrest
        · exact Fault.standsIn_leaving hrest

theorem readElements_keeps (origin : Origin) (draft : Draft) (field : Field)
    (others : List Field) (s : Octets) :
    (readElements origin draft field others s).Keeps := by
  induction others generalizing draft field s with
  | nil =>
      have hfield := readField_keeps origin draft field s
      rw [readElements]
      split
      · next fault hfault => exact hfield.standsIn hfault
      · next draft r hr hread =>
          have hends := (readArrayEnd_keeps r).mono (hfield.suffix hread)
          simp only
          split
          · next fault hfault => exact hends.standsIn hfault
          · next closed hclosed =>
              have hrest : closed.rest <:+ s := hends.suffix hclosed
              exact hrest
  | cons other others ih =>
      have hfield := readField_keeps origin draft field s
      rw [readElements]
      split
      · next fault hfault => exact hfield.standsIn hfault
      · next draft r hr hread =>
          have hnext := (Container.array.afterItemStrict_keeps r).mono (hfield.suffix hread)
          simp only
          split
          · next fault hfault => exact hnext.standsIn hfault
          · next r' hr' hclose => exact hnext.suffix hclose
          · next r' hr' hcomma =>
              have helements := (ih draft other r').mono (hnext.suffix hcomma)
              split
              · next fault hfault => exact helements.standsIn hfault
              · next draft helementsRead => exact helements.suffix helementsRead

theorem readItems_keeps (origin : Origin) (container : Container) (s : Octets) :
    (readItems origin container s).Keeps := by
  unfold readItems
  split
  · next fault hfault => exact Container.endsAtOnce_fault hfault
  · next closed hclosed => exact Container.endsAtOnce_suffix hclosed
  · split
    · exact readElements_keeps origin .empty .enabled [.hostname, .port] s
    · exact readFields_keeps origin .empty s

theorem read_advances (origin : Origin) (s : Octets) : (read origin s).Advances := by
  unfold read
  split
  · exact Fault.standsIn_end
  · next b r hr hmark =>
      have hrest : r <:+ s.tail := rest_suffix_tail_of_nextMark hmark
      split
      · next container _ =>
          have hitems := (readItems_keeps origin container r).mono hrest
          split
          · next fault hfault => exact hitems.standsIn hfault
          · next draft hread => exact hitems.suffix hread
      · next hb => exact (mismatch_standsIn_rest origin .record r hb).mono hrest

theorem read_keeps (origin : Origin) (s : Octets) : (read origin s).Keeps :=
  (read_advances origin s).keeps

end Settings

/-! ## Whole documents -/

theorem readWhole_standsIn {α : Type} {read : (s : Octets) → Reading s α} {s t : Octets}
    (hread : KeepsTo t Taken.rest (read s)) {fault : Fault}
    (h : readWhole read s = .error fault) : fault.StandsIn t := by
  rw [readWhole] at h
  split at h
  · next other hother =>
      injection h with h
      subst h
      exact hread.standsIn hother
  · next taken htaken =>
      split at h
      · cases h
      · next mark hmark =>
          injection h with h
          subst h
          exact Fault.standsIn_leaving
            ((rest_suffix_of_nextMark hmark).trans (hread.suffix htaken))

/-! ## Failures -/

namespace Failure

/-- A failure tells a place of its input in its fields and at the end of its message. -/
def PointsTo (failure : Failure) (input : Octets) (i : ℕ) : Prop :=
  i ≤ input.length ∧
    failure.line? = some (Position.lineOf (input.take i)) ∧
    failure.column? = some (Position.columnOf (input.take i)) ∧
    ∃ description, description ≠ "" ∧
      failure.message = some (description ++
        " at line " ++ Nat.repr (Position.lineOf (input.take i)) ++
        " column " ++ Nat.repr (Position.columnOf (input.take i)))

/-- The input was read up to a fault, and the failure points to where this stands. -/
def PointsInto {α : Type} (failure : Failure) (outcome : Except Fault α) (input : Octets) :
    Prop :=
  ∃ fault, outcome = .error fault ∧ fault.StandsIn input ∧
    failure.PointsTo input (fault.index input)

variable {failure : Failure} {fault : Fault} {input : Octets}

theorem PointsInto.pointsTo {α : Type} {outcome : Except Fault α}
    (h : failure.PointsInto outcome input) (hfault : outcome = .error fault) :
    failure.PointsTo input (fault.index input) := by
  obtain ⟨other, hother, -, hpoints⟩ := h
  rw [hfault] at hother
  injection hother with hother
  rw [hother]
  exact hpoints

theorem position_withPosition (failure : Failure) {line : ℕ} (h : 0 < line) (column : ℕ) :
    (failure.withPosition line column).position = some ⟨line, column⟩ := by
  rw [withPosition, if_pos h]

theorem message_ne_empty (cause : Cause) : cause.message ≠ "" := by
  have happend (first rest : String) (h : first ≠ "") : first ++ rest ≠ "" := by
    intro hnil
    exact h (String.append_eq_empty_iff.mp hnil).1
  cases cause with
  | wrongType found wanted =>
      exact happend _ _ (happend _ _ (happend _ _ (by decide)))
  | duplicate field => exact happend _ _ (happend _ _ (by decide))
  | _ => decide

theorem pointsTo_ofFault (target : Target) (h : fault.StandsIn input) :
    (ofFault target input fault).PointsTo input (fault.index input) := by
  have hplace := h.position_eq
  have hline : 0 < (fault.position input).line := by
    rw [hplace]
    exact Nat.lt_add_right _ Nat.one_pos
  have hposition : (ofFault target input fault).position = some (fault.position input) :=
    position_withPosition _ hline _
  have hmessage := message_ofFault target input fault
  refine ⟨(Nat.sub_le _ _).trans (Nat.sub_le _ _), ?_, ?_, fault.cause.message,
    message_ne_empty fault.cause, ?_⟩
  · rw [line?, hposition, hplace, Option.map_some]
  · rw [column?, hposition, hplace, Option.map_some]
  · rw [hmessage, Fault.message, hplace, Position.message]
    simp only [String.append_assoc]

theorem pointsInto_of_decodeWith {α : Type} {target : Target}
    {read : Octets → Except Fault α}
    (hread : ∀ fault, read input = .error fault → fault.StandsIn input)
    (h : decodeWith target read input = .error failure) :
    failure.PointsInto (read input) input := by
  obtain ⟨fault, hfault, rfl⟩ := exists_fault_of_decodeWith h
  exact ⟨fault, hfault, hread fault hfault, pointsTo_ofFault target (hread fault hfault)⟩

end Failure

/-- Every decode failure points into its input, to where the reading stood, and its message
ends with the place that its fields tell: of a text and of octets, of a value and of
settings. -/
theorem decode_failures_pointInto :
    (∀ text failure, decodeText text = .error failure →
      failure.PointsInto (readDocument .text (Utf8.encode text)) (Utf8.encode text)) ∧
    (∀ input failure, decodeOctets input = .error failure →
      failure.PointsInto (readDocument .raw input) input) ∧
    (∀ text failure, Settings.ofText text = .error failure →
      failure.PointsInto (Settings.readDocument .text (Utf8.encode text)) (Utf8.encode text)) ∧
    ∀ path content failure, Settings.ofFile path content = .error failure →
      failure.kind = .decode → ∃ input, content = .ok input ∧
        failure.PointsInto (Settings.readDocument .raw input) input := by
  have hvalue (origin : Origin) (input : Octets) (fault : Fault)
      (h : readDocument origin input = .error fault) : fault.StandsIn input :=
    readWhole_standsIn (readValue_keeps origin greatestDepth input) h
  have hsettings (origin : Origin) (input : Octets) (fault : Fault)
      (h : Settings.readDocument origin input = .error fault) : fault.StandsIn input :=
    readWhole_standsIn (Settings.read_keeps origin input) h
  refine ⟨?_, ?_, ?_, ?_⟩
  · intro text failure h
    exact Failure.pointsInto_of_decodeWith (hvalue .text _) h
  · intro input failure h
    exact Failure.pointsInto_of_decodeWith (hvalue .raw _) h
  · intro text failure h
    exact Failure.pointsInto_of_decodeWith (hsettings .text _) h
  · intro path content failure h hkind
    cases content with
    | error error =>
        injection h with h
        subst h
        cases hkind
    | ok input =>
        refine ⟨input, rfl, ?_⟩
        change (Settings.ofOctets input).mapError (·.withPath path) = .error failure at h
        cases hoctets : Settings.ofOctets input with
        | ok settings =>
            rw [hoctets] at h
            cases h
        | error inner =>
            rw [hoctets] at h
            injection h with h
            subst h
            have hinner : inner.PointsInto (Settings.readDocument .raw input) input :=
              Failure.pointsInto_of_decodeWith (hsettings .raw _) hoctets
            exact hinner

/-- In a string on the second line an escape, and after it an octet that begins no
character. -/
def brokenLineOctets : Octets :=
  Utf8.encode "[\n\"\\n" ++ 0xFF :: Utf8.encode "\"]"

theorem decode_failures_pointInto_brokenLineOctets :
    (∃ failure, decodeText "[" = .error failure ∧ failure.PointsTo (Utf8.encode "[") 1) ∧
    (∃ failure, Settings.ofText "[" = .error failure ∧
      failure.PointsTo (Utf8.encode "[") 1) ∧
    (∃ failure, decodeOctets brokenLineOctets = .error failure ∧
      failure.PointsTo brokenLineOctets 6 ∧ failure.line? = some 2 ∧
      failure.column? = some 4) ∧
    ∃ failure, Settings.ofFile [] (.ok brokenLineOctets) = .error failure ∧
      failure.PointsTo brokenLineOctets 6 := by
  obtain ⟨hdecodeText, hdecodeOctets, hofText, hofFile⟩ := decode_failures_pointInto
  refine ⟨?_, ?_, ?_, ?_⟩
  · have hread : readDocument .text (Utf8.encode "[") = .error (.leaving .endOfList []) := by
      cbv
    have hfailure : decodeText "[" = .error _ := decodeWith_of_fault hread
    exact ⟨_, hfailure, (hdecodeText _ _ hfailure).pointsTo hread⟩
  · have hread : Settings.readDocument .text (Utf8.encode "[") =
        .error (.leaving .endOfList []) := by
      cbv
    have hfailure : Settings.ofText "[" = .error _ := decodeWith_of_fault hread
    exact ⟨_, hfailure, (hofText _ _ hfailure).pointsTo hread⟩
  · have hread : readDocument .raw brokenLineOctets =
        .error ⟨.invalidCodePoint, Utf8.encode "]", 1⟩ := by
      cbv
    have hfailure : decodeOctets brokenLineOctets = .error _ := decodeWith_of_fault hread
    have hpoints := (hdecodeOctets _ _ hfailure).pointsTo hread
    exact ⟨_, hfailure, hpoints, hpoints.2.1, hpoints.2.2.1⟩
  · have hread : Settings.readDocument .raw brokenLineOctets =
        .error ⟨.invalidCodePoint, Utf8.encode "]", 1⟩ := by
      cbv
    have hoctets : Settings.ofOctets brokenLineOctets = .error _ := decodeWith_of_fault hread
    have hfailure : Settings.ofFile [] (.ok brokenLineOctets) = .error _ :=
      congrArg (Except.mapError (Failure.withPath · [])) hoctets
    obtain ⟨input, hinput, hinto⟩ := hofFile _ _ _ hfailure (Failure.kind_ofFault _ _ _)
    injection hinput with hinput
    subst hinput
    exact ⟨_, hfailure, hinto.pointsTo hread⟩

end JsonReport
