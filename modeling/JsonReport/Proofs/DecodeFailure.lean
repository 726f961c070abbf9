import JsonReport.Decoding
import Mathlib.Tactic

/-!
# Failures of decoding

A decoder fails exactly where its reader does, always with kind decode.  A document that
nests too deep is sorted by the phrase with which its message begins, before anything
else in the message can be looked at.
-/

namespace JsonReport

namespace Failure

theorem kind_withPosition (failure : Failure) (line column : ℕ) :
    (failure.withPosition line column).kind = failure.kind := by
  unfold withPosition
  split <;> rfl

theorem message_withPosition (failure : Failure) (line column : ℕ) :
    (failure.withPosition line column).message = failure.message := by
  unfold withPosition
  split <;> rfl

theorem hint_withPosition (failure : Failure) (line column : ℕ) :
    (failure.withPosition line column).hint = failure.hint := by
  unfold withPosition
  split <;> rfl

theorem kind_ofFault (target : Target) (input : Octets) (fault : Fault) :
    (ofFault target input fault).kind = .decode :=
  kind_withPosition _ _ _

theorem message_ofFault (target : Target) (input : Octets) (fault : Fault) :
    (ofFault target input fault).message = some (fault.message input) :=
  message_withPosition _ _ _

theorem hint_ofFault (target : Target) (input : Octets) (fault : Fault) :
    (ofFault target input fault).hint =
      some ((Category.ofFault fault input).hint target.context) :=
  hint_withPosition _ _ _

end Failure

section Outcomes

variable {ε ε' α β : Type} {outcome : Except ε α}

theorem eq_error_of_map {f : α → β} {error : ε} (h : outcome.map f = .error error) :
    outcome = .error error := by
  cases outcome with
  | ok value => cases h
  | error other => exact congrArg Except.error (Except.error.inj h)

theorem exists_error_of_mapError {f : ε → ε'} {error : ε'}
    (h : outcome.mapError f = .error error) : ∃ inner, outcome = .error inner ∧ error = f inner := by
  cases outcome with
  | ok value => cases h
  | error inner => exact ⟨inner, rfl, (Except.error.inj h).symm⟩

end Outcomes

section Decoders

variable {α : Type} {target : Target} {read : Octets → Except Fault α} {input : Octets}

theorem decodeWith_eq_ok {value : α} :
    decodeWith target read input = .ok value ↔ read input = .ok value := by
  unfold decodeWith
  cases read input with
  | ok value' =>
      constructor <;> intro h <;> cases h <;> rfl
  | error fault =>
      constructor <;> intro h <;> cases h

theorem toOption_eq_some_iff {ε : Type} {outcome : Except ε α} {value : α} :
    outcome.toOption = some value ↔ outcome = .ok value := by
  cases outcome with
  | ok other => exact ⟨fun h => congrArg Except.ok (Option.some.inj h), fun h => h ▸ rfl⟩
  | error fault => constructor <;> intro h <;> cases h

theorem toOption_decodeWith :
    (decodeWith target read input).toOption = (read input).toOption := by
  unfold decodeWith
  cases read input with
  | ok value => rfl
  | error fault => rfl

theorem decodeWith_of_fault {fault : Fault} (h : read input = .error fault) :
    decodeWith target read input = .error (Failure.ofFault target input fault) := by
  unfold decodeWith
  rw [h]
  rfl

theorem exists_fault_of_decodeWith {failure : Failure}
    (h : decodeWith target read input = .error failure) :
    ∃ fault, read input = .error fault ∧ failure = Failure.ofFault target input fault :=
  exists_error_of_mapError h

theorem kind_of_decodeWith {failure : Failure}
    (h : decodeWith target read input = .error failure) : failure.kind = .decode := by
  obtain ⟨fault, -, rfl⟩ := exists_fault_of_decodeWith h
  exact Failure.kind_ofFault target input fault

end Decoders

/-! ## Too deep -/

namespace Category

theorem occursIn_append (phrase text : List Char) :
    occursIn phrase (phrase ++ text) = true := by
  cases phrase with
  | nil => cases text <;> rfl
  | cons c phrase =>
      have hprefix : (c :: phrase).isPrefixOf (c :: (phrase ++ text)) = true :=
        List.isPrefixOf_iff_prefix.mpr ⟨text, rfl⟩
      rw [List.cons_append, occursIn, hprefix, Bool.true_or]

theorem ofFault_tooDeep {fault : Fault} (h : fault.cause = .tooDeep) (input : Octets) :
    ofFault fault input = .depthLimit := by
  have hlower : ∃ text, (fault.message input).toList.map Char.toLower =
      "recursion limit exceeded".toList ++ text := by
    unfold Fault.message
    rw [h, String.toList_append, List.map_append]
    exact ⟨_, rfl⟩
  obtain ⟨text, htext⟩ := hlower
  have hphrase : ofMessage? (fault.message input) = some .depthLimit := by
    unfold ofMessage?
    simp only [htext, phrases, List.find?_cons_of_pos, occursIn_append]
    rfl
  rw [ofFault, hphrase]
  rfl

end Category

end JsonReport
