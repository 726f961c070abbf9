import JsonReport.Proofs.PhraseSearch
import Mathlib.Tactic

/-!
# Categories of causes

A fault is sorted by searching its message.  As long as no payload text is quoted there,
the search finds what the cause is: each cause has a category of its own, no wording of
one cause holds a phrase of another, and the numbers of the place tell nothing.
-/

namespace JsonReport

/-- The category of a cause, whatever its wording. -/
def Cause.category : Cause → Category
  | .tooDeep => .depthLimit
  | .numberOutOfRange => .numericRange
  | .invalidCodePoint => .unicode
  | cause => .ofCause cause

namespace Category

/-- What a message says is what is said up to its first number. -/
theorem ofMessage?_message (fault : Fault) (input : Octets) :
    ofMessage? (fault.message input) = ofMessage? (fault.cause.message ++ " at line ") :=
  ofMessage?_congr fun _ hphrase => tells_message hphrase fault input

/-- Where nothing is quoted, the search finds the category of the cause. -/
theorem ofFault_eq_category {fault : Fault}
    (h : ∀ found wanted, fault.cause ≠ .wrongType found wanted) (input : Octets) :
    ofFault fault input = fault.cause.category := by
  rw [ofFault, ofMessage?_message]
  cases hcause : fault.cause with
  | wrongType found wanted => exact absurd hcause (h found wanted)
  | duplicate field => cases field <;> decide +kernel
  | _ => decide +kernel

end Category
end JsonReport
