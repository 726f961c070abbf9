import JsonReport.Proofs.PaintedText
import JsonReport.Proofs.ScaledReading
import Mathlib.Tactic

/-!
# Reading back a double

The text of a double denotes a decimal that rounds to it, but what is read rounds up to
four times, and then the double is not always the same.  It is one again at most two ranks
away, never beyond the finite ones, and it is the same where the significand and the power
of ten are doubles themselves.
-/

namespace JsonReport
namespace Binary64

/-- Whether the two operands from which the text of a double is read are exact. -/
def ReadsExactly (x : Binary64) : Prop :=
  x.rank = 0 ∨ (shortest x.rank).significand ≤ 2 ^ 53 ∧ (shortest x.rank).power.natAbs ≤ 22

instance (x : Binary64) : Decidable x.ReadsExactly := inferInstanceAs (Decidable (_ ∨ _))

/-- Also the greatest doubles are read as finite ones. -/
theorem exists_finite_reading {rank : ℕ} (hrank : 0 < rank) (hfinite : rank < rankLimit) :
    ∃ rank' < rankLimit,
      ReadsFor (shortest rank).significand (shortest rank).power rank rank' := by
  obtain ⟨-, hreadable, hrounds⟩ := readable_shortest hrank hfinite
  by_cases hroom : rank + 2 < rankLimit
  · obtain ⟨rank', hreads⟩ := exists_readsFor hreadable hrounds
    exact ⟨rank', hreads.above.trans_lt hroom, hreads⟩
  -- Two ranks above the two greatest doubles nothing is finite, so these are read one by one.
  · have hpower : (shortest rank).power = (292 : ℕ) ∧
        mulRank (rankOfNat (shortest rank).significand) (tenRank 292) < rankLimit := by
      obtain rfl | rfl : rank = rankLimit - 1 ∨ rank = rankLimit - 2 := by omega
      · exact ⟨by decide +kernel, by decide +kernel⟩
      · exact ⟨by decide +kernel, by decide +kernel⟩
    rw [hpower.1] at hrounds ⊢
    exact ⟨_, hpower.2, readsFor_product hreadable.pos (by decide) hrounds⟩

theorem ofScaled?_of_reads {significand rank rank' : ℕ} {power : ℤ}
    (h : ReadsFor significand power rank rank') (hfinite : rank' < rankLimit)
    (negative : Bool) :
    ofScaled? negative significand power = some ⟨negative, rank', hfinite⟩ := by
  rw [ofScaled?, h.reads hfinite, Option.bind_some, ofRank?, dif_pos hfinite]

theorem ofScaled?_of_quotient {significand exponent rank' : ℕ} (hpos : 1 ≤ exponent)
    (hexponent : exponent ≤ greatestTen)
    (hrank : divRank (rankOfNat significand) (tenRank exponent) = rank')
    (hfinite : rank' < rankLimit) (negative : Bool) :
    ofScaled? negative significand (-exponent) = some ⟨negative, rank', hfinite⟩ := by
  rw [ofScaled?, scaleRank_neg _ hpos hexponent, hrank, Option.bind_some, ofRank?, dif_pos hfinite]

theorem denotes_zero : Denotes (rankText 0) 0 (-1) :=
  denotes_fraction .zero (List.cons_ne_nil 0 []) (by decide)

theorem ofScaled?_zero (negative : Bool) : ofScaled? negative 0 (-1) = some (zero negative) :=
  ofScaled?_of_quotient le_rfl (by decide) (by decide +kernel) _ negative

end Binary64

open Binary64

theorem render_double (x : Binary64) (pretty : Bool) :
    (Json.number (.double x)).render ⟨pretty, false⟩ = String.ofList x.text := by
  simp [Json.render, Report.pieces, Piece.render, Number.text]

/-- What is written for a double is read as a double of the same sign that is at most two
ranks off, and as the same one where it reads exactly. -/
theorem decodeText_render_double (x : Binary64) (pretty : Bool) :
    ∃ y : Binary64,
      decodeText ((Json.number (.double x)).render ⟨pretty, false⟩) = .ok (.number (.double y)) ∧
        y.negative = x.negative ∧ x.rank ≤ y.rank + 2 ∧ y.rank ≤ x.rank + 2 ∧
        (x.ReadsExactly → y = x) := by
  obtain ⟨negative, rank, hfinite⟩ := x
  rw [render_double, Binary64.text]
  rcases Nat.eq_zero_or_pos rank with rfl | hrank
  · refine ⟨zero negative, decodeText_of_denotes denotes_zero (ofScaled?_zero negative), rfl,
      Nat.zero_le _, Nat.zero_le _, fun _ => rfl⟩
  · obtain ⟨rank', hfinite', hreads⟩ := exists_finite_reading hrank hfinite
    have hdenotes := (readable_shortest hrank hfinite).1
    refine ⟨⟨negative, rank', hfinite'⟩,
      decodeText_of_denotes hdenotes (ofScaled?_of_reads hreads hfinite' negative), rfl,
      hreads.below, hreads.above, fun hexact => ?_⟩
    rcases hexact with hzero | ⟨hdigits, hpower⟩
    · exact absurd hzero hrank.ne'
    · simp only [Binary64.mk.injEq, true_and]
      exact hreads.exact hdigits hpower

/-- The double of 8000000000000001.  Its text has a zero behind the point, and the significand
of seventeen digits is rounded up to a multiple of sixteen. -/
def driftingDouble : Binary64 := ⟨false, 0x433C6BF526340001, by decide⟩

theorem decodeText_render_driftingDouble :
    (Json.number (.double driftingDouble)).render ⟨true, false⟩ = "8000000000000001.0" ∧
      decodeText "8000000000000001.0" =
        .ok (.number (.double ⟨false, 0x433C6BF526340002, by decide⟩)) ∧
      decodeText "8000000000000001.0" ≠ .ok (.number (.double driftingDouble)) := by
  have hsignificand : (shortest driftingDouble.rank).significand = 80000000000000010 := by
    decide +kernel
  have hpower : (shortest driftingDouble.rank).power = -1 := by decide +kernel
  have htext : rankText driftingDouble.rank = "8000000000000001.0".toList := by decide +kernel
  have hpositive : 0 < driftingDouble.rank := by decide
  have hdenotes := (readable_shortest hpositive driftingDouble.finite).1
  rw [hsignificand, hpower, htext] at hdenotes
  have hread : ofScaled? false 80000000000000010 (-1) =
      some ⟨false, 0x433C6BF526340002, by decide⟩ :=
    ofScaled?_of_quotient le_rfl (by decide) (by decide +kernel) _ false
  have hdecoded := decodeText_of_denotes hdenotes hread
  refine ⟨?_, hdecoded, fun hsame => ?_⟩
  · rw [render_double, Binary64.text, if_neg (by decide), htext]
    rfl
  · cases hdecoded.symm.trans hsame

end JsonReport
