import ClusterDynamics.TurningPoint
import Mathlib.Algebra.Order.Ring.Nat
import Mathlib.Data.Nat.Log
import Mathlib.Tactic.Common

/-! Where a search for the turning point of a property ends. -/

namespace ClusterDynamics

/-- Among `count` positions from `first` on, `p` holds before `t` and nowhere from `t` on. -/
structure TurnsAt (p : Nat → Bool) (first count t : Nat) : Prop where
  first_le : first ≤ t
  le_stop : t ≤ first + count
  before : ∀ i, first ≤ i → i < t → p i = true
  behind : ∀ i, t ≤ i → i < first + count → p i = false

theorem turnsAt_of_eq_zero {p : Nat → Bool} {first count : Nat} (h : count = 0) :
    TurnsAt p first count first :=
  ⟨le_rfl, by omega, fun i hi hit => by omega, fun i hti hi => by omega⟩

theorem turnsAt_turningPointWithin {p : Nat → Bool} {fuel first count : Nat}
    (hfuel : count < 2 ^ fuel)
    (hp : ∀ i j, first ≤ i → i ≤ j → j < first + count → p j = true → p i = true) :
    TurnsAt p first count (turningPointWithin p fuel first count) := by
  induction fuel generalizing first count with
  | zero => exact turnsAt_of_eq_zero (by omega)
  | succ fuel ih =>
    rw [turningPointWithin]
    by_cases hc : count = 0
    · rw [if_pos hc]
      exact turnsAt_of_eq_zero hc
    rw [if_neg hc]
    have hpow : 2 ^ (fuel + 1) = 2 ^ fuel * 2 := Nat.pow_succ 2 fuel
    dsimp only
    by_cases hm : p (first + count / 2) = true
    · -- The property holds up to the middle.
      rw [if_pos hm]
      obtain ⟨hle, hstop, hbefore, hbehind⟩ :=
        @ih (first + count / 2 + 1) (count - count / 2 - 1) (by omega)
          fun i j hi hij hj => hp i j (by omega) hij (by omega)
      refine ⟨by omega, by omega, fun i hi hit => ?_, fun i hti hi => hbehind i hti (by omega)⟩
      rcases Nat.lt_or_ge (first + count / 2) i with hlt | hge
      · exact hbefore i (by omega) hit
      · exact hp i _ hi hge (by omega) hm
    · -- It is lost by the middle, so it fails from there on.
      rw [if_neg hm]
      obtain ⟨hle, hstop, hbefore, hbehind⟩ :=
        @ih first (count / 2) (by omega)
          fun i j hi hij hj => hp i j hi hij (by omega)
      refine ⟨hle, by omega, hbefore, fun i hti hi => ?_⟩
      rcases Nat.lt_or_ge i (first + count / 2) with hlt | hge
      · exact hbehind i hti hlt
      · by_contra hpi
        exact hm (hp _ i (by omega) hge hi (by simpa using hpi))

/-- A property that never holds again once it failed turns where the search ends. -/
theorem turnsAt_turningPoint {p : Nat → Bool} {first count : Nat}
    (hp : ∀ i j, first ≤ i → i ≤ j → j < first + count → p j = true → p i = true) :
    TurnsAt p first count (turningPoint p first count) :=
  turnsAt_turningPointWithin Nat.lt_log2_self hp

end ClusterDynamics
