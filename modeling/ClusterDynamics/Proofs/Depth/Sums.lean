import ClusterDynamics.Proofs.Depth.Neighbours
import ClusterDynamics.Proofs.Real
import Mathlib.Algebra.BigOperators.Intervals

/-! Sums over the points of a grid, column by column, and sums around a periodic axis. -/

namespace ClusterDynamics

open Finset

section Blocks

variable {M : Type} [AddCommMonoid M]

theorem sum_range_mul (f : Nat → M) (n m : Nat) :
    ∑ p ∈ range (n * m), f p = ∑ k ∈ range m, ∑ j ∈ range n, f (j + n * k) := by
  induction m with
  | zero => simp
  | succ m ih =>
    rw [Nat.mul_succ, sum_range_add, ih, sum_range_succ]
    simp only [Nat.add_comm]

theorem GridShape.sum_points (s : GridShape) (f : Nat → M) : ∑ p ∈ range s.points, f p =
    ∑ iz ∈ range s.nz, ∑ iy ∈ range s.ny, ∑ ix ∈ range s.nx, f (s.linear ix iy iz) := by
  rw [points, Nat.mul_assoc, sum_range_mul, sum_range_mul]
  rfl

end Blocks

section Periodic

variable {n : Nat} {M : Type} [AddCommMonoid M]

/-- The next points around a periodic axis are all points. -/
theorem sum_next (f : Nat → M) (n : Nat) :
    ∑ j ∈ range n, f ((j + 1) % n) = ∑ j ∈ range n, f j := by
  cases n with
  | zero => simp
  | succ n =>
    have hinside : ∀ j ∈ range n, f ((j + 1) % (n + 1)) = f (j + 1) := by
      intro j hj
      have hj' := mem_range.mp hj
      rw [Nat.mod_eq_of_lt (by omega)]
    rw [sum_range_succ, sum_congr rfl hinside, Nat.mod_self, sum_range_succ' f]

/-- So are the previous ones. -/
theorem sum_previous (f : Nat → M) (n : Nat) :
    ∑ j ∈ range n, f ((j + n - 1) % n) = ∑ j ∈ range n, f j := by
  rw [← sum_next]
  refine sum_congr rfl fun j hj => ?_
  rw [previous_next (mem_range.mp hj)]

/-- Around a periodic axis second differences add up to nothing, with two points or more. -/
theorem sum_secondDifference (f : Nat → ℝ) (n : Nat) :
    ∑ j ∈ range n, (f ((j + n - 1) % n) + f ((j + 1) % n) - 2 * f j) = 0 := by
  rw [sum_sub_distrib, sum_add_distrib, sum_previous, sum_next, ← mul_sum]
  ring

end Periodic

end ClusterDynamics
