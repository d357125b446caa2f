import ClusterDynamics.Scalar
import Mathlib.Analysis.Calculus.Deriv.Add
import Mathlib.Analysis.SpecialFunctions.Pow.Real
import Mathlib.Analysis.SpecialFunctions.Trigonometric.Basic
import Mathlib.Topology.Algebra.Module.ModuleTopology

/-! The real numbers as scalars: the exact arithmetic in which laws are stated. -/

namespace ClusterDynamics

open Classical in
noncomputable instance : Scalar ℝ where
  ofNat n := n
  decLt := inferInstance
  decLe := inferInstance
  isFinite _ := true
  pi := Real.pi
  abs x := |x|
  sqrt := Real.sqrt
  cbrt x := SignType.sign x * |x| ^ (1 / 3 : ℝ)
  exp := Real.exp
  log := Real.log
  sin := Real.sin
  cos := Real.cos
  pow := Real.rpow

namespace Scalar

@[simp] theorem ofNat_real (n : Nat) : (Scalar.ofNat n : ℝ) = n := rfl

@[simp] theorem natLit_zero_real : @OfNat.ofNat ℝ 0 (natLit 0) = 0 := Nat.cast_zero

@[simp] theorem natLit_one_real : @OfNat.ofNat ℝ 1 (natLit 1) = 1 := Nat.cast_one

@[simp] theorem natLit_ofNat_real (n : Nat) [n.AtLeastTwo] :
    @OfNat.ofNat ℝ n (natLit n) = OfNat.ofNat n := Nat.cast_ofNat

@[simp] theorem isFinite_real (x : ℝ) : isFinite x = true := rfl

theorem isAtLeast_real {bound x : ℝ} : isAtLeast bound x = true ↔ bound ≤ x := by
  rw [isAtLeast, isFinite_real, Bool.and_true]
  exact @decide_eq_true_iff _ (_)

theorem isPositive_real {x : ℝ} : isPositive x = true ↔ 0 < x := by
  rw [isPositive, isFinite_real, Bool.and_true, natLit_zero_real]
  exact @decide_eq_true_iff _ (_)

@[simp] theorem min_real (a b : ℝ) : Scalar.min a b = Min.min a b := by
  unfold Scalar.min
  split_ifs with hlt heq
  · exact (min_eq_right hlt.le).symm
  · exact (min_eq_left (not_lt.mp hlt)).symm
  · simp at heq

@[simp] theorem max_real (a b : ℝ) : Scalar.max a b = Max.max a b := by
  unfold Scalar.max
  split_ifs with hlt heq
  · exact (max_eq_right hlt.le).symm
  · exact (max_eq_left (not_lt.mp hlt)).symm
  · simp at heq

theorem cbrt_real {x : ℝ} (hx : 0 < x) : Scalar.cbrt x = x ^ (1 / 3 : ℝ) := by
  change (SignType.sign x : ℝ) * |x| ^ (1 / 3 : ℝ) = _
  rw [sign_pos hx, abs_of_pos hx]
  simp

@[simp] theorem sum_real (xs : List ℝ) : Scalar.sum xs = xs.sum := by
  simp [Scalar.sum, List.sum_eq_foldl]

@[simp] theorem product_real (xs : List ℝ) : Scalar.product xs = xs.prod := by
  simp [Scalar.product, List.prod_eq_foldl]

end Scalar

theorem hasDerivAt_sum {α : Type} {xs : List α} {f : α → ℝ → ℝ} {f' : α → ℝ} {x : ℝ}
    (h : ∀ a ∈ xs, HasDerivAt (f a) (f' a) x) :
    HasDerivAt (fun y => (xs.map fun a => f a y).sum) (xs.map f').sum x := by
  induction xs with
  | nil => simpa using hasDerivAt_const x (0 : ℝ)
  | cons a xs ih =>
    have hrest := ih fun b hb => h b (List.mem_cons_of_mem _ hb)
    simp only [List.map_cons, List.sum_cons]
    exact (h a List.mem_cons_self).fun_add hrest

end ClusterDynamics
