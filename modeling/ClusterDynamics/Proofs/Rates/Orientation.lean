import ClusterDynamics.Proofs.Rates.CrossSection
import Mathlib.Analysis.Convex.Combination

/-! Means over the orientation of a loop. They are centres of mass of the cross-sections at the
single angles, so they lie between the cross-section of a loop that is met edge on and that of one
that is met face on, however many angles are taken. -/

namespace ClusterDynamics

open Finset

section Means

/-- The total area and the total weight of a mean over alignment angles. -/
def ellipseTotals {K : Type} [Scalar K] (n : Nat) (semiAxes : K → K × K) : K × K :=
  (max n 1).fold (fun k _ (area, weight) =>
    let t : K := alignmentAngle (max n 1) k
    let (a, b) := semiAxes t
    (area + Scalar.sin t * Scalar.pi * a * b, weight + Scalar.sin t)) (0, 0)

variable {n : Nat} {semiAxes : ℝ → ℝ × ℝ}

theorem averagedEllipse_eq_totals (n : Nat) (semiAxes : ℝ → ℝ × ℝ) :
    averagedEllipse n semiAxes = (ellipseTotals n semiAxes).1 / (ellipseTotals n semiAxes).2 := rfl

theorem weight_ellipseTotals (n : Nat) (semiAxes : ℝ → ℝ × ℝ) :
    (ellipseTotals n semiAxes).2 =
      ∑ k ∈ range (max n 1), Real.sin (alignmentAngle (max n 1) k) := by
  have hfold := fold_area_weight (max n 1)
    (fun k => Real.sin (alignmentAngle (max n 1) k) * Real.pi *
      (semiAxes (alignmentAngle (max n 1) k)).1 * (semiAxes (alignmentAngle (max n 1) k)).2)
    (fun k => Real.sin (alignmentAngle (max n 1) k))
  unfold ellipseTotals
  simp only [Scalar.natLit_zero_real]
  exact congrArg Prod.snd hfold

theorem weight_pos (n : Nat) (semiAxes : ℝ → ℝ × ℝ) : 0 < (ellipseTotals n semiAxes).2 := by
  rw [weight_ellipseTotals]
  exact sum_sin_pos (by omega)

theorem averagedEllipse_max (n : Nat) (semiAxes : ℝ → ℝ × ℝ) :
    averagedEllipse n semiAxes = averagedEllipse (max n 1) semiAxes := by
  unfold averagedEllipse
  rw [max_eq_left (le_max_right n 1)]

/-- The mean is the centre of mass of the areas at the single angles. -/
theorem averagedEllipse_eq_centerMass (n : Nat) (semiAxes : ℝ → ℝ × ℝ) :
    averagedEllipse n semiAxes =
      (range (max n 1)).centerMass (fun k => Real.sin (alignmentAngle (max n 1) k))
        (fun k => Real.pi * (semiAxes (alignmentAngle (max n 1) k)).1 *
          (semiAxes (alignmentAngle (max n 1) k)).2) := by
  rw [averagedEllipse_max, averagedEllipse_eq (by omega), centerMass, smul_eq_mul, div_eq_inv_mul]
  refine congrArg _ (sum_congr rfl fun k _ => ?_)
  rw [smul_eq_mul]
  ring

/-- What bounds the area at every angle bounds the mean. -/
theorem averagedEllipse_mem_Icc {lo hi : ℝ}
    (h : ∀ t, 0 < t → t < Real.pi / 2 →
      Real.pi * (semiAxes t).1 * (semiAxes t).2 ∈ Set.Icc lo hi) :
    averagedEllipse n semiAxes ∈ Set.Icc lo hi := by
  have hpos : 0 < max n 1 := by omega
  rw [averagedEllipse_eq_centerMass]
  refine (convex_Icc lo hi).centerMass_mem (fun k hk => ?_) (sum_sin_pos hpos.ne') fun k hk => ?_
  · exact (sin_alignmentAngle_pos (mem_range.mp hk)).le
  · exact h _ (alignmentAngle_pos (mem_range.mp hk)) (alignmentAngle_lt (mem_range.mp hk))

end Means

section Loops

variable {r s t : ℝ}

/-- A semi-axis between two lengths gives an area between those of two ellipses. -/
theorem area_mem_Icc {a b lo hi : ℝ} (ha : 0 ≤ a) (hlo : lo ≤ b) (hhi : b ≤ hi) :
    Real.pi * a * b ∈ Set.Icc (Real.pi * a * lo) (Real.pi * a * hi) := by
  have hfactor : 0 ≤ Real.pi * a := mul_nonneg Real.pi_pos.le ha
  exact ⟨mul_le_mul_of_nonneg_left hlo hfactor, mul_le_mul_of_nonneg_left hhi hfactor⟩

theorem one_le_cos_add_sin (h0 : 0 < t) (h1 : t < Real.pi / 2) : 1 ≤ Real.cos t + Real.sin t := by
  have hsin : 0 < Real.sin t := Real.sin_pos_of_pos_of_lt_pi h0 (by linarith)
  have hcos : 0 < Real.cos t := Real.cos_pos_of_mem_Ioo ⟨by linarith, h1⟩
  calc 1 = Real.sin t ^ 2 + Real.cos t ^ 2 := (Real.sin_sq_add_cos_sq t).symm
    _ ≤ Real.sin t + Real.cos t :=
      add_le_add (pow_le_of_le_one hsin.le (Real.sin_le_one t) two_ne_zero)
        (pow_le_of_le_one hcos.le (Real.cos_le_one t) two_ne_zero)
    _ = Real.cos t + Real.sin t := add_comm _ _

theorem loopSphereCrossSection_mem_Icc (hr : 0 ≤ r) (hs : 0 ≤ s) (n : Nat) :
    loopSphereCrossSection r s n ∈
      Set.Icc (Real.pi * (r + s) * s) (Real.pi * (r + s) * (r + s)) := by
  refine averagedEllipse_mem_Icc fun t _ _ => area_mem_Icc (add_nonneg hr hs) ?_ ?_
  · exact le_add_of_nonneg_left (mul_nonneg hr (abs_nonneg _))
  · exact add_le_add_left (mul_le_of_le_one_right hr (Real.abs_cos_le_one t)) s

theorem loopLoopCrossSection_mem_Icc (hr : 0 ≤ r) (hs : 0 ≤ s) (n : Nat) :
    loopLoopCrossSection r s n ∈
      Set.Icc (Real.pi * (r + s) * min r s) (Real.pi * (r + s) * (r + s)) := by
  refine averagedEllipse_mem_Icc fun t h0 h1 => area_mem_Icc (add_nonneg hr hs) ?_ ?_
  · change min r s ≤ r * |Real.cos t| + s * |Real.sin t|
    calc min r s = min r s * 1 := (mul_one _).symm
      _ ≤ min r s * (|Real.cos t| + |Real.sin t|) :=
        mul_le_mul_of_nonneg_left ((one_le_cos_add_sin h0 h1).trans
          (add_le_add (le_abs_self _) (le_abs_self _))) (le_min hr hs)
      _ = min r s * |Real.cos t| + min r s * |Real.sin t| := mul_add _ _ _
      _ ≤ r * |Real.cos t| + s * |Real.sin t| :=
        add_le_add (mul_le_mul_of_nonneg_right (min_le_left r s) (abs_nonneg _))
          (mul_le_mul_of_nonneg_right (min_le_right r s) (abs_nonneg _))
  · exact add_le_add (mul_le_of_le_one_right hr (Real.abs_cos_le_one t))
      (mul_le_of_le_one_right hs (Real.abs_sin_le_one t))

/-- However many angles a mean is taken over, its total weight is positive and it lies between the
cross-sections edge on and face on. -/
theorem orientation_mean_between (n : Nat) (hr : 0 ≤ r) (hs : 0 ≤ s) :
    (∀ semiAxes : ℝ → ℝ × ℝ, averagedEllipse n semiAxes = averagedEllipse (max n 1) semiAxes ∧
      averagedEllipse n semiAxes = (ellipseTotals n semiAxes).1 / (ellipseTotals n semiAxes).2 ∧
      0 < (ellipseTotals n semiAxes).2) ∧
    Real.pi * (r + s) * s ≤ loopSphereCrossSection r s n ∧
    loopSphereCrossSection r s n ≤ Real.pi * (r + s) ^ 2 ∧
    Real.pi * (r + s) * min r s ≤ loopLoopCrossSection r s n ∧
    loopLoopCrossSection r s n ≤ Real.pi * (r + s) ^ 2 := by
  obtain ⟨hedge, hface⟩ := loopSphereCrossSection_mem_Icc hr hs n
  obtain ⟨hedge', hface'⟩ := loopLoopCrossSection_mem_Icc hr hs n
  rw [sq, ← mul_assoc]
  exact ⟨fun f => ⟨averagedEllipse_max n f, averagedEllipse_eq_totals n f, weight_pos n f⟩,
    hedge, hface, hedge', hface'⟩

/-- A loop much larger than the sphere that it meets, at no more than a single angle. -/
theorem orientation_mean_between_single :
    Real.pi * (2 + 0.3) * 0.3 ≤ loopSphereCrossSection (2 : ℝ) 0.3 0 ∧
    loopSphereCrossSection (2 : ℝ) 0.3 0 ≤ Real.pi * (2 + 0.3) ^ 2 ∧
    loopSphereCrossSection (2 : ℝ) 0.3 0 = loopSphereCrossSection 2 0.3 1 := by
  obtain ⟨hmean, hedge, hface, -⟩ :=
    orientation_mean_between 0 (show (0 : ℝ) ≤ 2 by norm_num) (show (0 : ℝ) ≤ 0.3 by norm_num)
  exact ⟨hedge, hface, (hmean _).1⟩

end Loops

end ClusterDynamics
