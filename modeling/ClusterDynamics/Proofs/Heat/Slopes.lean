import ClusterDynamics.Proofs.Heat.Evaluation
import Mathlib.Analysis.SpecialFunctions.Log.Deriv

/-! How the parts of the heat equation vary with the temperatures: the conductivity, the rate of
change along depth, and the rate across. -/

namespace ClusterDynamics.HeatEquation

variable {x : HeatPoint ℝ} {depth t : ℝ}

section Conductivity

theorem hasDerivAt_beta (h : HeatEquation ℝ) (ht : 0 < t) :
    HasDerivAt h.beta (h.betaSlope t) t := by
  have hlog := Real.hasDerivAt_log ht.ne'
  have hsquare := (hlog.const_mul h.parameters.conductivity.a).mul hlog
  have hfit := (hsquare.add (hlog.const_mul h.parameters.conductivity.b)).add_const
    h.parameters.conductivity.c
  refine (hfit.mul_const 1e-9).congr_deriv ?_
  simp only [betaSlope, Scalar.natLit_ofNat_real]
  change _ = (_ + _ * Real.log t) * _ / t
  field_simp
  ring

theorem hasDerivAt_betaSlope (h : HeatEquation ℝ) (ht : 0 < t) :
    HasDerivAt h.betaSlope (h.betaCurve t) t := by
  have hlog := (Real.hasDerivAt_log ht.ne').const_mul (2 * h.parameters.conductivity.a)
  have hfit := (hlog.const_add h.parameters.conductivity.b).mul_const 1e-9
  have hquotient : h.betaSlope = fun t => (h.parameters.conductivity.b +
      2 * h.parameters.conductivity.a * Real.log t) * 1e-9 / id t := by
    funext t
    simp only [betaSlope, Scalar.natLit_ofNat_real]
    rfl
  rw [hquotient]
  refine (hfit.div (hasDerivAt_id t) ht.ne').congr_deriv ?_
  simp only [betaCurve, Scalar.natLit_ofNat_real, Scalar.natLit_one_real, id]
  change _ = (_ + _ * (1 - Real.log t)) * _ / _
  field_simp
  ring

theorem hasDerivAt_kappa (h : HeatEquation ℝ) (depth : ℝ) (ht : 0 < t) :
    HasDerivAt (fun t => (h.localAt depth t).kappa) (h.alpha depth * h.betaSlope t) t :=
  (h.hasDerivAt_beta ht).const_mul (h.alpha depth)

theorem hasDerivAt_diffusivity (h : HeatEquation ℝ) (depth : ℝ) (ht : 0 < t) :
    HasDerivAt (fun t => (h.localAt depth t).diffusivity)
      (h.parameters.coefficient * (h.alpha depth * h.betaSlope t)) t :=
  (h.hasDerivAt_kappa depth ht).const_mul h.parameters.coefficient

end Conductivity

section Depth

variable (h : HeatEquation ℝ) (habove : 0 < x.above) (hbelow : 0 < x.below)

include habove hbelow

/-- At the surface the rate is the imposed flux and the flow to the point below, and the correction
for the conductivity's variation in depth and in temperature. -/
theorem hasDerivAt_depthRate_surface (hcenter : 0 < x.center)
    (hk : h.conductivity depth x.center ≠ 0) (hleft : x.left = none) :
    HasDerivAt (fun t => h.depthRate depth { x with center := t })
      (depthPartials h.flux (h.localAt depth x.center) x).1 x.center := by
  obtain ⟨hβ, hα⟩ := mul_ne_zero_iff.mp hk
  have hk' : (h.localAt depth x.center).kappa ≠ 0 := mul_ne_zero hα hβ
  have hvalue := h.hasDerivAt_beta hcenter
  have hslope := h.hasDerivAt_betaSlope hcenter
  have hkappa := h.hasDerivAt_kappa depth hcenter
  have hm := h.hasDerivAt_diffusivity depth hcenter
  have hstep := ((hasDerivAt_id x.center).const_sub x.right).div_const x.below
  have hflow := (hm.mul_const (2 / x.above)).mul (((hkappa.inv hk').const_mul h.flux).add hstep)
  have hdepth := (((hm.mul_const (-h.flux)).mul hvalue).mul_const (h.alphaSlope depth)).div
    (hkappa.mul hkappa) (mul_ne_zero hk' hk')
  have hheat := ((hm.mul_const (h.flux * h.flux * h.alpha depth)).mul hslope).div
    ((hkappa.mul hkappa).mul hkappa) (mul_ne_zero (mul_ne_zero hk' hk') hk')
  refine ((hflow.add (hdepth.add hheat)).congr_deriv ?_).congr_of_eventuallyEq
    (.of_forall fun t => ?_)
  · simp only [depthPartials, hleft, localAt, Scalar.natLit_ofNat_real, id, Pi.mul_apply,
      Pi.add_apply, Pi.inv_apply]
    field_simp
    ring
  · simp only [depthRate, depthTerms, hleft, surfaceFlux, localAt, Scalar.natLit_ofNat_real, id,
      Pi.add_apply, Pi.mul_apply, Pi.div_apply, Pi.inv_apply]
    ring

/-- Below the surface the rate is the second difference, and the correction. -/
theorem hasDerivAt_depthRate_interior (hcenter : 0 < x.center)
    (hk : h.conductivity depth x.center ≠ 0) {left : ℝ} (hleft : x.left = some left) :
    HasDerivAt (fun t => h.depthRate depth { x with center := t })
      (depthPartials h.flux (h.localAt depth x.center) x).1 x.center := by
  obtain ⟨hβ, hα⟩ := mul_ne_zero_iff.mp hk
  have hk' : (h.localAt depth x.center).kappa ≠ 0 := mul_ne_zero hα hβ
  have hspan : x.above + x.below ≠ 0 := (add_pos habove hbelow).ne'
  have hvalue := h.hasDerivAt_beta hcenter
  have hslope := h.hasDerivAt_betaSlope hcenter
  have hkappa := (h.hasDerivAt_kappa depth hcenter).mul_const (x.above + x.below)
  have hm := h.hasDerivAt_diffusivity depth hcenter
  have hdifference := ((hasDerivAt_id x.center).const_mul (1 + x.above / x.below)).const_sub
    (left + x.above / x.below * x.right)
  have hflow := ((hm.mul_const (2 / x.above)).mul hdifference).div_const (x.above + x.below)
  have hdepth := (((hm.mul_const (x.right - left)).mul hvalue).mul_const (h.alphaSlope depth)).div
    hkappa (mul_ne_zero hk' hspan)
  have hheat := (((hm.mul_const (h.alpha depth)).mul hslope).mul_const
    ((x.right - left) * (x.right - left))).div (hkappa.mul_const (x.above + x.below))
    (mul_ne_zero (mul_ne_zero hk' hspan) hspan)
  refine ((hflow.add (hdepth.add hheat)).congr_deriv ?_).congr_of_eventuallyEq
    (.of_forall fun t => ?_)
  · simp only [depthPartials, hleft, localAt, Scalar.natLit_ofNat_real, Scalar.natLit_one_real, id,
      Pi.mul_apply]
    field_simp
    ring
  · simp only [depthRate, depthTerms, hleft, localAt, Scalar.natLit_ofNat_real,
      Scalar.natLit_one_real, id, Pi.add_apply, Pi.mul_apply, Pi.div_apply]
    ring

theorem hasDerivAt_depthRate_center (hcenter : 0 < x.center)
    (hk : h.conductivity depth x.center ≠ 0) :
    HasDerivAt (fun t => h.depthRate depth { x with center := t })
      (depthPartials h.flux (h.localAt depth x.center) x).1 x.center := by
  obtain hleft | ⟨left, hleft⟩ := Option.eq_none_or_eq_some x.left
  · exact h.hasDerivAt_depthRate_surface habove hbelow hcenter hk hleft
  · exact h.hasDerivAt_depthRate_interior habove hbelow hcenter hk hleft

omit habove hbelow in
/-- The rate is quadratic in the temperature above. -/
theorem hasDerivAt_depthRate_left {left : ℝ} (hleft : x.left = some left) :
    HasDerivAt (fun t => h.depthRate depth { x with left := some t })
      (depthPartials h.flux (h.localAt depth x.center) x).2.1 left := by
  generalize hl : h.localAt depth x.center = l
  have hstep := (hasDerivAt_id left).const_sub x.right
  have hflow := ((hasDerivAt_id left).add_const (x.above / x.below * x.right -
    (1 + x.above / x.below) * x.center)).const_mul
    (l.diffusivity * (2 / x.above) / (x.above + x.below))
  have hdepth := hstep.const_mul
    (l.diffusivity * l.beta * l.alphaSlope / (l.kappa * (x.above + x.below)))
  have hheat := (hstep.mul hstep).const_mul (l.diffusivity * l.alpha * l.betaSlope /
    (l.kappa * (x.above + x.below) * (x.above + x.below)))
  refine ((hflow.add (hdepth.add hheat)).congr_deriv ?_).congr_of_eventuallyEq
    (.of_forall fun t => ?_)
  · simp only [depthPartials, hleft, Scalar.natLit_ofNat_real, id]
    generalize x.above + x.below = span
    ring
  · simp only [depthRate, hl, depthTerms, Scalar.natLit_ofNat_real, Scalar.natLit_one_real, id,
      Pi.add_apply, Pi.mul_apply]
    ring

theorem hasDerivAt_depthRate_right :
    HasDerivAt (fun t => h.depthRate depth { x with right := t })
      (depthPartials h.flux (h.localAt depth x.center) x).2.2 x.right := by
  generalize hl : h.localAt depth x.center = l
  cases hleft : x.left with
  | none =>
    have hflow := (((hasDerivAt_id x.right).sub_const x.center).div_const x.below).const_add
      (h.flux / l.kappa) |>.const_mul (l.diffusivity * (2 / x.above))
    refine ((hflow.add_const (-l.diffusivity * h.flux * l.beta * l.alphaSlope /
      (l.kappa * l.kappa) + l.diffusivity * h.flux * h.flux * l.alpha * l.betaSlope /
      (l.kappa * l.kappa * l.kappa))).congr_deriv ?_).congr_of_eventuallyEq (.of_forall fun t => ?_)
    · simp only [depthPartials, hleft, Scalar.natLit_ofNat_real]
      ring
    · simp only [depthRate, hl, depthTerms, surfaceFlux, Scalar.natLit_ofNat_real, id]
  | some left =>
    have ha := habove.ne'
    have hstep := (hasDerivAt_id x.right).sub_const left
    have hflow := ((((hasDerivAt_id x.right).const_mul (x.above / x.below)).const_add
      left).sub_const ((1 + x.above / x.below) * x.center)).const_mul
      (l.diffusivity * (2 / x.above) / (x.above + x.below))
    have hdepth := hstep.const_mul
      (l.diffusivity * l.beta * l.alphaSlope / (l.kappa * (x.above + x.below)))
    have hheat := (hstep.mul hstep).const_mul (l.diffusivity * l.alpha * l.betaSlope /
      (l.kappa * (x.above + x.below) * (x.above + x.below)))
    refine ((hflow.add (hdepth.add hheat)).congr_deriv ?_).congr_of_eventuallyEq
      (.of_forall fun t => ?_)
    · simp only [depthPartials, hleft, Scalar.natLit_ofNat_real, id]
      field_simp
      ring
    · simp only [depthRate, hl, depthTerms, Scalar.natLit_ofNat_real, Scalar.natLit_one_real, id,
        Pi.add_apply, Pi.mul_apply]
      ring

end Depth

section Across

variable {c : ℝ} {pairs : List (ℝ × ℝ × ℝ)}

/-- The factor of an axis; zero for one that is not in use. -/
def factorOf (pairs : List (ℝ × ℝ × ℝ)) (axis : Nat) : ℝ := (pairs[axis]?).elim 0 (·.2.2)

theorem hasDerivAt_transverseDifference_center (c : ℝ) (pairs : List (ℝ × ℝ × ℝ)) :
    HasDerivAt (fun c => transverseDifference c pairs) (-2 * (pairs.map (·.2.2)).sum) c := by
  simp only [transverseDifference, Scalar.sum_real, Scalar.natLit_ofNat_real]
  refine (hasDerivAt_sum fun y _ => (((hasDerivAt_id c).const_mul 2).const_sub
    (y.1 + y.2.1)).const_mul y.2.2).congr_deriv ?_
  rw [← List.sum_map_mul_left]
  exact congrArg List.sum (List.map_congr_left fun y _ => by ring)

/-- Where one temperature of a pair varies, its second difference varies by the factor. -/
theorem hasDerivAt_transverseDifference {g : ℝ → ℝ × ℝ × ℝ → ℝ × ℝ × ℝ}
    (hg : ∀ y, HasDerivAt (fun t => (g t y).2.2 * ((g t y).1 + (g t y).2.1 - 2 * c)) y.2.2 t)
    (pairs : List (ℝ × ℝ × ℝ)) (axis : Nat) :
    HasDerivAt (fun t => transverseDifference c (pairs.modify axis (g t))) (factorOf pairs axis)
      t := by
  simp only [transverseDifference, Scalar.sum_real, Scalar.natLit_ofNat_real]
  induction pairs generalizing axis with
  | nil => simpa [factorOf] using hasDerivAt_const t (0 : ℝ)
  | cons y pairs ih =>
    cases axis with
    | zero => simpa [factorOf] using
      (hg y).add_const ((pairs.map fun y => y.2.2 * (y.1 + y.2.1 - 2 * c)).sum)
    | succ axis =>
      simpa [factorOf] using (ih axis).const_add (y.2.2 * (y.1 + y.2.1 - 2 * c))

theorem hasDerivAt_acrossRate (h : HeatEquation ℝ) (hc : 0 < c) :
    HasDerivAt (fun c => h.acrossRate depth c pairs)
      (h.parameters.coefficient * (h.alpha depth * h.betaSlope c) * transverseDifference c pairs -
        2 * (h.localAt depth c).diffusivity * (pairs.map (·.2.2)).sum) c :=
  ((h.hasDerivAt_diffusivity depth hc).mul
    (hasDerivAt_transverseDifference_center c pairs)).congr_deriv (by ring)

end Across

end ClusterDynamics.HeatEquation
