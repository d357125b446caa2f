import ClusterDynamics.Proofs.Rates.Slopes
import ClusterDynamics.Proofs.Transport.Partials

/-! How transport varies with the temperature of a point while the concentrations stay. Diffusion
follows its coefficients; the strength of the drift falls with the square of the temperature. -/

namespace ClusterDynamics

open Thermal

variable {st st' : Stencil ℝ} {nb : Neighbours} {v v' : Nat → Nat → ℝ} {t : ℝ}
  {p : ℝ → PointRates ℝ}

namespace Diffusion

variable {d : Diffusion} {i : Nat}

theorem along_congr (h : st.SameFrame st') (hv : ∀ q, v q i = v' q i) :
    along st nb v i = along st' nb v' i := by
  simp only [along, Neighbours.read, hv, h.above, h.below]

theorem across_congr (h : st.SameFrame st') (hv : ∀ q, v q i = v' q i) :
    across st nb v i = across st' nb v' i := by
  simp only [across, Neighbours.read, Stencil.factorList, hv, h.factors]

theorem hasDerivAt_flux
    (hp : ∀ i ∈ d.diffusing, HasSlopeAt (fun t => (p t).diffusion.getD i .zero) t)
    (w : Nat → ℝ) : HasDerivAt (fun t => (d.diffusing.map fun i =>
        w i * (((p t).diffusion.getD i .zero).value * (along st nb v i + across st nb v i))).sum)
      (d.heatingSlope (p t) st nb v w) t :=
  hasDerivAt_sum fun i hi => ((hp i hi).mul_const (along st nb v i + across st nb v i)).const_mul
    (w i)

end Diffusion

namespace ThermalDrift

variable {x : ThermalDrift ℝ}

/-- Without heat flux or conductivity there is no drift at any temperature. -/
theorem hasDerivAt_heatFactor (x : ThermalDrift ℝ) (ht : 0 < t) :
    HasDerivAt x.heatFactor (x.heatFactorSlope t) t := by
  rw [heatFactorSlope, Scalar.natLit_ofNat_real]
  by_cases hidle : (x.heatFlux == (@OfNat.ofNat ℝ 0 (Scalar.natLit 0)) ||
      x.conductivity == (@OfNat.ofNat ℝ 0 (Scalar.natLit 0))) = true
  · have hzero : x.heatFactor = fun _ => 0 := by
      funext t
      rw [heatFactor, if_pos hidle, Scalar.natLit_zero_real]
    rw [hzero, mul_zero, zero_div]
    exact hasDerivAt_const t 0
  · have hfactor : x.heatFactor = fun t =>
        x.beta * x.heatFlux / x.conductivity / (id t * id t) := by
      funext t
      rw [heatFactor, if_neg hidle]
      rfl
    have hsquare := (hasDerivAt_id t).mul (hasDerivAt_id t)
    rw [hfactor]
    refine ((hasDerivAt_const t (x.beta * x.heatFlux / x.conductivity)).div hsquare
      (mul_ne_zero ht.ne' ht.ne')).congr_deriv ?_
    simp only [id, Pi.mul_apply]
    field_simp
    ring

theorem hasDerivAt_flux (ht : 0 < t)
    (hp : ∀ i ∈ x.diffusing, HasSlopeAt (fun t => (p t).diffusion.getD i .zero) t)
    (w : Nat → ℝ) : HasDerivAt (fun t => (x.diffusing.map fun i =>
        w i * (((p t).diffusion.getD i .zero).value * x.heatFactor t *
          (nb.read v .right i - nb.read v .left i) / (st.above + st.below))).sum)
      (x.heatingSlope (p t) st nb v t w) t :=
  hasDerivAt_sum fun i hi => ((((hp i hi).mul (x.hasDerivAt_heatFactor ht)).mul_const
    (nb.read v .right i - nb.read v .left i)).div_const (st.above + st.below)).const_mul (w i)

end ThermalDrift

end ClusterDynamics
