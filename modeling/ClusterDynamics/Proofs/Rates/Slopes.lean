import ClusterDynamics.Proofs.Rates.Capture
import Mathlib.Analysis.Calculus.Deriv.Inv
import Mathlib.Analysis.SpecialFunctions.ExpDeriv

/-! The slopes that the rate laws give are the derivatives of their values. Clusters, geometries and
energies do not depend on temperature: it enters through the diffusion coefficients and through the
Boltzmann factor of a break-up. -/

namespace ClusterDynamics

/-- At a temperature, the slope is the derivative of the value. -/
def Thermal.HasSlopeAt (f : ℝ → Thermal ℝ) (t : ℝ) : Prop :=
  HasDerivAt (fun t => (f t).value) (f t).slope t

open Thermal

variable {t : ℝ}

/-- A rate that the temperature has no part in. -/
theorem hasSlopeAt_const {rate : Thermal ℝ} (hrate : rate.slope = 0) :
    HasSlopeAt (fun _ => rate) t := by
  unfold HasSlopeAt
  rw [hrate]
  exact hasDerivAt_const t rate.value

theorem diffusionCoefficient_slope (factor energy t : ℝ) :
    (diffusionCoefficient factor energy t).slope =
      factor * Real.exp (-energy / (boltzmann * t)) * energy / (boltzmann * t * t) := by
  unfold diffusionCoefficient
  by_cases hf : factor = 0
  · have hbeq : (factor == (@OfNat.ofNat ℝ 0 (Scalar.natLit 0))) = true := by simp [hf]
    rw [if_pos hbeq, hf, zero_mul, zero_mul, zero_div]
    exact Scalar.natLit_zero_real
  · have hbeq : ¬(factor == (@OfNat.ofNat ℝ 0 (Scalar.natLit 0))) = true := by simpa using hf
    rw [if_neg hbeq]
    rfl

/-- The chain rule for a Boltzmann factor. -/
theorem hasDerivAt_boltzmannFactor (energy : ℝ) (ht : 0 < t) :
    HasDerivAt (fun t => Real.exp (-energy / (boltzmann * t)))
      (Real.exp (-energy / (boltzmann * t)) * (energy / (boltzmann * t * t))) t := by
  have hk := boltzmann_pos.ne'
  have hkt := (hasDerivAt_id t).const_mul (boltzmann : ℝ)
  have hexponent := (hasDerivAt_const t (-energy)).div hkt (mul_ne_zero hk ht.ne')
  refine hexponent.exp.congr_deriv ?_
  simp only [id, Pi.div_apply]
  field_simp
  ring

theorem hasSlopeAt_diffusionCoefficient (factor energy : ℝ) (ht : 0 < t) :
    HasSlopeAt (diffusionCoefficient factor energy) t := by
  simp only [HasSlopeAt, diffusionCoefficient_value, diffusionCoefficient_slope]
  exact ((hasDerivAt_boltzmannFactor energy ht).const_mul factor).congr_deriv (by ring)

namespace Network

variable {net : Network ℝ} {a b : Cluster ℝ} {da db : ℝ → Thermal ℝ}

/-- Of all geometries, the capture factor is a constant in temperature. -/
theorem hasSlopeAt_captureRate (net : Network ℝ) (a b : Cluster ℝ) (ha : HasSlopeAt da t)
    (hb : HasSlopeAt db t) : HasSlopeAt (fun t => net.captureRate a b (da t) (db t)) t :=
  (HasDerivAt.add ha hb).const_mul (net.captureFactor a b)

theorem hasSlopeAt_sinkRate (s : SinkSettings ℝ) (c : Cluster ℝ) (ha : HasSlopeAt da t) :
    HasSlopeAt (fun t => sinkRate s c (da t)) t :=
  HasDerivAt.const_mul (s.strength * sinkBias s c) ha

end Network

/-- The product rule, for the merger's rate and the Boltzmann factor. -/
theorem hasSlopeAt_dissociationRate (energy : ℝ) {forward : ℝ → Thermal ℝ} (ht : 0 < t)
    (h : HasSlopeAt forward t) : HasSlopeAt (fun t => dissociationRate t energy (forward t)) t := by
  refine (HasDerivAt.mul h (hasDerivAt_boltzmannFactor energy ht)).congr_deriv ?_
  simp only [dissociationRate]
  change _ = _ * Real.exp _ + _ * Real.exp _ * _ / _
  ring

namespace Network

variable {net : Network ℝ} {f : ℝ → Thermal ℝ}

theorem hasSlopeAt_encounterRate (net : Network ℝ) (a b : Cluster ℝ) (ht : 0 < t) :
    HasSlopeAt (net.encounterRate a b) t :=
  hasSlopeAt_captureRate net a b
    (hasSlopeAt_diffusionCoefficient a.diffusionFactor a.migrationEnergy ht)
    (hasSlopeAt_diffusionCoefficient b.diffusionFactor b.migrationEnergy ht)

/-- The rate of a reaction has the derivative for a slope, whatever its kind. -/
theorem RateLaw.hasSlopeAt (hf : net.RateLaw f) (ht : 0 < t) : HasSlopeAt f t := by
  cases hf with
  | capture ha hb => exact hasSlopeAt_encounterRate net _ _ ht
  | dissociation hk ha hb =>
    exact hasSlopeAt_dissociationRate _ ht (hasSlopeAt_encounterRate net _ _ ht)
  | sink hs hc =>
    exact hasSlopeAt_sinkRate _ _ (hasSlopeAt_diffusionCoefficient _ _ ht)
  | reSolution hs hc => exact hasSlopeAt_const Scalar.natLit_zero_real
  | nucleation => exact hasSlopeAt_const Scalar.natLit_zero_real
  | closed => exact hasSlopeAt_const Scalar.natLit_zero_real

end Network

/-- The rate of a reaction at a temperature; zero for a reaction that has none. -/
noncomputable def Network.rateAt (net : Network ℝ) (r : Reaction ℝ) (t : ℝ) : Thermal ℝ :=
  ((RateContext.ofTemperature net t).rate r).toOption.getD .zero

namespace PointRates

/-- The rates of a network at a temperature, of generation zero. -/
noncomputable def ofTemperature (net : Network ℝ) (point : Nat) (t : ℝ) : PointRates ℝ :=
  { point, temperature := t, generation := 0, lattice := net.lengths.lattice
    atomicVolume := net.lengths.atomicVolume
    diffusion := (RateContext.ofTemperature net t).diffusion
    rates := net.reactions.map fun r => net.rateAt r t }

end PointRates

namespace Network.BuiltFrom

variable {net : Network ℝ} {spec : NetworkSpec ℝ} {r : Reaction ℝ}

theorem rateLaw_rateAt (h : net.BuiltFrom spec) (hr : r ∈ net.reactions.toList) :
    net.RateLaw (net.rateAt r) := by
  obtain ⟨rate, hrate⟩ := h.exists_rate hr 1
  obtain ⟨f, hf, hlaw⟩ := RateContext.exists_law hrate
  have hrates : net.rateAt r = f := by
    funext t
    rw [rateAt, hlaw t]
    rfl
  exact hrates ▸ hf

theorem hasSlopeAt_rateAt (h : net.BuiltFrom spec) (hr : r ∈ net.reactions.toList) (ht : 0 < t) :
    HasSlopeAt (net.rateAt r) t :=
  (h.rateLaw_rateAt hr).hasSlopeAt ht

theorem compute_eq_ofTemperature (h : net.BuiltFrom spec) (point : Nat) (ht : 0 < t) :
    PointRates.compute net point t = .ok (PointRates.ofTemperature net point t) := by
  rw [PointRates.compute_eq_ok_iff]
  refine ⟨Scalar.isPositive_real.mpr ht, _, ?_, rfl⟩
  rw [arrayMapM_eq_ok_iff, Array.toList_map, List.forall₂_map_right_iff, List.forall₂_same]
  intro r hr
  obtain ⟨rate, hrate⟩ := h.exists_rate hr t
  rw [rateAt, hrate]
  rfl

end Network.BuiltFrom

namespace PointRates

variable {net : Network ℝ} {spec : NetworkSpec ℝ} {point i : Nat}

theorem size_ofTemperature (net : Network ℝ) (point : Nat) (t : ℝ) :
    (ofTemperature net point t).diffusion.size = net.size ∧
      (ofTemperature net point t).rates.size = net.reactions.size :=
  ⟨RateContext.size_diffusion, Array.size_map⟩

theorem hasSlopeAt_diffusion (net : Network ℝ) (point : Nat) (hi : i < net.size) (ht : 0 < t) :
    HasSlopeAt (fun t => (ofTemperature net point t).diffusion.getD i .zero) t := by
  obtain ⟨c, hc⟩ := RateContext.exists_cluster_iff.mpr hi
  have hread : (fun t => (ofTemperature net point t).diffusion.getD i .zero) =
      diffusionCoefficient c.diffusionFactor c.migrationEnergy := by
    funext t
    have hentry := entryAt_eq_ok_iff.mp (RateContext.entryAt_diffusion hc t)
    rw [ofTemperature, Array.getD_eq_getD_getElem?, hentry, Option.getD_some]
  rw [hread]
  exact hasSlopeAt_diffusionCoefficient _ _ ht

theorem hasSlopeAt_rates (h : net.BuiltFrom spec) (point : Nat) (hi : i < net.reactions.size)
    (ht : 0 < t) : HasSlopeAt (fun t => (ofTemperature net point t).rates.getD i .zero) t := by
  have hread : (fun t => (ofTemperature net point t).rates.getD i .zero) =
      net.rateAt net.reactions[i] := by
    funext t
    simp [ofTemperature, Array.getD_eq_getD_getElem?, hi]
  rw [hread]
  exact h.hasSlopeAt_rateAt (Array.getElem_mem_toList hi) ht

end PointRates

end ClusterDynamics
