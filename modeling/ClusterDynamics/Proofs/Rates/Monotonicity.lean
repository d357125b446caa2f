import ClusterDynamics.Proofs.Rates.Positivity
import ClusterDynamics.Proofs.Rates.Slopes

/-! Nothing slows down on heating. Where all migration energies are at least zero, no diffusion
coefficient and no rate falls when the temperature rises. The energies of break-ups need no such
assumption, because the fits never fall below their floor. -/

namespace ClusterDynamics

variable {t u : ℝ}

theorem boltzmannFactor_mono {energy : ℝ} (he : 0 ≤ energy) (ht : 0 < t) (hle : t ≤ u) :
    Real.exp (-energy / (boltzmann * t)) ≤ Real.exp (-energy / (boltzmann * u)) := by
  have hkt : 0 < boltzmann * t := mul_pos boltzmann_pos ht
  have hku : boltzmann * t ≤ boltzmann * u := mul_le_mul_of_nonneg_left hle boltzmann_pos.le
  rw [Real.exp_le_exp, neg_div, neg_div, neg_le_neg_iff]
  exact div_le_div_of_nonneg_left he hkt hku

theorem diffusionCoefficient_mono {factor energy : ℝ} (hf : 0 ≤ factor) (he : 0 ≤ energy)
    (ht : 0 < t) (hle : t ≤ u) : (diffusionCoefficient factor energy t).value ≤
      (diffusionCoefficient factor energy u).value := by
  rw [diffusionCoefficient_value, diffusionCoefficient_value]
  exact mul_le_mul_of_nonneg_left (boltzmannFactor_mono he ht hle) hf

/-- Both factors of the rate of a break-up grow. -/
theorem dissociationRate_mono {energy : ℝ} {cold hot : Thermal ℝ} (he : 0 ≤ energy)
    (hcold : 0 ≤ cold.value) (hhot : cold.value ≤ hot.value) (ht : 0 < t) (hle : t ≤ u) :
    (dissociationRate t energy cold).value ≤ (dissociationRate u energy hot).value :=
  mul_le_mul hhot (boltzmannFactor_mono he ht hle) (Real.exp_pos _).le (hcold.trans hhot)

namespace Network

variable {net : Network ℝ} {spec : NetworkSpec ℝ} {i j k : Nat} {a b c parent : Cluster ℝ}
  {f : ℝ → Thermal ℝ}

theorem BuiltFrom.migrationEnergy_nonneg (h : net.BuiltFrom spec)
    (henergy : ∀ m ∈ spec.mobility, 0 ≤ m.energy) (hc : net.cluster i = .ok c) :
    0 ≤ c.migrationEnergy := by
  obtain ⟨r, -, rfl⟩ := h.cluster_eq_ok_iff.mp hc
  change 0 ≤ (Cluster.mobilityOf spec.mobility r).2
  unfold Cluster.mobilityOf
  split
  · rename_i m hm
    split_ifs at hm
    exact henergy m (List.mem_of_find?_eq_some hm)
  · simp

theorem BuiltFrom.diffusionCoefficient_mono (h : net.BuiltFrom spec)
    (henergy : ∀ m ∈ spec.mobility, 0 ≤ m.energy) (hc : net.cluster i = .ok c) (ht : 0 < t)
    (hle : t ≤ u) : (diffusionCoefficient c.diffusionFactor c.migrationEnergy t).value ≤
      (diffusionCoefficient c.diffusionFactor c.migrationEnergy u).value :=
  ClusterDynamics.diffusionCoefficient_mono (h.diffusionFactor_nonneg hc)
    (h.migrationEnergy_nonneg henergy hc) ht hle

theorem BuiltFrom.splitEnergy_nonneg (h : net.BuiltFrom spec) (hk : net.cluster k = .ok parent)
    (a b : Cluster ℝ) : 0 ≤ parent.splitEnergy a b := by
  obtain ⟨r, -, rfl⟩ := h.cluster_eq_ok_iff.mp hk
  have hfloor : (0 : ℝ) ≤ minBindingEnergy := by norm_num [minBindingEnergy]
  exact hfloor.trans (Cluster.minBindingEnergy_le_splitEnergy a b)

section Mono

variable (hnet : (build spec).value = .ok net) (henergy : ∀ m ∈ spec.mobility, 0 ≤ m.energy)

include hnet henergy

theorem encounterRate_mono (ha : net.cluster i = .ok a) (hb : net.cluster j = .ok b) (ht : 0 < t)
    (hle : t ≤ u) : (net.encounterRate a b t).value ≤ (net.encounterRate a b u).value := by
  have h := builtFrom_of_build hnet
  have hda := h.diffusionCoefficient_mono henergy ha ht hle
  have hdb := h.diffusionCoefficient_mono henergy hb ht hle
  exact mul_le_mul_of_nonneg_left (add_le_add hda hdb) (captureFactor_nonneg_of_build hnet ha hb)

theorem RateLaw.mono (hf : net.RateLaw f) (ht : 0 < t) (hle : t ≤ u) :
    (f t).value ≤ (f u).value := by
  have h := builtFrom_of_build hnet
  cases hf with
  | capture ha hb => exact encounterRate_mono hnet henergy ha hb ht hle
  | @dissociation k i j parent a b hk ha hb =>
    exact dissociationRate_mono (h.splitEnergy_nonneg hk a b) (encounterRate_nonneg hnet ha hb t)
      (encounterRate_mono hnet henergy ha hb ht hle) ht hle
  | @sink i c s hs hc =>
    exact mul_le_mul_of_nonneg_left (h.diffusionCoefficient_mono henergy hc ht hle)
      (sinkFactor_nonneg (h.valid_spec.sinks s hs) c)
  | reSolution hs hc => exact le_rfl
  | nucleation => exact le_rfl
  | closed => exact le_rfl

end Mono

end Network

/-- No coefficient and no rate exceeds the one in the same place. -/
structure PointRates.AtMost (p q : PointRates ℝ) : Prop where
  diffusion : List.Forall₂ (fun d e => d.value ≤ e.value) p.diffusion.toList q.diffusion.toList
  rates : List.Forall₂ (fun r s => r.value ≤ s.value) p.rates.toList q.rates.toList

section Heated

variable {net : Network ℝ} {spec : NetworkSpec ℝ} (hnet : (Network.build spec).value = .ok net)
  (henergy : ∀ m ∈ spec.mobility, 0 ≤ m.energy)

include hnet henergy

theorem PointRates.atMost_ofTemperature (point : Nat) (ht : 0 < t) (hle : t ≤ u) :
    (ofTemperature net point t).AtMost (ofTemperature net point u) := by
  have h := Network.builtFrom_of_build hnet
  constructor
  case diffusion =>
    simp only [ofTemperature, RateContext.ofTemperature, Array.toList_map,
      List.forall₂_map_left_iff, List.forall₂_map_right_iff, List.forall₂_same]
    intro c hc
    obtain ⟨i, hi⟩ := Network.exists_cluster_of_mem (Array.mem_toList_iff.mp hc)
    exact h.diffusionCoefficient_mono henergy hi ht hle
  case rates =>
    simp only [ofTemperature, Array.toList_map, List.forall₂_map_left_iff,
      List.forall₂_map_right_iff, List.forall₂_same]
    intro x hx
    exact (h.rateLaw_rateAt hx).mono hnet henergy ht hle

end Heated

/-- A network has rates at all positive temperatures, and where migration energies are at least zero
none of its coefficients and rates falls on heating. The same holds of the rate of any other reaction
among its clusters. -/
theorem Network.rates_mono {net : Network ℝ} {spec : NetworkSpec ℝ}
    (hnet : (build spec).value = .ok net) (henergy : ∀ m ∈ spec.mobility, 0 ≤ m.energy)
    (ht : 0 < t) (hle : t ≤ u) (point : Nat) :
    (∃ p q, PointRates.compute net point t = .ok p ∧ PointRates.compute net point u = .ok q ∧
      p.diffusion.size = net.size ∧ p.rates.size = net.reactions.size ∧ p.AtMost q) ∧
    ∀ (x : Reaction ℝ) (cold : Thermal ℝ), (RateContext.ofTemperature net t).rate x = .ok cold →
      ∃ hot, (RateContext.ofTemperature net u).rate x = .ok hot ∧ cold.value ≤ hot.value := by
  have h := builtFrom_of_build hnet
  obtain ⟨hdiffusion, hrates⟩ := PointRates.size_ofTemperature net point t
  refine ⟨⟨_, _, h.compute_eq_ofTemperature point ht,
    h.compute_eq_ofTemperature point (ht.trans_le hle), hdiffusion, hrates,
    PointRates.atMost_ofTemperature hnet henergy point ht hle⟩, fun x cold hcold => ?_⟩
  obtain ⟨f, hf, hlaw⟩ := RateContext.exists_law hcold
  obtain rfl := Except.ok.inj ((hlaw t).symm.trans hcold)
  exact ⟨f u, hlaw u, hf.mono hnet henergy ht hle⟩

/-- Traps in iron at 600 and at 1200 K, among them a pair that meets. -/
theorem Network.rates_mono_ironTraps : ∃ net,
    (Network.build (.ironTraps : NetworkSpec ℝ)).value = .ok net ∧
      (∀ m ∈ (NetworkSpec.ironTraps : NetworkSpec ℝ).mobility, 0 ≤ m.energy) ∧
      (0 : ℝ) < 600 ∧ (600 : ℝ) ≤ 1200 ∧
      (∃ p q, PointRates.compute net 0 600 = .ok p ∧ PointRates.compute net 0 1200 = .ok q ∧
        p.AtMost q) ∧
      ∃ cold hot, (RateContext.ofTemperature net 600).capture 3 4 = .ok cold ∧
        (RateContext.ofTemperature net 1200).capture 3 4 = .ok hot ∧ cold.value ≤ hot.value := by
  obtain ⟨net, hnet, h3, h4⟩ := exists_build_ironTraps
  have hbuilt := builtFrom_of_build hnet
  have henergy : ∀ m ∈ (NetworkSpec.ironTraps : NetworkSpec ℝ).mobility, 0 ≤ m.energy := by
    intro m hm
    obtain rfl := List.mem_singleton.mp hm
    exact Nat.cast_nonneg 1
  have hcold : (0 : ℝ) < 600 := by norm_num
  have hhot : (600 : ℝ) ≤ 1200 := by norm_num
  obtain ⟨⟨p, q, hp, hq, -, -, hle⟩, hrate⟩ := rates_mono hnet henergy hcold hhot 0
  refine ⟨net, hnet, henergy, hcold, hhot, ⟨p, q, hp, hq, hle⟩, ?_⟩
  have ha := hbuilt.cluster_eq_ok_iff.mpr ⟨_, h3, rfl⟩
  have hb := hbuilt.cluster_eq_ok_iff.mpr ⟨_, h4, rfl⟩
  have hmeet := RateContext.capture_ofTemperature ha hb
  obtain ⟨hot, hlaw, hvalue⟩ :=
    hrate (.production 3 4 4 1) _ (mapError_eq_ok_iff.mpr (hmeet 600))
  exact ⟨_, hot, hmeet 600, mapError_eq_ok_iff.mp hlaw, hvalue⟩

end ClusterDynamics
