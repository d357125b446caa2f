import ClusterDynamics.Proofs.Rates.Capture
import ClusterDynamics.Proofs.Rates.Tables

/-! No rate and no diffusion coefficient of a built network is negative, at any temperature. -/

namespace ClusterDynamics

namespace NetworkSpec

variable {spec : NetworkSpec ℝ}

theorem factor_nonneg_of_checkMobility {dimension : Nat} {seen : List Composition}
    {mobility : List (Mobility ℝ)} (h : checkMobility dimension seen mobility = .ok ())
    {m : Mobility ℝ} (hm : m ∈ mobility) : 0 ≤ m.factor := by
  obtain ⟨-, hfactor, -⟩ := (checkMobility_eq_ok_iff.mp h).1 m hm
  simpa using Scalar.isAtLeast_real.mp hfactor

theorem Valid.coreRadius_nonneg (h : spec.Valid) (s t : Species) : 0 ≤ spec.coreRadii.get s t := by
  unfold CoreRadii.get
  cases hl : spec.coreRadii.entries.lookup (CoreRadii.pairOf s t) with
  | none => simp
  | some radius =>
    obtain ⟨before, behind, hsplit, -⟩ := List.lookup_eq_some_iff.mp hl
    exact h.coreRadii (CoreRadii.pairOf s t, radius) (by simp [hsplit])

theorem Valid.diffusionFactor_nonneg (h : spec.Valid) (lengths : Lengths ℝ) (r : Region) :
    0 ≤ (Cluster.ofRegion spec lengths r).diffusionFactor := by
  change 0 ≤ (Cluster.mobilityOf spec.mobility r).1
  unfold Cluster.mobilityOf
  split
  · rename_i m hm
    split_ifs at hm
    exact factor_nonneg_of_checkMobility h.mobility (List.mem_of_find?_eq_some hm)
  · simp

end NetworkSpec

theorem diffusionCoefficient_nonneg {factor : ℝ} (h : 0 ≤ factor) (energy t : ℝ) :
    0 ≤ (diffusionCoefficient factor energy t).value := by
  rw [diffusionCoefficient_value]
  exact mul_nonneg h (Real.exp_pos _).le

namespace Network

variable {net : Network ℝ} {a b c : Cluster ℝ} {da db d : Thermal ℝ}

theorem captureFactor_nonneg (hv : net.spec.Valid) (hl : net.lengths.Positive)
    (ha : 0 ≤ a.reactionRadius) (hb : 0 ≤ b.reactionRadius) : 0 ≤ net.captureFactor a b := by
  have hn := hv.loopAngles
  have hlattice := hl.lattice.le
  have hloop : ∀ {area : ℝ}, 0 ≤ area → 0 ≤ area * net.lengths.burgersVector /
      (net.lengths.lattice * net.lengths.lattice) := fun harea =>
    div_nonneg (mul_nonneg harea hl.burgersVector.le) (mul_self_nonneg _)
  have hsphere := sphereFactor_nonneg ha hb (hv.coreRadius_nonneg a.dominant b.dominant)
  unfold captureFactor
  cases a.geometry <;> cases b.geometry
  case loop.loop => exact hloop (loopLoopCrossSection_nonneg hn ha hb)
  case loop.sphere | loop.trap | loop.junction | loop.complex | loop.free =>
    exact hloop (loopSphereCrossSection_nonneg hn ha hb)
  case sphere.loop | trap.loop | junction.loop | complex.loop | free.loop =>
    exact hloop (loopSphereCrossSection_nonneg hn hb ha)
  case trap.sphere | trap.trap | trap.junction | trap.complex | trap.free =>
    exact div_nonneg (trapCrossSection_nonneg ha hb) hlattice
  case sphere.trap | junction.trap | complex.trap | free.trap =>
    exact div_nonneg (trapCrossSection_nonneg hb ha) hlattice
  all_goals exact hsphere

theorem captureRate_nonneg (hfactor : 0 ≤ net.captureFactor a b) (hda : 0 ≤ da.value)
    (hdb : 0 ≤ db.value) : 0 ≤ (net.captureRate a b da db).value :=
  mul_nonneg hfactor (add_nonneg hda hdb)

theorem sinkFactor_nonneg {s : SinkSettings ℝ} (hs : 0 ≤ s.strength ∧ 1 ≤ s.bias) (c : Cluster ℝ) :
    0 ≤ s.strength * sinkBias s c := by
  refine mul_nonneg hs.1 ?_
  unfold sinkBias
  split_ifs
  · linarith [hs.2]
  · simp

theorem reSolutionRate_nonneg (hv : net.spec.Valid) {s : ReSolutionSettings ℝ} (hs : 0 ≤ s.fit) :
    0 ≤ (net.reSolutionRate s c).value := by
  have hfit : 0 ≤ net.spec.fissionRate * net.spec.fissionYield * s.fit :=
    mul_nonneg (mul_nonneg hv.fissionRate hv.fissionYield) hs
  change 0 ≤ net.spec.fissionRate * net.spec.fissionYield * s.fit * _ * _
  rw [mul_assoc]
  exact mul_nonneg hfit (mul_self_nonneg _)

theorem nucleationRate_nonneg (hv : net.spec.Valid) : 0 ≤ net.nucleationRate := by
  unfold nucleationRate
  cases hrate : net.spec.nucleation with
  | none => simp
  | some rate => exact hv.nucleation rate hrate

end Network

theorem dissociationRate_nonneg {forward : Thermal ℝ} (h : 0 ≤ forward.value) (t energy : ℝ) :
    0 ≤ (dissociationRate t energy forward).value :=
  mul_nonneg h (Real.exp_pos _).le

namespace Network

variable {net : Network ℝ} {spec : NetworkSpec ℝ} {i j : Nat} {a b c : Cluster ℝ}
  {f : ℝ → Thermal ℝ}

theorem BuiltFrom.diffusionFactor_nonneg (h : net.BuiltFrom spec) (hc : net.cluster i = .ok c) :
    0 ≤ c.diffusionFactor := by
  obtain ⟨r, -, rfl⟩ := h.cluster_eq_ok_iff.mp hc
  exact h.validated.diffusionFactor_nonneg _ r

theorem exists_cluster_of_mem (hc : c ∈ net.table.clusters) : ∃ i, net.cluster i = .ok c := by
  obtain ⟨i, hi⟩ := Array.mem_iff_getElem?.mp hc
  exact ⟨i, entryAt_eq_ok_iff.mpr hi⟩

variable (hnet : (build spec).value = .ok net)

include hnet

theorem captureFactor_nonneg_of_build (ha : net.cluster i = .ok a) (hb : net.cluster j = .ok b) :
    0 ≤ net.captureFactor a b := by
  have h := builtFrom_of_build hnet
  have hl := lengths_pos_of_build hnet
  obtain ⟨r, -, rfl⟩ := h.cluster_eq_ok_iff.mp ha
  obtain ⟨s, -, rfl⟩ := h.cluster_eq_ok_iff.mp hb
  exact captureFactor_nonneg h.valid_spec hl (Cluster.radius_nonneg hl) (Cluster.radius_nonneg hl)

theorem encounterRate_nonneg (ha : net.cluster i = .ok a) (hb : net.cluster j = .ok b) (t : ℝ) :
    0 ≤ (net.encounterRate a b t).value := by
  have h := builtFrom_of_build hnet
  exact captureRate_nonneg (captureFactor_nonneg_of_build hnet ha hb)
    (diffusionCoefficient_nonneg (h.diffusionFactor_nonneg ha) _ t)
    (diffusionCoefficient_nonneg (h.diffusionFactor_nonneg hb) _ t)

theorem RateLaw.nonneg (hf : net.RateLaw f) (t : ℝ) : 0 ≤ (f t).value := by
  have h := builtFrom_of_build hnet
  have hv := h.valid_spec
  cases hf with
  | capture ha hb => exact encounterRate_nonneg hnet ha hb t
  | dissociation hk ha hb => exact dissociationRate_nonneg (encounterRate_nonneg hnet ha hb t) t _
  | @sink i c s hs hc =>
    exact mul_nonneg (sinkFactor_nonneg (hv.sinks s hs) c)
      (diffusionCoefficient_nonneg (h.diffusionFactor_nonneg hc) _ t)
  | @reSolution k c s hs hc => exact reSolutionRate_nonneg hv (hv.reSolution s hs)
  | nucleation => exact nucleationRate_nonneg hv
  | closed => simp [Thermal.zero]

theorem rate_nonneg {t : ℝ} {x : Reaction ℝ} {rate : Thermal ℝ}
    (h : (RateContext.ofTemperature net t).rate x = .ok rate) : 0 ≤ rate.value := by
  obtain ⟨f, hf, hlaw⟩ := RateContext.exists_law h
  obtain rfl := Except.ok.inj ((hlaw t).symm.trans h)
  exact hf.nonneg hnet t

end Network

theorem RateContext.diffusion_nonneg {net : Network ℝ} {spec : NetworkSpec ℝ} {t : ℝ}
    {d : Thermal ℝ} (h : net.BuiltFrom spec) (hd : d ∈ (ofTemperature net t).diffusion) :
    0 ≤ d.value := by
  obtain ⟨c, hc, rfl⟩ := Array.mem_map.mp hd
  obtain ⟨i, hi⟩ := Network.exists_cluster_of_mem hc
  exact diffusionCoefficient_nonneg (h.diffusionFactor_nonneg hi) _ t

/-- A diffusion coefficient for each cluster and a rate for each reaction, none of them negative. -/
structure PointRates.Nonneg (net : Network ℝ) (p : PointRates ℝ) : Prop where
  size_diffusion : p.diffusion.size = net.size
  size_rates : p.rates.size = net.reactions.size
  diffusion : ∀ d ∈ p.diffusion, 0 ≤ d.value
  rates : ∀ rate ∈ p.rates, 0 ≤ rate.value

section Tables

variable {net : Network ℝ} {spec : NetworkSpec ℝ} {p : PointRates ℝ}
  (hnet : (Network.build spec).value = .ok net)

include hnet

theorem PointRates.nonneg_of_compute {point : Nat} {t : ℝ} (h : compute net point t = .ok p) :
    p.Nonneg net := by
  obtain ⟨hsizeDiffusion, hsizeRates⟩ := sizes_of_compute h
  obtain ⟨-, rates, hrates, rfl⟩ := compute_eq_ok_iff.mp h
  refine ⟨hsizeDiffusion, hsizeRates, ?_, ?_⟩
  · exact fun d hd => RateContext.diffusion_nonneg (Network.builtFrom_of_build hnet) hd
  · intro rate hrate
    obtain ⟨x, -, hx⟩ := exists_mem_of_forall₂ (arrayMapM_eq_ok_iff.mp hrates).flip
      (Array.mem_toList_iff.mpr hrate)
    exact Network.rate_nonneg hnet hx

theorem PointRates.Fresh.nonneg {g : Nat} (h : p.Fresh net g) : p.Nonneg net := by
  obtain ⟨q, hq, hp⟩ := h
  have hq' := PointRates.nonneg_of_compute hnet hq
  rw [hp]
  exact { hq' with }

theorem RateTables.Coherent.nonneg {tables : RateTables ℝ} (h : tables.Coherent net)
    (hp : p ∈ tables.points) : p.Nonneg net :=
  (h.fresh p (Array.mem_toList_iff.mpr hp)).nonneg hnet

end Tables

end ClusterDynamics
