import ClusterDynamics.Proofs.Rates.Positivity
import ClusterDynamics.Proofs.Simulation.Construction
import ClusterDynamics.Proofs.Simulation.Evaluation

/-! Rates of change that never drive a concentration below zero. A reaction takes from a cluster no
more than in proportion to its concentration, and diffusion takes nothing where there is nothing. -/

namespace ClusterDynamics

theorem Assembly.reactionFlux_nonneg {conc : Array ℝ} {r : Reaction ℝ} {rate : ℝ} {row n : Nat}
    (hformed : r.Formed n) (hcoefficient : 0 ≤ r.coefficient)
    (hrate : 0 ≤ rate) (hconc : ∀ i ∈ r.factors, 0 ≤ conc.getD i 0)
    (hrow : conc.getD row 0 = 0) : 0 ≤ reactionFlux (Pi.single row 1) conc r rate := by
  rw [reactionFlux, changeWeight_netChanges _ hformed, concentrationProduct_real]
  -- A reaction that consumes the absent cluster does not happen, and any other only adds to it.
  by_cases hmem : row ∈ r.reactants
  · have hzero : (r.factors.map fun c => conc.getD c 0).prod = 0 :=
      List.prod_eq_zero (List.mem_map.mpr ⟨row, hformed.mem_factors hmem, hrow⟩)
    rw [hzero, mul_zero, mul_zero]
  · have hconsumed : (r.reactants.map (Pi.single row (1 : ℝ))).sum = 0 := by
      refine List.sum_eq_zero fun y hy => ?_
      obtain ⟨i, hi, rfl⟩ := List.mem_map.mp hy
      exact Pi.single_eq_of_ne (ne_of_mem_of_not_mem hi hmem) 1
    have hproduced : 0 ≤ (r.products.map (Pi.single row (1 : ℝ))).sum := by
      have hsingle : (0 : Nat → ℝ) ≤ Pi.single row 1 := Pi.single_nonneg.mpr zero_le_one
      refine List.sum_nonneg fun y hy => ?_
      obtain ⟨i, -, rfl⟩ := List.mem_map.mp hy
      exact hsingle i
    have hproduct : 0 ≤ (r.factors.map fun c => conc.getD c 0).prod := by
      refine List.prod_nonneg fun y hy => ?_
      obtain ⟨i, hi, rfl⟩ := List.mem_map.mp hy
      exact hconc i hi
    rw [hconsumed, sub_zero]
    exact mul_nonneg hproduced (mul_nonneg (mul_nonneg hcoefficient hrate) hproduct)

section Transport

theorem depthDifference_nonneg {above below l r : ℝ} (habove : 0 < above) (hbelow : 0 < below)
    (hl : 0 ≤ l) (hr : 0 ≤ r) : 0 ≤ depthDifference above below l 0 r := by
  unfold depthDifference
  rw [mul_zero, sub_zero, Scalar.natLit_ofNat_real]
  positivity

theorem transverseDifference_nonneg {axes : List (ℝ × ℝ × ℝ)}
    (h : ∀ x ∈ axes, 0 ≤ x.1 ∧ 0 ≤ x.2.1 ∧ 0 ≤ x.2.2) : 0 ≤ transverseDifference 0 axes := by
  rw [transverseDifference, Scalar.sum_real]
  refine List.sum_nonneg fun y hy => ?_
  obtain ⟨⟨minus, plus, factor⟩, hx, rfl⟩ := List.mem_map.mp hy
  obtain ⟨hminus, hplus, hfactor⟩ := h _ hx
  simp only [mul_zero, sub_zero]
  exact mul_nonneg hfactor (add_nonneg hminus hplus)

/-- The spacings of a stencil are positive, and none of its factors is negative. -/
structure Stencil.Proper (st : Stencil ℝ) : Prop where
  above : 0 < st.above
  below : 0 < st.below
  factors : ∀ factor ∈ st.factorList, 0 ≤ factor

variable {st : Stencil ℝ} {nb : Neighbours} {v : Nat → Nat → ℝ} {n i : Nat}

theorem Neighbours.read_nonneg (h : ∀ o q, nb.resolve o = some q → 0 ≤ v q i) (o : Offset) :
    0 ≤ nb.read v o i := by
  unfold read
  cases hq : nb.resolve o with
  | none => exact le_rfl
  | some q => exact h o q hq

namespace Diffusion

variable (hproper : st.Proper) (hv : ∀ o q, nb.resolve o = some q → 0 ≤ v q i)
  (hcenter : nb.read v .center i = 0)

include hproper hv hcenter

theorem along_nonneg : 0 ≤ along st nb v i := by
  rw [along, hcenter]
  exact depthDifference_nonneg hproper.above hproper.below (Neighbours.read_nonneg hv _)
    (Neighbours.read_nonneg hv _)

theorem across_nonneg : 0 ≤ across st nb v i := by
  rw [across, hcenter]
  refine transverseDifference_nonneg fun y hy => ?_
  obtain ⟨⟨pair, factor⟩, hx, rfl⟩ := List.mem_map.mp hy
  obtain ⟨hpair, hfactor⟩ := List.of_mem_zip hx
  obtain ⟨axis, haxis⟩ := List.mem_iff_getElem?.mp hpair
  exact ⟨hv (.minus axis) _ (by simp [Neighbours.resolve, haxis]),
    hv (.plus axis) _ (by simp [Neighbours.resolve, haxis]), hproper.factors _ hfactor⟩

theorem entryTotal_ownEntries_nonneg (hst : st.Shows nb v n) {d : Diffusion} {p : PointRates ℝ}
    (hp : ∀ y ∈ p.diffusion, 0 ≤ y.value) :
    0 ≤ entryTotal (Pi.single i 1) (nb.read v) (d.ownEntries p st) := by
  rw [ownEntries, entryTotal_flatMap]
  refine List.sum_nonneg fun y hy => ?_
  obtain ⟨j, -, rfl⟩ := List.mem_map.mp hy
  rw [entryTotal_ownPartials hst]
  -- Diffusion couples a cluster to no other one.
  by_cases hj : j = i
  · subst hj
    have hvalue : 0 ≤ (p.diffusion.getD j .zero).value := by
      rw [Array.getD_eq_getD_getElem?]
      cases hget : p.diffusion[j]? with
      | none => simp [Thermal.zero]
      | some y => exact hp y (Array.mem_of_getElem? hget)
    rw [Pi.single_eq_same, one_mul]
    exact add_nonneg (mul_nonneg hvalue (along_nonneg hproper hv hcenter))
      (mul_nonneg hvalue (across_nonneg hproper hv hcenter))
  · rw [Pi.single_eq_of_ne hj, zero_mul]

end Diffusion

end Transport

namespace Simulation

open Assembly

variable {x : Simulation ℝ} {s : GridState ℝ} {p : Nat} {rates : PointRates ℝ} {st : Stencil ℝ}
  {nodes : List ℝ} {dimension : Nat} {hy hz : ℝ}

theorem stencilFactors_nonneg (x : Simulation ℝ) :
    0 ≤ x.stencilFactors.1 ∧ 0 ≤ x.stencilFactors.2 := by
  obtain ⟨hfy, hfz⟩ := x.grid.transverseFactors_nonneg
  unfold stencilFactors
  cases decide (1 < x.config.ny) <;> cases decide (1 < x.config.nz) <;> simp [hfy, hfz]

theorem proper_of_stencil (hgrid : DepthGrid.ofNodes nodes dimension hy hz = .ok x.grid)
    (hp : p < x.shape.points) (h : x.stencil s p = .ok st) : st.Proper := by
  obtain ⟨-, -, -, -, habove, hbelow, hfactors, -⟩ := stencil_eq_ok h
  obtain ⟨hnode, -, -⟩ := GridShape.coords_lt hp
  obtain ⟨hfirst, hsecond⟩ := x.stencilFactors_nonneg
  constructor
  · rw [habove]
    exact DepthGrid.spacingAbove_pos hgrid hnode
  · rw [hbelow]
    exact DepthGrid.spacingBelow_pos hgrid _
  · rw [Stencil.factorList, hfactors]
    simp [hfirst, hsecond]

/-- No rate and no coefficient is negative, and in a state without negative concentrations none that
is zero decreases. -/
structure QuasiPositive (x : Simulation ℝ) : Prop where
  rates : ∀ r ∈ x.tables.points, r.Nonneg x.net
  flux : ∀ s, x.Fits s → (∀ q < x.shape.points, ∀ i < x.net.size, 0 ≤ s.value q i) →
    ∀ p < x.shape.points, ∃ out, x.flux s p = .ok out ∧ out.size = x.dofs ∧
      ∀ i < x.net.size, s.value p i = 0 → 0 ≤ out.getD i 0

theorem LooksUp.mem_points (h : x.LooksUp s p rates st) : rates ∈ x.tables.points :=
  Array.mem_of_getElem? (RateTables.checked_eq_ok_iff.mp h.checked).1

theorem Sound.sum_reactionFlux_nonneg (h : x.Sound) (hrates : rates.Nonneg x.net) {row : Nat}
    {conc : Array ℝ} (hconc : ∀ i < x.net.size, 0 ≤ conc.getD i 0) (hrow : conc.getD row 0 = 0) :
    0 ≤ ((x.net.reactions.toList.zip rates.rates.toList).map fun y =>
      reactionFlux (Pi.single row 1) conc y.1 y.2.value).sum := by
  obtain ⟨spec, hb⟩ := h.network
  refine List.sum_nonneg fun z hz => ?_
  obtain ⟨⟨r, rate⟩, hy, rfl⟩ := List.mem_map.mp hz
  obtain ⟨hr, hrate⟩ := List.of_mem_zip hy
  refine reactionFlux_nonneg (hb.formed hr) (hb.mem_reactions_iff.mp hr).coefficient_pos.le
    (hrates.rates rate (Array.mem_toList_iff.mp hrate)) (fun i hi => ?_) hrow
  exact hconc i (hb.lt_size_of_mem_participants hr (Term.mem_participants_of_mem_factors hi))

theorem Sound.quasiPositive (h : x.Sound)
    (hgrid : DepthGrid.ofNodes nodes dimension hy hz = .ok x.grid)
    (hdrift : x.config.drift.enabled = false) (hrates : ∀ r ∈ x.tables.points, r.Nonneg x.net) :
    x.QuasiPositive := by
  refine ⟨hrates, fun s hs hconc p hp => ?_⟩
  rw [flux_eq hs]
  cases hvacuum : x.isVacuum p with
  | true =>
    refine ⟨_, pointFlux_of_isVacuum hs hp hvacuum, Array.size_replicate, fun i hi _ => ?_⟩
    simp [Array.getD_eq_getD_getElem?, hi.trans_le h.size_le]
  | false =>
    obtain ⟨rates, hlook⟩ := h.exists_looksUp hp hvacuum
    obtain ⟨st, hx⟩ := hlook s hs
    have hnonneg := hrates rates hx.mem_points
    obtain ⟨out, hout, hsize, hentry⟩ := h.exists_pointFlux hx
    refine ⟨out, hout, hsize, fun i hi hzero => ?_⟩
    have hvalue : ∀ j < x.net.size, st.center.getD j 0 = s.value p j := fun j hj =>
      GridState.getD_point (stencil_eq_ok hx.stencil).1 (hs.dofs ▸ hj.trans_le h.size_le)
    have hreactions := h.sum_reactionFlux_nonneg hnonneg
      (fun j hj => (hvalue j hj).symm ▸ hconc p hp j hj) ((hvalue i hi).trans hzero)
    have hdiffusion : 0 ≤ entryTotal (Pi.single i 1) ((x.neighbours p).read s.value)
        (x.ownEntries rates st (x.temperatureOf (x.neighbours p) s.value)) := by
      have hnone : x.drift = none := by
        rw [← Option.not_isSome_iff_eq_none, h.drifting, hdrift]
        decide
      rw [ownEntries, hnone, Option.elim_none, List.append_nil]
      cases x.diffusion with
      | none => exact le_rfl
      | some d =>
        exact Diffusion.entryTotal_ownEntries_nonneg (proper_of_stencil hgrid hp hx.stencil)
          (fun o q hq => hconc q (GridShape.resolve_lt hp hq) i hi) hzero hx.shows
          hnonneg.diffusion
    rw [hentry i (hi.trans_le h.size_le), heatGain_of_ne hi.ne, add_zero]
    exact add_nonneg hreactions hdiffusion

/-- No rate and no coefficient of a network is ever negative, whichever temperatures its tables are
made for and brought to. After any calls, a simulation of it without drift does not drive a
concentration below zero. -/
theorem quasiPositive_after_calls {spec : NetworkSpec ℝ} {net : Network ℝ}
    (hnet : (Network.build spec).value = .ok net) :
    (∀ ts : List ℝ, (∀ t ∈ ts, 0 < t) → ∃ tables, RateTables.ofTemperatures net ts = .ok tables ∧
      tables.points.size = ts.length ∧
      ∀ updates, ∀ r ∈ (tables.updateAll net updates).points, r.Nonneg net) ∧
    ∀ (nodes : List ℝ) (dimension : Nat) (hy hz : ℝ) (grid : DepthGrid ℝ)
      (config : SimulationConfig ℝ) (start : Simulation ℝ),
      DepthGrid.ofNodes nodes dimension hy hz = .ok grid → config.drift.enabled = false →
      (build net grid config).value = .ok start → ∀ calls,
        (start.performAll calls).net = net ∧ (start.performAll calls).QuasiPositive := by
  have hb := Network.builtFrom_of_build hnet
  constructor
  · intro ts hts
    obtain ⟨tables, htables⟩ :=
      hb.exists_ofTemperatures fun t ht => Scalar.isPositive_real.mpr (hts t ht)
    obtain ⟨hcoherent, htemperatures⟩ := RateTables.coherent_ofTemperatures htables
    refine ⟨tables, htables, ?_, fun updates r hr => ?_⟩
    · simpa using congrArg List.length htemperatures
    · exact (hcoherent.updateAll updates).1.nonneg hnet hr
  · intro nodes dimension hy hz grid config start hgrid hdrift hstart calls
    obtain ⟨h, hsame, hcallsGrid, hcallsConfig⟩ := sound_after_calls hnet hstart calls
    have hcoherent : (start.performAll calls).tables.Coherent net := hsame ▸ h.tables
    refine ⟨hsame, h.quasiPositive (hcallsGrid ▸ hgrid) (hcallsConfig ▸ hdrift) fun r hr => ?_⟩
    rw [hsame]
    exact hcoherent.nonneg hnet hr

/-- Pairs of xenon atoms alone on three nodes, with the surface at the middle one: single atoms do
not decrease. -/
theorem quasiPositive_after_calls_xenon :
    ∃ (net : Network ℝ) (grid : DepthGrid ℝ) (start : Simulation ℝ),
      (Network.build (.xenon 2)).value = .ok net ∧ DepthGrid.ofNodes [0, 1, 3] 1 1 1 = .ok grid ∧
      (build net grid SimulationConfig.standard).value = .ok start ∧
      let x := start.performAll [.setSurface 0 0 1]
      ∃ (s : GridState ℝ) (out : Array ℝ), x.Fits s ∧ s.value 1 0 = 0 ∧ s.value 1 1 = 1 ∧
        x.flux s 1 = .ok out ∧ 0 ≤ out.getD 0 0 := by
  obtain ⟨net, hnet, hsize⟩ := Network.exists_build_xenon
  obtain ⟨start, hstart⟩ := exists_build_standard (Network.builtFrom_of_build hnet)
  obtain ⟨-, hcalls⟩ := quasiPositive_after_calls hnet
  obtain ⟨-, hpositive⟩ :=
    hcalls _ _ _ _ _ _ _ DepthGrid.ofNodes_three rfl hstart [.setSurface 0 0 1]
  refine ⟨net, _, start, hnet, DepthGrid.ofNodes_three, hstart, ?_⟩
  intro x
  change x.QuasiPositive at hpositive
  obtain ⟨h, hsame, hgrid, hconfig⟩ : x.Sound ∧ x.net = net ∧ _ ∧ _ :=
    sound_after_calls hnet hstart [.setSurface 0 0 1]
  have hpoint : 1 < x.shape.points := by
    rw [shape, hgrid, hconfig]
    decide
  have hclusters : x.net.size = 2 := by rw [hsame, hsize]
  have hdofs : 2 ≤ x.dofs := hclusters ▸ h.size_le
  let s : GridState ℝ := ⟨x.shape, x.dofs, Array.ofFn fun k : Fin (x.shape.points * x.dofs) =>
    if k.val % x.dofs = 1 then 1 else 0, Array.size_ofFn⟩
  have hs : x.Fits s := ⟨rfl, rfl⟩
  have hvalue : ∀ q < x.shape.points, ∀ i < x.dofs, s.value q i = if i = 1 then 1 else 0 := by
    intro q hq i hi
    have hlt : q * x.dofs + i < x.shape.points * x.dofs :=
      (hs.lt_size_values hq hi).trans_eq s.size_values
    have hmod : (q * x.dofs + i) % x.dofs = i := by
      rw [Nat.mul_comm, Nat.mul_add_mod, Nat.mod_eq_of_lt hi]
    simp [GridState.value, s, Array.getD_eq_getD_getElem?, hlt, hmod]
  have hnonneg : ∀ q < x.shape.points, ∀ i < x.net.size, 0 ≤ s.value q i := by
    intro q hq i hi
    rw [hvalue q hq i (by omega)]
    split_ifs <;> norm_num
  have hzero : s.value 1 0 = 0 := hvalue 1 hpoint 0 (by omega)
  obtain ⟨out, hout, -, hentries⟩ := hpositive.flux s hs hnonneg 1 hpoint
  exact ⟨s, out, hs, hzero, hvalue 1 hpoint 1 (by omega), hout, hentries 0 (by omega) hzero⟩

end Simulation

end ClusterDynamics
