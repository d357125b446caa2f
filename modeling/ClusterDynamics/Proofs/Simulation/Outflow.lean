import ClusterDynamics.Proofs.Depth.Sums
import ClusterDynamics.Proofs.Rates.Capture
import ClusterDynamics.Proofs.Simulation.QuasiPositivity

/-! What diffusion moves over a whole grid. Weighted by the depth that a node stands for, the gains of
all points of the material telescope: a cluster leaves through the surface, where the concentration
above is zero, and neither through the bulk end nor between columns. -/

namespace ClusterDynamics

open Finset

section Depth

variable {g : DepthGrid ℝ} {nodes : List ℝ} {dimension : Nat} {hy hz : ℝ} {surface ix : Nat}
  {c : Nat → ℝ}

/-- The half sum of its spacings takes the denominator off a second difference. -/
theorem mul_depthDifference {a b : ℝ} (ha : 0 < a) (hb : 0 < b) (l c r : ℝ) :
    (a + b) / 2 * depthDifference a b l c r = (r - c) / b - (c - l) / a := by
  have hsum : a + b ≠ 0 := (add_pos ha hb).ne'
  rw [depthDifference, Scalar.natLit_ofNat_real, Scalar.natLit_one_real]
  field_simp
  ring

/-- What rises from a node to the one above it, for concentrations `c` along a column. Nothing
rises from behind the last node, and there is nothing above the surface. -/
noncomputable def DepthGrid.rise (g : DepthGrid ℝ) (surface : Nat) (c : Nat → ℝ) (ix : Nat) : ℝ :=
  if ix < g.size then (c ix - if surface < ix then c (ix - 1) else 0) / g.spacingAbove ix else 0

/-- A node gains what rises from the node below, and loses what rises from itself. -/
theorem DepthGrid.mul_depthDifference_eq_rise
    (hgrid : DepthGrid.ofNodes nodes dimension hy hz = .ok g) (hsurface : surface ≤ ix)
    (hix : ix < g.size) :
    (g.spacingAbove ix + g.spacingBelow ix) / 2 *
      depthDifference (g.spacingAbove ix) (g.spacingBelow ix)
        (if surface < ix then c (ix - 1) else 0) (c ix) (c (min (ix + 1) (g.size - 1))) =
      g.rise surface c (ix + 1) - g.rise surface c ix := by
  rw [mul_depthDifference (spacingAbove_pos hgrid hix) (spacingBelow_pos hgrid ix), rise, rise,
    if_pos hix]
  by_cases hlast : ix + 1 < g.size
  · have hbelow : min (ix + 1) (g.size - 1) = ix + 1 := by omega
    have hmaterial : surface < ix + 1 := by omega
    rw [hbelow, if_pos hlast, if_pos hmaterial, spacingAbove_succ hlast, Nat.add_sub_cancel]
  · -- The last node has itself below.
    have hbelow : min (ix + 1) (g.size - 1) = ix := by omega
    rw [hbelow, if_neg hlast, sub_self, zero_div]

theorem DepthGrid.sum_depthDifference
    (hgrid : DepthGrid.ofNodes nodes dimension hy hz = .ok g) (hsurface : surface < g.size) :
    ∑ ix ∈ range g.size, (if surface ≤ ix then (g.spacingAbove ix + g.spacingBelow ix) / 2 *
      depthDifference (g.spacingAbove ix) (g.spacingBelow ix)
        (if surface < ix then c (ix - 1) else 0) (c ix) (c (min (ix + 1) (g.size - 1))) else 0) =
      -(c surface / g.spacingAbove surface) := by
  have hmaterial : (range g.size).filter (surface ≤ ·) = Ico surface g.size := by
    ext ix
    simp [and_comm]
  have hsteps : ∀ ix ∈ Ico surface g.size, (g.spacingAbove ix + g.spacingBelow ix) / 2 *
      depthDifference (g.spacingAbove ix) (g.spacingBelow ix)
        (if surface < ix then c (ix - 1) else 0) (c ix) (c (min (ix + 1) (g.size - 1))) =
      g.rise surface c (ix + 1) - g.rise surface c ix := by
    intro ix hix
    obtain ⟨hle, hlt⟩ := mem_Ico.mp hix
    exact mul_depthDifference_eq_rise hgrid hle hlt
  have hend : g.rise surface c g.size = 0 := by rw [rise, if_neg (lt_irrefl _)]
  have hstart : g.rise surface c surface = c surface / g.spacingAbove surface := by
    rw [rise, if_pos hsurface, if_neg (lt_irrefl _), sub_zero]
  have htelescope : ∑ n ∈ range (g.size - surface),
      (g.rise surface c (surface + n + 1) - g.rise surface c (surface + n)) =
      g.rise surface c (surface + (g.size - surface)) - g.rise surface c (surface + 0) :=
    sum_range_sub (fun n => g.rise surface c (surface + n)) _
  rw [← sum_filter, hmaterial, sum_congr rfl hsteps, sum_Ico_eq_sum_range, htelescope,
    Nat.add_zero, Nat.add_sub_of_le hsurface.le, hend, hstart, zero_sub]

end Depth

theorem ClusterTable.nodup_diffusing {K : Type} [Scalar K] (table : ClusterTable K) :
    table.diffusing.Nodup :=
  List.nodup_range.filter _

section Diffusion

variable {d : Diffusion} {rates : PointRates ℝ} {st : Stencil ℝ} {nb : Neighbours}
  {v : Nat → Nat → ℝ} {n i : Nat}

/-- What comes to a cluster is its coefficient times the two differences of its own values. -/
theorem Diffusion.entryTotal_ownEntries (h : st.Shows nb v n) (hnodup : d.diffusing.Nodup)
    (hi : i ∈ d.diffusing) : entryTotal (Pi.single i 1) (nb.read v) (d.ownEntries rates st) =
      (rates.diffusion.getD i .zero).value * along st nb v i +
        (rates.diffusion.getD i .zero).value * across st nb v i := by
  have hother : ∀ j ≠ i, j ∈ d.diffusing → entryTotal (Pi.single i 1) (nb.read v)
      (ownPartials st j (rates.diffusion.getD j .zero).value
        (st.factorList.take st.transverse.length)) = 0 := by
    intro j hj _
    rw [entryTotal_ownPartials h, Pi.single_eq_of_ne hj, zero_mul]
  rw [ownEntries, entryTotal_flatMap, List.sum_map_eq_nsmul_single i _ hother,
    List.count_eq_one_of_mem hnodup hi, one_nsmul, entryTotal_ownPartials h, Pi.single_eq_same,
    one_mul]

theorem Diffusion.exists_addFlux_getD (h : st.Shows nb v n)
    (hids : ∀ j ∈ d.diffusing, j < rates.diffusion.size) (hrates : rates.diffusion.size ≤ n)
    (hnodup : d.diffusing.Nodup) (hi : i ∈ d.diffusing) {out : Array ℝ} (hout : n ≤ out.size) :
    ∃ out', d.addFlux rates st out = .ok out' ∧ out'.getD i 0 = out.getD i 0 +
      ((rates.diffusion.getD i .zero).value * along st nb v i +
        (rates.diffusion.getD i .zero).value * across st nb v i) := by
  obtain ⟨out', hflux, -, htotal⟩ := exists_addFlux h hids hrates hout
  have hi' : i < out.size := ((hids i hi).trans_le hrates).trans_le hout
  have hentry := htotal (Pi.single i 1)
  rw [weightedTotal_single hi', weightedTotal_single hi', entryTotal_ownEntries h hnodup hi]
    at hentry
  exact ⟨out', hflux, hentry⟩

end Diffusion

namespace Simulation

variable {x : Simulation ℝ} {v : Nat → Nat → ℝ} {i p ix iy iz surface : Nat}

/-- The second difference along depth of the values around a point. -/
noncomputable def alongAt (x : Simulation ℝ) (v : Nat → Nat → ℝ) (i p : Nat) : ℝ :=
  depthDifference (x.grid.spacingAbove (x.nodeOf p)) (x.grid.spacingBelow (x.nodeOf p))
    ((x.neighbours p).read v .left i) ((x.neighbours p).read v .center i)
    ((x.neighbours p).read v .right i)

/-- The second difference across of the values around a point. -/
noncomputable def acrossAt (x : Simulation ℝ) (v : Nat → Nat → ℝ) (i p : Nat) : ℝ :=
  transverseDifference ((x.neighbours p).read v .center i)
    (((x.neighbours p).transverse.zip [x.stencilFactors.1, x.stencilFactors.2]).map
      fun y => (v y.1.1 i, v y.1.2 i, y.2))

theorem along_eq_alongAt {s : GridState ℝ} {st : Stencil ℝ} (h : x.stencil s p = .ok st) :
    Diffusion.along st (x.neighbours p) v i = x.alongAt v i p ∧
      Diffusion.across st (x.neighbours p) v i = x.acrossAt v i p := by
  obtain ⟨-, -, -, -, habove, hbelow, hfactors, -⟩ := stencil_eq_ok h
  constructor
  · rw [Diffusion.along, habove, hbelow, alongAt]
  · rw [Diffusion.across, Stencil.factorList, hfactors, acrossAt]

section Column

variable (hx : ix < x.shape.nx) (hy : iy < x.shape.ny)

include hx hy

theorem alongAt_linear (hsurface : x.surface.node iy iz = surface) :
    x.alongAt v i (x.shape.linear ix iy iz) =
      depthDifference (x.grid.spacingAbove ix) (x.grid.spacingBelow ix)
        (if surface < ix then v (x.shape.linear (ix - 1) iy iz) i else 0)
        (v (x.shape.linear ix iy iz) i)
        (v (x.shape.linear (min (ix + 1) (x.shape.nx - 1)) iy iz) i) := by
  have hcoords : x.shape.coords (x.shape.linear ix iy iz) = _ := GridShape.coords_linear hx hy
  have hleft : (x.neighbours (x.shape.linear ix iy iz)).read v .left i =
      if surface < ix then v (x.shape.linear (ix - 1) iy iz) i else 0 := by
    simp only [Neighbours.read, Neighbours.resolve, neighbours, GridShape.neighbours, surfaceAt,
      hcoords, hsurface]
    split_ifs <;> rfl
  have hright : (x.neighbours (x.shape.linear ix iy iz)).read v .right i =
      v (x.shape.linear (min (ix + 1) (x.shape.nx - 1)) iy iz) i := by
    simp only [Neighbours.read, Neighbours.resolve, neighbours, GridShape.neighbours, hcoords,
      Option.elim_some]
  have hnode : x.nodeOf (x.shape.linear ix iy iz) = ix := by rw [nodeOf, hcoords]
  rw [alongAt, hnode, hleft, hright]
  rfl

theorem acrossAt_linear : x.acrossAt v i (x.shape.linear ix iy iz) =
    (if 1 < x.shape.ny then x.stencilFactors.1 else 0) *
      (v (x.shape.linear ix ((iy + x.shape.ny - 1) % x.shape.ny) iz) i +
        v (x.shape.linear ix ((iy + 1) % x.shape.ny) iz) i - 2 * v (x.shape.linear ix iy iz) i) +
    (if 1 < x.shape.nz then
        if 1 < x.shape.ny then x.stencilFactors.2 else x.stencilFactors.1 else 0) *
      (v (x.shape.linear ix iy ((iz + x.shape.nz - 1) % x.shape.nz)) i +
        v (x.shape.linear ix iy ((iz + 1) % x.shape.nz)) i - 2 * v (x.shape.linear ix iy iz) i) := by
  have hcoords : x.shape.coords (x.shape.linear ix iy iz) = _ := GridShape.coords_linear hx hy
  have hcenter : (x.neighbours (x.shape.linear ix iy iz)).read v .center i =
      v (x.shape.linear ix iy iz) i := rfl
  rw [acrossAt, hcenter, transverseDifference, Scalar.sum_real]
  simp only [neighbours, GridShape.neighbours, hcoords, Scalar.natLit_ofNat_real]
  by_cases hny : 1 < x.shape.ny
  · by_cases hnz : 1 < x.shape.nz
    · simp [hny, hnz]
    · simp [hny, hnz]
  · by_cases hnz : 1 < x.shape.nz
    · simp [hny, hnz]
    · simp [hny, hnz]

end Column

/-- At one depth, what one column gains across another one loses. -/
theorem sum_acrossAt (hx : ix < x.shape.nx) : ∑ iz ∈ range x.shape.nz,
    ∑ iy ∈ range x.shape.ny, x.acrossAt v i (x.shape.linear ix iy iz) = 0 := by
  have hsplit : ∀ iz ∈ range x.shape.nz, ∀ iy ∈ range x.shape.ny,
      x.acrossAt v i (x.shape.linear ix iy iz) = _ :=
    fun iz _ iy hy => acrossAt_linear hx (mem_range.mp hy)
  have halongY : ∀ iz, ∑ iy ∈ range x.shape.ny, _ = _ := fun iz =>
    sum_secondDifference (fun iy => v (x.shape.linear ix iy iz) i) x.shape.ny
  have halongZ : ∀ iy, ∑ iz ∈ range x.shape.nz, _ = _ := fun iy =>
    sum_secondDifference (fun iz => v (x.shape.linear ix iy iz) i) x.shape.nz
  rw [sum_congr rfl fun iz hz => sum_congr rfl (hsplit iz hz)]
  simp only [sum_add_distrib, ← mul_sum, halongY, mul_zero, zero_add]
  rw [sum_comm]
  simp only [halongZ, sum_const_zero, mul_zero]

variable {nodes : List ℝ} {dimension : Nat} {hy hz : ℝ}

/-- In the material, the gains add up to the loss through the surface. -/
theorem sum_gains (hgrid : DepthGrid.ofNodes nodes dimension hy hz = .ok x.grid)
    (hsurface : ∀ iy < x.shape.ny, ∀ iz < x.shape.nz, x.surface.node iy iz = surface)
    (hlt : surface < x.grid.size) (d : ℝ) :
    ∑ p ∈ range x.shape.points with surface ≤ x.nodeOf p,
      (x.grid.spacingAbove (x.nodeOf p) + x.grid.spacingBelow (x.nodeOf p)) / 2 *
        (d * x.alongAt v i p + d * x.acrossAt v i p) =
      -∑ iz ∈ range x.shape.nz, ∑ iy ∈ range x.shape.ny,
        d * v (x.shape.linear surface iy iz) i / x.grid.spacingAbove surface := by
  let weight : Nat → ℝ := fun ix => (x.grid.spacingAbove ix + x.grid.spacingBelow ix) / 2
  have hpoint : ∀ iz ∈ range x.shape.nz, ∀ iy ∈ range x.shape.ny, ∀ ix ∈ range x.shape.nx,
      (if surface ≤ x.nodeOf (x.shape.linear ix iy iz) then
        weight (x.nodeOf (x.shape.linear ix iy iz)) *
          (d * x.alongAt v i (x.shape.linear ix iy iz) +
            d * x.acrossAt v i (x.shape.linear ix iy iz)) else 0) =
      d * (if surface ≤ ix then weight ix * x.alongAt v i (x.shape.linear ix iy iz) else 0) +
        d * ((if surface ≤ ix then weight ix else 0) *
          x.acrossAt v i (x.shape.linear ix iy iz)) := by
    intro iz _ iy hy ix hx
    have hnode : x.nodeOf (x.shape.linear ix iy iz) = ix := by
      rw [nodeOf, GridShape.coords_linear (mem_range.mp hx) (mem_range.mp hy)]
    rw [hnode]
    split_ifs
    · ring
    · ring
  have hcolumn : ∀ iz ∈ range x.shape.nz, ∀ iy ∈ range x.shape.ny, ∑ ix ∈ range x.shape.nx,
      (if surface ≤ ix then weight ix * x.alongAt v i (x.shape.linear ix iy iz) else 0) =
      -(v (x.shape.linear surface iy iz) i / x.grid.spacingAbove surface) := by
    intro iz hz iy hy
    have hat := hsurface iy (mem_range.mp hy) iz (mem_range.mp hz)
    rw [← DepthGrid.sum_depthDifference hgrid hlt (c := fun ix => v (x.shape.linear ix iy iz) i)]
    refine sum_congr rfl fun ix hx => ?_
    rw [alongAt_linear (mem_range.mp hx) (mem_range.mp hy) hat]
    rfl
  have hacross : ∑ iz ∈ range x.shape.nz, ∑ iy ∈ range x.shape.ny, ∑ ix ∈ range x.shape.nx,
      (if surface ≤ ix then weight ix else 0) * x.acrossAt v i (x.shape.linear ix iy iz) = 0 := by
    rw [sum_congr rfl fun iz _ => sum_comm, sum_comm]
    refine sum_eq_zero fun ix hx => ?_
    simp only [← mul_sum, sum_acrossAt (mem_range.mp hx), mul_zero]
  rw [sum_filter, GridShape.sum_points]
  rw [sum_congr rfl fun iz hz => sum_congr rfl fun iy hy => sum_congr rfl (hpoint iz hz iy hy)]
  simp only [sum_add_distrib, ← mul_sum, hacross, mul_zero, add_zero]
  rw [sum_congr rfl fun iz hz => sum_congr rfl (hcolumn iz hz), mul_sum, ← sum_neg_distrib]
  refine sum_congr rfl fun iz _ => ?_
  rw [mul_sum, ← sum_neg_distrib]
  refine sum_congr rfl fun iy _ => ?_
  ring

theorem Sound.diffusion_getD (h : x.Sound) {rates : PointRates ℝ} (hrates : rates ∈ x.tables.points)
    {c : Cluster ℝ} (hc : x.net.cluster i = .ok c) : rates.diffusion.getD i .zero =
      diffusionCoefficient c.diffusionFactor c.migrationEnergy rates.temperature := by
  obtain ⟨computed, hcomputed, hpoint⟩ := h.tables.fresh rates (Array.mem_toList_iff.mpr hrates)
  obtain ⟨-, _, -, hfields⟩ := PointRates.compute_eq_ok_iff.mp hcomputed
  have hdiffusion : rates.diffusion =
      (RateContext.ofTemperature x.net rates.temperature).diffusion := by
    rw [hpoint, hfields]
  have hentry := entryAt_eq_ok_iff.mp (RateContext.entryAt_diffusion hc rates.temperature)
  rw [hdiffusion, Array.getD_eq_getD_getElem?, hentry, Option.getD_some]

/-- At a point, diffusion adds `gain` to a degree of freedom. -/
def Gains (x : Simulation ℝ) (d : Diffusion) (s : GridState ℝ) (p i : Nat) (gain : ℝ) : Prop :=
  ∃ rates st, x.tables.checked p x.tables.generation = .ok rates ∧ x.stencil s p = .ok st ∧
    ∀ out, out.size = x.dofs →
      ∃ out', d.addFlux rates st out = .ok out' ∧ out'.getD i 0 = out.getD i 0 + gain

theorem Sound.gains (h : x.Sound) {s : GridState ℝ} (hs : x.Fits s) (hp : p < x.shape.points)
    (hvacuum : x.isVacuum p = false) {t : ℝ}
    (htemperature : ∀ rates ∈ x.tables.points, rates.temperature = t) {c : Cluster ℝ}
    (hc : x.net.cluster i = .ok c) (hmobile : c.isMobile = true) (temperature : Option Nat) :
    x.Gains (.ofNetwork x.net temperature) s p i
      ((diffusionCoefficient c.diffusionFactor c.migrationEnergy t).value *
          x.alongAt s.value i p +
        (diffusionCoefficient c.diffusionFactor c.migrationEnergy t).value *
          x.acrossAt s.value i p) := by
  obtain ⟨rates, hlook⟩ := h.exists_looksUp hp hvacuum
  obtain ⟨st, hx⟩ := hlook s hs
  obtain ⟨halong, hacross⟩ := along_eq_alongAt (v := s.value) (i := i) hx.stencil
  refine ⟨rates, st, hx.checked, hx.stencil, fun out hout => ?_⟩
  rw [← htemperature rates hx.mem_points, ← h.diffusion_getD hx.mem_points hc, ← halong, ← hacross]
  refine Diffusion.exists_addFlux_getD hx.shows (fun j hj => ?_) (hx.diffusion.le.trans h.size_le)
    x.net.table.nodup_diffusing (Network.mem_diffusing_iff.mpr ⟨c, hc, hmobile⟩) hout.ge
  rw [hx.diffusion]
  exact ClusterTable.lt_size_of_mem_diffusing hj

theorem isVacuum_eq_of_surface
    (hsurface : ∀ iy < x.shape.ny, ∀ iz < x.shape.nz, x.surface.node iy iz = surface)
    (hp : p < x.shape.points) : x.isVacuum p = decide (x.nodeOf p < surface) := by
  obtain ⟨-, hy, hz⟩ := GridShape.coords_lt hp
  have hat : x.surfaceAt p = surface := hsurface _ hy _ hz
  rw [isVacuum, hat]

/-- With the surface at one node and all points at one temperature, what diffusion adds to a mobile
cluster comes to what leaves through the surface. -/
theorem outflow_after_calls {spec : NetworkSpec ℝ} {net : Network ℝ} {grid : DepthGrid ℝ}
    {config : SimulationConfig ℝ} {start : Simulation ℝ} {t : ℝ} {c : Cluster ℝ} {s : GridState ℝ}
    (hnet : (Network.build spec).value = .ok net)
    (hgrid : DepthGrid.ofNodes nodes dimension hy hz = .ok grid)
    (hstart : (build net grid config).value = .ok start) (calls : List (Call ℝ))
    (hsurface : ∀ j < config.ny, ∀ k < config.nz,
      (start.performAll calls).surface.node j k = surface)
    (htemperature : ∀ rates ∈ (start.performAll calls).tables.points, rates.temperature = t)
    (hc : net.cluster i = .ok c) (hmobile : c.isMobile = true)
    (hs : (start.performAll calls).Fits s) (temperature : Option Nat) :
    let x := start.performAll calls
    let d := (diffusionCoefficient c.diffusionFactor c.migrationEnergy t).value
    ∃ gain : Nat → ℝ,
      (∀ p < x.shape.points, surface ≤ x.nodeOf p →
        x.Gains (.ofNetwork net temperature) s p i (gain p)) ∧
      ∑ p ∈ range x.shape.points with surface ≤ x.nodeOf p,
        (grid.spacingAbove (x.nodeOf p) + grid.spacingBelow (x.nodeOf p)) / 2 * gain p =
      -∑ k ∈ range config.nz, ∑ j ∈ range config.ny,
        d * s.value (x.shape.linear surface j k) i / grid.spacingAbove surface := by
  intro x d
  obtain ⟨h, hsame, hcallsGrid, hcallsConfig⟩ : x.Sound ∧ x.net = net ∧ _ ∧ _ :=
    sound_after_calls hnet hstart calls
  obtain ⟨hny, hnz⟩ := SurfaceMap.columns_pos_of_flat (builtFrom_of_build hstart).surface
  rw [← hcallsConfig] at hsurface hny hnz ⊢
  rw [← hcallsGrid] at hgrid ⊢
  rw [← hsame] at hc ⊢
  have hlt : surface < x.grid.size := by
    rw [← hsurface 0 hny 0 hnz]
    exact (h.surface.node_lt hny hnz).2
  refine ⟨fun p => d * x.alongAt s.value i p + d * x.acrossAt s.value i p, fun p hp hdeep => ?_,
    sum_gains hgrid hsurface hlt d⟩
  have hvacuum : x.isVacuum p = false := by
    rw [isVacuum_eq_of_surface hsurface hp]
    exact decide_eq_false (Nat.not_lt.mpr hdeep)
  exact h.gains hs hp hvacuum htemperature hc hmobile temperature

/-- Two columns of single xenon atoms, three times as many in the second as in the first, whose
surfaces are moved to the middle node. -/
theorem outflow_after_calls_xenon :
    ∃ (net : Network ℝ) (c : Cluster ℝ) (grid : DepthGrid ℝ) (start : Simulation ℝ),
      (Network.build (.xenon 2)).value = .ok net ∧ net.cluster 0 = .ok c ∧ c.isMobile = true ∧
      DepthGrid.ofNodes [0, 1, 3] 2 1 1 = .ok grid ∧
      (build net grid { SimulationConfig.standard with ny := 2 }).value = .ok start ∧
      let x := start.performAll [.setSurface 0 0 1, .setSurface 1 0 1]
      let d := (diffusionCoefficient c.diffusionFactor c.migrationEnergy 1000).value
      ∃ (s : GridState ℝ) (gain : Nat → ℝ), x.Fits s ∧
        (∀ p < 6, 1 ≤ x.nodeOf p → x.Gains (.ofNetwork net none) s p 0 (gain p)) ∧
        ∑ p ∈ range 6 with 1 ≤ x.nodeOf p,
          (grid.spacingAbove (x.nodeOf p) + grid.spacingBelow (x.nodeOf p)) / 2 * gain p =
        -(4 * d) := by
  obtain ⟨net, hnet, hsize, hdiffusing⟩ := Network.exists_build_xenon_diffusing
  obtain ⟨c, hc, hmobile⟩ := Network.mem_diffusing_iff.mp ((hdiffusing 0).mpr rfl)
  obtain ⟨start, hstart⟩ := exists_build_plane (Network.builtFrom_of_build hnet)
  refine ⟨net, c, _, start, hnet, hc, hmobile, DepthGrid.ofNodes_plane, hstart, ?_⟩
  intro x d
  obtain ⟨h, hsame, -⟩ : x.Sound ∧ x.net = net ∧ _ :=
    sound_after_calls hnet hstart [.setSurface 0 0 1, .setSurface 1 0 1]
  obtain ⟨surface, hx, hshape, hfirst, hsecond⟩ : ∃ surface, x = { start with surface } ∧ _ :=
    plane_of_setSurface hnet hstart (a := 1) (b := 1) (by decide) (by decide)
  have hshape : x.shape = ⟨3, 2, 1⟩ := by
    rw [hx]
    exact hshape
  have hsurface : ∀ j < 2, ∀ k < 1, x.surface.node j k = 1 := by
    intro j hj k hk
    obtain rfl : k = 0 := by omega
    rw [hx]
    match j, hj with
    | 0, _ => exact hfirst
    | 1, _ => exact hsecond
  have htemperature : ∀ rates ∈ x.tables.points, rates.temperature = 1000 := by
    intro rates hrates
    rw [hx] at hrates
    have hmem := List.mem_map_of_mem (f := PointRates.temperature)
      (Array.mem_toList_iff.mpr hrates)
    rw [(builtFrom_of_build hstart).temperatures] at hmem
    exact (List.mem_replicate.mp hmem).2
  have hdofs : 0 < x.dofs := Nat.zero_lt_of_lt (hsize ▸ hsame ▸ h.size_le)
  let s : GridState ℝ := .tabulate x.shape x.dofs fun q _ => if q < 3 then 1 else 3
  have hs : x.Fits s := ⟨rfl, rfl⟩
  obtain ⟨gain, hgains, hsum⟩ := outflow_after_calls hnet DepthGrid.ofNodes_plane hstart
    [.setSurface 0 0 1, .setSurface 1 0 1] hsurface htemperature hc hmobile hs none
  have hpoints : x.shape.points = 6 := by
    rw [hshape]
    rfl
  have hvalue : ∀ q < 6, s.value q 0 = if q < 3 then 1 else 3 :=
    fun q hq => GridState.value_tabulate (hpoints ▸ hq) hdofs
  refine ⟨s, gain, hs, hpoints ▸ hgains, ?_⟩
  rw [← hpoints]
  refine hsum.trans ?_
  change -∑ k ∈ range 1, ∑ j ∈ range 2, d * s.value (x.shape.linear 1 j k) 0 /
    DepthGrid.spacingAbove ⟨#[0, 1, 3], 2, 1, 1⟩ 1 = _
  have hspacing : DepthGrid.spacingAbove (⟨#[0, 1, 3], 2, 1, 1⟩ : DepthGrid ℝ) 1 = 1 := by
    norm_num [DepthGrid.spacingAbove, DepthGrid.node]
  simp only [sum_range_succ, sum_range_zero, hshape, GridShape.linear, hspacing]
  rw [hvalue 1 (by decide), hvalue 4 (by decide)]
  norm_num
  ring

end Simulation

end ClusterDynamics
