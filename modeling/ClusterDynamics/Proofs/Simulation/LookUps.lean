import ClusterDynamics.Proofs.Assembly.Lowering
import ClusterDynamics.Proofs.Simulation.Soundness
import ClusterDynamics.Proofs.Transport.Reads

/-! What an evaluation at a point looks up. A state of the right shape and a point of the grid give
a stencil with all degrees of freedom and, in a sound simulation, current rates. -/

namespace ClusterDynamics.Simulation

variable {K : Type} [Scalar K] {x : Simulation K} {s : GridState K} {p : Nat}
  {rates : PointRates K} {st : Stencil K}

/-- A state that a simulation can evaluate. -/
structure Fits (x : Simulation K) (s : GridState K) : Prop where
  shape : s.shape = x.shape
  dofs : s.dofs = x.dofs

namespace Fits

variable {q i : Nat}

omit [Scalar K] in
theorem points (hs : x.Fits s) : s.points = x.shape.points := congrArg GridShape.points hs.shape

omit [Scalar K] in
theorem lt_size_values (hs : x.Fits s) (hq : q < x.shape.points) (hi : i < x.dofs) :
    q * x.dofs + i < s.values.size := by
  rw [← hs.shape] at hq
  rw [← hs.dofs] at hi ⊢
  exact GridState.lt_size_values hq hi

omit [Scalar K] in
theorem exists_set (hs : x.Fits s) (hq : q < x.shape.points) (hi : i < x.dofs) (y : K) :
    ∃ s', s.set q i y = .ok s' ∧ x.Fits s' ∧
      s'.values = s.values.setIfInBounds (q * x.dofs + i) y := by
  rw [← hs.shape] at hq
  rw [← hs.dofs] at hi ⊢
  obtain ⟨s', hset, hshape, hdofs, hvalues⟩ := GridState.exists_set hq hi y
  exact ⟨s', hset, ⟨hshape.trans hs.shape, hdofs.trans hs.dofs⟩, hvalues⟩

end Fits

omit [Scalar K] in
theorem checkState_eq_ok_iff : x.checkState s = .ok () ↔ x.Fits s := by
  unfold checkState
  by_cases hshape : s.shape = x.shape
  · by_cases hdofs : s.dofs = x.dofs
    · exact ⟨fun _ => ⟨hshape, hdofs⟩, fun _ => by simp [hshape, hdofs, pure, Except.pure]⟩
    · simp only [hshape, hdofs, ne_eq, not_true_eq_false, not_false_eq_true, if_true, if_false]
      exact ⟨nofun, fun h => absurd h.dofs hdofs⟩
  · simp only [hshape, ne_eq, not_false_eq_true, if_true]
    exact ⟨nofun, fun h => absurd h.shape hshape⟩

omit [Scalar K] in
theorem checkPoint_eq_ok (hs : x.Fits s) (hp : p < x.shape.points) : s.checkPoint p = .ok () := by
  rw [← hs.shape] at hp
  exact if_pos hp

omit [Scalar K] in
theorem isVacuum_eq_of_coords {ix iy iz : Nat} (h : x.shape.coords p = (ix, iy, iz)) :
    x.isVacuum p = decide (ix < x.surface.node iy iz) := by
  rw [isVacuum, nodeOf, surfaceAt, h]

/-- In a single column, the nodes above the one that the surface is moved to are vacuum. -/
theorem isVacuum_of_setSurface {spec : NetworkSpec K} {net : Network K} {grid : DepthGrid K}
    {config : SimulationConfig K} {start : Simulation K} {node : Nat}
    (hnet : (Network.build spec).value = .ok net)
    (hstart : (build net grid config).value = .ok start) (hny : config.ny = 1)
    (hnz : config.nz = 1) (hnode : node < grid.size) :
    let x := start.performAll [.setSurface 0 0 node]
    x.shape = ⟨grid.size, 1, 1⟩ ∧ ∀ p < grid.size, x.isVacuum p = decide (p < node) := by
  intro x
  obtain ⟨hbuilt, -, hgrid, hconfig⟩ := sound_of_build hnet hstart
  have hnode' : node < start.grid.size := hgrid ▸ hnode
  obtain ⟨surface, hx, hat, -⟩ := hbuilt.exists_surface (j := 0) (k := 0)
    (by rw [hconfig, hny]; decide) (by rw [hconfig, hnz]; decide) hnode'
  have hshape : x.shape = ⟨grid.size, 1, 1⟩ := by
    change (start.perform (.setSurface 0 0 node)).shape = _
    rw [hx, shape, hgrid, hconfig, hny, hnz]
  refine ⟨hshape, fun p hp => ?_⟩
  have hcoords : x.shape.coords p = (p, 0, 0) := by
    rw [hshape, GridShape.coords]
    simp [Nat.mod_eq_of_lt hp, Nat.div_eq_of_lt hp]
  have hsurface : x.surface.node 0 0 = node := by
    change (start.perform (.setSurface 0 0 node)).surface.node 0 0 = node
    rw [hx, hat]
  rw [isVacuum_eq_of_coords hcoords, hsurface]

/-- Two states that may differ in vacuum alone. -/
def AgreeOnMaterial (x : Simulation K) (s s' : GridState K) : Prop :=
  ∀ q < x.shape.points, x.isVacuum q = false → s.point q = s'.point q

section Stencil

theorem stencil_eq_ok (h : x.stencil s p = .ok st) : s.point p = .ok st.center ∧
    (x.neighbours p).left.mapM s.point = .ok st.left ∧
    s.point (x.neighbours p).right = .ok st.right ∧
    ((x.neighbours p).transverse.mapM fun y => do
      return (← s.point y.1, ← s.point y.2)) = .ok st.transverse ∧
    st.above = x.grid.spacingAbove (x.nodeOf p) ∧ st.below = x.grid.spacingBelow (x.nodeOf p) ∧
    st.factors = x.stencilFactors ∧ st.depth = x.grid.depth (x.nodeOf p) (x.surfaceAt p) := by
  obtain ⟨center, hcenter, h⟩ := bind_eq_ok_iff.mp h
  obtain ⟨left, hleft, h⟩ := bind_eq_ok_iff.mp h
  obtain ⟨right, hright, h⟩ := bind_eq_ok_iff.mp h
  obtain ⟨transverse, htransverse, h⟩ := bind_eq_ok_iff.mp h
  obtain rfl := Except.ok.inj h
  exact ⟨hcenter, hleft, hright, htransverse, rfl, rfl, rfl, rfl⟩

/-- A stencil has the points that the neighbours have. -/
theorem frame_of_stencil (h : x.stencil s p = .ok st) :
    st.left.isSome = (x.neighbours p).left.isSome ∧
      st.transverse.length = (x.neighbours p).transverse.length := by
  obtain ⟨-, hleft, -, htransverse, -⟩ := stencil_eq_ok h
  refine ⟨?_, (mapM_eq_ok_iff.mp htransverse).length_eq.symm⟩
  cases hnb : (x.neighbours p).left with
  | none =>
    rw [hnb] at hleft
    rw [← Except.ok.inj hleft]
    rfl
  | some q =>
    rw [hnb, Option.mapM_some] at hleft
    obtain ⟨values, -, hleft⟩ := bind_eq_ok_iff.mp hleft
    rw [← Except.ok.inj hleft]
    rfl

theorem wide_of_stencil (h : x.stencil s p = .ok st) : st.Wide s.dofs := by
  obtain ⟨hcenter, hleft, hright, htransverse, -⟩ := stencil_eq_ok h
  exact Stencil.wide_of_points hcenter hleft hright htransverse (GridShape.length_transverse_le _)

theorem exists_stencil (hs : x.Fits s) (hp : p < x.shape.points) :
    ∃ st, x.stencil s p = .ok st := by
  have hpoint : ∀ o q, (x.neighbours p).resolve o = some q → ∃ values, s.point q = .ok values := by
    intro o q hq
    have hlt : q < s.points := by
      rw [hs.points]
      exact GridShape.resolve_lt hp hq
    exact ⟨_, GridState.point_eq hlt⟩
  have hpairs : ∃ pairs, ((x.neighbours p).transverse.mapM fun y => do
      return (← s.point y.1, ← s.point y.2)) = .ok pairs := by
    rw [exists_mapM_eq_ok_iff]
    intro y hy
    obtain ⟨axis, haxis⟩ := List.mem_iff_getElem?.mp hy
    obtain ⟨minus, hminus⟩ := hpoint (.minus axis) y.1 (by simp [Neighbours.resolve, haxis])
    obtain ⟨plus, hplus⟩ := hpoint (.plus axis) y.2 (by simp [Neighbours.resolve, haxis])
    exact ⟨(minus, plus), by rw [hminus, hplus]; rfl⟩
  refine exists_bind_eq_ok (hpoint .center p rfl) fun center _ => exists_bind_eq_ok ?_ fun left _ =>
    exists_bind_eq_ok (hpoint .right _ rfl) fun right _ =>
      exists_bind_eq_ok hpairs fun _ _ => ⟨_, rfl⟩
  cases hleft : (x.neighbours p).left with
  | none => exact ⟨none, rfl⟩
  | some q =>
    obtain ⟨values, hvalues⟩ := hpoint .left q hleft
    exact ⟨some values, by rw [Option.mapM_some, hvalues]; rfl⟩

end Stencil

/-- The rates at a point of a sound simulation are current, one for each reaction. -/
theorem Sound.exists_checked (h : x.Sound) (hp : p < x.shape.points) :
    ∃ rates, x.tables.checked p x.tables.generation = .ok rates ∧
      rates.diffusion.size = x.net.size ∧ rates.rates.size = x.net.reactions.size := by
  have hp' : p < x.tables.points.size := hp.trans_eq h.points.symm
  have hget : x.tables.points[p]? = some x.tables.points[p] := Array.getElem?_eq_getElem hp'
  have hfresh := h.tables.fresh _ (Array.getElem_mem_toList hp')
  refine ⟨x.tables.points[p], RateTables.checked_eq_ok_iff.mpr ⟨hget, hfresh.generation_eq⟩, ?_⟩
  obtain ⟨q, hq, hpoint⟩ := hfresh
  obtain ⟨hdiffusion, hrates⟩ := PointRates.sizes_of_compute hq
  rw [hpoint]
  exact ⟨hdiffusion, hrates⟩

/-- What an evaluation below the surface looks up: the rates and the stencil of the point. -/
structure LooksUp (x : Simulation K) (s : GridState K) (p : Nat) (rates : PointRates K)
    (st : Stencil K) : Prop where
  fits : x.Fits s
  lt_points : p < x.shape.points
  vacuum : x.isVacuum p = false
  checked : x.tables.checked p x.tables.generation = .ok rates
  diffusion : rates.diffusion.size = x.net.size
  rates : rates.rates.size = x.net.reactions.size
  stencil : x.stencil s p = .ok st

namespace LooksUp

theorem wide (h : x.LooksUp s p rates st) : st.Wide x.dofs :=
  h.fits.dofs ▸ wide_of_stencil h.stencil

theorem size_center (h : x.LooksUp s p rates st) : st.center.size = x.dofs :=
  (GridState.size_point (stencil_eq_ok h.stencil).1).trans h.fits.dofs

end LooksUp

namespace Sound

theorem exists_looksUp (h : x.Sound) (hp : p < x.shape.points) (hvacuum : x.isVacuum p = false) :
    ∃ rates, ∀ s, x.Fits s → ∃ st, x.LooksUp s p rates st := by
  obtain ⟨rates, hchecked, hdiffusion, hrates⟩ := h.exists_checked hp
  refine ⟨rates, fun s hs => ?_⟩
  obtain ⟨st, hst⟩ := exists_stencil hs hp
  exact ⟨st, hs, hp, hvacuum, hchecked, hdiffusion, hrates, hst⟩

theorem size_le (h : x.Sound) : x.net.size ≤ x.dofs := by
  rw [dofs, h.pattern.size]
  exact Nat.le_add_right _ _

theorem size_lt (h : x.Sound) (ht : x.pattern.hasTemperature = true) : x.net.size < x.dofs := by
  rw [dofs, h.pattern.size, ht]
  exact Nat.lt_succ_self _

theorem temperature?_eq (h : x.Sound) (ht : x.pattern.hasTemperature = true) :
    x.pattern.temperature? = some x.net.size := by
  rw [FillPattern.temperature?, if_pos ht, h.pattern.clusters]

theorem eq_size_of_mem (h : x.Sound) {t : Nat} (ht : t ∈ x.pattern.temperature?) :
    t = x.net.size ∧ x.net.size < x.dofs := by
  rw [FillPattern.temperature?] at ht
  split_ifs at ht with htemperature
  · obtain rfl := Option.some.inj ht
    exact ⟨h.pattern.clusters, h.size_lt htemperature⟩
  · cases ht

theorem hasTemperature_of_heat (h : x.Sound) {y : HeatEquation K} (hheat : x.heat = some y) :
    x.pattern.hasTemperature = true := by
  rw [h.temperature, hheat]
  rfl

theorem lt_size_of_mem_diffusion (h : x.Sound) {d : Diffusion} (hd : x.diffusion = some d) :
    ∀ i ∈ d.diffusing, i < x.net.size := by
  intro i hi
  rw [h.diffusion d hd] at hi
  exact ClusterTable.lt_size_of_mem_diffusing hi

theorem lt_size_of_mem_drift (h : x.Sound) {d : ThermalDrift K} (hd : x.drift = some d) :
    ∀ i ∈ d.diffusing, i < x.net.size := by
  intro i hi
  rw [(h.drift d hd).1] at hi
  exact ClusterTable.lt_size_of_mem_diffusing hi

end Sound

theorem flux_eq (hs : x.Fits s) : x.flux s p = x.pointFlux s p := by
  rw [flux, checkState_eq_ok_iff.mpr hs, ok_bind]

/-- Above the surface nothing changes. -/
theorem fluxInto_of_isVacuum (hs : x.Fits s) (hp : p < x.shape.points)
    (hvacuum : x.isVacuum p = true) (out : Array K) :
    x.fluxInto s p out = .ok (Array.replicate out.size 0) := by
  rw [fluxInto, checkPoint_eq_ok hs hp, ok_bind, hvacuum]
  rfl

theorem jacobian_of_isVacuum (hs : x.Fits s) (hp : p < x.shape.points)
    (hvacuum : x.isVacuum p = true) : x.jacobian s p = .ok [] := by
  rw [jacobian, checkState_eq_ok_iff.mpr hs, checkPoint_eq_ok hs hp, ok_bind, ok_bind, hvacuum]
  rfl

namespace LooksUp

/-- Below the surface, reactions, transport and heat add to zeros one after the other. -/
theorem fluxInto_eq (h : x.LooksUp s p rates st) (out : Array K) : x.fluxInto s p out = (do
    let out ← x.assembly.addFlux rates st.center (Array.replicate out.size 0)
    let out ← x.addDiffusion rates st out
    let out ← x.addDrift rates st out
    x.addHeat st out) := by
  rw [fluxInto, checkPoint_eq_ok h.fits h.lt_points, ok_bind, h.vacuum, h.checked, h.stencil]
  rfl

/-- Below the surface, the derivatives of the reactions stand before those of transport and heat. -/
theorem jacobian_eq (h : x.LooksUp s p rates st) : x.jacobian s p = (do
    let block ← x.assembly.addPartials rates st.center x.assembly.template
    let entries ← x.stencilEntries rates st
    return blockTriplets (p * x.dofs) block ++
      stencilTriplets (p * x.dofs) x.dofs (x.neighbours p) entries) := by
  rw [jacobian, checkState_eq_ok_iff.mpr h.fits, checkPoint_eq_ok h.fits h.lt_points, ok_bind,
    ok_bind, h.vacuum, h.checked, h.stencil]
  rfl

theorem jacobian_eq_ok (h : x.LooksUp s p rates st) (hx : x.Sound) {es : List (StencilEntry K)}
    (hes : x.stencilEntries rates st = .ok es) : x.jacobian s p = .ok
      (blockTriplets (p * x.dofs) { x.assembly.template with
          values := x.assembly.termPartials rates st.center x.assembly.template.values } ++
        stencilTriplets (p * x.dofs) x.dofs (x.neighbours p) es) := by
  have hcheck : x.assembly.checkBlock rates st.center.size x.assembly.template.entryCount =
      .ok () := by
    rw [Assembly.checkBlock_eq_ok_iff hx.assembly]
    exact ⟨h.rates, hx.size_le.trans_eq h.size_center.symm, rfl⟩
  rw [h.jacobian_eq, Assembly.addPartials_eq_ok hcheck, ok_bind, hes]
  rfl

end LooksUp

end ClusterDynamics.Simulation
