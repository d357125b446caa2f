import ClusterDynamics.Proofs.Depth.Grid
import ClusterDynamics.Proofs.Network.FillPattern
import ClusterDynamics.Proofs.Network.Participants
import ClusterDynamics.Proofs.Rates.Tables
import ClusterDynamics.Simulation.Basic

/-! How the parts of a simulation fit together. Construction fits them, and no call takes them
apart: only the surface, the rates, the counters and the strength of the drift ever change. -/

namespace ClusterDynamics

open Reported

namespace RateTables

variable {K : Type} [Scalar K] {tables updated : RateTables K} {net : Network K} {ts : List K}
  {n : Nat} {j : Journal K}

theorem returns_setTemperatures_iff :
    (∃ j', (tables.setTemperatures net ts).Returns j (updated, n) j') ↔
      tables.update net ts = (updated, .ok n) := by
  unfold setTemperatures
  constructor
  · rintro ⟨j', h⟩
    obtain ⟨changed, i, hresult, h⟩ := returns_bind_iff.mp h
    obtain ⟨⟨⟩, i', -, h⟩ := returns_bind_iff.mp h
    obtain ⟨h, -⟩ := returns_pure_iff.mp h
    obtain ⟨rfl, rfl⟩ := Prod.mk.inj h
    exact Prod.ext rfl (returns_ofExcept_iff.mp hresult).1
  · intro h
    rw [h]
    exact ⟨_, returns_bind_iff.mpr ⟨n, j, returns_ofExcept_iff.mpr ⟨rfl, rfl⟩,
      returns_bind_iff.mpr ⟨(), _, returns_event _ _, returns_pure_iff.mpr ⟨rfl, rfl⟩⟩⟩⟩

theorem returns_build_iff : (∃ j', (build net ts).Returns j tables j') ↔
    ofTemperatures net ts = .ok tables :=
  exists_returns_logged_iff

end RateTables

theorem Assembly.returns_build_iff {K : Type} [Scalar K] {net : Network K} {pattern : FillPattern}
    {a : Assembly K} {j : Journal K} :
    (∃ j', (Assembly.build net pattern).Returns j a j') ↔ ofNetwork net pattern = .ok a :=
  exists_returns_logged_iff

theorem DriftSettings.hasHeat_of_validate {K : Type} [Scalar K] {x : DriftSettings K}
    {hasHeat : Bool} (h : x.validate hasHeat = .ok ()) (hx : x.enabled = true) : hasHeat = true := by
  cases hasHeat with
  | true => rfl
  | false => simp [validate, hx] at h

theorem SimulationConfig.hasTemperature_of_validate {K : Type} [Scalar K] {c : SimulationConfig K}
    (h : c.validate = .ok ()) (hdrift : c.drift.enabled = true) : c.hasTemperature = true := by
  cases hheat : c.heat with
  | some x => simp [hasTemperature, hheat]
  | none =>
    cases hpositive : Scalar.isPositive c.temperature with
    | false => simp [validate, hpositive] at h
    | true =>
      simp only [validate, hpositive, hheat, Bool.not_true, Bool.false_eq_true, if_false] at h
      obtain ⟨hvalid, -⟩ := bind_unit_eq_ok_iff.mp h
      exact DriftSettings.hasHeat_of_validate (mapError_eq_ok_iff.mp hvalid) hdrift

namespace Simulation

variable {K : Type} [Scalar K] {config : SimulationConfig K} {net : Network K} {j j' : Journal K}

theorem heat_of_returns {dimension dof : Nat} {heat : Option (HeatEquation K)}
    (h : (buildHeat config dimension dof).Returns j heat j') :
    (∀ x ∈ heat, x.stage = .evaluating ∧ x.dof = dof) ∧
      heat.map (fun x => (x.flux, x.bulkTemperature)) =
        config.heat.map fun y => (y.flux, y.bulkTemperature) := by
  unfold buildHeat at h
  cases hconfig : config.heat with
  | none =>
    rw [hconfig] at h
    obtain ⟨rfl, -⟩ := returns_pure_iff.mp h
    exact ⟨nofun, rfl⟩
  | some settings =>
    rw [hconfig] at h
    obtain ⟨x, i, hx, h⟩ := returns_bind_iff.mp h
    obtain ⟨y, i', hy, h⟩ := returns_bind_iff.mp h
    obtain ⟨rfl, -⟩ := returns_pure_iff.mp h
    obtain ⟨hy, -⟩ := returns_ofExcept_iff.mp hy
    have hconfigured : x.dof = dof ∧
        (x.flux, x.bulkTemperature) = (settings.flux, settings.bulkTemperature) := by
      unfold HeatEquation.configure at hx
      dsimp only at hx
      rw [if_neg nofun] at hx
      obtain ⟨material, i₁, -, hx⟩ := returns_bind_iff.mp hx
      obtain ⟨⟨⟩, i₂, -, hx⟩ := returns_bind_iff.mp hx
      obtain ⟨⟨⟩, i₃, -, hx⟩ := returns_bind_iff.mp hx
      obtain ⟨rfl, -⟩ := returns_pure_iff.mp hx
      exact ⟨rfl, rfl⟩
    have hbegin : y = { x with stage := .evaluating } := by
      unfold HeatEquation.begin at hy
      split at hy
      · cases hy
      · exact (Except.ok.inj hy).symm
      · exact (Except.ok.inj hy).symm
    subst hbegin
    refine ⟨fun z hz => ?_, congrArg some hconfigured.2⟩
    obtain rfl := Option.some.inj hz
    exact ⟨rfl, hconfigured.1⟩

theorem drift_of_returns {pattern pattern' : FillPattern} {drift : Option (ThermalDrift K)}
    (h : (buildDrift config net pattern).Returns j (drift, pattern') j') :
    config.drift.enabled = false ∧ drift = none ∧ pattern' = pattern ∨
      config.drift.enabled = true ∧ pattern' = (pattern.couple net.table.diffusing).1 ∧
        drift = some { ThermalDrift.ofSettings config.drift with
          diffusing := net.table.diffusing, temperature := pattern'.clusters } := by
  unfold buildDrift at h
  cases henabled : config.drift.enabled with
  | false =>
    rw [henabled] at h
    obtain ⟨h, -⟩ := returns_pure_iff.mp h
    obtain ⟨rfl, rfl⟩ := Prod.mk.inj h
    exact .inl ⟨rfl, rfl, rfl⟩
  | true =>
    rw [henabled] at h
    obtain ⟨x, i, hx, h⟩ := returns_bind_iff.mp h
    obtain ⟨⟨⟩, i', -, hx⟩ := returns_bind_iff.mp hx
    obtain ⟨rfl, -⟩ := returns_pure_iff.mp hx
    obtain ⟨h, -⟩ := returns_pure_iff.mp h
    obtain ⟨rfl, rfl⟩ := Prod.mk.inj h
    exact .inr ⟨rfl, rfl, rfl⟩

/-- The parts of a simulation fit together. -/
structure Sound (x : Simulation K) : Prop where
  network : ∃ spec, x.net.BuiltFrom spec
  assembly : Assembly.ofNetwork x.net x.pattern = .ok x.assembly
  pattern : x.pattern.Sized x.net.size
  closed : x.pattern.Closed
  temperature : x.pattern.hasTemperature = x.heat.isSome
  diffusion : ∀ d ∈ x.diffusion, d = .ofNetwork x.net x.pattern.temperature?
  drift : ∀ d ∈ x.drift, d.diffusing = x.net.table.diffusing ∧ d.temperature = x.net.size ∧
    x.pattern.hasTemperature = true
  drifting : x.drift.isSome = x.config.drift.enabled
  heat : ∀ h ∈ x.heat, h.stage = .evaluating ∧ h.dof = x.net.size
  settings : x.heat.map (fun h => (h.flux, h.bulkTemperature)) =
    x.config.heat.map fun y => (y.flux, y.bulkTemperature)
  surface : x.surface.Spans x.grid.size x.config.ny x.config.nz
  tables : x.tables.Coherent x.net
  points : x.tables.points.size = x.shape.points

/-- The fill pattern of the network, with the temperature where that is solved for. -/
def heatedPattern (config : SimulationConfig K) (net : Network K) : FillPattern :=
  if config.hasTemperature then net.pattern.enableTemperature else net.pattern

/-- The parts that construction makes of a network, a grid and settings. -/
structure BuiltFrom (x : Simulation K) (net : Network K) (grid : DepthGrid K)
    (config : SimulationConfig K) : Prop where
  net_eq : x.net = net
  grid_eq : x.grid = grid
  config_eq : x.config = config
  valid : config.validate = .ok ()
  surface : SurfaceMap.flat config.ny config.nz config.initialSurface grid = .ok x.surface
  heat : ∃ j j', (buildHeat config grid.dimension net.size).Returns j x.heat j'
  drift : ∃ j j', (buildDrift config net (heatedPattern config net)).Returns j
    (x.drift, x.pattern) j'
  assembly : Assembly.ofNetwork net x.pattern = .ok x.assembly
  diffusion : x.diffusion =
    if config.diffusion then some (.ofNetwork net x.pattern.temperature?) else none
  tables : RateTables.ofTemperatures net (List.replicate (grid.size * config.ny * config.nz)
    (startTemperature config)) = .ok x.tables

variable {x y : Simulation K} {grid : DepthGrid K} {spec : NetworkSpec K}

/-- The steps of a construction: the heat equation begins with the first journal, the drift is taken
up with the next. -/
structure Constructed (x : Simulation K) (net : Network K) (grid : DepthGrid K)
    (config : SimulationConfig K) (j j' : Journal K) : Prop where
  valid : config.validate = .ok ()
  columns : checkColumns config grid = .ok ()
  surface : SurfaceMap.flat config.ny config.nz config.initialSurface grid = .ok x.surface
  heat : (buildHeat config grid.dimension net.size).Returns {} x.heat j
  drift : (buildDrift config net (heatedPattern config net)).Returns j (x.drift, x.pattern) j'
  assembly : Assembly.ofNetwork net x.pattern = .ok x.assembly
  room : ∃ n, extentProduct [grid.size, config.ny, config.nz] = .ok n
  tables : RateTables.ofTemperatures net (List.replicate (grid.size * config.ny * config.nz)
    (startTemperature config)) = .ok x.tables
  eq : x = { net, config, grid, surface := x.surface, pattern := x.pattern
             assembly := x.assembly
             diffusion := if config.diffusion then some (.ofNetwork net x.pattern.temperature?)
               else none
             drift := x.drift, heat := x.heat, tables := x.tables, recomputed := 0
             derivatives := 0 }

theorem build_eq_ok_iff :
    (build net grid config).value = .ok x ↔ ∃ j j', x.Constructed net grid config j j' := by
  rw [value_eq_ok_iff]
  constructor
  · rintro ⟨j, h⟩
    unfold build at h
    obtain ⟨⟨⟩, j₁, hvalid, h⟩ := returns_bind_iff.mp h
    obtain ⟨⟨⟩, j₂, hcolumns, h⟩ := returns_bind_iff.mp h
    obtain ⟨surface, j₃, hsurface, h⟩ := returns_bind_iff.mp h
    obtain ⟨heat, j₄, hheat, h⟩ := returns_bind_iff.mp h
    obtain ⟨⟨drift, pattern⟩, j₅, hdrift, h⟩ := returns_bind_iff.mp h
    obtain ⟨assembly, j₆, hassembly, h⟩ := returns_bind_iff.mp h
    obtain ⟨n, j₇, hroom, h⟩ := returns_bind_iff.mp h
    obtain ⟨tables, j₈, htables, h⟩ := returns_bind_iff.mp h
    obtain ⟨⟨⟩, j₉, -, h⟩ := returns_bind_iff.mp h
    obtain ⟨rfl, -⟩ := returns_pure_iff.mp h
    obtain ⟨hvalid', rfl⟩ := returns_ofExcept_iff.mp hvalid
    obtain ⟨hcolumns', rfl⟩ := returns_ofExcept_iff.mp hcolumns
    obtain ⟨hsurface', rfl⟩ := returns_ofExcept_iff.mp hsurface
    refine ⟨j₄, j₅, hvalid', hcolumns', mapError_eq_ok_iff.mp hsurface', hheat, hdrift, ?_, ?_, ?_,
      rfl⟩
    · exact Assembly.returns_build_iff.mp ⟨_, hassembly⟩
    · exact ⟨n, mapError_eq_ok_iff.mp (returns_ofExcept_iff.mp hroom).1⟩
    · exact RateTables.returns_build_iff.mp ⟨_, returns_mapError_iff.mp htables⟩
  · rintro ⟨j, j', h⟩
    obtain ⟨n, hroom⟩ := h.room
    obtain ⟨i, hassembly⟩ := (Assembly.returns_build_iff (j := j')).mpr h.assembly
    obtain ⟨i', htables⟩ := (RateTables.returns_build_iff (j := i)).mpr h.tables
    unfold build
    exact ⟨_, returns_bind_iff.mpr ⟨(), {}, returns_ofExcept_iff.mpr ⟨h.valid, rfl⟩,
      returns_bind_iff.mpr ⟨(), {}, returns_ofExcept_iff.mpr ⟨h.columns, rfl⟩,
      returns_bind_iff.mpr ⟨x.surface, {},
        returns_ofExcept_iff.mpr ⟨mapError_eq_ok_iff.mpr h.surface, rfl⟩,
      returns_bind_iff.mpr ⟨x.heat, j, h.heat,
      returns_bind_iff.mpr ⟨(x.drift, x.pattern), j', h.drift,
      returns_bind_iff.mpr ⟨x.assembly, i, hassembly,
      returns_bind_iff.mpr ⟨n, i, returns_ofExcept_iff.mpr ⟨mapError_eq_ok_iff.mpr hroom, rfl⟩,
      returns_bind_iff.mpr ⟨x.tables, i', returns_mapError_iff.mpr htables,
      returns_bind_iff.mpr ⟨(), _, returns_log _ _, returns_pure_iff.mpr ⟨h.eq, rfl⟩⟩⟩⟩⟩⟩⟩⟩⟩⟩⟩

theorem builtFrom_of_build (h : (build net grid config).value = .ok x) :
    x.BuiltFrom net grid config := by
  obtain ⟨j, j', h⟩ := build_eq_ok_iff.mp h
  have hx := h.eq
  constructor
  · rw [hx]
  · rw [hx]
  · rw [hx]
  · exact h.valid
  · exact h.surface
  · exact ⟨_, _, h.heat⟩
  · exact ⟨_, _, h.drift⟩
  · exact h.assembly
  · exact congrArg Simulation.diffusion hx
  · exact h.tables

theorem heatedPattern_of_builtFrom (hb : net.BuiltFrom spec) (config : SimulationConfig K) :
    (heatedPattern config net).Sized net.size ∧ (heatedPattern config net).Closed ∧
      (heatedPattern config net).hasTemperature = config.hasTemperature := by
  have hstart : net.pattern.Sized net.size ∧ net.pattern.Closed ∧
      net.pattern.hasTemperature = false := by
    have hclosed : (FillPattern.ofReactions net.paving.size net.reactions.toList).Closed :=
      .ofReactions fun r hr i hi => (hb.lt_size_of_mem_participants hr hi).trans_eq hb.size_eq
    rw [hb.pattern, hb.size_eq]
    exact ⟨.ofReactions _ _, hclosed, rfl⟩
  unfold heatedPattern
  cases config.hasTemperature with
  | false => exact hstart
  | true =>
    exact ⟨hstart.1.enableTemperature, hstart.2.1.enableTemperature hstart.1,
      FillPattern.hasTemperature_enableTemperature⟩

namespace BuiltFrom

/-- Drift couples its clusters to the temperature, so both are known only together. -/
theorem pattern (h : x.BuiltFrom net grid config) (hb : net.BuiltFrom spec) :
    x.pattern.Sized net.size ∧ x.pattern.Closed ∧
      x.pattern.hasTemperature = config.hasTemperature ∧
      x.drift.isSome = config.drift.enabled ∧
      ∀ d ∈ x.drift, d.diffusing = net.table.diffusing ∧ d.temperature = net.size ∧
        x.pattern.hasTemperature = true := by
  obtain ⟨hsized, hclosed, htemperature⟩ := heatedPattern_of_builtFrom hb config
  obtain ⟨j, j', hdrift⟩ := h.drift
  rcases drift_of_returns hdrift with ⟨hoff, hnone, hsame⟩ | ⟨hon, hcouple, hd⟩
  · rw [hsame, hnone]
    exact ⟨hsized, hclosed, htemperature, hoff.symm, nofun⟩
  · have hcoupled := hsized.couple net.table.diffusing
    rw [hcouple] at hd ⊢
    rw [hd]
    refine ⟨hcoupled, hclosed.couple hsized _, ?_, hon.symm, fun d hd' => ?_⟩
    · rw [FillPattern.hasTemperature_couple, config.hasTemperature_of_validate h.valid hon]
    · obtain rfl := Option.some.inj hd'
      exact ⟨rfl, hcoupled.clusters, FillPattern.hasTemperature_couple _⟩

/-- At the start all points have the same temperature. -/
theorem temperatures (h : x.BuiltFrom net grid config) : x.tables.points.toList.map
    PointRates.temperature =
      List.replicate (grid.size * config.ny * config.nz) (startTemperature config) :=
  (RateTables.coherent_ofTemperatures h.tables).2

theorem sound (h : x.BuiltFrom net grid config) (hb : net.BuiltFrom spec) : x.Sound := by
  obtain ⟨j, j', hheat⟩ := h.heat
  obtain ⟨hready, hsettings⟩ := heat_of_returns hheat
  have hsome : x.heat.isSome = config.hasTemperature := by
    simpa [SimulationConfig.hasTemperature] using congrArg Option.isSome hsettings
  obtain ⟨hsized, hclosed, htemperature, hsomeDrift, hdrifting⟩ := h.pattern hb
  have hpoints : x.tables.points.size = grid.size * config.ny * config.nz := by
    simpa using congrArg List.length h.temperatures
  obtain ⟨rfl, rfl, rfl⟩ := And.intro h.net_eq (And.intro h.grid_eq h.config_eq)
  constructor
  · exact ⟨spec, hb⟩
  · exact h.assembly
  · exact hsized
  · exact hclosed
  · exact htemperature.trans hsome.symm
  · intro d hd
    rw [h.diffusion] at hd
    split_ifs at hd
    · exact (Option.some.inj hd).symm
    · cases hd
  · exact hdrifting
  · exact hsomeDrift
  · exact hready
  · exact hsettings
  · exact SurfaceMap.spans_of_flat h.surface
  · exact (RateTables.coherent_ofTemperatures h.tables).1
  · exact hpoints

end BuiltFrom

theorem sound_of_build (hnet : (Network.build spec).value = .ok net)
    (h : (build net grid config).value = .ok x) :
    x.Sound ∧ x.net = net ∧ x.grid = grid ∧ x.config = config := by
  have hx := builtFrom_of_build h
  exact ⟨hx.sound (Network.builtFrom_of_build hnet), hx.net_eq, hx.grid_eq, hx.config_eq⟩

theorem updateTemperatures_eq_ok {s : GridState K} {time : K} {n : Nat}
    (h : (x.updateTemperatures s time).value = .ok (y, n)) : x.checkState s = .ok () ∧
      ∃ ts tables, (List.range s.points).mapM (x.nextTemperature s time) = .ok ts ∧
        x.tables.update x.net ts = (tables, .ok n) ∧ y = { x with tables, recomputed := n } := by
  obtain ⟨j, h⟩ := value_eq_ok_iff.mp h
  obtain ⟨⟨⟩, j₁, hs, h⟩ := returns_bind_iff.mp h
  obtain ⟨ts, j₂, hts, h⟩ := returns_bind_iff.mp h
  obtain ⟨⟨tables, m⟩, j₃, htables, h⟩ := returns_bind_iff.mp h
  obtain ⟨h, -⟩ := returns_pure_iff.mp h
  obtain ⟨rfl, rfl⟩ := Prod.mk.inj h
  exact ⟨(returns_ofExcept_iff.mp hs).1, ts, tables, (returns_ofExcept_iff.mp hts).1,
    RateTables.returns_setTemperatures_iff.mp ⟨_, htables⟩, rfl⟩

/-- A call that may change a simulation. One that fails leaves it as it is. -/
inductive Call (K : Type) where
  | setSurface (j k node : Nat)
  | updateTemperatures (s : GridState K) (time : K)
  | setHeatFlux (heatFlux : K)
  | setConductivity (conductivity : K)
  | allJacobian (s : GridState K)

/-- The simulation after a call. -/
def perform (x : Simulation K) : Call K → Simulation K
  | .setSurface j k node => (x.setSurface j k node).toOption.getD x
  | .updateTemperatures s time =>
    ((x.updateTemperatures s time).value.toOption.map Prod.fst).getD x
  | .setHeatFlux heatFlux => x.setHeatFlux heatFlux
  | .setConductivity conductivity => x.setConductivity conductivity
  | .allJacobian s => ((x.allJacobian s).toOption.map Prod.fst).getD x

def performAll (x : Simulation K) (calls : List (Call K)) : Simulation K := calls.foldl perform x

theorem exists_perform_allJacobian (x : Simulation K) (s : GridState K) :
    ∃ derivatives, x.perform (.allJacobian s) = { x with derivatives } := by
  cases h : x.allJacobian s with
  | error e => exact ⟨x.derivatives, by rw [perform, h]; rfl⟩
  | ok y =>
    obtain ⟨⟨⟩, -, hy⟩ := bind_eq_ok_iff.mp h
    obtain ⟨parts, -, hy⟩ := bind_eq_ok_iff.mp hy
    obtain rfl := Except.ok.inj hy
    exact ⟨_, by rw [perform, h]; rfl⟩

/-- What a call can do: move the surface, bring the rates to other temperatures, count, or change
the strength of the drift. -/
theorem perform_cases (x : Simulation K) (c : Call K) : x.perform c = x ∨
    (∃ j k node surface, (x.surface.move j k node : Except (GridError K) _) = .ok surface ∧
      x.perform c = { x with surface }) ∨
    (∃ ts recomputed, x.perform c =
      { x with tables := (x.tables.update x.net ts).1, recomputed }) ∨
    (∃ f : ThermalDrift K → ThermalDrift K, (∀ d, (f d).diffusing = d.diffusing ∧
      (f d).temperature = d.temperature) ∧ x.perform c = { x with drift := x.drift.map f }) ∨
    ∃ derivatives, x.perform c = { x with derivatives } := by
  cases c with
  | setSurface j k node =>
    cases h : x.setSurface j k node with
    | error e => exact .inl (by rw [perform, h]; rfl)
    | ok y =>
      obtain ⟨surface, hmove, hy⟩ := bind_eq_ok_iff.mp h
      obtain rfl := Except.ok.inj hy
      exact .inr (.inl ⟨j, k, node, surface, mapError_eq_ok_iff.mp hmove, by rw [perform, h]; rfl⟩)
  | updateTemperatures s time =>
    cases h : (x.updateTemperatures s time).value with
    | error e => exact .inl (by rw [perform, h]; rfl)
    | ok y =>
      obtain ⟨-, ts, tables, -, hupdate, hy⟩ := updateTemperatures_eq_ok h
      refine .inr (.inr (.inl ⟨ts, y.2, ?_⟩))
      rw [perform, h, hupdate]
      exact hy
  | setHeatFlux heatFlux =>
    exact .inr (.inr (.inr (.inl ⟨fun d => { d with heatFlux }, fun d => ⟨rfl, rfl⟩, rfl⟩)))
  | setConductivity conductivity =>
    exact .inr (.inr (.inr (.inl ⟨fun d => { d with conductivity }, fun d => ⟨rfl, rfl⟩, rfl⟩)))
  | allJacobian s => exact .inr (.inr (.inr (.inr (x.exists_perform_allJacobian s))))

/-- One call keeps a simulation sound, on the same network and grid. -/
theorem Sound.perform (h : x.Sound) (c : Call K) :
    (x.perform c).Sound ∧ (x.perform c).net = x.net ∧ (x.perform c).grid = x.grid ∧
      (x.perform c).config = x.config := by
  rcases perform_cases x c with
    hc | ⟨j, k, node, surface, hmove, hc⟩ | ⟨ts, recomputed, hc⟩ | ⟨f, hf, hc⟩ | ⟨derivatives, hc⟩
  · rw [hc]
    exact ⟨h, rfl, rfl, rfl⟩
  · rw [hc]
    exact ⟨{ h with surface := h.surface.move hmove }, rfl, rfl, rfl⟩
  · obtain ⟨hcoherent, hsize⟩ := h.tables.update ts
    rw [hc]
    exact ⟨{ h with tables := hcoherent, points := hsize.trans h.points }, rfl, rfl, rfl⟩
  · rw [hc]
    refine ⟨{ h with drift := fun d hd => ?_, drifting := ?_ }, rfl, rfl, rfl⟩
    · obtain ⟨d', hd', rfl⟩ := Option.mem_map.mp hd
      rw [(hf d').1, (hf d').2]
      exact h.drift d' hd'
    · rw [Option.isSome_map]
      exact h.drifting
  · rw [hc]
    exact ⟨{ h with }, rfl, rfl, rfl⟩

theorem Sound.performAll (h : x.Sound) (calls : List (Call K)) :
    (x.performAll calls).Sound ∧ (x.performAll calls).net = x.net ∧
      (x.performAll calls).grid = x.grid ∧ (x.performAll calls).config = x.config := by
  induction calls generalizing x with
  | nil => exact ⟨h, rfl, rfl, rfl⟩
  | cons c calls ih =>
    obtain ⟨hstep, hnet, hgrid, hconfig⟩ := h.perform c
    obtain ⟨hrun, hnet', hgrid', hconfig'⟩ := ih hstep
    exact ⟨hrun, hnet'.trans hnet, hgrid'.trans hgrid, hconfig'.trans hconfig⟩

/-- Moving the surface of a column that is there to a node of the grid leaves the other columns. -/
theorem Sound.exists_surface (h : x.Sound) {j k node : Nat} (hj : j < x.config.ny)
    (hk : k < x.config.nz) (hnode : node < x.grid.size) :
    ∃ surface, x.perform (.setSurface j k node) = { x with surface } ∧
      surface.node j k = node ∧ ∀ j' < x.config.ny, ∀ k', (j', k') ≠ (j, k) →
        surface.node j' k' = x.surface.node j' k' := by
  obtain ⟨surface, hmove, hat, hothers⟩ := h.surface.exists_move (K := K) hj hk hnode
  refine ⟨surface, ?_, hat, hothers⟩
  rw [Simulation.perform, setSurface, hmove]
  rfl

/-- A simulation is sound from its construction on, with the parts that never change. -/
theorem sound_after_calls {spec : NetworkSpec K} {grid : DepthGrid K}
    (hnet : (Network.build spec).value = .ok net) (h : (build net grid config).value = .ok x)
    (calls : List (Call K)) : (x.performAll calls).Sound ∧ (x.performAll calls).net = net ∧
      (x.performAll calls).grid = grid ∧ (x.performAll calls).config = config := by
  obtain ⟨hbuilt, rfl, rfl, rfl⟩ := sound_of_build hnet h
  exact hbuilt.performAll calls

end Simulation

end ClusterDynamics
