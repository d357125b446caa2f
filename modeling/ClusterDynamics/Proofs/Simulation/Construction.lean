import ClusterDynamics.Proofs.Assembly.Numbering
import ClusterDynamics.Proofs.Simulation.Soundness

/-! Simulations that can be built. -/

namespace ClusterDynamics

open Reported

theorem SimulationConfig.validate_of_drift_off {K : Type} [Scalar K] {config : SimulationConfig K}
    {off : DriftSettings K} (h : config.validate = .ok ()) (hoff : off.enabled = false) :
    ({ config with drift := off } : SimulationConfig K).validate = .ok () := by
  have hdrift : off.validate ({ config with drift := off } : SimulationConfig K).hasTemperature =
      .ok () := by
    rw [DriftSettings.validate, hoff]
    rfl
  cases hpositive : Scalar.isPositive config.temperature with
  | false => simp [validate, hpositive] at h
  | true =>
    cases hheat : config.heat with
    | none =>
      simp only [validate, hpositive, hheat, Bool.not_true, Bool.false_eq_true, if_false,
        bind_unit_eq_ok_iff, mapError_eq_ok_iff] at h hdrift ⊢
      exact ⟨hdrift, h.2⟩
    | some y =>
      simp only [validate, hpositive, hheat, Bool.not_true, Bool.false_eq_true, if_false,
        bind_unit_eq_ok_iff, mapError_eq_ok_iff] at h hdrift ⊢
      exact ⟨h.1, hdrift, h.2.2⟩

namespace Simulation

section Drift

variable {K : Type} [Scalar K]

/-- The calls that make the fill pattern of a simulation from that of its network. -/
def patternCalls (config : SimulationConfig K) (net : Network K) : List FillPattern.Call :=
  (if config.hasTemperature then [.enableTemperature] else []) ++
    if config.drift.enabled then [.couple net.table.diffusing] else []

theorem exists_returns_buildDrift (config : SimulationConfig K) (net : Network K) (j : Journal K) :
    ∃ drift j', (buildDrift config net (heatedPattern config net)).Returns j
      (drift, net.pattern.performAll (patternCalls config net)) j' := by
  have hpattern : net.pattern.performAll (patternCalls config net) = if config.drift.enabled then
      ((heatedPattern config net).couple net.table.diffusing).1 else heatedPattern config net := by
    unfold patternCalls heatedPattern
    cases config.hasTemperature <;> cases config.drift.enabled <;> rfl
  unfold buildDrift
  rw [hpattern]
  cases config.drift.enabled with
  | false => exact ⟨none, j, returns_pure_iff.mpr ⟨rfl, rfl⟩⟩
  | true =>
    exact ⟨_, _, returns_bind_iff.mpr ⟨_, _, returns_bind_iff.mpr ⟨(), _, returns_event _ _,
      returns_pure_iff.mpr ⟨rfl, rfl⟩⟩, returns_pure_iff.mpr ⟨rfl, rfl⟩⟩⟩

end Drift

variable {net : Network ℝ} {spec : NetworkSpec ℝ} {grid : DepthGrid ℝ}
  {config : SimulationConfig ℝ}

/-- What the settings and the grid allow can be built. -/
theorem exists_build (hb : net.BuiltFrom spec)
    (hheat : ∃ heat j, (buildHeat config grid.dimension net.size).Returns {} heat j)
    (hvalid : config.validate = .ok ())
    (hpositive : Scalar.isPositive (startTemperature config) = true)
    (hcolumns : checkColumns config grid = .ok ()) {surface : SurfaceMap}
    (hsurface : SurfaceMap.flat config.ny config.nz config.initialSurface grid = .ok surface)
    {n : Nat} (hroom : extentProduct [grid.size, config.ny, config.nz] = .ok n) :
    ∃ x, (build net grid config).value = .ok x := by
  obtain ⟨heat, j, hheat⟩ := hheat
  obtain ⟨drift, j', hdrift⟩ := exists_returns_buildDrift config net j
  obtain ⟨a, ha⟩ := hb.exists_assembly (patternCalls config net)
  have hts : ∀ t ∈ List.replicate (grid.size * config.ny * config.nz) (startTemperature config),
      Scalar.isPositive t = true := by
    intro t ht
    rwa [(List.mem_replicate.mp ht).2]
  obtain ⟨tables, htables⟩ := hb.exists_ofTemperatures hts
  let pattern := net.pattern.performAll (patternCalls config net)
  let x : Simulation ℝ :=
    { net, config, grid, surface, pattern, assembly := a
      diffusion := if config.diffusion then some (.ofNetwork net pattern.temperature?) else none
      drift, heat, tables, recomputed := 0, derivatives := 0 }
  exact ⟨x, build_eq_ok_iff.mpr ⟨j, j', hvalid, hcolumns, hsurface, hheat, hdrift, ha, ⟨n, hroom⟩,
    htables, rfl⟩⟩

/-- The standard settings on three nodes. -/
theorem exists_build_standard (hb : net.BuiltFrom spec) :
    ∃ x, (build net ⟨#[0, 1, 3], 1, 1, 1⟩ SimulationConfig.standard).value = .ok x := by
  have hpositive : Scalar.isPositive (SimulationConfig.standard : SimulationConfig ℝ).temperature =
      true := by
    simp [SimulationConfig.standard, Scalar.isPositive_real]
  have hvalid : (SimulationConfig.standard : SimulationConfig ℝ).validate = .ok () := by
    rw [SimulationConfig.validate, hpositive]
    rfl
  exact exists_build hb ⟨none, {}, returns_pure_iff.mpr ⟨rfl, rfl⟩⟩ hvalid hpositive rfl rfl rfl

/-- The standard settings on two columns of three nodes. -/
theorem exists_build_plane (hb : net.BuiltFrom spec) :
    ∃ x, (build net ⟨#[0, 1, 3], 2, 1, 1⟩
      { SimulationConfig.standard with ny := 2 }).value = .ok x := by
  let config : SimulationConfig ℝ := { SimulationConfig.standard with ny := 2 }
  have hpositive : Scalar.isPositive config.temperature = true := by
    simp [config, SimulationConfig.standard, Scalar.isPositive_real]
  have hvalid : config.validate = .ok () := by
    rw [SimulationConfig.validate, hpositive]
    rfl
  exact exists_build hb ⟨none, {}, returns_pure_iff.mpr ⟨rfl, rfl⟩⟩ hvalid hpositive rfl rfl rfl

/-- Two columns whose surfaces are moved. -/
theorem plane_of_setSurface (hnet : (Network.build spec).value = .ok net) {start : Simulation ℝ}
    (hstart : (build net ⟨#[0, 1, 3], 2, 1, 1⟩
      { SimulationConfig.standard with ny := 2 }).value = .ok start) {a b : Nat} (ha : a < 3)
    (hb : b < 3) :
    ∃ surface, start.performAll [.setSurface 0 0 a, .setSurface 1 0 b] = { start with surface } ∧
      start.shape = ⟨3, 2, 1⟩ ∧ surface.node 0 0 = a ∧ surface.node 1 0 = b := by
  obtain ⟨hbuilt, -, hgrid, hconfig⟩ := sound_of_build hnet hstart
  have hsize : start.grid.size = 3 := by
    rw [hgrid]
    rfl
  have hcolumns : start.config.ny = 2 ∧ start.config.nz = 1 := by
    rw [hconfig]
    exact ⟨rfl, rfl⟩
  obtain ⟨first, hfirst, hat, -⟩ :=
    hbuilt.exists_surface (j := 0) (k := 0) (by omega) (by omega) (show a < _ by omega)
  have hshape : start.shape = ⟨3, 2, 1⟩ := by rw [shape, hsize, hcolumns.1, hcolumns.2]
  obtain ⟨hmoved, -, hgrid', hconfig'⟩ := hbuilt.perform (.setSurface 0 0 a)
  rw [← hconfig'] at hcolumns
  rw [← hgrid'] at hsize
  obtain ⟨second, hsecond, hat', hothers⟩ :=
    hmoved.exists_surface (j := 1) (k := 0) (by omega) (by omega) (show b < _ by omega)
  have hfirst' := hothers 0 (by omega) 0 (by decide)
  refine ⟨second, ?_, hshape, ?_, hat'⟩
  · change (start.perform (.setSurface 0 0 a)).perform (.setSurface 1 0 b) = _
    rw [hsecond, hfirst]
  · rw [hfirst', hfirst, hat]

/-- Tungsten whose surface takes up heat, with any drift, in one column of three nodes. -/
theorem exists_build_heated_drift (hb : net.BuiltFrom spec) {drift : DriftSettings ℝ}
    (hdrift : drift.validate true = .ok ()) :
    ∃ x, (build net ⟨#[0, 1, 3], 1, 1, 1⟩ { SimulationConfig.standard with
      heat := some (.ofMaterial 1 900 "W100"), drift }).value = .ok x := by
  let settings : HeatSettings ℝ := .ofMaterial 1 900 "W100"
  let config : SimulationConfig ℝ :=
    { SimulationConfig.standard with heat := some settings, drift }
  have hsettings : settings.validate = .ok () := by
    simp [settings, HeatSettings.ofMaterial, HeatSettings.validate, Scalar.isPositive_real, pure,
      Except.pure]
  have hvalid : config.validate = .ok () := by
    have hpositive : Scalar.isPositive config.temperature = true := by
      simp [config, SimulationConfig.standard, Scalar.isPositive_real]
    rw [SimulationConfig.validate, hpositive]
    change (settings.validate.mapError SetupError.heat >>= fun _ =>
      (drift.validate true).mapError SetupError.drift >>= fun _ => _) = _
    rw [hsettings, hdrift]
    rfl
  have hpositive : Scalar.isPositive (startTemperature config) = true := by
    simp [config, settings, startTemperature, HeatSettings.ofMaterial, Scalar.isPositive_real]
  have hparameters : (HeatParameters.ofMaterial .tungsten100 : HeatParameters ℝ).validate =
      .ok () := by
    have hcoefficient : Scalar.isAtLeast 0 (3.88e20 : ℝ) = true :=
      Scalar.isAtLeast_real.mpr (by norm_num)
    simp [HeatParameters.validate, HeatParameters.ofMaterial, hcoefficient, pure, Except.pure]
  have hmaterial : Material.ofName "W100" = .ok .tungsten100 := by decide
  have hheat : ∃ heat j, (buildHeat config 1 net.size).Returns {} heat j := by
    have hconfigure : ∃ h j, ((HeatEquation.ofFlux 1 900 1).configure settings net.size).Returns
        {} h j ∧ h.stage = .configured := by
      unfold HeatEquation.configure
      dsimp only
      rw [if_neg (by decide)]
      exact ⟨_, _, returns_bind_iff.mpr ⟨.tungsten100, {}, returns_ofExcept_iff.mpr
          ⟨mapError_eq_ok_iff.mpr hmaterial, rfl⟩,
        returns_bind_iff.mpr ⟨(), {}, returns_ofExcept_iff.mpr
          ⟨mapError_eq_ok_iff.mpr hparameters, rfl⟩,
        returns_bind_iff.mpr ⟨(), _, returns_event _ _, returns_pure_iff.mpr ⟨rfl, rfl⟩⟩⟩⟩, rfl⟩
    obtain ⟨h, j, hreturns, hstage⟩ := hconfigure
    have hbegin : h.begin = .ok { h with stage := .evaluating } := by
      rw [HeatEquation.begin, hstage]
    exact ⟨_, j, returns_bind_iff.mpr ⟨h, j, hreturns, returns_bind_iff.mpr ⟨_, j,
      returns_ofExcept_iff.mpr ⟨hbegin, rfl⟩, returns_pure_iff.mpr ⟨rfl, rfl⟩⟩⟩⟩
  exact exists_build hb hheat hvalid hpositive rfl rfl rfl

theorem exists_build_heated (hb : net.BuiltFrom spec) :
    ∃ x, (build net ⟨#[0, 1, 3], 1, 1, 1⟩
      { SimulationConfig.standard with
        heat := some (.ofMaterial 1 900 "W100") }).value = .ok x := by
  have hdrift : (DriftSettings.off : DriftSettings ℝ).validate true = .ok () := rfl
  exact exists_build_heated_drift hb hdrift

end Simulation

end ClusterDynamics
