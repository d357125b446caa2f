import ClusterDynamics.Proofs.Simulation.Jacobian
import ClusterDynamics.Proofs.Simulation.Places
import ClusterDynamics.Proofs.Simulation.Update
import ClusterDynamics.Proofs.Transport.Idle

/-! A drift that nothing drives. A simulation with such a drift keeps in step with one that has
none, though its fill pattern has more entries: rates of change are the same, and derivatives add up
to the same at every place. -/

namespace ClusterDynamics

open Reported

namespace Assembly

variable {net : Network ℝ} {pattern pattern' : FillPattern} {a a' : Assembly ℝ} {p : PointRates ℝ}
  {conc : Array ℝ} {base row : Nat}

theorem totalAt_termPartials_of_row (ha : ofNetwork net pattern = .ok a)
    (hrow : ∀ r < pattern.size, base + r ≠ row) (column : Nat) :
    totalAt (Simulation.blockTriplets base
      { a.template with values := a.termPartials p conc a.template.values }) row column = 0 := by
  have htemplate := ofNetwork_template ha
  have hvalues : (a.termPartials p conc a.template.values).size = pattern.entryCount := by
    rw [size_termPartials ha le_rfl, htemplate]
    exact Array.size_replicate
  refine totalAt_eq_zero column fun t ht => ?_
  rw [htemplate] at ht hvalues
  have hplace : t.place ∈ pattern.places base := by
    rw [← Simulation.map_place_blockTriplets base hvalues]
    exact List.mem_map_of_mem ht
  obtain ⟨r, c, hhas, hplace⟩ := FillPattern.mem_places_iff.mp hplace
  exact fun hsame => hrow r hhas.lt_size ((congrArg Prod.fst hplace).symm.trans hsame)

/-- The same reactions add up to the same derivatives in two patterns of the same degrees of
freedom, at whatever positions their entries stand. -/
theorem totalAt_termPartials_congr (ha : ofNetwork net pattern = .ok a)
    (ha' : ofNetwork net pattern' = .ok a') (hsize : pattern'.size = pattern.size)
    (htemperature : pattern'.temperature? = pattern.temperature?) :
    totalAt (Simulation.blockTriplets base
        { a'.template with values := a'.termPartials p conc a'.template.values }) =
      totalAt (Simulation.blockTriplets base
        { a.template with values := a.termPartials p conc a.template.values }) := by
  funext row column
  by_cases hrow : ∃ r < pattern.size, base + r = row
  · obtain ⟨r, hr, rfl⟩ := hrow
    rw [totalAt_termPartials ha hr, totalAt_termPartials ha' (hr.trans_eq hsize.symm), htemperature]
  · have hnone : ∀ r < pattern.size, base + r ≠ row := fun r hr hsame => hrow ⟨r, hr, hsame⟩
    rw [totalAt_termPartials_of_row ha hnone, totalAt_termPartials_of_row ha' (hsize ▸ hnone)]

end Assembly

namespace Simulation

section Calls

variable {K : Type} [Scalar K] {x y : Simulation K} {w : DriftSettings K}

/-- The settings of the drift after a call. -/
def Call.drift (c : Call K) (w : DriftSettings K) : DriftSettings K :=
  match c with
  | .setHeatFlux heatFlux => { w with heatFlux }
  | .setConductivity conductivity => { w with conductivity }
  | _ => w

def driftAfter (w : DriftSettings K) (calls : List (Call K)) : DriftSettings K :=
  calls.foldl (fun w c => c.drift w) w

def DrivenBy (x : Simulation K) (w : DriftSettings K) : Prop := ∀ d ∈ x.drift, d.DrivenBy w

theorem DrivenBy.perform (h : x.DrivenBy w) (c : Call K) : (x.perform c).DrivenBy (c.drift w) := by
  cases c with
  | setSurface j k node =>
    rw [Simulation.perform]
    cases hx : x.setSurface j k node with
    | error e => exact h
    | ok y =>
      obtain ⟨surface, -, hy⟩ := bind_eq_ok_iff.mp hx
      obtain rfl := Except.ok.inj hy
      exact h
  | updateTemperatures s time =>
    rw [Simulation.perform]
    cases hx : (x.updateTemperatures s time).value with
    | error e => exact h
    | ok y =>
      obtain ⟨-, ts, tables, -, -, hy⟩ := updateTemperatures_eq_ok hx
      change y.1.DrivenBy w
      rw [hy]
      exact h
  | setHeatFlux heatFlux =>
    intro d hd
    obtain ⟨d', hd', rfl⟩ := Option.mem_map.mp hd
    obtain ⟨hbeta, -, hconductivity⟩ := h d' hd'
    exact ⟨hbeta, rfl, hconductivity⟩
  | setConductivity conductivity =>
    intro d hd
    obtain ⟨d', hd', rfl⟩ := Option.mem_map.mp hd
    obtain ⟨hbeta, hflux, -⟩ := h d' hd'
    exact ⟨hbeta, hflux, rfl⟩
  | allJacobian s =>
    obtain ⟨derivatives, hx⟩ := x.exists_perform_allJacobian s
    rw [hx]
    exact h

theorem DrivenBy.performAll (h : x.DrivenBy w) (calls : List (Call K)) :
    (x.performAll calls).DrivenBy (driftAfter w calls) := by
  induction calls generalizing x w with
  | nil => exact h
  | cons c calls ih => exact ih (h.perform c)

/-- `y` is `x` without drift: beside its settings, only the fill pattern, the terms that are placed
in it and the count of derivatives differ. -/
def Stilled (x y : Simulation K) : Prop :=
  ∃ drift pattern assembly derivatives, y =
    { x with config := { x.config with drift }, pattern, assembly, drift := none, derivatives }

namespace Stilled

variable {s : GridState K} {p : Nat} {rates : PointRates K} {st : Stencil K}

theorem dofs_eq (h : x.Stilled y) (hx : x.Sound) (hy : y.Sound) : y.dofs = x.dofs := by
  obtain ⟨drift, pattern, assembly, derivatives, rfl⟩ := h
  rw [dofs, dofs, hx.pattern.size, hy.pattern.size, hx.temperature, hy.temperature]

theorem temperature?_eq (h : x.Stilled y) (hx : x.Sound) (hy : y.Sound) :
    y.pattern.temperature? = x.pattern.temperature? := by
  obtain ⟨drift, pattern, assembly, derivatives, rfl⟩ := h
  rw [FillPattern.temperature?, FillPattern.temperature?, hx.pattern.clusters, hy.pattern.clusters,
    hx.temperature, hy.temperature]

theorem checkState_eq (h : x.Stilled y) (hx : x.Sound) (hy : y.Sound) (s : GridState K) :
    y.checkState s = x.checkState s := by
  have hdofs := h.dofs_eq hx hy
  obtain ⟨drift, pattern, assembly, derivatives, rfl⟩ := h
  rw [checkState, checkState, hdofs]
  rfl

theorem nextTemperature_eq (h : x.Stilled y) (hx : x.Sound) (hy : y.Sound) (s : GridState K)
    (time : K) : y.nextTemperature s time = x.nextTemperature s time := by
  have htemperature := h.temperature?_eq hx hy
  obtain ⟨drift, pattern, assembly, derivatives, rfl⟩ := h
  funext p
  rw [nextTemperature, nextTemperature, htemperature]
  rfl

/-- Both write the same tables, or neither does. -/
theorem updateInPlace_eq (h : x.Stilled y) (hx : x.Sound) (hy : y.Sound) (s : GridState K)
    (time : K) : (x.updateInPlace s time).1.Stilled (y.updateInPlace s time).1 ∧
      (y.updateInPlace s time).2 = (x.updateInPlace s time).2 := by
  unfold updateInPlace
  rw [h.checkState_eq hx hy, h.nextTemperature_eq hx hy]
  cases x.checkState s with
  | error e => exact ⟨h, rfl⟩
  | ok =>
    cases (List.range s.points).mapM (x.nextTemperature s time) with
    | error e => exact ⟨h, rfl⟩
    | ok ts =>
      obtain ⟨drift, pattern, assembly, derivatives, rfl⟩ := h
      dsimp only
      rcases x.tables.update x.net ts with ⟨tables, e | n⟩
      · exact ⟨⟨drift, pattern, assembly, derivatives, rfl⟩, rfl⟩
      · exact ⟨⟨drift, pattern, assembly, derivatives, rfl⟩, rfl⟩

theorem perform (h : x.Stilled y) (hx : x.Sound) (hy : y.Sound) (c : Call K) :
    (x.perform c).Stilled (y.perform c) := by
  cases c with
  | setSurface j k node =>
    obtain ⟨drift, pattern, assembly, derivatives, rfl⟩ := h
    rw [Simulation.perform, Simulation.perform, setSurface, setSurface]
    cases (x.surface.move j k node : Except (GridError K) SurfaceMap) with
    | error e => exact ⟨drift, pattern, assembly, derivatives, rfl⟩
    | ok surface => exact ⟨drift, pattern, assembly, derivatives, rfl⟩
  | updateTemperatures s time =>
    obtain ⟨hstilled, houtcome⟩ := h.updateInPlace_eq hx hy s time
    rw [Simulation.perform, Simulation.perform, value_updateTemperatures, value_updateTemperatures,
      houtcome]
    cases (x.updateInPlace s time).2 with
    | error e => exact h
    | ok n => exact hstilled
  | setHeatFlux heatFlux =>
    obtain ⟨drift, pattern, assembly, derivatives, rfl⟩ := h
    exact ⟨drift, pattern, assembly, derivatives, rfl⟩
  | setConductivity conductivity =>
    obtain ⟨drift, pattern, assembly, derivatives, rfl⟩ := h
    exact ⟨drift, pattern, assembly, derivatives, rfl⟩
  | allJacobian s =>
    obtain ⟨n, hn⟩ := x.exists_perform_allJacobian s
    obtain ⟨m, hm⟩ := y.exists_perform_allJacobian s
    rw [hn, hm]
    obtain ⟨drift, pattern, assembly, derivatives, rfl⟩ := h
    exact ⟨drift, pattern, assembly, m, rfl⟩

theorem performAll (h : x.Stilled y) (hx : x.Sound) (hy : y.Sound) (calls : List (Call K)) :
    (x.performAll calls).Stilled (y.performAll calls) := by
  induction calls generalizing x y with
  | nil => exact h
  | cons c calls ih => exact ih (h.perform hx hy c) (hx.perform c).1 (hy.perform c).1

theorem fits (h : x.Stilled y) (hx : x.Sound) (hy : y.Sound) (hs : x.Fits s) : y.Fits s := by
  have hdofs := h.dofs_eq hx hy
  obtain ⟨drift, pattern, assembly, derivatives, rfl⟩ := h
  exact ⟨hs.shape, hs.dofs.trans hdofs.symm⟩

theorem looksUp (h : x.Stilled y) (hx : x.Sound) (hy : y.Sound) (hl : x.LooksUp s p rates st) :
    y.LooksUp s p rates st := by
  have hfits := h.fits hx hy hl.fits
  obtain ⟨drift, pattern, assembly, derivatives, rfl⟩ := h
  exact ⟨hfits, hl.lt_points, hl.vacuum, hl.checked, hl.diffusion, hl.rates, hl.stencil⟩

theorem heatEntries_eq (h : x.Stilled y) (hx : x.Sound) (hy : y.Sound) (st : Stencil K) :
    y.heatEntries st = x.heatEntries st := by
  have htemperature := h.temperature?_eq hx hy
  obtain ⟨drift, pattern, assembly, derivatives, rfl⟩ := h
  rw [heatEntries, heatEntries, htemperature]

end Stilled

end Calls

section Evaluation

variable {x y : Simulation ℝ} {w : DriftSettings ℝ} {s : GridState ℝ} {p : Nat}
  {rates : PointRates ℝ} {st : Stencil ℝ}

namespace Stilled

/-- Transport without the idle drift comes to the same. -/
theorem entryTotal_ownEntries (h : x.Stilled y) (hd : x.DrivenBy w) (hw : w.Idle) (t : ℝ)
    (n : Nat → ℝ) (v : Offset → Nat → ℝ) :
    entryTotal n v (y.ownEntries rates st t) = entryTotal n v (x.ownEntries rates st t) := by
  have hzero : entryTotal n v (x.drift.elim [] fun d => d.ownEntries rates st t) = 0 := by
    cases hdrift : x.drift with
    | none => rfl
    | some d => exact entryTotal_eq_zero n v (d.value_of_mem_ownEntries (hd d hdrift) hw t)
  obtain ⟨drift, pattern, assembly, derivatives, rfl⟩ := h
  rw [Simulation.ownEntries, Simulation.ownEntries, entryTotal_append, entryTotal_append, hzero]
  rfl

theorem pointFlux_eq (h : x.Stilled y) (hx : x.Sound) (hy : y.Sound) (hd : x.DrivenBy w)
    (hw : w.Idle) (hl : x.LooksUp s p rates st) : y.pointFlux s p = x.pointFlux s p := by
  obtain ⟨out, hout, hsize, hentry⟩ := hx.exists_pointFlux hl
  obtain ⟨out', hout', hsize', hentry'⟩ := hy.exists_pointFlux (h.looksUp hx hy hl)
  have hdofs := h.dofs_eq hx hy
  have htemperature := h.temperature?_eq hx hy
  rw [hout, hout']
  refine congrArg Except.ok (Array.ext (by rw [hsize, hsize', hdofs]) fun row hrow' hrow => ?_)
  have hgetD : out'.getD row 0 = out.getD row 0 := by
    rw [hentry' row (hrow'.trans_eq hsize'), hentry row (hrow.trans_eq hsize),
      h.entryTotal_ownEntries hd hw]
    obtain ⟨drift, pattern, assembly, derivatives, rfl⟩ := h
    rw [temperatureOf, temperatureOf, htemperature]
    rfl
  simpa [Array.getD_eq_getD_getElem?, hrow, hrow'] using hgetD

/-- An idle drift lists derivatives, all of them zero. -/
theorem exists_stencilEntries (h : x.Stilled y) (hx : x.Sound) (hy : y.Sound) (hd : x.DrivenBy w)
    (hw : w.Idle) (hl : x.LooksUp s p rates st) :
    ∃ before idle after, x.stencilEntries rates st = .ok (before ++ idle ++ after) ∧
      y.stencilEntries rates st = .ok (before ++ after) ∧ ∀ e ∈ idle, e.value = 0 := by
  obtain ⟨es, hes, -⟩ := hx.exists_stencilEntries hl
  have hes' := hes
  obtain ⟨before, hbefore, hes⟩ := bind_eq_ok_iff.mp hes
  obtain ⟨idle, hidle, hes⟩ := bind_eq_ok_iff.mp hes
  obtain ⟨after, hafter, hes⟩ := bind_eq_ok_iff.mp hes
  obtain rfl := Except.ok.inj hes
  have hheat := h.heatEntries_eq hx hy st
  refine ⟨before, idle, after, hes', ?_, fun e he => ?_⟩
  · obtain ⟨drift, pattern, assembly, derivatives, rfl⟩ := h
    rw [stencilEntries, hheat, hafter]
    change (x.diffusionEntries rates st >>= fun es => _) = _
    rw [hbefore]
    simp [driftEntries, pure, Except.pure]
  · unfold driftEntries at hidle
    cases hdrift : x.drift with
    | none =>
      rw [hdrift] at hidle
      obtain rfl := Except.ok.inj hidle
      cases he
    | some d =>
      rw [hdrift] at hidle
      exact d.value_of_mem_partials (hd d hdrift) hw (mapError_eq_ok_iff.mp hidle) e he

theorem jacobian_eq (h : x.Stilled y) (hx : x.Sound) (hy : y.Sound)
    (hd : x.DrivenBy w) (hw : w.Idle) (hl : x.LooksUp s p rates st) :
    (y.jacobian s p).map totalAt = (x.jacobian s p).map totalAt := by
  obtain ⟨before, idle, after, hes, hes', hzero⟩ := h.exists_stencilEntries hx hy hd hw hl
  have hl' := h.looksUp hx hy hl
  have hdofs := h.dofs_eq hx hy
  have htemperature := h.temperature?_eq hx hy
  rw [hl.jacobian_eq_ok hx hes, hl'.jacobian_eq_ok hy hes']
  refine congrArg Except.ok (funext₂ fun row column => ?_)
  simp only [totalAt_append, totalAt_stencilTriplets_append,
    totalAt_stencilTriplets_of_values _ _ hzero, add_zero, hdofs]
  obtain ⟨drift, pattern, assembly, derivatives, rfl⟩ := h
  rw [Assembly.totalAt_termPartials_congr hx.assembly hy.assembly hdofs htemperature]
  rfl

theorem refused (h : x.Stilled y) (hx : x.Sound) (hy : y.Sound) {e : EvalError ℝ}
    (hrefused : x.Refused s p e) : y.Refused s p e := by
  cases hrefused with
  | misfit hmisfit =>
    have hstate := (h.checkState_eq hx hy s).trans (checkState_of_misfit hmisfit)
    exact .misfit (misfit_of_checkState hstate)
  | noSuchPoint hs hp =>
    have hs' := h.fits hx hy hs
    obtain ⟨drift, pattern, assembly, derivatives, rfl⟩ := h
    exact .noSuchPoint hs' hp

theorem evaluations_eq (h : x.Stilled y) (hx : x.Sound) (hy : y.Sound) (hd : x.DrivenBy w)
    (hw : w.Idle) (s : GridState ℝ) (p : Nat) : y.flux s p = x.flux s p ∧
      (y.jacobian s p).map totalAt = (x.jacobian s p).map totalAt := by
  by_cases hfits : x.Fits s ∧ p < x.shape.points
  · obtain ⟨hs, hp⟩ := hfits
    have hs' := h.fits hx hy hs
    rw [flux_eq hs, flux_eq hs']
    cases hvacuum : x.isVacuum p with
    | true =>
      have hdofs := h.dofs_eq hx hy
      rw [pointFlux_of_isVacuum hs hp hvacuum, jacobian_of_isVacuum hs hp hvacuum, ← hdofs]
      obtain ⟨drift, pattern, assembly, derivatives, rfl⟩ := h
      exact ⟨pointFlux_of_isVacuum hs' hp hvacuum,
        congrArg (Except.map totalAt) (jacobian_of_isVacuum hs' hp hvacuum)⟩
    | false =>
      obtain ⟨rates, hlook⟩ := hx.exists_looksUp hp hvacuum
      obtain ⟨st, hl⟩ := hlook s hs
      exact ⟨h.pointFlux_eq hx hy hd hw hl, h.jacobian_eq hx hy hd hw hl⟩
  · obtain ⟨e, hrefused⟩ := exists_refused hfits
    obtain ⟨hflux, hjacobian⟩ := hrefused.evaluations
    obtain ⟨hflux', hjacobian'⟩ := (h.refused hx hy hrefused).evaluations
    rw [hflux, hflux', hjacobian, hjacobian']
    exact ⟨rfl, rfl⟩

end Stilled

end Evaluation

section Start

variable {K : Type} [Scalar K] {net : Network K} {spec : NetworkSpec K} {grid : DepthGrid K}
  {config : SimulationConfig K} {x : Simulation K} {off : DriftSettings K}

theorem drivenBy_of_builtFrom (h : x.BuiltFrom net grid config) : x.DrivenBy config.drift := by
  obtain ⟨j, j', hdrift⟩ := h.drift
  intro d hd
  rcases drift_of_returns hdrift with ⟨-, hnone, -⟩ | ⟨-, -, hsome⟩
  · rw [hnone] at hd
    cases hd
  · rw [hsome] at hd
    obtain rfl := Option.some.inj hd
    exact ⟨rfl, rfl, rfl⟩

/-- Where a simulation can be built, it can be without drift. -/
theorem exists_stilled (hb : net.BuiltFrom spec) (h : (build net grid config).value = .ok x)
    (hoff : off.enabled = false) :
    ∃ y, (build net grid { config with drift := off }).value = .ok y ∧ x.Stilled y := by
  have hsame : (heatedPattern config net).temperature? = x.pattern.temperature? := by
    obtain ⟨hsized, -, hheated⟩ := heatedPattern_of_builtFrom hb config
    obtain ⟨hsized', -, hheated', -⟩ := (builtFrom_of_build h).pattern hb
    rw [FillPattern.temperature?, FillPattern.temperature?, hsized.clusters, hsized'.clusters,
      hheated, hheated']
  obtain ⟨a, ha⟩ : ∃ a, Assembly.ofNetwork net (heatedPattern config net) = .ok a := by
    unfold heatedPattern
    cases config.hasTemperature with
    | false => exact hb.exists_assembly []
    | true => exact hb.exists_assembly [.enableTemperature]
  obtain ⟨j, j', hx⟩ := build_eq_ok_iff.mp h
  have hnone : (buildDrift { config with drift := off } net (heatedPattern config net)).Returns j
      (none, heatedPattern config net) j := by
    rw [buildDrift, if_neg (by simp [hoff])]
    exact returns_pure_iff.mpr ⟨rfl, rfl⟩
  let y : Simulation K :=
    { net, config := { config with drift := off }, grid, surface := x.surface
      pattern := heatedPattern config net, assembly := a
      diffusion := if config.diffusion then
        some (.ofNetwork net (heatedPattern config net).temperature?) else none
      drift := none, heat := x.heat, tables := x.tables, recomputed := 0, derivatives := 0 }
  have hy : y.Constructed net grid { config with drift := off } j j :=
    { valid := SimulationConfig.validate_of_drift_off hx.valid hoff, columns := hx.columns
      surface := hx.surface, heat := hx.heat, drift := hnone, assembly := ha, room := hx.room
      tables := hx.tables, eq := rfl }
  refine ⟨y, build_eq_ok_iff.mpr ⟨j, j, hy⟩, off, heatedPattern config net, a, 0, ?_⟩
  have hparts := hx.eq
  simp only [y, hsame]
  rw [hparts]

end Start

variable {net : Network ℝ} {spec : NetworkSpec ℝ} {grid : DepthGrid ℝ}
  {config : SimulationConfig ℝ} {start : Simulation ℝ}

/-- A drift that nothing drives changes nothing. Whatever calls were made, the simulation has the
rates of the one without drift, the same rates of change at every point of every state, and
derivatives that add up to the same at every place; where it refuses, the other one does, for the
same reason. -/
theorem idle_drift_after_calls (hnet : (Network.build spec).value = .ok net)
    (hstart : (build net grid config).value = .ok start) {off : DriftSettings ℝ}
    (hoff : off.enabled = false) (calls : List (Call ℝ))
    (hidle : (driftAfter config.drift calls).Idle) :
    ∃ still, (build net grid { config with drift := off }).value = .ok still ∧
      let x := start.performAll calls
      let y := still.performAll calls
      y.tables = x.tables ∧ (∀ s p, y.flux s p = x.flux s p) ∧
        ∀ s p, (y.jacobian s p).map totalAt = (x.jacobian s p).map totalAt := by
  have hb := Network.builtFrom_of_build hnet
  obtain ⟨still, hstill, hstilled⟩ := exists_stilled hb hstart hoff
  refine ⟨still, hstill, ?_⟩
  intro x y
  obtain ⟨hsound, -⟩ := sound_of_build hnet hstart
  obtain ⟨hsound', -⟩ := sound_of_build hnet hstill
  obtain ⟨hx, -⟩ := hsound.performAll calls
  obtain ⟨hy, -⟩ := hsound'.performAll calls
  have hdriven : x.DrivenBy (driftAfter config.drift calls) :=
    (drivenBy_of_builtFrom (builtFrom_of_build hstart)).performAll calls
  have h : x.Stilled y := hstilled.performAll hsound hsound' calls
  have htables : y.tables = x.tables := by
    obtain ⟨drift, pattern, assembly, derivatives, hy⟩ := h
    rw [hy]
  have heval := h.evaluations_eq hx hy hdriven hidle
  exact ⟨htables, fun s p => (heval s p).1, fun s p => (heval s p).2⟩

/-- Two xenon clusters on three nodes that take up heat, with a drift that has no heat flux. -/
theorem idle_drift_after_calls_heated :
    let heated : SimulationConfig ℝ :=
      { SimulationConfig.standard with heat := some (.ofMaterial 1 900 "W100") }
    ∃ net start still, (Network.build (NetworkSpec.xenon 2 : NetworkSpec ℝ)).value = .ok net ∧
      (build net ⟨#[0, 1, 3], 1, 1, 1⟩ { heated with drift := ⟨true, 1, 0, 1⟩ }).value = .ok start ∧
      (build net ⟨#[0, 1, 3], 1, 1, 1⟩ heated).value = .ok still ∧
      let x := start.performAll [.setSurface 0 0 1, .setConductivity 2]
      let y := still.performAll [.setSurface 0 0 1, .setConductivity 2]
      ∀ s, y.flux s 2 = x.flux s 2 := by
  intro heated
  obtain ⟨net, hnet, -⟩ := Network.exists_build_xenon
  have hvalid : (⟨true, 1, 0, 1⟩ : DriftSettings ℝ).validate true = .ok () := by
    simp [DriftSettings.validate, Scalar.isFinite_real, pure, Except.pure]
  obtain ⟨start, hstart⟩ := exists_build_heated_drift (Network.builtFrom_of_build hnet) hvalid
  have hoff : (DriftSettings.off : DriftSettings ℝ).enabled = false := rfl
  obtain ⟨still, hstill, -, hflux, -⟩ :=
    idle_drift_after_calls hnet hstart hoff [.setSurface 0 0 1, .setConductivity 2] (.inl rfl)
  exact ⟨net, start, still, hnet, hstart, hstill, fun s => hflux s 2⟩

end Simulation

end ClusterDynamics
