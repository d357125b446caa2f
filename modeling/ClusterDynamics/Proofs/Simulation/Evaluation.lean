import ClusterDynamics.Proofs.Assembly.Jacobian
import ClusterDynamics.Proofs.Heat.Evaluation
import ClusterDynamics.Proofs.Simulation.LookUps
import ClusterDynamics.Proofs.Transport.Partials

/-! The rates of change at a point of a sound simulation. Reactions, transport and the heat equation
each add their part, and none of them fails. -/

namespace ClusterDynamics.Simulation

open Assembly

variable {x : Simulation ℝ} {s s' : GridState ℝ} {p : Nat} {rates : PointRates ℝ}
  {st st' : Stencil ℝ}

section Stencil

theorem shows_of_stencil (h : x.stencil s p = .ok st) :
    st.Shows (x.neighbours p) s.value s.dofs := by
  obtain ⟨hcenter, hleft, hright, htransverse, -⟩ := stencil_eq_ok h
  exact Stencil.shows_of_points hcenter hleft hright htransverse

/-- Stencils of two states at a point have the same spacings. -/
theorem sameFrame_of_stencil (h : x.stencil s p = .ok st) (h' : x.stencil s' p = .ok st') :
    st.SameFrame st' := by
  obtain ⟨-, -, -, -, habove, hbelow, hfactors, hdepth⟩ := stencil_eq_ok h
  obtain ⟨-, -, -, -, habove', hbelow', hfactors', hdepth'⟩ := stencil_eq_ok h'
  have hshows := shows_of_stencil h
  have hshows' := shows_of_stencil h'
  exact ⟨hshows.isSome_left.trans hshows'.isSome_left.symm, hshows.axes.trans hshows'.axes.symm,
    habove.trans habove'.symm, hbelow.trans hbelow'.symm, hfactors.trans hfactors'.symm,
    hdepth.trans hdepth'.symm⟩

end Stencil

theorem LooksUp.shows (h : x.LooksUp s p rates st) :
    st.Shows (x.neighbours p) s.value x.dofs :=
  h.fits.dofs ▸ shows_of_stencil h.stencil

/-- The temperature that a stencil's point reads, where temperature is solved for. -/
def temperatureOf (x : Simulation ℝ) (nb : Neighbours) (v : Nat → Nat → ℝ) : ℝ :=
  x.pattern.temperature?.elim 0 (nb.read v .center)

/-- What heat adds to the rate of change of a degree of freedom. -/
noncomputable def heatGain (x : Simulation ℝ) (st : Stencil ℝ) (nb : Neighbours)
    (v : Nat → Nat → ℝ) (row : Nat) : ℝ :=
  x.heat.elim 0 fun y => if row = x.net.size then y.gain st nb v else 0

theorem heatGain_of_ne {nb : Neighbours} {v : Nat → Nat → ℝ} {row : Nat} (h : row ≠ x.net.size) :
    x.heatGain st nb v row = 0 := by
  unfold heatGain
  cases x.heat with
  | none => rfl
  | some y => exact if_neg h

theorem temperatureOf_congr {nb : Neighbours} {v v' : Nat → Nat → ℝ}
    (hv : ∀ t ∈ x.pattern.temperature?, ∀ q, v q t = v' q t) :
    x.temperatureOf nb v = x.temperatureOf nb v' := by
  unfold temperatureOf
  cases ht : x.pattern.temperature? with
  | none => rfl
  | some t => simp only [Option.elim_some, Neighbours.read, hv t ht]

namespace Sound

variable {nb : Neighbours} {v : Nat → Nat → ℝ} {out : Array ℝ}

theorem exists_addDiffusion (h : x.Sound) (hst : st.Shows nb v x.dofs)
    (hrates : rates.diffusion.size = x.net.size) (hout : out.size = x.dofs) :
    ∃ out', x.addDiffusion rates st out = .ok out' ∧ out'.size = x.dofs ∧
      ∀ row < x.dofs, out'.getD row 0 = out.getD row 0 +
        entryTotal (Pi.single row 1) (nb.read v)
          (x.diffusion.elim [] fun d => d.ownEntries rates st) := by
  unfold addDiffusion
  cases hd : x.diffusion with
  | none => exact ⟨out, rfl, hout, fun row _ => by simp⟩
  | some d =>
    obtain ⟨out', hflux, hsize, htotal⟩ := Diffusion.exists_addFlux hst
      (hrates ▸ h.lt_size_of_mem_diffusion hd) (hrates.le.trans h.size_le) hout.ge
    refine ⟨out', mapError_eq_ok_iff.mpr hflux, hsize.trans hout, fun row hrow => ?_⟩
    have hrow' : row < out.size := hrow.trans_eq hout.symm
    have hentry := htotal (Pi.single row 1)
    rwa [weightedTotal_single hrow', weightedTotal_single hrow'] at hentry

theorem exists_addDrift (h : x.Sound) (hst : st.Shows nb v x.dofs)
    (hrates : rates.diffusion.size = x.net.size) (hout : out.size = x.dofs) :
    ∃ out', x.addDrift rates st out = .ok out' ∧ out'.size = x.dofs ∧
      ∀ row < x.dofs, out'.getD row 0 = out.getD row 0 +
        entryTotal (Pi.single row 1) (nb.read v) (x.drift.elim [] fun d =>
          d.ownEntries rates st (x.temperatureOf nb v)) := by
  unfold addDrift
  cases hd : x.drift with
  | none => exact ⟨out, rfl, hout, fun row _ => by simp⟩
  | some d =>
    obtain ⟨-, htemperature, ht⟩ := h.drift d hd
    have hread : nb.read v .center d.temperature = x.temperatureOf nb v := by
      rw [htemperature, temperatureOf, h.temperature?_eq ht, Option.elim_some]
    obtain ⟨out', hflux, hsize, htotal⟩ := ThermalDrift.exists_addFlux hst
      (htemperature.trans_lt (h.size_lt ht)) (hrates ▸ h.lt_size_of_mem_drift hd)
      (hrates.le.trans h.size_le) hout.ge
    refine ⟨out', mapError_eq_ok_iff.mpr hflux, hsize.trans hout, fun row hrow => ?_⟩
    have hrow' : row < out.size := hrow.trans_eq hout.symm
    have hentry := htotal (Pi.single row 1)
    rwa [weightedTotal_single hrow', weightedTotal_single hrow', hread] at hentry

theorem exists_addHeat (h : x.Sound) (hst : st.Shows nb v x.dofs) (hout : out.size = x.dofs) :
    ∃ out', x.addHeat st out = .ok out' ∧ out'.size = x.dofs ∧
      ∀ row < x.dofs, out'.getD row 0 = out.getD row 0 + x.heatGain st nb v row := by
  unfold addHeat heatGain
  cases hheat : x.heat with
  | none => exact ⟨out, rfl, hout, fun row _ => by simp⟩
  | some y =>
    obtain ⟨hready, hdof⟩ := h.heat y hheat
    have ht := h.hasTemperature_of_heat hheat
    rw [h.temperature?_eq ht]
    dsimp only
    rw [HeatEquation.addFlux_eq hst (hdof.trans_lt (h.size_lt ht)) hready]
    refine ⟨_, rfl, by rw [Array.size_setIfInBounds, hout], fun row hrow => ?_⟩
    have hrow' : row < out.size := hrow.trans_eq hout.symm
    by_cases hsame : row = x.net.size
    · subst hsame
      simp [Array.getD_eq_getD_getElem?, hrow']
    · simp [Array.getD_eq_getD_getElem?, Array.getElem?_setIfInBounds_ne (Ne.symm hsame), hsame]

theorem heatGain_congr (h : x.Sound) {v' : Nat → Nat → ℝ} (hframe : st.SameFrame st')
    (hv : ∀ t ∈ x.pattern.temperature?, ∀ q, v q t = v' q t) (row : Nat) :
    x.heatGain st nb v row = x.heatGain st' nb v' row := by
  unfold heatGain
  cases hheat : x.heat with
  | none => rfl
  | some y =>
    have ht := h.hasTemperature_of_heat hheat
    have hdof : y.dof ∈ x.pattern.temperature? := (h.heat y hheat).2 ▸ h.temperature?_eq ht
    simp only [Option.elim_some, y.gain_congr hframe (hv _ hdof)]

end Sound

/-- What transport adds, as derivatives with respect to the clusters' own values at a temperature. -/
noncomputable def ownEntries (x : Simulation ℝ) (rates : PointRates ℝ) (st : Stencil ℝ) (t : ℝ) :
    List (StencilEntry ℝ) :=
  (x.diffusion.elim [] fun d => d.ownEntries rates st) ++
    x.drift.elim [] fun d => d.ownEntries rates st t

theorem ownEntries_congr (h : st.SameFrame st') (t : ℝ) :
    x.ownEntries rates st t = x.ownEntries rates st' t := by
  unfold ownEntries
  cases x.diffusion <;> cases x.drift <;>
    simp [Diffusion.ownEntries_congr h, ThermalDrift.ownEntries_congr h]

theorem pointFlux_of_isVacuum (hs : x.Fits s) (hp : p < x.shape.points)
    (hvacuum : x.isVacuum p = true) : x.pointFlux s p = .ok (Array.replicate x.dofs 0) := by
  rw [pointFlux, fluxInto_of_isVacuum hs hp hvacuum, Array.size_replicate, Scalar.natLit_zero_real]

/-- The rates of change below the surface: reactions, transport and, of the temperature, heat. -/
theorem Sound.exists_pointFlux (h : x.Sound) (hx : x.LooksUp s p rates st) :
    ∃ out, x.pointFlux s p = .ok out ∧ out.size = x.dofs ∧
      ∀ row < x.dofs, out.getD row 0 =
        ((x.net.reactions.toList.zip rates.rates.toList).map fun y =>
          reactionFlux (Pi.single row 1) st.center y.1 y.2.value).sum +
        entryTotal (Pi.single row 1) ((x.neighbours p).read s.value)
          (x.ownEntries rates st (x.temperatureOf (x.neighbours p) s.value)) +
        x.heatGain st (x.neighbours p) s.value row := by
  obtain ⟨spec, hb⟩ := h.network
  let start : Array ℝ := Array.replicate x.dofs 0
  have hstart : start.size = x.dofs := Array.size_replicate
  obtain ⟨out₁, h₁⟩ : ∃ out₁, x.assembly.addFlux rates st.center start = .ok out₁ := by
    rw [exists_addFlux_iff h.assembly, hx.size_center, hstart]
    exact ⟨hx.rates, h.size_le, h.size_le⟩
  obtain ⟨hsize₁, -⟩ := addFlux_eq_ok h.assembly
    (fun r hr i hi => hb.lt_size_of_mem_participants hr hi) h₁ 0 (hstart ▸ h.size_le) le_rfl
  obtain ⟨out₂, h₂, hsize₂, hentry₂⟩ := h.exists_addDiffusion hx.shows hx.diffusion
    (hsize₁.trans hstart)
  obtain ⟨out₃, h₃, hsize₃, hentry₃⟩ := h.exists_addDrift hx.shows hx.diffusion hsize₂
  obtain ⟨out₄, h₄, hsize₄, hentry₄⟩ := h.exists_addHeat hx.shows hsize₃
  refine ⟨out₄, ?_, hsize₄, fun row hrow => ?_⟩
  · rw [pointFlux, hx.fluxInto_eq, Array.size_replicate, Scalar.natLit_zero_real, h₁, ok_bind, h₂,
      ok_bind, h₃, ok_bind, h₄]
  · have hentry₁ := getD_addFlux hb h.assembly h₁ (hrow.trans_eq hstart.symm)
    have hzero : start.getD row 0 = 0 := by simp [start, Array.getD_eq_getD_getElem?, hrow]
    rw [hentry₄ row hrow, hentry₃ row hrow, hentry₂ row hrow, hentry₁, hzero, ownEntries,
      entryTotal_append]
    ring

end ClusterDynamics.Simulation
