import ClusterDynamics.Proofs.Simulation.Construction
import ClusterDynamics.Proofs.Simulation.LookUps

/-! A simulation that was built is always ready. Whatever calls were made since, an evaluation is
refused for the shape of the state or for the position of the point alone, and an evaluation of the
whole grid gives what the evaluations of its points give. -/

namespace ClusterDynamics.Simulation

open Reported

variable {K : Type} [Scalar K] {x : Simulation K} {s : GridState K} {p : Nat}
  {rates : PointRates K} {st : Stencil K} {out : Array K} {e : EvalError K} {time : K}

/-- Why a state does not fit: its shape is looked at first, then its degrees of freedom. -/
inductive Misfit (x : Simulation K) (s : GridState K) : EvalError K → Prop
  | shape (h : s.shape ≠ x.shape) :
      Misfit x s (.wrongLength .gridPoints x.shape.points s.points)
  | dofs (hshape : s.shape = x.shape) (h : s.dofs ≠ x.dofs) :
      Misfit x s (.wrongLength .dofsPerPoint x.dofs s.dofs)

/-- Why a point of a state is not evaluated. -/
inductive Refused (x : Simulation K) (s : GridState K) (p : Nat) : EvalError K → Prop
  | misfit {e : EvalError K} (h : x.Misfit s e) : Refused x s p e
  | noSuchPoint (hs : x.Fits s) (hp : x.shape.points ≤ p) :
      Refused x s p (.noSuchPoint p x.shape.points)

omit [Scalar K] in
theorem misfit_of_checkState (h : x.checkState s = .error e) : x.Misfit s e := by
  by_cases hshape : s.shape = x.shape
  · by_cases hdofs : s.dofs = x.dofs
    · rw [checkState_eq_ok_iff.mpr ⟨hshape, hdofs⟩] at h
      cases h
    · simp [checkState, hshape, hdofs] at h
      exact h ▸ .dofs hshape hdofs
  · simp [checkState, hshape] at h
    exact h ▸ .shape hshape

section Point

theorem fluxInto_congr {out' : Array K} (h : out.size = out'.size) :
    x.fluxInto s p out = x.fluxInto s p out' := by
  rw [fluxInto, fluxInto, h]

namespace Sound

theorem exists_addDiffusion_of_wide (h : x.Sound) (hst : st.Wide x.dofs)
    (hrates : rates.diffusion.size = x.net.size) (hout : out.size = x.dofs) :
    ∃ out', x.addDiffusion rates st out = .ok out' ∧ out'.size = x.dofs := by
  unfold addDiffusion
  cases hd : x.diffusion with
  | none => exact ⟨out, rfl, hout⟩
  | some d =>
    obtain ⟨out', hflux, hsize⟩ := Diffusion.exists_addFlux_of_wide hst
      (hrates ▸ h.lt_size_of_mem_diffusion hd) (hrates.le.trans h.size_le) hout
    exact ⟨out', mapError_eq_ok_iff.mpr hflux, hsize⟩

theorem exists_addDrift_of_wide (h : x.Sound) (hst : st.Wide x.dofs)
    (hrates : rates.diffusion.size = x.net.size) (hout : out.size = x.dofs) :
    ∃ out', x.addDrift rates st out = .ok out' ∧ out'.size = x.dofs := by
  unfold addDrift
  cases hd : x.drift with
  | none => exact ⟨out, rfl, hout⟩
  | some d =>
    obtain ⟨-, htemperature, ht⟩ := h.drift d hd
    obtain ⟨out', hflux, hsize⟩ := ThermalDrift.exists_addFlux_of_wide hst
      (htemperature.trans_lt (h.size_lt ht)) (hrates ▸ h.lt_size_of_mem_drift hd)
      (hrates.le.trans h.size_le) hout
    exact ⟨out', mapError_eq_ok_iff.mpr hflux, hsize⟩

theorem exists_addHeat_of_wide (h : x.Sound) (hst : st.Wide x.dofs) (hout : out.size = x.dofs) :
    ∃ out', x.addHeat st out = .ok out' ∧ out'.size = x.dofs := by
  unfold addHeat
  cases hheat : x.heat with
  | none => exact ⟨out, rfl, hout⟩
  | some y =>
    obtain ⟨hready, hdof⟩ := h.heat y hheat
    have ht := h.hasTemperature_of_heat hheat
    rw [h.temperature?_eq ht]
    dsimp only
    obtain ⟨gain, hgain⟩ := HeatEquation.exists_addFlux_of_wide hst
      (hdof.trans_lt (h.size_lt ht)) hready (out.getD x.net.size 0)
    rw [hgain]
    exact ⟨_, rfl, by rw [Array.size_setIfInBounds, hout]⟩

theorem exists_stencilEntries_of_wide (h : x.Sound) (hst : st.Wide x.dofs)
    (hrates : rates.diffusion.size = x.net.size) : ∃ es, x.stencilEntries rates st = .ok es := by
  have hdiffusion : ∃ es, x.diffusionEntries rates st = .ok es := by
    unfold diffusionEntries
    cases hd : x.diffusion with
    | none => exact ⟨[], rfl⟩
    | some d =>
      obtain ⟨es, hes⟩ := Diffusion.exists_partials_of_wide hst
        (hrates ▸ h.lt_size_of_mem_diffusion hd) (hrates.le.trans h.size_le)
      exact ⟨es, mapError_eq_ok_iff.mpr hes⟩
  have hdrift : ∃ es, x.driftEntries rates st = .ok es := by
    unfold driftEntries
    cases hd : x.drift with
    | none => exact ⟨[], rfl⟩
    | some d =>
      obtain ⟨-, htemperature, ht⟩ := h.drift d hd
      obtain ⟨es, hes⟩ := ThermalDrift.exists_partials_of_wide hst
        (htemperature.trans_lt (h.size_lt ht)) (hrates ▸ h.lt_size_of_mem_drift hd)
        (hrates.le.trans h.size_le)
      exact ⟨es, mapError_eq_ok_iff.mpr hes⟩
  have hheat : ∃ es, x.heatEntries st = .ok es := by
    unfold heatEntries
    cases hy : x.heat with
    | none => exact ⟨[], rfl⟩
    | some y =>
      obtain ⟨hready, hdof⟩ := h.heat y hy
      have ht := h.hasTemperature_of_heat hy
      obtain ⟨es, hes⟩ :=
        HeatEquation.exists_partials_of_wide hst (hdof.trans_lt (h.size_lt ht)) hready
      rw [h.temperature?_eq ht]
      dsimp only
      exact ⟨_, by rw [hes]; rfl⟩
  obtain ⟨es₁, h₁⟩ := hdiffusion
  obtain ⟨es₂, h₂⟩ := hdrift
  obtain ⟨es₃, h₃⟩ := hheat
  exact ⟨es₁ ++ es₂ ++ es₃, by rw [stencilEntries, h₁, h₂, h₃]; rfl⟩

theorem exists_fluxInto (h : x.Sound) (hs : x.Fits s) (hp : p < x.shape.points)
    (hout : out.size = x.dofs) : ∃ out', x.fluxInto s p out = .ok out' ∧ out'.size = x.dofs := by
  cases hvacuum : x.isVacuum p with
  | true =>
    exact ⟨_, fluxInto_of_isVacuum hs hp hvacuum out, by rw [Array.size_replicate, hout]⟩
  | false =>
    obtain ⟨rates, hlook⟩ := h.exists_looksUp hp hvacuum
    obtain ⟨st, hx⟩ := hlook s hs
    have hstart : (Array.replicate out.size (0 : K)).size = x.dofs := by
      rw [Array.size_replicate, hout]
    obtain ⟨out₁, h₁⟩ := (Assembly.exists_addFlux_iff h.assembly).mpr
      ⟨hx.rates, h.size_le.trans_eq hx.size_center.symm, h.size_le.trans_eq hstart.symm⟩
    obtain ⟨out₂, h₂, hsize₂⟩ := h.exists_addDiffusion_of_wide hx.wide hx.diffusion
      ((Assembly.size_of_addFlux h₁).trans hstart)
    obtain ⟨out₃, h₃, hsize₃⟩ := h.exists_addDrift_of_wide hx.wide hx.diffusion hsize₂
    obtain ⟨out₄, h₄, hsize₄⟩ := h.exists_addHeat_of_wide hx.wide hsize₃
    exact ⟨out₄, by rw [hx.fluxInto_eq, h₁, ok_bind, h₂, ok_bind, h₃, ok_bind, h₄], hsize₄⟩

theorem exists_flux (h : x.Sound) (hs : x.Fits s) (hp : p < x.shape.points) :
    ∃ out, x.flux s p = .ok out ∧ out.size = x.dofs := by
  rw [flux_eq hs]
  exact h.exists_fluxInto hs hp Array.size_replicate

theorem exists_jacobian_of_fits (h : x.Sound) (hs : x.Fits s) (hp : p < x.shape.points) :
    ∃ ts, x.jacobian s p = .ok ts := by
  cases hvacuum : x.isVacuum p with
  | true => exact ⟨[], jacobian_of_isVacuum hs hp hvacuum⟩
  | false =>
    obtain ⟨rates, hlook⟩ := h.exists_looksUp hp hvacuum
    obtain ⟨st, hx⟩ := hlook s hs
    obtain ⟨es, hes⟩ := h.exists_stencilEntries_of_wide hx.wide hx.diffusion
    exact ⟨_, hx.jacobian_eq_ok h hes⟩

end Sound

omit [Scalar K] in
theorem checkState_of_misfit (h : x.Misfit s e) : x.checkState s = .error e := by
  cases h with
  | shape h =>
    simp only [checkState, if_pos h]
    rfl
  | dofs hshape h =>
    simp only [checkState, if_pos h, if_neg (not_not_intro hshape)]
    rfl

theorem Refused.evaluations (h : x.Refused s p e) :
    x.flux s p = .error e ∧ x.jacobian s p = .error e := by
  cases h with
  | misfit h =>
    have hstate := checkState_of_misfit h
    exact ⟨by rw [flux, hstate]; rfl, by rw [jacobian, hstate]; rfl⟩
  | noSuchPoint hs hp =>
    have hpoint : s.checkPoint p = .error (.noSuchPoint p x.shape.points) := by
      rw [GridState.checkPoint, hs.points, if_neg (Nat.not_lt.mpr hp)]
    exact ⟨by rw [flux_eq hs, pointFlux, fluxInto, hpoint]; rfl,
      by rw [jacobian, checkState_eq_ok_iff.mpr hs, ok_bind, hpoint]; rfl⟩

omit [Scalar K] in
/-- Without a state that fits and a point of the grid, an evaluation is refused. -/
theorem exists_refused (h : ¬(x.Fits s ∧ p < x.shape.points)) : ∃ e, x.Refused s p e := by
  cases hstate : x.checkState s with
  | error e => exact ⟨e, .misfit (misfit_of_checkState hstate)⟩
  | ok =>
    have hs := checkState_eq_ok_iff.mp hstate
    exact ⟨_, .noSuchPoint hs (Nat.not_lt.mp fun hp => h ⟨hs, hp⟩)⟩

end Point

section Grid

omit [Scalar K] in
theorem foldl_append (parts : List (Array K)) (out : Array K) :
    parts.foldl (· ++ ·) out = out ++ (parts.map Array.toList).flatten.toArray := by
  induction parts generalizing out with
  | nil => simp
  | cons part parts ih =>
    rw [List.foldl_cons, ih, List.map_cons, List.flatten_cons, ← List.append_toArray,
      Array.toArray_toList, Array.append_assoc]

/-- The fluxes of all points, whatever the output held before. -/
theorem Sound.exists_allFluxInto (h : x.Sound) (hs : x.Fits s) :
    ∃ fluxes, (List.range x.shape.points).mapM (x.flux s) = .ok fluxes ∧
      ∀ out : Array K, out.size = s.values.size →
        x.allFluxInto s out = .ok (fluxes.map Array.toList).flatten.toArray := by
  obtain ⟨fluxes, hfluxes⟩ := exists_mapM_eq_ok_iff.mpr fun p hp => by
    obtain ⟨out, hflux, -⟩ := h.exists_flux hs (List.mem_range.mp hp)
    exact ⟨out, hflux⟩
  refine ⟨fluxes, hfluxes, fun out hout => ?_⟩
  have hparts : (List.range x.shape.points).mapM (fun p =>
      x.fluxInto s p (out.extract (p * x.dofs) (p * x.dofs + x.dofs))) = .ok fluxes := by
    rw [← hfluxes]
    refine mapM_congr fun p hp => ?_
    have hend : p * x.dofs + x.dofs ≤ out.size := by
      rw [hout, ← hs.dofs]
      exact GridState.point_end_le (hs.points.symm ▸ List.mem_range.mp hp)
    rw [flux_eq hs, pointFlux]
    refine fluxInto_congr ?_
    rw [Array.size_extract, Array.size_replicate]
    omega
  have hpositive : 0 < x.dofs := by
    obtain ⟨spec, hb⟩ := h.network
    exact hb.size_pos.trans_le h.size_le
  rw [allFluxInto, checkState_eq_ok_iff.mpr hs, ok_bind, if_neg (not_not.mpr hout),
    checkRange_eq_ok_iff.mpr hpositive, hs.points]
  change (do
    let parts ← (List.range x.shape.points).mapM fun p =>
      x.fluxInto s p (out.extract (p * x.dofs) (p * x.dofs + x.dofs))
    return parts.foldl (· ++ ·) #[]) = _
  rw [hparts, ok_bind, foldl_append, Array.empty_append]
  rfl

theorem Sound.exists_allJacobian (h : x.Sound) (hs : x.Fits s) :
    ∃ parts, (List.range x.shape.points).mapM (x.jacobian s) = .ok parts ∧
      x.allJacobian s = .ok ({ x with derivatives := parts.flatten.length }, parts.flatten) := by
  obtain ⟨parts, hparts⟩ := exists_mapM_eq_ok_iff.mpr fun p hp =>
    h.exists_jacobian_of_fits hs (List.mem_range.mp hp)
  refine ⟨parts, hparts, ?_⟩
  rw [allJacobian, checkState_eq_ok_iff.mpr hs, ok_bind, hs.points, hparts]
  rfl

end Grid

section Update

theorem Sound.exists_nextTemperatures (h : x.Sound) (hs : x.Fits s) (time : K) :
    ∃ ts, (List.range s.points).mapM (x.nextTemperature s time) = .ok ts := by
  refine exists_mapM_eq_ok_iff.mpr fun p hp => ?_
  have hp' : p < s.points := List.mem_range.mp hp
  unfold nextTemperature
  cases x.isVacuum p with
  | true =>
    have hpoint : p < x.tables.points.size := by rwa [h.points, ← hs.points]
    exact ⟨_, by rw [RateTables.get, Array.getElem?_eq_getElem hpoint]; rfl⟩
  | false =>
    cases ht : x.pattern.temperature? with
    | none => exact ⟨_, rfl⟩
    | some t =>
      cases x.heat with
      | none => exact ⟨_, rfl⟩
      | some y =>
        obtain ⟨rfl, hlt⟩ := h.eq_size_of_mem ht
        have hvalues := GridState.point_eq hp'
        have hdof : x.net.size < (s.values.extract (p * s.dofs) (p * s.dofs + s.dofs)).size := by
          rwa [GridState.size_point hvalues, hs.dofs]
        obtain ⟨own, hown⟩ := exists_entryAt_iff.mpr hdof
        simp only [Bool.false_eq_true, if_false, hvalues, hown, Except.mapError, ok_bind]
        exact ⟨_, rfl⟩

/-- Why the rates are not brought up to a state: it does not fit, or a point would take a
temperature that no rates are computed at. -/
inductive NotUpdated (x : Simulation K) (s : GridState K) (time : K) : EvalError K → Prop
  | misfit {e : EvalError K} (h : x.Misfit s e) : NotUpdated x s time e
  | badTemperature {p : Nat} {t : K} (hs : x.Fits s) (hp : p < x.shape.points)
      (hnext : x.nextTemperature s time p = .ok t) (ht : Scalar.isPositive t = false) :
      NotUpdated x s time (.badTemperature p t)

theorem Sound.notUpdated_of_error (h : x.Sound)
    (hupdate : (x.updateTemperatures s time).value = .error e) : x.NotUpdated s time e := by
  cases hstate : x.checkState s with
  | error e' =>
    have hvalue : (x.updateTemperatures s time).value = .error e' := by
      rw [updateTemperatures, hstate]
      rfl
    obtain rfl := Except.error.inj (hvalue.symm.trans hupdate)
    exact .misfit (misfit_of_checkState hstate)
  | ok =>
    have hs := checkState_eq_ok_iff.mp hstate
    obtain ⟨ts, hts⟩ := h.exists_nextTemperatures hs time
    rcases RateTables.update_of_coherent h.tables ts with ⟨⟨qs, n, hqs, -⟩, -⟩ | ⟨e', he, hcheck⟩
    · have hvalue : ∃ y, (x.updateTemperatures s time).value = .ok y := by
        obtain ⟨j, hset⟩ := (RateTables.returns_setTemperatures_iff (j := {})).mpr hqs
        exact ⟨_, value_eq_ok_iff.mpr ⟨j,
          returns_bind_iff.mpr ⟨(), {}, returns_ofExcept_iff.mpr ⟨hstate, rfl⟩,
          returns_bind_iff.mpr ⟨ts, {}, returns_ofExcept_iff.mpr ⟨hts, rfl⟩,
          returns_bind_iff.mpr ⟨_, j, hset, returns_pure_iff.mpr ⟨rfl, rfl⟩⟩⟩⟩⟩⟩
      obtain ⟨y, hy⟩ := hvalue
      cases hy.symm.trans hupdate
    · have hvalue : (x.updateTemperatures s time).value = .error e' := by
        rw [updateTemperatures, hstate, hts]
        change (x.tables.setTemperatures x.net ts >>= fun y =>
          pure ({ x with tables := y.1, recomputed := y.2 }, y.2) :
            Reported K (EvalError K) (Simulation K × Nat)).value = _
        rw [RateTables.setTemperatures, he]
        rfl
      obtain rfl := Except.error.inj (hvalue.symm.trans hupdate)
      have hforall := mapM_eq_ok_iff.mp hts
      have hlength : ts.length = x.tables.points.size := by
        rw [← hforall.length_eq, List.length_range, hs.points, h.points]
      obtain ⟨p, t, hpt, ht, rfl⟩ := RateTables.badTemperature_of_checkTemperatures hlength hcheck
      obtain ⟨p', hp', hnext⟩ := exists_getElem?_of_forall₂ hforall.flip hpt
      obtain ⟨hp, rfl⟩ := List.getElem?_eq_some_iff.mp hp'
      rw [List.getElem_range] at hnext
      rw [List.length_range, hs.points] at hp
      exact .badTemperature hs hp hnext ht

end Update

/-- The look-ups of an evaluation at a point that nothing checks on the way. -/
structure ReadsInRange (x : Simulation K) (p : Nat) : Prop where
  coords : x.shape.coords? p = .ok (x.shape.coords p)
  column : (x.shape.coords p).2.2 * x.surface.ny + (x.shape.coords p).2.1 <
    x.surface.positions.size
  surface : x.surfaceAt p < x.grid.size
  node : x.nodeOf p < x.grid.size
  nodes : minNodes ≤ x.grid.size
  neighbours : ∀ o q, (x.neighbours p).resolve o = some q → q < x.shape.points
  terms : ∀ t ∈ x.assembly.terms.toList, t.InRange x.dofs x.assembly.template.entryCount
  rows : x.assembly.template.Partitioned
  temperature : ∀ t ∈ x.pattern.temperature?, t < x.dofs

theorem Sound.readsInRange (h : x.Sound) (hnodes : minNodes ≤ x.grid.size)
    (hp : p < x.shape.points) : x.ReadsInRange p := by
  obtain ⟨spec, hb⟩ := h.network
  obtain ⟨hnx, hny, -⟩ := GridShape.extents_pos hp
  obtain ⟨hx, hy, hz⟩ := GridShape.coords_lt hp
  obtain ⟨hcolumn, hsurface⟩ := h.surface.node_lt hy hz
  constructor
  · exact if_neg (by omega)
  · exact hcolumn
  · exact hsurface
  · exact hx
  · exact hnodes
  · exact fun o q hq => GridShape.resolve_lt hp hq
  · intro t ht
    exact (Assembly.inRange_of_mem_terms hb h.assembly ht).mono h.size_le
  · rw [Assembly.ofNetwork_template h.assembly]
    exact SparseBlock.partitioned_ofPattern _
  · intro t ht
    obtain ⟨rfl, hlt⟩ := h.eq_size_of_mem ht
    exact hlt

/-- Evaluations of a simulation are refused only for the state and the point that are asked for, and
those of the whole grid give what those of its points give, in order. -/
structure Ready (x : Simulation K) : Prop where
  flux_iff : ∀ s p, (∃ out, x.flux s p = .ok out) ↔ x.Fits s ∧ p < x.shape.points
  flux_refused : ∀ s p e, x.flux s p = .error e → x.Refused s p e
  size_flux : ∀ s p out, x.flux s p = .ok out → out.size = x.dofs
  jacobian_iff : ∀ s p, (∃ ts, x.jacobian s p = .ok ts) ↔ x.Fits s ∧ p < x.shape.points
  jacobian_refused : ∀ s p e, x.jacobian s p = .error e → x.Refused s p e
  reads : ∀ p < x.shape.points, x.ReadsInRange p
  update_refused : ∀ s time e,
    (x.updateTemperatures s time).value = .error e → x.NotUpdated s time e
  /-- An update of the rates in place that is refused has written nothing. -/
  update_unchanged : ∀ ts e, (x.tables.update x.net ts).2 = .error e →
    (x.tables.update x.net ts).1 = x.tables
  allFlux : ∀ s, x.Fits s → ∃ fluxes,
    (List.range x.shape.points).mapM (x.flux s) = .ok fluxes ∧
      ∀ out : Array K, out.size = s.values.size →
        x.allFluxInto s out = .ok (fluxes.map Array.toList).flatten.toArray
  allJacobian : ∀ s, x.Fits s → ∃ parts,
    (List.range x.shape.points).mapM (x.jacobian s) = .ok parts ∧
      x.allJacobian s = .ok ({ x with derivatives := parts.flatten.length }, parts.flatten)

omit [Scalar K] in
theorem exists_ok_iff_and_refused {α : Type} {result : Except (EvalError K) α}
    (hok : x.Fits s ∧ p < x.shape.points → ∃ a, result = .ok a)
    (herror : ¬(x.Fits s ∧ p < x.shape.points) → ∃ e, x.Refused s p e ∧ result = .error e) :
    ((∃ a, result = .ok a) ↔ x.Fits s ∧ p < x.shape.points) ∧
      ∀ e, result = .error e → x.Refused s p e := by
  by_cases hfits : x.Fits s ∧ p < x.shape.points
  · obtain ⟨a, rfl⟩ := hok hfits
    exact ⟨⟨fun _ => hfits, fun _ => ⟨a, rfl⟩⟩, nofun⟩
  · obtain ⟨e, hrefused, rfl⟩ := herror hfits
    refine ⟨⟨?_, fun h => absurd h hfits⟩, fun e' he => ?_⟩
    · rintro ⟨a, ha⟩
      cases ha
    · obtain rfl := Except.error.inj he
      exact hrefused

theorem Sound.ready (h : x.Sound) (hnodes : minNodes ≤ x.grid.size) : x.Ready := by
  have hflux : ∀ s p, ((∃ out, x.flux s p = .ok out) ↔ x.Fits s ∧ p < x.shape.points) ∧
      ∀ e, x.flux s p = .error e → x.Refused s p e := by
    refine fun s p => exists_ok_iff_and_refused (fun ⟨hs, hp⟩ => ?_) fun hno => ?_
    · obtain ⟨out, hout, -⟩ := h.exists_flux hs hp
      exact ⟨out, hout⟩
    · obtain ⟨e, hrefused⟩ := exists_refused hno
      obtain ⟨he, -⟩ := hrefused.evaluations
      exact ⟨e, hrefused, he⟩
  have hjacobian : ∀ s p, ((∃ ts, x.jacobian s p = .ok ts) ↔ x.Fits s ∧ p < x.shape.points) ∧
      ∀ e, x.jacobian s p = .error e → x.Refused s p e := by
    refine fun s p => exists_ok_iff_and_refused (fun ⟨hs, hp⟩ => ?_) fun hno => ?_
    · exact h.exists_jacobian_of_fits hs hp
    · obtain ⟨e, hrefused⟩ := exists_refused hno
      obtain ⟨-, he⟩ := hrefused.evaluations
      exact ⟨e, hrefused, he⟩
  constructor
  · exact fun s p => (hflux s p).1
  · exact fun s p => (hflux s p).2
  · intro s p out hout
    obtain ⟨hs, hp⟩ := (hflux s p).1.mp ⟨out, hout⟩
    obtain ⟨out', hout', hsize⟩ := h.exists_flux hs hp
    obtain rfl := Except.ok.inj (hout'.symm.trans hout)
    exact hsize
  · exact fun s p => (hjacobian s p).1
  · exact fun s p => (hjacobian s p).2
  · exact fun p hp => h.readsInRange hnodes hp
  · exact fun s time e he => h.notUpdated_of_error he
  · intro ts e he
    rcases RateTables.update_of_coherent h.tables ts with ⟨⟨qs, n, hqs, -⟩, -⟩ | ⟨e', he', -⟩
    · rw [hqs] at he
      cases he
    · rw [he']
  · exact fun s hs => h.exists_allFluxInto hs
  · exact fun s hs => h.exists_allJacobian hs

/-- After any calls, a simulation that was built on a grid is ready. -/
theorem ready_after_calls {spec : NetworkSpec K} {net : Network K} {nodes : List K}
    {dimension : Nat} {hy hz : K} {grid : DepthGrid K} {config : SimulationConfig K}
    {start : Simulation K} (hnet : (Network.build spec).value = .ok net)
    (hgrid : DepthGrid.ofNodes nodes dimension hy hz = .ok grid)
    (hstart : (build net grid config).value = .ok start) (calls : List (Call K)) :
    (start.performAll calls).Ready := by
  obtain ⟨h, -, hsame, -⟩ := sound_after_calls hnet hstart calls
  obtain ⟨-, hnodes, -⟩ := DepthGrid.ofNodes_eq_ok hgrid
  exact h.ready (hsame ▸ hnodes)

/-- Xenon up to two on three nodes: the surface is moved to the middle one, and past the last. -/
theorem ready_after_calls_xenon :
    ∃ (net : Network ℝ) (grid : DepthGrid ℝ) (start : Simulation ℝ),
      (Network.build (.xenon 2)).value = .ok net ∧ DepthGrid.ofNodes [0, 1, 3] 1 1 1 = .ok grid ∧
      (build net grid SimulationConfig.standard).value = .ok start ∧
      let x := start.performAll [.setSurface 0 0 1, .setSurface 0 0 3]
      let s := GridState.zeros x.shape x.dofs
      (∃ out, x.flux s 2 = .ok out ∧ out.size = x.dofs) ∧ ¬∃ out, x.flux s 3 = .ok out := by
  obtain ⟨net, hnet, -⟩ := Network.exists_build_xenon
  obtain ⟨start, hstart⟩ := exists_build_standard (Network.builtFrom_of_build hnet)
  have hready := ready_after_calls hnet DepthGrid.ofNodes_three hstart
    [.setSurface 0 0 1, .setSurface 0 0 3]
  refine ⟨net, _, start, hnet, DepthGrid.ofNodes_three, hstart, ?_⟩
  intro x s
  have hpoints : x.shape.points = 3 := by
    obtain ⟨-, -, hgrid, hconfig⟩ :=
      sound_after_calls hnet hstart [.setSurface 0 0 1, .setSurface 0 0 3]
    rw [shape, hgrid, hconfig]
    rfl
  constructor
  · have hlt : 2 < x.shape.points := by
      rw [hpoints]
      decide
    obtain ⟨out, hout⟩ := (hready.flux_iff s 2).mpr ⟨⟨rfl, rfl⟩, hlt⟩
    exact ⟨out, hout, hready.size_flux s 2 out hout⟩
  · intro hflux
    obtain ⟨-, hlt⟩ := (hready.flux_iff s 3).mp hflux
    change 3 < x.shape.points at hlt
    omega

end ClusterDynamics.Simulation
