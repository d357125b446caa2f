import ClusterDynamics.Proofs.Simulation.Construction
import ClusterDynamics.Proofs.Simulation.Evaluation
import ClusterDynamics.Proofs.Simulation.Triplets

/-! The derivatives listed at a point are those of the rates of change there. Both sides are read
off the same closed form: along one concentration, reactions change by the product rule and
transport by its coefficients, while temperatures and with them the coefficients stay. -/

namespace ClusterDynamics.Simulation

open Assembly

variable {x : Simulation ℝ} {s s' : GridState ℝ} {p : Nat} {rates : PointRates ℝ}
  {st : Stencil ℝ}

/-- How fast transport grows with the temperature of a point, row by row. -/
noncomputable def transportSlope (x : Simulation ℝ) (rates : PointRates ℝ) (st : Stencil ℝ)
    (nb : Neighbours) (v : Nat → Nat → ℝ) (w : Nat → ℝ) : ℝ :=
  (x.diffusion.elim 0 fun d => d.heatingSlope rates st nb v w) +
    x.drift.elim 0 fun d => d.heatingSlope rates st nb v (x.temperatureOf nb v) w

namespace Sound

variable {nb : Neighbours} {v : Nat → Nat → ℝ}

theorem exists_diffusionEntries (h : x.Sound) (hst : st.Shows nb v x.dofs)
    (haxes : nb.transverse.length ≤ 2) (hrates : rates.diffusion.size = x.net.size) :
    ∃ es, x.diffusionEntries rates st = .ok es ∧ ∀ w r, entryTotal w r es =
      entryTotal w r (x.diffusion.elim [] fun d => d.ownEntries rates st) +
        x.pattern.temperature?.elim 0 (r .center) *
          x.diffusion.elim 0 fun d => d.heatingSlope rates st nb v w := by
  unfold diffusionEntries
  cases hd : x.diffusion with
  | none => exact ⟨[], rfl, fun w r => by simp⟩
  | some d =>
    obtain ⟨es, hes, htotal⟩ := Diffusion.exists_partials hst
      (hrates ▸ h.lt_size_of_mem_diffusion hd) (hrates.le.trans h.size_le) haxes
    rw [congrArg Diffusion.temperature (h.diffusion d hd)] at htotal
    exact ⟨es, mapError_eq_ok_iff.mpr hes, htotal⟩

theorem exists_driftEntries (h : x.Sound) (hst : st.Shows nb v x.dofs)
    (hrates : rates.diffusion.size = x.net.size) :
    ∃ es, x.driftEntries rates st = .ok es ∧ ∀ w r, entryTotal w r es =
      entryTotal w r (x.drift.elim [] fun d => d.ownEntries rates st (x.temperatureOf nb v)) +
        x.pattern.temperature?.elim 0 (r .center) *
          x.drift.elim 0 fun d => d.heatingSlope rates st nb v (x.temperatureOf nb v) w := by
  unfold driftEntries
  cases hd : x.drift with
  | none => exact ⟨[], rfl, fun w r => by simp⟩
  | some d =>
    obtain ⟨-, htemperature, ht⟩ := h.drift d hd
    obtain ⟨es, hes, htotal⟩ := ThermalDrift.exists_partials hst
      (htemperature.trans_lt (h.size_lt ht)) (hrates ▸ h.lt_size_of_mem_drift hd)
      (hrates.le.trans h.size_le)
    refine ⟨es, mapError_eq_ok_iff.mpr hes, fun w r => ?_⟩
    rw [Option.elim_some, Option.elim_some, temperatureOf, h.temperature?_eq ht, Option.elim_some,
      Option.elim_some, ← htemperature]
    exact htotal w r

/-- The heat equation lists derivatives of the temperature with respect to temperatures. -/
theorem exists_heatEntries (h : x.Sound) (hst : st.Wide x.dofs) :
    ∃ es, x.heatEntries st = .ok es ∧ ∀ w r,
      (∀ t ∈ x.pattern.temperature?, w t = 0 ∨ ∀ o, r o t = 0) → entryTotal w r es = 0 := by
  unfold heatEntries
  cases hheat : x.heat with
  | none => exact ⟨[], rfl, fun w r _ => rfl⟩
  | some y =>
    obtain ⟨hready, hdof⟩ := h.heat y hheat
    have ht := h.hasTemperature_of_heat hheat
    obtain ⟨es, hes⟩ :=
      HeatEquation.exists_partials_of_wide hst (hdof.trans_lt (h.size_lt ht)) hready
    rw [h.temperature?_eq ht]
    dsimp only
    rw [hes]
    refine ⟨_, rfl, fun w r hr => ?_⟩
    refine List.sum_eq_zero fun z hz => ?_
    obtain ⟨e, he, rfl⟩ := List.mem_map.mp hz
    obtain ⟨y, -, rfl⟩ := List.mem_map.mp he
    rcases hr _ rfl with hrow | hcolumn
    · rw [hrow, zero_mul]
    · rw [hcolumn, mul_zero, mul_zero]

/-- Except for those of the temperature with respect to temperatures, the derivatives of transport
and heat come to those of transport with respect to the clusters' own values and, in the column of
the temperature, to those of its coefficients. -/
theorem exists_stencilEntries (h : x.Sound) (hx : x.LooksUp s p rates st) :
    ∃ es, x.stencilEntries rates st = .ok es ∧ ∀ w r,
      (∀ t ∈ x.pattern.temperature?, w t = 0 ∨ ∀ o, r o t = 0) → entryTotal w r es =
        entryTotal w r (x.ownEntries rates st (x.temperatureOf (x.neighbours p) s.value)) +
          x.pattern.temperature?.elim 0 (r .center) *
            x.transportSlope rates st (x.neighbours p) s.value w := by
  obtain ⟨es₁, h₁, htotal₁⟩ :=
    h.exists_diffusionEntries hx.shows (GridShape.length_transverse_le _) hx.diffusion
  obtain ⟨es₂, h₂, htotal₂⟩ := h.exists_driftEntries hx.shows hx.diffusion
  obtain ⟨es₃, h₃, htotal₃⟩ := h.exists_heatEntries hx.wide
  refine ⟨es₁ ++ es₂ ++ es₃, by rw [stencilEntries, h₁, h₂, h₃]; rfl, fun w r hr => ?_⟩
  rw [entryTotal_append, entryTotal_append, htotal₁ w r, htotal₂ w r, htotal₃ w r hr, ownEntries,
    entryTotal_append, transportSlope]
  ring

theorem exists_addPartials (h : x.Sound) {conc : Array ℝ} (hconc : x.net.size ≤ conc.size)
    (hrates : rates.rates.size = x.net.reactions.size) :
    ∃ block, x.assembly.addPartials rates conc x.assembly.template = .ok block ∧
      ∀ base, ∀ row < x.dofs, ∀ column,
        let δ := fun i => (Pi.single column 1 : Nat → ℝ) (base + i)
        totalAt (blockTriplets base block) (base + row) column =
          ((x.net.reactions.toList.zip rates.rates.toList).map fun y =>
            reactionSlope (Pi.single row 1) δ conc y.1 y.2.value).sum +
          x.pattern.temperature?.elim 0 δ *
            ((x.net.reactions.toList.zip rates.rates.toList).map fun y =>
              reactionFlux (Pi.single row 1) conc y.1 y.2.slope).sum := by
  have hcheck : x.assembly.checkBlock rates conc.size x.assembly.template.entryCount = .ok () :=
    (checkBlock_eq_ok_iff h.assembly).mpr ⟨hrates, hconc, rfl⟩
  refine ⟨_, addPartials_eq_ok hcheck, fun base row hrow column => ?_⟩
  rw [totalAt_termPartials h.assembly hrow, sum_reactionPartials]

end Sound

/-- The place of a concentration is not that of a temperature. -/
theorem Sound.place_ne (h : x.Sound) {i : Nat} (hi : i < x.net.size) (q : Nat) :
    ∀ t ∈ x.pattern.temperature?, ∀ q', q' * x.dofs + t ≠ q * x.dofs + i := by
  intro t ht q' hsame
  obtain ⟨rfl, hlt⟩ := h.eq_size_of_mem ht
  have hmod := congrArg (· % x.dofs) hsame
  simp only [Nat.mul_add_mod_self_right, Nat.mod_eq_of_lt hlt, Nat.mod_eq_of_lt (hi.trans hlt)]
    at hmod
  omega

namespace Sound

/-- Below the surface, the derivatives that are listed add up to what reactions and transport come to
where a place alone weighs and, at the temperature of the point, to what their coefficients come to.
Those of a temperature with respect to temperatures are left out. -/
theorem exists_jacobian_totals (h : x.Sound) (hx : x.LooksUp s p rates st) :
    ∃ ts, x.jacobian s p = .ok ts ∧ ∀ row < x.dofs, ∀ column,
      (∀ t ∈ x.pattern.temperature?, row ≠ t ∨ ∀ q, q * x.dofs + t ≠ column) →
      let δ := fun q i => (Pi.single column 1 : Nat → ℝ) (q * x.dofs + i)
      totalAt ts (p * x.dofs + row) column =
        ((x.net.reactions.toList.zip rates.rates.toList).map fun y =>
          reactionSlope (Pi.single row 1) (δ p) st.center y.1 y.2.value).sum +
        entryTotal (Pi.single row 1) ((x.neighbours p).read δ)
          (x.ownEntries rates st (x.temperatureOf (x.neighbours p) s.value)) +
        x.pattern.temperature?.elim 0 (δ p) *
          (((x.net.reactions.toList.zip rates.rates.toList).map fun y =>
            reactionFlux (Pi.single row 1) st.center y.1 y.2.slope).sum +
          x.transportSlope rates st (x.neighbours p) s.value (Pi.single row 1)) := by
  obtain ⟨block, hblock, htotal⟩ :=
    h.exists_addPartials (h.size_le.trans_eq hx.size_center.symm) hx.rates
  obtain ⟨es, hes, hentries⟩ := h.exists_stencilEntries hx
  refine ⟨blockTriplets (p * x.dofs) block ++
    stencilTriplets (p * x.dofs) x.dofs (x.neighbours p) es, ?_, ?_⟩
  · rw [hx.jacobian_eq, hblock, ok_bind, hes]
    rfl
  · intro row hrow column hcolumn δ
    have hweights : ∀ t ∈ x.pattern.temperature?,
        (Pi.single row 1 : Nat → ℝ) t = 0 ∨ ∀ o, (x.neighbours p).read δ o t = 0 := by
      intro t ht
      refine (hcolumn t ht).imp (fun hrow => Pi.single_eq_of_ne hrow.symm 1) fun hplace o => ?_
      rw [Neighbours.read]
      cases (x.neighbours p).resolve o with
      | none => rfl
      | some q => exact Pi.single_eq_of_ne (hplace q) 1
    rw [totalAt_append, htotal _ row hrow column, totalAt_stencilTriplets, hentries _ _ hweights]
    have hcenter : (x.neighbours p).read δ .center = δ p := rfl
    rw [hcenter]
    ring

/-- At a place that is not a temperature, only concentrations weigh. -/
theorem exists_jacobian (h : x.Sound) (hx : x.LooksUp s p rates st) :
    ∃ ts, x.jacobian s p = .ok ts ∧ ∀ row < x.dofs, ∀ column,
      (∀ t ∈ x.pattern.temperature?, ∀ q, q * x.dofs + t ≠ column) →
      let δ := fun q i => (Pi.single column 1 : Nat → ℝ) (q * x.dofs + i)
      totalAt ts (p * x.dofs + row) column =
        ((x.net.reactions.toList.zip rates.rates.toList).map fun y =>
          reactionSlope (Pi.single row 1) (δ p) st.center y.1 y.2.value).sum +
        entryTotal (Pi.single row 1) ((x.neighbours p).read δ)
          (x.ownEntries rates st (x.temperatureOf (x.neighbours p) s.value)) := by
  obtain ⟨ts, hts, htotal⟩ := h.exists_jacobian_totals hx
  refine ⟨ts, hts, fun row hrow column hcolumn => ?_⟩
  have htemperature : x.pattern.temperature?.elim 0
      (fun i => (Pi.single column 1 : Nat → ℝ) (p * x.dofs + i)) = 0 := by
    cases ht : x.pattern.temperature? with
    | none => rfl
    | some t => exact Pi.single_eq_of_ne (hcolumn t ht p) 1
  intro δ
  rw [htotal row hrow column fun t ht => .inr (hcolumn t ht), htemperature, zero_mul, add_zero]

end Sound

section Paths

variable {path : ℝ → GridState ℝ} {k : Nat}

/-- Along states that differ in one value, every value has the derivative that its place tells. -/
theorem hasDerivAt_value (hdofs : ∀ y, (path y).dofs = s.dofs)
    (hvalues : ∀ y, (path y).values = s.values.setIfInBounds k y) (hk : k < s.values.size)
    (q i : Nat) (y : ℝ) : HasDerivAt (fun y => (path y).value q i)
      ((Pi.single k 1 : Nat → ℝ) (q * s.dofs + i)) y := by
  simp only [GridState.value, hdofs, hvalues]
  refine hasDerivAt_setIfInBounds _ _ (fun hsame => ?_) _
  rwa [hsame]

theorem hasDerivAt_read {nb : Neighbours} {v : ℝ → Nat → Nat → ℝ} {δ : Nat → Nat → ℝ} {y : ℝ}
    (h : ∀ q i, HasDerivAt (fun y => v y q i) (δ q i) y) (o : Offset) (i : Nat) :
    HasDerivAt (fun y => nb.read (v y) o i) (nb.read δ o i) y := by
  unfold Neighbours.read
  cases nb.resolve o with
  | none => exact hasDerivAt_const y 0
  | some q => exact h q i

theorem hasDerivAt_entryTotal {n : Nat → ℝ} {r : ℝ → Offset → Nat → ℝ} {δ : Offset → Nat → ℝ}
    {y : ℝ} (h : ∀ o i, HasDerivAt (fun y => r y o i) (δ o i) y) (es : List (StencilEntry ℝ)) :
    HasDerivAt (fun y => entryTotal n (r y) es) (entryTotal n δ es) y :=
  hasDerivAt_sum fun e _ => ((h e.offset e.column).const_mul e.value).const_mul (n e.row)

end Paths

/-- Along states that differ in one concentration, the rates of change at a point have derivatives:
temperatures stay, and with them the heat gain and the coefficients of transport. -/
theorem Sound.hasDerivAt_pointFlux (h : x.Sound) (hx : x.LooksUp s p rates st)
    {path : ℝ → GridState ℝ} {stencils : ℝ → Stencil ℝ} {k : Nat}
    (hpath : ∀ y, x.LooksUp (path y) p rates (stencils y))
    (hvalues : ∀ y, (path y).values = s.values.setIfInBounds k y) (hk : k < s.values.size)
    (htemperature : ∀ t ∈ x.pattern.temperature?, ∀ q, q * x.dofs + t ≠ k) :
    let δ := fun q i => (Pi.single k 1 : Nat → ℝ) (q * x.dofs + i)
    ∃ f : ℝ → Array ℝ, (∀ y, x.pointFlux (path y) p = .ok (f y) ∧ (f y).size = x.dofs) ∧
      ∀ row < x.dofs, HasDerivAt (fun y => (f y).getD row 0)
          (((x.net.reactions.toList.zip rates.rates.toList).map fun y =>
            reactionSlope (Pi.single row 1) (δ p) st.center y.1 y.2.value).sum +
          entryTotal (Pi.single row 1) ((x.neighbours p).read δ)
            (x.ownEntries rates st (x.temperatureOf (x.neighbours p) s.value)))
          (s.values.getD k 0) := by
  intro δ
  choose f hf hsize hentry using fun y => h.exists_pointFlux (hpath y)
  refine ⟨f, fun y => ⟨hf y, hsize y⟩, fun row hrow => ?_⟩
  obtain ⟨spec, hb⟩ := h.network
  have hvalue : ∀ q i y, HasDerivAt (fun y => (path y).value q i) (δ q i) y := by
    intro q i y
    have hderiv := hasDerivAt_value
      (fun y => (hpath y).fits.dofs.trans hx.fits.dofs.symm) hvalues hk q i y
    rwa [hx.fits.dofs] at hderiv
  have hfixed : ∀ y, ∀ t ∈ x.pattern.temperature?, ∀ q, (path y).value q t = s.value q t := by
    intro y t ht q
    rw [GridState.value, GridState.value, (hpath y).fits.dofs, hx.fits.dofs, hvalues,
      Array.getD_eq_getD_getElem?, Array.getElem?_setIfInBounds_ne (Ne.symm (htemperature t ht q)),
      Array.getD_eq_getD_getElem?]
  have hframe : ∀ y, (stencils y).SameFrame st :=
    fun y => sameFrame_of_stencil (hpath y).stencil hx.stencil
  have hflux : (fun y => (f y).getD row 0) = fun y =>
      ((x.net.reactions.toList.zip rates.rates.toList).map fun z =>
        reactionFlux (Pi.single row 1) (stencils y).center z.1 z.2.value).sum +
      entryTotal (Pi.single row 1) ((x.neighbours p).read (path y).value)
        (x.ownEntries rates st (x.temperatureOf (x.neighbours p) s.value)) +
      x.heatGain st (x.neighbours p) s.value row := by
    funext y
    rw [hentry y row hrow, temperatureOf_congr (hfixed y), ownEntries_congr (hframe y),
      h.heatGain_congr (hframe y) (hfixed y)]
  -- The path passes through `s`, so the product rule may be read at the center of `st`.
  have hcenter : (stencils (s.values.getD k 0)).center = st.center := by
    have hfits := (hpath (s.values.getD k 0)).fits
    have hsame : (path (s.values.getD k 0)).point p = s.point p :=
      GridState.point_congr (hfits.shape.trans hx.fits.shape.symm)
        (hfits.dofs.trans hx.fits.dofs.symm) ((hvalues _).trans (setIfInBounds_getD_self _ _))
    obtain ⟨hpoint, -⟩ := stencil_eq_ok (hpath (s.values.getD k 0)).stencil
    obtain ⟨hpoint', -⟩ := stencil_eq_ok hx.stencil
    exact Except.ok.inj (hpoint.symm.trans (hsame.trans hpoint'))
  have hreactions : HasDerivAt (fun y =>
      ((x.net.reactions.toList.zip rates.rates.toList).map fun z =>
        reactionFlux (Pi.single row 1) (stencils y).center z.1 z.2.value).sum)
      ((x.net.reactions.toList.zip rates.rates.toList).map fun z =>
        reactionSlope (Pi.single row 1) (δ p) st.center z.1 z.2.value).sum (s.values.getD k 0) := by
    rw [← hcenter]
    refine hasDerivAt_sum_reactionFlux hb (fun c hc => ?_) _ _
    have hread : (fun y => (stencils y).center.getD c 0) = fun y => (path y).value p c :=
      funext fun y => GridState.getD_point (stencil_eq_ok (hpath y).stencil).1
        ((hc.trans_le h.size_le).trans_eq (hpath y).fits.dofs.symm)
    rw [hread]
    exact hvalue p c _
  have htransport : HasDerivAt (fun y =>
      entryTotal (Pi.single row 1) ((x.neighbours p).read (path y).value)
        (x.ownEntries rates st (x.temperatureOf (x.neighbours p) s.value)))
      (entryTotal (Pi.single row 1) ((x.neighbours p).read δ)
        (x.ownEntries rates st (x.temperatureOf (x.neighbours p) s.value)))
      (s.values.getD k 0) :=
    hasDerivAt_entryTotal (hasDerivAt_read fun q i => hvalue q i _) _
  rw [hflux]
  exact (hreactions.add htransport).add_const _

/-- Summed by place, the derivatives listed at a point of any simulation that was built are the
partial derivatives of the rates of change there with respect to the concentrations of all points.
Rates and temperatures are held fixed; a place that is not listed adds up to zero. -/
theorem jacobian_hasDerivAt {spec : NetworkSpec ℝ} {net : Network ℝ} {grid : DepthGrid ℝ}
    {config : SimulationConfig ℝ} {start : Simulation ℝ}
    (hnet : (Network.build spec).value = .ok net)
    (hstart : (build net grid config).value = .ok start) (calls : List (Call ℝ)) :
    let x := start.performAll calls
    ∀ s : GridState ℝ, s.shape = x.shape → s.dofs = x.dofs → ∀ p < x.shape.points,
      ∃ ts, x.jacobian s p = .ok ts ∧
        ∀ row < x.dofs, ∀ q < x.shape.points, ∀ i < net.size, ∃ f : ℝ → Array ℝ,
          (∀ y, ∃ s', s.set q i y = .ok s' ∧ x.flux s' p = .ok (f y) ∧ (f y).size = x.dofs) ∧
          HasDerivAt (fun y => (f y).getD row 0)
            (totalAt ts (p * x.dofs + row) (q * x.dofs + i)) (s.value q i) := by
  intro x s hshape hdofs p hp
  obtain ⟨hbuilt, hstart', -⟩ := sound_of_build hnet hstart
  obtain ⟨h, hcalls, -⟩ := hbuilt.performAll calls
  have hnet' : x.net = net := hcalls.trans hstart'
  have hs : x.Fits s := ⟨hshape, hdofs⟩
  have hlt : ∀ i < net.size, i < x.dofs := fun i hi => hi.trans_le (hnet' ▸ h.size_le)
  -- In the vacuum nothing is listed, and the rates of change are zero along every path.
  cases hvacuum : x.isVacuum p with
  | true =>
    refine ⟨[], jacobian_of_isVacuum hs hp hvacuum, fun row hrow q hq i hi => ?_⟩
    refine ⟨fun _ => Array.replicate x.dofs 0, fun y => ?_, hasDerivAt_const _ _⟩
    obtain ⟨s', hset, hfits, -⟩ := hs.exists_set hq (hlt i hi) y
    exact ⟨s', hset, (flux_eq hfits).trans (pointFlux_of_isVacuum hfits hp hvacuum),
      Array.size_replicate⟩
  | false =>
    obtain ⟨rates, hlook⟩ := h.exists_looksUp hp hvacuum
    obtain ⟨st, hx⟩ := hlook s hs
    obtain ⟨ts, hts, htotal⟩ := h.exists_jacobian hx
    refine ⟨ts, hts, fun row hrow q hq i hi => ?_⟩
    have hplace := h.place_ne (hnet'.symm ▸ hi) q
    choose path hset hfits hvalues using hs.exists_set hq (hlt i hi)
    choose stencils hpath using fun y => hlook (path y) (hfits y)
    obtain ⟨f, hf, hderiv⟩ :=
      h.hasDerivAt_pointFlux hx hpath hvalues (hs.lt_size_values hq (hlt i hi)) hplace
    refine ⟨f, fun y => ⟨path y, hset y, (flux_eq (hfits y)).trans (hf y).1, (hf y).2⟩, ?_⟩
    rw [htotal row hrow _ hplace, GridState.value, hdofs]
    exact hderiv row hrow

/-- Xenon up to two on three nodes, with the surface moved to the middle one: the monomer there. -/
theorem jacobian_hasDerivAt_xenon :
    ∃ net start, (Network.build (NetworkSpec.xenon 2 : NetworkSpec ℝ)).value = .ok net ∧
      (build net ⟨#[0, 1, 3], 1, 1, 1⟩ SimulationConfig.standard).value = .ok start ∧
      let x := start.performAll [.setSurface 0 0 1]
      ∃ ts, ∃ f : ℝ → Array ℝ, x.jacobian (GridState.zeros x.shape x.dofs) 1 = .ok ts ∧
        (∀ y, ∃ s', (GridState.zeros x.shape x.dofs).set 1 0 y = .ok s' ∧
          x.flux s' 1 = .ok (f y)) ∧
        HasDerivAt (fun y => (f y).getD 0 0) (totalAt ts (1 * x.dofs + 0) (1 * x.dofs + 0)) 0 := by
  obtain ⟨net, hnet, hsize⟩ := Network.exists_build_xenon
  obtain ⟨start, hstart⟩ := exists_build_standard (Network.builtFrom_of_build hnet)
  refine ⟨net, start, hnet, hstart, ?_⟩
  intro x
  obtain ⟨hbuilt, hnet', hgrid, hconfig⟩ := sound_of_build hnet hstart
  obtain ⟨h, hcalls, hgrid', hconfig'⟩ := hbuilt.performAll [.setSurface 0 0 1]
  have hpoints : 1 < x.shape.points := by
    rw [shape, hgrid', hgrid, hconfig', hconfig]
    decide
  have hdofs : 0 < x.dofs := by
    have hle := h.size_le
    rw [hcalls, hnet', hsize] at hle
    exact Nat.zero_lt_of_lt hle
  obtain ⟨ts, hts, hderiv⟩ := jacobian_hasDerivAt hnet hstart [.setSurface 0 0 1]
    (GridState.zeros x.shape x.dofs) rfl rfl 1 hpoints
  obtain ⟨f, hf, hd⟩ := hderiv 0 hdofs 1 hpoints 0 (by omega)
  refine ⟨ts, f, hts, fun y => ?_, ?_⟩
  · obtain ⟨s', hset, hflux, -⟩ := hf y
    exact ⟨s', hset, hflux⟩
  · rwa [GridState.value_zeros] at hd

end ClusterDynamics.Simulation
