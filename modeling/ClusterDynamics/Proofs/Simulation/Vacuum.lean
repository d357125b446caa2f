import ClusterDynamics.Proofs.Simulation.Outflow
import ClusterDynamics.Proofs.Transport.Across

/-! What the vacuum has to do with the material. Nothing changes in the vacuum, and along depth
nothing is read from it; a point of the material reads it only across, where the column beside its
own has its surface further down. -/

namespace ClusterDynamics.Simulation

section Evaluation

variable {K : Type} [Scalar K] {x : Simulation K} {s s' : GridState K} {p q i : Nat}
  {st st' : Stencil K}

/-- Two states with the same values of a degree of freedom wherever a neighbour across from a point
is vacuum. -/
def AgreeAcross (x : Simulation K) (s s' : GridState K) (p i : Nat) : Prop :=
  ∀ y ∈ (x.neighbours p).transverse, ∀ q, q = y.1 ∨ q = y.2 → x.isVacuum q = true →
    s.values[q * x.dofs + i]? = s'.values[q * x.dofs + i]?

/-- Two states that diffusion cannot tell apart from a point that sees vacuum across. -/
def DiffuseAlike (x : Simulation K) (s s' : GridState K) (p : Nat) : Prop :=
  ∀ d ∈ x.diffusion, ∀ i ∈ d.diffusing, x.AgreeAcross s s' p i

/-- The same of the heat equation, which without flux reads nothing. -/
def HeatAlike (x : Simulation K) (s s' : GridState K) (p : Nat) : Prop :=
  ∀ y ∈ x.heat, y.isZeroFlux = true ∨ x.AgreeAcross s s' p y.dof

omit [Scalar K] in
/-- What is above a point of the material is material, if there is anything. -/
theorem isVacuum_of_left (hp : p < x.shape.points) (h : (x.neighbours p).left = some q) :
    x.isVacuum q = false := by
  obtain ⟨hsurface, hcolumn⟩ := GridShape.coords_left hp h
  have hsame : x.surfaceAt q = x.surfaceAt p := by
    rw [surfaceAt, hcolumn]
    rfl
  rw [isVacuum, hsame, nodeOf, hcolumn, decide_eq_false_iff_not]
  omega

omit [Scalar K] in
/-- What is below a point of the material is material. -/
theorem isVacuum_of_right (hp : p < x.shape.points) (hvacuum : x.isVacuum p = false) :
    x.isVacuum (x.neighbours p).right = false := by
  obtain ⟨hx, -, -⟩ := GridShape.coords_lt hp
  have hcolumn : x.shape.coords (x.neighbours p).right = _ := GridShape.coords_right hp _
  have hsame : x.surfaceAt (x.neighbours p).right = x.surfaceAt p := by
    rw [surfaceAt, hcolumn]
    rfl
  rw [isVacuum, nodeOf, decide_eq_false_iff_not] at hvacuum
  rw [isVacuum, hsame, nodeOf, hcolumn, decide_eq_false_iff_not]
  omega

omit [Scalar K] in
theorem entryAt_of_agree (hs : x.Fits s) (hs' : x.Fits s') (hi : i < x.dofs)
    (hmaterial : x.isVacuum q = false → s.point q = s'.point q)
    (hvacuum : x.isVacuum q = true →
      s.values[q * x.dofs + i]? = s'.values[q * x.dofs + i]?)
    {values values' : Array K} (h : s.point q = .ok values) (h' : s'.point q = .ok values') :
    entryAt values i = entryAt values' i := by
  cases hq : x.isVacuum q with
  | false =>
    rw [hmaterial hq, h'] at h
    rw [Except.ok.inj h]
  | true =>
    have hget := GridState.getElem?_of_point h (hs.dofs.symm ▸ hi)
    have hget' := GridState.getElem?_of_point h' (hs'.dofs.symm ▸ hi)
    rw [hs.dofs, hvacuum hq, ← hs'.dofs, ← hget'] at hget
    have hsize : i < values'.size := by
      rw [GridState.size_point h', hs'.dofs]
      exact hi
    obtain ⟨a, ha⟩ := exists_entryAt_iff.mpr hsize
    rw [ha, entryAt_eq_ok_iff, hget]
    exact entryAt_eq_ok_iff.mp ha

/-- In the material the stencils of two states that agree there differ across alone, and not in a
degree of freedom that agrees on the vacuum across. -/
theorem stencil_of_agree (hs : x.Fits s) (hs' : x.Fits s') (hp : p < x.shape.points)
    (hvacuum : x.isVacuum p = false) (hagree : x.AgreeOnMaterial s s')
    (h : x.stencil s p = .ok st) (h' : x.stencil s' p = .ok st') :
    st = { st' with transverse := st.transverse } ∧
      st.transverse.length = st'.transverse.length ∧
      ∀ i < x.dofs, x.AgreeAcross s s' p i → Alike i st.transverse st'.transverse := by
  obtain ⟨hcenter, hleft, hright, htransverse, habove, hbelow, hfactors, hdepth⟩ :=
    stencil_eq_ok h
  obtain ⟨hcenter', hleft', hright', htransverse', habove', hbelow', hfactors', hdepth'⟩ :=
    stencil_eq_ok h'
  refine ⟨?_, (frame_of_stencil h).2.trans (frame_of_stencil h').2.symm, fun i hi hacross => ?_⟩
  · rw [hagree p hp hvacuum, hcenter'] at hcenter
    have hbelowPoint : (x.neighbours p).right < x.shape.points :=
      GridShape.resolve_lt (o := .right) hp rfl
    rw [hagree _ hbelowPoint (isVacuum_of_right hp hvacuum), hright'] at hright
    have habovePoint : (x.neighbours p).left.mapM s.point =
        (x.neighbours p).left.mapM s'.point := by
      cases hq : (x.neighbours p).left with
      | none => rfl
      | some q =>
        have hlt : q < x.shape.points := GridShape.resolve_lt (o := .left) hp hq
        rw [Option.mapM_some, Option.mapM_some, hagree q hlt (isVacuum_of_left hp hq)]
    rw [habovePoint, hleft'] at hleft
    rcases st with ⟨center, left, right, transverse, above, below, factors, depth⟩
    simp only at hcenter hleft hright habove hbelow hfactors hdepth
    rw [← Except.ok.inj hcenter, ← Except.ok.inj hleft, ← Except.ok.inj hright, habove, hbelow,
      hfactors, hdepth, ← habove', ← hbelow', ← hfactors', ← hdepth']
  · refine forall₂_of_forall₂ (mapM_eq_ok_iff.mp htransverse) (mapM_eq_ok_iff.mp htransverse') ?_
    intro y hy z z' hz hz'
    obtain ⟨hminusPoint, hplusPoint⟩ := GridShape.transverse_lt hp hy
    obtain ⟨minus, hminus, hz⟩ := bind_eq_ok_iff.mp hz
    obtain ⟨plus, hplus, hz⟩ := bind_eq_ok_iff.mp hz
    obtain ⟨minus', hminus', hz'⟩ := bind_eq_ok_iff.mp hz'
    obtain ⟨plus', hplus', hz'⟩ := bind_eq_ok_iff.mp hz'
    obtain rfl := Except.ok.inj hz
    obtain rfl := Except.ok.inj hz'
    exact ⟨entryAt_of_agree hs hs' hi (hagree _ hminusPoint) (hacross y hy _ (.inl rfl))
        hminus hminus',
      entryAt_of_agree hs hs' hi (hagree _ hplusPoint) (hacross y hy _ (.inr rfl)) hplus hplus'⟩

namespace Sound

variable {rates : PointRates K} {pairs : List (Array K × Array K)}

theorem flux_of_agree (h : x.Sound) (hs : x.Fits s) (hs' : x.Fits s') (hp : p < x.shape.points)
    (hvacuum : x.isVacuum p = false) (hagree : x.AgreeOnMaterial s s')
    (hdiffuse : x.DiffuseAlike s s' p) (hheat : x.HeatAlike s s' p) :
    x.flux s p = x.flux s' p := by
  obtain ⟨rates, hlook⟩ := h.exists_looksUp hp hvacuum
  obtain ⟨st, hx⟩ := hlook s hs
  obtain ⟨st', hx'⟩ := hlook s' hs'
  obtain ⟨hst, -, halike⟩ := stencil_of_agree hs hs' hp hvacuum hagree hx.stencil hx'.stencil
  have hdiffusion : ∀ out, x.addDiffusion rates st out = x.addDiffusion rates st' out := by
    intro out
    unfold addDiffusion
    cases hd : x.diffusion with
    | none => rfl
    | some d =>
      have hids : ∀ i ∈ d.diffusing, Alike i st.transverse st'.transverse := fun i hi =>
        halike i ((h.lt_size_of_mem_diffusion hd i hi).trans_le h.size_le) (hdiffuse d hd i hi)
      rw [hst]
      exact congrArg (Except.mapError EvalError.outOfRange) (Diffusion.addFlux_of_alike hids out)
  have hdrift : ∀ out, x.addDrift rates st out = x.addDrift rates st' out := by
    rw [hst]
    exact fun _ => rfl
  have hheats : ∀ out, x.addHeat st out = x.addHeat st' out := by
    intro out
    unfold addHeat
    cases hy : x.heat with
    | none => rfl
    | some y =>
      have ht := h.hasTemperature_of_heat hy
      have hdof : y.dof < x.dofs := (h.heat y hy).2.trans_lt (h.size_lt ht)
      have hvalues : y.isZeroFlux = true ∨ Alike y.dof st.transverse st'.transverse :=
        (hheat y hy).imp_right (halike y.dof hdof)
      rw [h.temperature?_eq ht, hst]
      dsimp only
      rw [HeatEquation.addFlux_of_alike hvalues]
  have hcenter : st.center = st'.center := by rw [hst]
  rw [flux_eq hs, flux_eq hs', pointFlux, pointFlux, hx.fluxInto_eq, hx'.fluxInto_eq]
  simp only [hcenter, hdiffusion, hdrift, hheats]

theorem jacobian_of_agree (h : x.Sound) (hs : x.Fits s) (hs' : x.Fits s')
    (hp : p < x.shape.points) (hvacuum : x.isVacuum p = false) (hagree : x.AgreeOnMaterial s s')
    (hdiffuse : x.heat = none ∨ x.DiffuseAlike s s' p) : x.jacobian s p = x.jacobian s' p := by
  obtain ⟨rates, hlook⟩ := h.exists_looksUp hp hvacuum
  obtain ⟨st, hx⟩ := hlook s hs
  obtain ⟨st', hx'⟩ := hlook s' hs'
  obtain ⟨hst, hlength, halike⟩ :=
    stencil_of_agree hs hs' hp hvacuum hagree hx.stencil hx'.stencil
  have hdiffusion : x.diffusionEntries rates st = x.diffusionEntries rates st' := by
    unfold diffusionEntries
    cases hd : x.diffusion with
    | none => rfl
    | some d =>
      have hvalues : d.temperature = none ∨
          ∀ i ∈ d.diffusing, Alike i st.transverse st'.transverse := by
        rcases hdiffuse with hnone | hdiffuse
        · have ht : x.pattern.hasTemperature = false := by rw [h.temperature, hnone]; rfl
          left
          rw [h.diffusion d hd, Diffusion.ofNetwork, FillPattern.temperature?, ht]
          rfl
        · exact .inr fun i hi => halike i ((h.lt_size_of_mem_diffusion hd i hi).trans_le h.size_le)
            (hdiffuse d hd i hi)
      rw [hst]
      exact congrArg (Except.mapError EvalError.outOfRange)
        (Diffusion.partials_of_alike hlength hvalues)
  have hdrift : x.driftEntries rates st = x.driftEntries rates st' := by
    rw [hst]
    rfl
  have hheat : x.heatEntries st = x.heatEntries st' := by
    unfold heatEntries
    rw [hst]
    simp only [HeatEquation.partials_of_length hlength]
  have hcenter : st.center = st'.center := by rw [hst]
  rw [hx.jacobian_eq, hx'.jacobian_eq]
  simp only [stencilEntries, hcenter, hdiffusion, hdrift, hheat]

end Sound

end Evaluation

section Step

/-- Two columns with the surface of the second one node below that of the first. Point 3, the top of
the second column, is vacuum, and it lies across from point 0 on both sides. -/
structure Stepped (net : Network ℝ) (x : Simulation ℝ) : Prop where
  sound : x.Sound
  net_eq : x.net = net
  shape_eq : x.shape = ⟨3, 2, 1⟩
  factor : x.stencilFactors.1 = 1
  surface : x.surface.node 0 0 = 0
  vacuum : x.isVacuum 3 = true
  drift : x.drift = none
  heat : x.heat = none
  diffusion : x.diffusion = some (.ofNetwork net x.pattern.temperature?)

theorem stepped_of_setSurface {spec : NetworkSpec ℝ} {net : Network ℝ} {start : Simulation ℝ}
    (hnet : (Network.build spec).value = .ok net)
    (hstart : (build net ⟨#[0, 1, 3], 2, 1, 1⟩
      { SimulationConfig.standard with ny := 2 }).value = .ok start) :
    Stepped net (start.performAll [.setSurface 0 0 0, .setSurface 1 0 1]) := by
  obtain ⟨h, hsame, hgrid, hconfig⟩ :=
    sound_after_calls hnet hstart [.setSurface 0 0 0, .setSurface 1 0 1]
  obtain ⟨surface, hx, hshape, hfirst, hsecond⟩ :=
    plane_of_setSurface hnet hstart (a := 0) (b := 1) (by decide) (by decide)
  have hdiffusion := (builtFrom_of_build hstart).diffusion
  generalize start.performAll [.setSurface 0 0 0, .setSurface 1 0 1] = x at *
  have hshape' : x.shape = ⟨3, 2, 1⟩ := by
    rw [hx]
    exact hshape
  constructor
  · exact h
  · exact hsame
  · exact hshape'
  · rw [stencilFactors, hgrid, hconfig]
    simp [SimulationConfig.standard, DepthGrid.transverseFactors]
  · rw [hx]
    exact hfirst
  · have hcoords : x.shape.coords 3 = (0, 1, 0) := by
      rw [hshape']
      rfl
    have hsurface : x.surface.node 1 0 = 1 := by
      rw [hx]
      exact hsecond
    rw [isVacuum_eq_of_coords hcoords, hsurface]
    rfl
  · rw [← Option.not_isSome_iff_eq_none, h.drifting, hconfig]
    decide
  · have hsettings := h.settings
    rw [hconfig] at hsettings
    exact Option.map_eq_none_iff.mp hsettings
  · rw [hx]
    exact hdiffusion

namespace Stepped

variable {net : Network ℝ} {x : Simulation ℝ} {f f' : Nat → Nat → ℝ}

theorem agree (h : Stepped net x) (hf : ∀ q, q ≠ 3 → f q = f' q) :
    x.AgreeOnMaterial (.tabulate x.shape x.dofs f) (.tabulate x.shape x.dofs f') := by
  intro q hq hmaterial
  have hne : q ≠ 3 := by
    rintro rfl
    rw [h.vacuum] at hmaterial
    cases hmaterial
  rw [GridState.point_tabulate hq, GridState.point_tabulate hq, hf q hne]

theorem lt_dofs (h : Stepped net x) {i : Nat} (hi : i ∈ net.table.diffusing) : i < x.dofs :=
  (h.sound.lt_size_of_mem_diffusion h.diffusion i hi).trans_le h.sound.size_le

/-- Along depth point 0 sees itself and point 1, across it sees point 3 twice. -/
theorem differences (h : Stepped net x) (v : Nat → Nat → ℝ) (i : Nat) :
    x.alongAt v i 0 = depthDifference (x.grid.spacingAbove 0) (x.grid.spacingBelow 0) 0 (v 0 i)
      (v 1 i) ∧ x.acrossAt v i 0 = 2 * (v 3 i - v 0 i) := by
  have hx : 0 < x.shape.nx := by rw [h.shape_eq]; decide
  have hy : 0 < x.shape.ny := by rw [h.shape_eq]; decide
  constructor
  · have halong := alongAt_linear (v := v) (i := i) hx hy h.surface
    simpa [h.shape_eq, GridShape.linear] using halong
  · have hacross : x.acrossAt v i (x.shape.linear 0 0 0) = _ := acrossAt_linear hx hy
    norm_num [h.shape_eq, GridShape.linear, h.factor] at hacross
    linarith

theorem exists_flux_getD (h : Stepped net x) {s : GridState ℝ} {rates : PointRates ℝ}
    {st : Stencil ℝ} {i : Nat} (hx : x.LooksUp s 0 rates st) (hi : i ∈ net.table.diffusing) :
    ∃ out, x.flux s 0 = .ok out ∧ out.getD i 0 =
      ((x.net.reactions.toList.zip rates.rates.toList).map fun y =>
        Assembly.reactionFlux (Pi.single i 1) st.center y.1 y.2.value).sum +
      ((rates.diffusion.getD i .zero).value * x.alongAt s.value i 0 +
        (rates.diffusion.getD i .zero).value * x.acrossAt s.value i 0) := by
  obtain ⟨out, hout, -, hentry⟩ := h.sound.exists_pointFlux hx
  let d : Diffusion := .ofNetwork net x.pattern.temperature?
  have htotal : entryTotal _ _ (d.ownEntries rates st) = _ :=
    Diffusion.entryTotal_ownEntries hx.shows net.table.nodup_diffusing hi
  obtain ⟨halong, hacross⟩ := along_eq_alongAt (v := s.value) (i := i) hx.stencil
  refine ⟨out, (flux_eq hx.fits).trans hout, ?_⟩
  rw [hentry i (h.lt_dofs hi), ownEntries, h.diffusion, h.drift, Option.elim_some, Option.elim_none,
    List.append_nil, htotal, halong, hacross, heatGain, h.heat, Option.elim_none, add_zero]

/-- Two states that differ in a mobile cluster at point 3, but not at points 0 and 1, give point 0
different rates of change. -/
theorem flux_ne (h : Stepped net x) {i : Nat} (hi : i ∈ net.table.diffusing)
    (hf : f 0 = f' 0 ∧ f 1 = f' 1) (hne : f 3 i ≠ f' 3 i) :
    x.flux (.tabulate x.shape x.dofs f) 0 ≠ x.flux (.tabulate x.shape x.dofs f') 0 := by
  intro hsame
  have hpoints : x.shape.points = 6 := by
    rw [h.shape_eq]
    rfl
  have hcoords : x.shape.coords 0 = (0, 0, 0) := by
    rw [h.shape_eq]
    rfl
  have hvacuum : x.isVacuum 0 = false := by
    rw [isVacuum_eq_of_coords hcoords, h.surface]
    rfl
  obtain ⟨c, hc, hmobile⟩ := Network.mem_diffusing_iff.mp hi
  rw [← h.net_eq] at hc
  obtain ⟨rates, hlook⟩ := h.sound.exists_looksUp (p := 0) (by omega) hvacuum
  obtain ⟨st, hx⟩ := hlook (.tabulate x.shape x.dofs f) ⟨rfl, rfl⟩
  obtain ⟨st', hx'⟩ := hlook (.tabulate x.shape x.dofs f') ⟨rfl, rfl⟩
  obtain ⟨out, hout, hentry⟩ := h.exists_flux_getD hx hi
  obtain ⟨out', hout', hentry'⟩ := h.exists_flux_getD hx' hi
  obtain rfl : out = out' := Except.ok.inj (hout.symm.trans (hsame.trans hout'))
  have hcenter : st.center = st'.center := by
    have hpoint := (stencil_eq_ok hx.stencil).1
    have hpoint' := (stencil_eq_ok hx'.stencil).1
    rw [GridState.point_tabulate (by omega)] at hpoint hpoint'
    rw [← Except.ok.inj hpoint, ← Except.ok.inj hpoint', hf.1]
  have hvalue : ∀ g, ∀ q < 6, GridState.value (.tabulate x.shape x.dofs g) q i = g q i :=
    fun g q hq => GridState.value_tabulate (by omega) (h.lt_dofs hi)
  have hdiffers : (rates.diffusion.getD i .zero).value * (2 * f 3 i) =
      (rates.diffusion.getD i .zero).value * (2 * f' 3 i) := by
    have htotals := hentry.symm.trans hentry'
    obtain ⟨halong, hacross⟩ := h.differences (GridState.value (.tabulate x.shape x.dofs f)) i
    obtain ⟨halong', hacross'⟩ := h.differences (GridState.value (.tabulate x.shape x.dofs f')) i
    rw [hcenter, halong, halong', hacross, hacross', hvalue f 0 (by decide),
      hvalue f 1 (by decide), hvalue f 3 (by decide), hvalue f' 0 (by decide),
      hvalue f' 1 (by decide), hvalue f' 3 (by decide), hf.1, hf.2] at htotals
    linarith
  have hpositive : 0 < (rates.diffusion.getD i .zero).value := by
    rw [h.sound.diffusion_getD hx.mem_points hc, diffusionCoefficient_value]
    exact mul_pos (Cluster.isMobile_real.mp hmobile) (Real.exp_pos _)
  have htwice := mul_left_cancel₀ hpositive.ne' hdiffers
  exact hne (mul_left_cancel₀ two_ne_zero htwice)

end Stepped

end Step

/-- In vacuum nothing changes. In the material, the rates of change at a point do not depend on what
is in vacuum, but for the values that diffusion and heat read across; of the derivatives, only those
of diffusion with respect to the temperature depend on them. -/
theorem vacuum_inert_after_calls {K : Type} [Scalar K] {spec : NetworkSpec K} {net : Network K}
    {grid : DepthGrid K} {config : SimulationConfig K} {start : Simulation K}
    (hnet : (Network.build spec).value = .ok net)
    (hstart : (build net grid config).value = .ok start) (calls : List (Call K)) :
    let x := start.performAll calls
    (∀ s, x.Fits s → ∀ p < x.shape.points, x.isVacuum p = true →
      x.flux s p = .ok (Array.replicate x.dofs 0) ∧ x.jacobian s p = .ok []) ∧
    ∀ s s', x.Fits s → x.Fits s' → x.AgreeOnMaterial s s' → ∀ p < x.shape.points,
      (x.DiffuseAlike s s' p → x.HeatAlike s s' p → x.flux s p = x.flux s' p) ∧
      (x.heat = none ∨ x.DiffuseAlike s s' p → x.jacobian s p = x.jacobian s' p) := by
  intro x
  obtain ⟨h, -⟩ : x.Sound ∧ _ := sound_after_calls hnet hstart calls
  have hinert : ∀ s, x.Fits s → ∀ p < x.shape.points, x.isVacuum p = true →
      x.flux s p = .ok (Array.replicate x.dofs 0) ∧ x.jacobian s p = .ok [] := by
    intro s hs p hp hvacuum
    rw [flux_eq hs, pointFlux, fluxInto_of_isVacuum hs hp hvacuum, Array.size_replicate]
    exact ⟨rfl, jacobian_of_isVacuum hs hp hvacuum⟩
  refine ⟨hinert, fun s s' hs hs' hagree p hp => ?_⟩
  cases hvacuum : x.isVacuum p with
  | true =>
    obtain ⟨hflux, hjacobian⟩ := hinert s hs p hp hvacuum
    obtain ⟨hflux', hjacobian'⟩ := hinert s' hs' p hp hvacuum
    exact ⟨fun _ _ => hflux.trans hflux'.symm, fun _ => hjacobian.trans hjacobian'.symm⟩
  | false =>
    exact ⟨h.flux_of_agree hs hs' hp hvacuum hagree, h.jacobian_of_agree hs hs' hp hvacuum hagree⟩

/-- Two columns of xenon, the second with its surface one node further down. Pairs of atoms above
that surface do not move, so they change nothing. -/
theorem vacuum_inert_after_calls_xenon :
    ∃ net start, (Network.build (.xenon 2 : NetworkSpec ℝ)).value = .ok net ∧
      (build net ⟨#[0, 1, 3], 2, 1, 1⟩
        { SimulationConfig.standard with ny := 2 }).value = .ok start ∧
      let x := start.performAll [.setSurface 0 0 0, .setSurface 1 0 1]
      ∃ s s', x.Fits s ∧ x.Fits s' ∧ s.value 3 1 = 0 ∧ s'.value 3 1 = 1 ∧
        x.flux s 3 = .ok (Array.replicate x.dofs 0) ∧ x.jacobian s 3 = .ok [] ∧
        x.flux s 0 = x.flux s' 0 ∧ x.jacobian s 0 = x.jacobian s' 0 := by
  obtain ⟨net, hnet, hsize, hdiffusing⟩ := Network.exists_build_xenon_diffusing
  obtain ⟨start, hstart⟩ := exists_build_plane (Network.builtFrom_of_build hnet)
  refine ⟨net, start, hnet, hstart, ?_⟩
  intro x
  have hx : Stepped net x := stepped_of_setSurface hnet hstart
  have hpoints : x.shape.points = 6 := by
    rw [hx.shape_eq]
    rfl
  have hdofs : 2 ≤ x.dofs := by
    have hle := hx.sound.size_le
    rwa [hx.net_eq, hsize] at hle
  let f : Nat → Nat → ℝ := fun q i => if q = 3 ∧ i = 1 then 1 else 0
  let s : GridState ℝ := .tabulate x.shape x.dofs fun _ _ => 0
  let s' : GridState ℝ := .tabulate x.shape x.dofs f
  have hagree : x.AgreeOnMaterial s s' := hx.agree fun q hq => by
    funext i
    exact (if_neg fun h => hq h.1).symm
  have hdiffuse : x.DiffuseAlike s s' 0 := by
    intro d hd i hi y hy q hq hvacuum
    rw [hx.diffusion] at hd
    obtain rfl := Option.some.inj hd
    obtain rfl : i = 0 := (hdiffusing i).mp hi
    have hlt : q < x.shape.points := by
      obtain ⟨hminus, hplus⟩ := GridShape.transverse_lt (hpoints ▸ by decide) hy
      rcases hq with rfl | rfl
      · exact hminus
      · exact hplus
    have hzero : f q 0 = 0 := if_neg fun h => absurd h.2 (by decide)
    rw [GridState.getElem?_tabulate hlt (by omega), GridState.getElem?_tabulate hlt (by omega),
      hzero]
  obtain ⟨hinert, hsame⟩ :=
    vacuum_inert_after_calls hnet hstart [.setSurface 0 0 0, .setSurface 1 0 1]
  obtain ⟨hvacuum, hvacuum'⟩ := hinert s ⟨rfl, rfl⟩ 3 (hpoints ▸ by decide) hx.vacuum
  obtain ⟨hflux, hjacobian⟩ := hsame s s' ⟨rfl, rfl⟩ ⟨rfl, rfl⟩ hagree 0 (hpoints ▸ by decide)
  have hvalue : ∀ g, GridState.value (.tabulate x.shape x.dofs g) 3 1 = g 3 1 := fun g =>
    GridState.value_tabulate (hpoints ▸ by decide) (by omega)
  rw [Scalar.natLit_zero_real] at hvacuum
  refine ⟨s, s', ⟨rfl, rfl⟩, ⟨rfl, rfl⟩, hvalue _, hvalue f, hvacuum, hvacuum',
    hflux hdiffuse fun y hy => ?_, hjacobian (.inl hx.heat)⟩
  rw [hx.heat] at hy
  cases hy

/-- Single atoms above that surface move, so the first column sees them across. -/
theorem vacuum_not_inert_xenon :
    ∃ net start, (Network.build (.xenon 2 : NetworkSpec ℝ)).value = .ok net ∧
      (build net ⟨#[0, 1, 3], 2, 1, 1⟩
        { SimulationConfig.standard with ny := 2 }).value = .ok start ∧
      let x := start.performAll [.setSurface 0 0 0, .setSurface 1 0 1]
      ∃ s s', x.Fits s ∧ x.Fits s' ∧ x.AgreeOnMaterial s s' ∧ x.flux s 0 ≠ x.flux s' 0 := by
  obtain ⟨net, hnet, -, hdiffusing⟩ := Network.exists_build_xenon_diffusing
  obtain ⟨start, hstart⟩ := exists_build_plane (Network.builtFrom_of_build hnet)
  refine ⟨net, start, hnet, hstart, ?_⟩
  intro x
  have hx : Stepped net x := stepped_of_setSurface hnet hstart
  let f : Nat → Nat → ℝ := fun q _ => if q = 3 then 1 else 0
  refine ⟨.tabulate x.shape x.dofs fun _ _ => 0, .tabulate x.shape x.dofs f, ⟨rfl, rfl⟩,
    ⟨rfl, rfl⟩, hx.agree fun q hq => ?_, hx.flux_ne ((hdiffusing 0).mpr rfl) ?_ ?_⟩
  · funext i
    exact (if_neg hq).symm
  · exact ⟨rfl, rfl⟩
  · simp [f]

end ClusterDynamics.Simulation
