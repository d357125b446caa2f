import ClusterDynamics.Proofs.Depth.Replacement
import ClusterDynamics.Proofs.Heat.Slopes

/-! The listed derivatives of the heat equation against those of what it adds. Along depth they are
the derivatives. Across, the one in the temperature of the node itself takes the diffusivity for a
constant, which misses a term where the temperatures across have a second difference. -/

namespace ClusterDynamics.HeatEquation

variable {h : HeatEquation ℝ} {st : Stencil ℝ}

/-- The temperatures along depth in a stencil, and its spacings. -/
noncomputable def pointIn (h : HeatEquation ℝ) (st : Stencil ℝ) : HeatPoint ℝ :=
  { center := st.valueAt .center h.dof, left := st.left.map (·.getD h.dof 0)
    right := st.valueAt .right h.dof, above := st.above, below := st.below }

/-- The temperatures of the transverse pairs in use, each pair with its factor. -/
noncomputable def pairsIn (h : HeatEquation ℝ) (st : Stencil ℝ) : List (ℝ × ℝ × ℝ) :=
  st.acrossAt (h.dimension - 1) h.dof

noncomputable def localIn (h : HeatEquation ℝ) (st : Stencil ℝ) : LocalConductivity ℝ :=
  h.localAt st.depth (st.valueAt .center h.dof)

/-- What is added at a stencil. -/
noncomputable def rateIn (h : HeatEquation ℝ) (st : Stencil ℝ) : ℝ :=
  h.depthRate st.depth (h.pointIn st) +
    h.acrossRate st.depth (st.valueAt .center h.dof) (h.pairsIn st)

/-- The number `d` is the derivative of what is added, in the temperature at one of the stencil's
points. -/
inductive HasSlope (h : HeatEquation ℝ) (st : Stencil ℝ) (o : Offset) (d : ℝ) : Prop
  | intro (rate : ℝ → ℝ)
    (hrate : ∀ t out, h.addFlux (st.replaceAt o h.dof t) out = .ok (out + rate t))
    (hderiv : HasDerivAt rate d (st.valueAt o h.dof))

section Stencils

variable (hst : st.Wide (h.dof + 1)) (hready : h.stage = .evaluating) (hflux : h.flux ≠ 0)

include hst

theorem pointOf_eq_pointIn : h.pointOf st = .ok (h.pointIn st) := by
  have hdof := Nat.lt_succ_self h.dof
  rw [pointOf, hst.centerValue_eq hdof, hst.rightValue_eq hdof, ok_bind, ok_bind,
    hst.mapM_left_eq hdof]
  rfl

include hready hflux

theorem addFlux_eq_rateIn (out : ℝ) : h.addFlux st out = .ok (out + h.rateIn st) :=
  addFlux_of_reads hready (isZeroFlux_of_ne hflux) (pointOf_eq_pointIn hst)
    (hst.transverseValues_eq (Nat.lt_succ_self h.dof) _) out

theorem hasSlope_of_hasDerivAt {o : Offset} {d : ℝ}
    (hd : HasDerivAt (fun t => h.rateIn (st.replaceAt o h.dof t)) d (st.valueAt o h.dof)) :
    h.HasSlope st o d :=
  ⟨_, fun t out => addFlux_eq_rateIn (hst.replaceAt o h.dof t) hready hflux out, hd⟩

/-- The listed derivatives, by the temperatures that are read. -/
theorem partials_eq : h.partials st = .ok (some
    [(.center, (depthPartials h.flux (h.localIn st) (h.pointIn st)).1 -
        2 * (h.localIn st).diffusivity * ((h.pairsIn st).map (·.2.2)).sum),
     (.left, (depthPartials h.flux (h.localIn st) (h.pointIn st)).2.1),
     (.right, (depthPartials h.flux (h.localIn st) (h.pointIn st)).2.2),
     (.minus 0, (h.localIn st).diffusivity * factorOf (h.pairsIn st) 0),
     (.plus 0, (h.localIn st).diffusivity * factorOf (h.pairsIn st) 0),
     (.minus 1, (h.localIn st).diffusivity * factorOf (h.pairsIn st) 1),
     (.plus 1, (h.localIn st).diffusivity * factorOf (h.pairsIn st) 1)]) := by
  have hfactors := st.map_acrossAt (h.dimension - 1) h.dof
  have hfold : ∀ (m c : ℝ) (factors : List ℝ),
      factors.foldl (fun out factor => out - 2 * m * factor) c = c - 2 * m * factors.sum := by
    intro m c factors
    induction factors generalizing c with
    | nil => simp
    | cons factor factors ih =>
      rw [List.foldl_cons, ih, List.sum_cons]
      ring
  have hfactor : ∀ axis, factorOf (h.pairsIn st) axis =
      (((h.pairsIn st).map (·.2.2))[axis]?).getD 0 := by
    intro axis
    rw [List.getElem?_map, factorOf]
    cases (h.pairsIn st)[axis]? <;> rfl
  unfold partials
  rw [checkReady_eq hready, ok_bind, isZeroFlux_of_ne hflux, pointOf_eq_pointIn hst, ← hfactors]
  simp only [Scalar.natLit_ofNat_real, Scalar.natLit_zero_real, hfactor, ← hfold]
  change Except.ok (some [_, _, _, _, _, _, _]) = _
  unfold pairsIn
  cases ((st.acrossAt (h.dimension - 1) h.dof).map (·.2.2))[0]? <;>
    cases ((st.acrossAt (h.dimension - 1) h.dof).map (·.2.2))[1]? <;>
    simp [localIn, pointIn]

/-- In the temperature of the node itself, the rate varies along depth and across. -/
theorem hasSlope_center (habove : 0 < st.above) (hbelow : 0 < st.below)
    (hcenter : 0 < st.valueAt .center h.dof)
    (hk : h.conductivity st.depth (st.valueAt .center h.dof) ≠ 0) :
    h.HasSlope st .center ((depthPartials h.flux (h.localIn st) (h.pointIn st)).1 +
      (h.parameters.coefficient *
          (h.alpha st.depth * h.betaSlope (st.valueAt .center h.dof)) *
          transverseDifference (st.valueAt .center h.dof) (h.pairsIn st) -
        2 * (h.localIn st).diffusivity * ((h.pairsIn st).map (·.2.2)).sum)) := by
  have hvalue : ∀ t, (st.replaceAt .center h.dof t).valueAt .center h.dof = t :=
    Stencil.getD_setIfInBounds_self (Nat.lt_of_succ_le hst.center)
  have hpoint : ∀ t, h.pointIn (st.replaceAt .center h.dof t) =
      { h.pointIn st with center := t } := by
    intro t
    rw [pointIn, hvalue]
    rfl
  refine hasSlope_of_hasDerivAt hst hready hflux ?_
  have hdepth := h.hasDerivAt_depthRate_center (x := h.pointIn st) habove hbelow hcenter hk
  refine (hdepth.add (h.hasDerivAt_acrossRate hcenter)).congr_of_eventuallyEq
    (.of_forall fun t => ?_)
  simp only [rateIn, hpoint, hvalue, Pi.add_apply]
  rfl

theorem hasSlope_left :
    h.HasSlope st .left (depthPartials h.flux (h.localIn st) (h.pointIn st)).2.1 := by
  refine hasSlope_of_hasDerivAt hst hready hflux ?_
  cases hleft : st.left with
  | none =>
    have hsame : ∀ t, st.replaceAt .left h.dof t = st := by
      intro t
      rw [Stencil.replaceAt, hleft, Option.map_none, ← hleft]
    simp only [hsame, depthPartials, pointIn, hleft, Option.map_none, Scalar.natLit_zero_real]
    exact hasDerivAt_const _ _
  | some values =>
    have hpoint : ∀ t, h.pointIn (st.replaceAt .left h.dof t) =
        { h.pointIn st with left := some t } := by
      intro t
      simp only [pointIn, Stencil.replaceAt, hleft, Option.map_some,
        Stencil.getD_setIfInBounds_self (Nat.lt_of_succ_le (hst.left values hleft))]
      rfl
    have hread : (h.pointIn st).left = some (st.valueAt .left h.dof) := by
      simp [pointIn, Stencil.valueAt, Stencil.valuesAt, hleft]
    have hdepth : HasDerivAt (fun t => h.depthRate st.depth { h.pointIn st with left := some t })
        _ _ := h.hasDerivAt_depthRate_left hread
    refine (hdepth.add_const (h.acrossRate st.depth (st.valueAt .center h.dof)
      (h.pairsIn st))).congr_of_eventuallyEq (.of_forall fun t => ?_)
    simp only [rateIn, hpoint]
    rfl

theorem hasSlope_right (habove : 0 < st.above) (hbelow : 0 < st.below) :
    h.HasSlope st .right (depthPartials h.flux (h.localIn st) (h.pointIn st)).2.2 := by
  have hpoint : ∀ t, h.pointIn (st.replaceAt .right h.dof t) =
      { h.pointIn st with right := t } := by
    intro t
    have hvalue : (st.replaceAt .right h.dof t).valueAt .right h.dof = t :=
      Stencil.getD_setIfInBounds_self (Nat.lt_of_succ_le hst.right) t
    rw [pointIn, hvalue]
    rfl
  refine hasSlope_of_hasDerivAt hst hready hflux ?_
  have hdepth : HasDerivAt (fun t => h.depthRate st.depth { h.pointIn st with right := t })
      _ _ := h.hasDerivAt_depthRate_right (x := h.pointIn st) habove hbelow
  refine (hdepth.add_const (h.acrossRate st.depth (st.valueAt .center h.dof)
    (h.pairsIn st))).congr_of_eventuallyEq (.of_forall fun t => ?_)
  simp only [rateIn, hpoint]
  rfl

/-- The temperatures of a pair enter through its second difference alone. -/
theorem hasSlope_of_pairsIn {o : Offset} {axis : Nat} {g : ℝ → ℝ × ℝ × ℝ → ℝ × ℝ × ℝ}
    (hg : ∀ y t, HasDerivAt (fun t => (g t y).2.2 * ((g t y).1 + (g t y).2.1 -
      2 * st.valueAt .center h.dof)) y.2.2 t)
    (hpoint : ∀ t, h.pointIn (st.replaceAt o h.dof t) = h.pointIn st)
    (hpairs : ∀ t, h.pairsIn (st.replaceAt o h.dof t) = (h.pairsIn st).modify axis (g t)) :
    h.HasSlope st o ((h.localIn st).diffusivity * factorOf (h.pairsIn st) axis) := by
  have hvalue : ∀ t, (st.replaceAt o h.dof t).valueAt .center h.dof = st.valueAt .center h.dof :=
    fun t => congrArg HeatPoint.center (hpoint t)
  refine hasSlope_of_hasDerivAt hst hready hflux ?_
  refine (((hasDerivAt_transverseDifference (fun y => hg y _) (h.pairsIn st) axis).const_mul
    (h.localIn st).diffusivity).const_add
      (h.depthRate st.depth (h.pointIn st))).congr_of_eventuallyEq (.of_forall fun t => ?_)
  simp only [rateIn, hpoint, hpairs, hvalue, Stencil.depth_replaceAt]
  rfl

theorem hasSlope_minus (axis : Nat) : h.HasSlope st (.minus axis)
    ((h.localIn st).diffusivity * factorOf (h.pairsIn st) axis) := by
  refine hasSlope_of_pairsIn hst hready hflux (g := fun t y => (t, y.2)) (fun y t => ?_)
    (fun _ => rfl)
    fun t => Stencil.acrossAt_replaceAt_minus hst (Nat.lt_succ_self h.dof) axis _ t
  exact ((((hasDerivAt_id t).add_const y.2.1).sub_const (2 * st.valueAt .center h.dof)).const_mul
    y.2.2).congr_deriv (mul_one _)

theorem hasSlope_plus (axis : Nat) : h.HasSlope st (.plus axis)
    ((h.localIn st).diffusivity * factorOf (h.pairsIn st) axis) := by
  refine hasSlope_of_pairsIn hst hready hflux (g := fun t y => (y.1, t, y.2.2)) (fun y t => ?_)
    (fun _ => rfl)
    fun t => Stencil.acrossAt_replaceAt_plus hst (Nat.lt_succ_self h.dof) axis _ t
  exact ((((hasDerivAt_id t).const_add y.1).sub_const (2 * st.valueAt .center h.dof)).const_mul
    y.2.2).congr_deriv (mul_one _)

theorem partials_alongDepth_eq : h.partials st.alongDepth = .ok (some
    [(.center, (depthPartials h.flux (h.localIn st) (h.pointIn st)).1),
     (.left, (depthPartials h.flux (h.localIn st) (h.pointIn st)).2.1),
     (.right, (depthPartials h.flux (h.localIn st) (h.pointIn st)).2.2),
     (.minus 0, 0), (.plus 0, 0), (.minus 1, 0), (.plus 1, 0)]) := by
  have hpairs : h.pairsIn st.alongDepth = [] := by
    simp [pairsIn, Stencil.acrossAt, Stencil.alongDepth]
  rw [partials_eq hst.alongDepth hready hflux, hpairs]
  simp only [factorOf, List.map_nil, List.sum_nil, List.getElem?_nil, Option.elim_none, mul_zero,
    sub_zero]
  rfl

/-- At any temperature of the node itself, the transverse pairs add the rate across. -/
theorem addFlux_replaceAt_center (t out : ℝ) : ∃ along,
    h.addFlux (st.alongDepth.replaceAt .center h.dof t) out = .ok along ∧
    h.addFlux (st.replaceAt .center h.dof t) out =
      .ok (along + h.acrossRate st.depth t (h.pairsIn st)) := by
  have hnone : h.pairsIn (st.alongDepth.replaceAt .center h.dof t) = [] := by
    simp [pairsIn, Stencil.acrossAt, Stencil.alongDepth, Stencil.replaceAt]
  have hvalue : (st.replaceAt .center h.dof t).valueAt .center h.dof = t :=
    Stencil.getD_setIfInBounds_self (Nat.lt_of_succ_le hst.center) t
  have hdepth : h.pointIn (st.alongDepth.replaceAt .center h.dof t) =
      h.pointIn (st.replaceAt .center h.dof t) := rfl
  refine ⟨_, addFlux_eq_rateIn (hst.alongDepth.replaceAt .center h.dof t) hready hflux out, ?_⟩
  rw [addFlux_eq_rateIn (hst.replaceAt .center h.dof t) hready hflux, add_assoc]
  simp only [rateIn, hnone, hdepth, hvalue, Stencil.depth_replaceAt]
  simp only [acrossRate, transverseDifference, Scalar.sum_real, List.map_nil, List.sum_nil,
    mul_zero, add_zero]
  rfl

end Stencils

/-- A plane whose diffusivity at the surface is `0.6 (1 + ln T)`. -/
noncomputable def logPlane : HeatEquation ℝ :=
  { ofFlux 1 1 2 with stage := .evaluating, parameters := ⟨1e9, ⟨0, 1, 1⟩⟩ }

/-- A node of temperature one, as are those above and below it, between two of temperature `t`. -/
noncomputable def nodeBetween (t : ℝ) : Stencil ℝ :=
  { center := #[1], left := some #[1], right := #[1], transverse := [(#[t], #[t])]
    above := 1, below := 1, factors := (1, 0), depth := 0 }

theorem wide_nodeBetween (t : ℝ) : (nodeBetween t).Wide 1 := by
  constructor <;> simp [nodeBetween]

theorem valueAt_nodeBetween (t : ℝ) : (nodeBetween t).valueAt .center logPlane.dof = 1 := rfl

theorem alpha_logPlane : logPlane.alpha 0 = 3 / 5 := by
  have hexp : (Scalar.exp (0 - 0) : ℝ) = 1 := by
    rw [sub_zero]
    exact Real.exp_zero
  simp only [alpha, logPlane, ofFlux, Scalar.natLit_zero_real, Scalar.natLit_one_real, hexp]
  norm_num

theorem beta_logPlane : logPlane.beta 1 = 1e-9 := by
  have hlog : (Scalar.log 1 : ℝ) = 0 := Real.log_one
  simp [beta, logPlane, hlog]

theorem betaSlope_logPlane : logPlane.betaSlope 1 = 1e-9 := by
  simp [betaSlope, logPlane]

theorem pairsIn_nodeBetween (t : ℝ) : logPlane.pairsIn (nodeBetween t) = [(t, t, 1)] := by
  simp [pairsIn, Stencil.acrossAt, Stencil.factorList, nodeBetween, logPlane, ofFlux]

/-- Without transverse pairs, the listed derivatives along depth are those of what is added, at the
surface and below it. -/
theorem partials_along_depth (hst : st.Wide (h.dof + 1)) (hready : h.stage = .evaluating)
    (hflux : h.flux ≠ 0) (hnone : st.transverse = []) (habove : 0 < st.above)
    (hbelow : 0 < st.below) (hcenter : 0 < st.valueAt .center h.dof)
    (hk : h.conductivity st.depth (st.valueAt .center h.dof) ≠ 0) :
    ∃ center left right,
      h.partials st = .ok (some [(.center, center), (.left, left), (.right, right),
        (.minus 0, 0), (.plus 0, 0), (.minus 1, 0), (.plus 1, 0)]) ∧
      h.HasSlope st .center center ∧ h.HasSlope st .left left ∧ h.HasSlope st .right right ∧
      (st.left = none → left = 0) := by
  have hpairs : h.pairsIn st = [] := by simp [pairsIn, Stencil.acrossAt, hnone]
  refine ⟨(depthPartials h.flux (h.localIn st) (h.pointIn st)).1, _, _, ?_, ?_,
    hasSlope_left hst hready hflux, hasSlope_right hst hready hflux habove hbelow,
    fun hleft => ?_⟩
  · rw [partials_eq hst hready hflux, hpairs]
    simp [factorOf]
  · simpa [hpairs, transverseDifference] using
      hasSlope_center hst hready hflux habove hbelow hcenter hk
  · simp [depthPartials, pointIn, hleft]

theorem partials_along_depth_logPlane : ∃ center left right,
    logPlane.partials (nodeBetween 2).alongDepth = .ok (some [(.center, center), (.left, left),
      (.right, right), (.minus 0, 0), (.plus 0, 0), (.minus 1, 0), (.plus 1, 0)]) ∧
    logPlane.HasSlope (nodeBetween 2).alongDepth .center center ∧
    logPlane.HasSlope (nodeBetween 2).alongDepth .left left ∧
    logPlane.HasSlope (nodeBetween 2).alongDepth .right right ∧
    ((nodeBetween 2).alongDepth.left = none → left = 0) := by
  refine partials_along_depth (wide_nodeBetween 2).alongDepth rfl ?_ rfl ?_ ?_ ?_ ?_
  · simp [logPlane, ofFlux]
  · simp [nodeBetween, Stencil.alongDepth]
  · simp [nodeBetween, Stencil.alongDepth]
  · exact zero_lt_one.trans_eq (valueAt_nodeBetween 2).symm
  · change logPlane.conductivity 0 ((nodeBetween 2).valueAt .center logPlane.dof) ≠ 0
    rw [valueAt_nodeBetween, conductivity]
    rw [alpha_logPlane, beta_logPlane]
    norm_num

/-- The listed derivatives across are those of what is added. In the temperature of the node itself
the transverse pairs' part of the list takes the diffusivity for a constant: the derivative of what
the pairs add has one term more, the slope of the diffusivity times the second differences. -/
theorem partials_across (hst : st.Wide (h.dof + 1)) (hready : h.stage = .evaluating)
    (hflux : h.flux ≠ 0) (hcenter : 0 < st.valueAt .center h.dof) :
    ∃ center left right alone minus plus minus' plus',
      h.partials st.alongDepth = .ok (some [(.center, alone), (.left, left), (.right, right),
        (.minus 0, 0), (.plus 0, 0), (.minus 1, 0), (.plus 1, 0)]) ∧
      h.partials st = .ok (some [(.center, center), (.left, left), (.right, right),
        (.minus 0, minus), (.plus 0, plus), (.minus 1, minus'), (.plus 1, plus')]) ∧
      h.HasSlope st (.minus 0) minus ∧ h.HasSlope st (.plus 0) plus ∧
      h.HasSlope st (.minus 1) minus' ∧ h.HasSlope st (.plus 1) plus' ∧
      ∃ added : ℝ → ℝ,
        (∀ t out, ∃ along,
          h.addFlux (st.alongDepth.replaceAt .center h.dof t) out = .ok along ∧
          h.addFlux (st.replaceAt .center h.dof t) out = .ok (along + added t)) ∧
        HasDerivAt added (center - alone + h.parameters.coefficient *
          (h.alpha st.depth * h.betaSlope (st.valueAt .center h.dof)) *
          transverseDifference (st.valueAt .center h.dof) (h.pairsIn st))
          (st.valueAt .center h.dof) := by
  refine ⟨_, _, _, _, _, _, _, _, partials_alongDepth_eq hst hready hflux,
    partials_eq hst hready hflux, hasSlope_minus hst hready hflux 0,
    hasSlope_plus hst hready hflux 0, hasSlope_minus hst hready hflux 1,
    hasSlope_plus hst hready hflux 1, _, addFlux_replaceAt_center hst hready hflux, ?_⟩
  refine (h.hasDerivAt_acrossRate hcenter).congr_deriv ?_
  rw [localIn]
  ring

theorem partials_across_logPlane : ∃ minus plus,
    (∃ entries, logPlane.partials (nodeBetween 2) = .ok (some entries) ∧
      (.minus 0, minus) ∈ entries ∧ (.plus 0, plus) ∈ entries) ∧
    logPlane.HasSlope (nodeBetween 2) (.minus 0) minus ∧
    logPlane.HasSlope (nodeBetween 2) (.plus 0) plus := by
  have hflux : logPlane.flux ≠ 0 := by simp [logPlane, ofFlux]
  have hcenter : 0 < (nodeBetween 2).valueAt .center logPlane.dof :=
    zero_lt_one.trans_eq (valueAt_nodeBetween 2).symm
  obtain ⟨center, left, right, alone, minus, plus, minus', plus', -, hpartials, hminus, hplus, -⟩ :=
    partials_across (wide_nodeBetween 2) rfl hflux hcenter
  exact ⟨minus, plus, ⟨_, hpartials, by simp, by simp⟩, hminus, hplus⟩

/-- At one node of the plane, what the transverse pairs add does not vary with the temperature of
the node itself, while they change the listed derivative. -/
theorem partials_across_short : ∃ center left right alone minus plus minus' plus',
    logPlane.partials (nodeBetween 2).alongDepth = .ok (some [(.center, alone), (.left, left),
      (.right, right), (.minus 0, 0), (.plus 0, 0), (.minus 1, 0), (.plus 1, 0)]) ∧
    logPlane.partials (nodeBetween 2) = .ok (some [(.center, center), (.left, left),
      (.right, right), (.minus 0, minus), (.plus 0, plus), (.minus 1, minus'), (.plus 1, plus')]) ∧
    center - alone = -6 / 5 ∧
    ∃ added : ℝ → ℝ,
      (∀ t out, ∃ along,
        logPlane.addFlux ((nodeBetween 2).alongDepth.replaceAt .center logPlane.dof t) out =
          .ok along ∧
        logPlane.addFlux ((nodeBetween 2).replaceAt .center logPlane.dof t) out =
          .ok (along + added t)) ∧
      HasDerivAt added 0 ((nodeBetween 2).valueAt .center logPlane.dof) := by
  have hflux : logPlane.flux ≠ 0 := by simp [logPlane, ofFlux]
  have hm : (logPlane.localIn (nodeBetween 2)).diffusivity = 3 / 5 := by
    change 1e9 * (logPlane.alpha 0 * logPlane.beta 1) = (3 / 5 : ℝ)
    rw [alpha_logPlane, beta_logPlane]
    norm_num
  refine ⟨_, _, _, _, _, _, _, _, partials_alongDepth_eq (wide_nodeBetween 2) rfl hflux,
    partials_eq (wide_nodeBetween 2) rfl hflux, ?_, _,
    addFlux_replaceAt_center (wide_nodeBetween 2) rfl hflux, ?_⟩
  · rw [pairsIn_nodeBetween, hm]
    norm_num
  · have hcenter : 0 < (nodeBetween 2).valueAt .center logPlane.dof :=
      zero_lt_one.trans_eq (valueAt_nodeBetween 2).symm
    refine (logPlane.hasDerivAt_acrossRate hcenter).congr_deriv ?_
    change _ - 2 * (logPlane.localIn (nodeBetween 2)).diffusivity * _ = _
    rw [hm, pairsIn_nodeBetween, valueAt_nodeBetween]
    change 1e9 * (logPlane.alpha 0 * logPlane.betaSlope 1) * _ - _ = _
    rw [alpha_logPlane, betaSlope_logPlane]
    simp only [transverseDifference, Scalar.sum_real, Scalar.natLit_ofNat_real]
    norm_num

end ClusterDynamics.HeatEquation
