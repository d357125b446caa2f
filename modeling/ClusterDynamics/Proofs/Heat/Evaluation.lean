import ClusterDynamics.Proofs.Depth.Stencil
import ClusterDynamics.Proofs.Transport.Reads

/-! What the heat equation adds at a node. It reads temperatures alone. -/

namespace ClusterDynamics.HeatEquation

variable {h : HeatEquation ℝ} {st : Stencil ℝ} {nb : Neighbours} {v : Nat → Nat → ℝ} {n : Nat}

/-- The temperatures along depth. -/
noncomputable def pointAt (h : HeatEquation ℝ) (st : Stencil ℝ) (nb : Neighbours)
    (v : Nat → Nat → ℝ) : HeatPoint ℝ :=
  { center := nb.read v .center h.dof, left := nb.left.map fun q => v q h.dof
    right := nb.read v .right h.dof, above := st.above, below := st.below }

/-- What is added to the rate of change of the temperature. -/
noncomputable def gain (h : HeatEquation ℝ) (st : Stencil ℝ) (nb : Neighbours)
    (v : Nat → Nat → ℝ) : ℝ :=
  if h.isZeroFlux then 0
  else
    let x := h.pointAt st nb v
    let l := h.localAt st.depth x.center
    (depthTerms h.flux l x).1 + (depthTerms h.flux l x).2 +
      (((nb.transverse.zip st.factorList).take (h.dimension - 1)).map fun y =>
        l.diffusivity * y.2 * (v y.1.1 h.dof + v y.1.2 h.dof - 2 * x.center)).sum

/-- The rate of change along depth. -/
noncomputable def depthRate (h : HeatEquation ℝ) (depth : ℝ) (x : HeatPoint ℝ) : ℝ :=
  (depthTerms h.flux (h.localAt depth x.center) x).1 +
    (depthTerms h.flux (h.localAt depth x.center) x).2

/-- The rate of change across, by the temperatures of the transverse pairs. -/
noncomputable def acrossRate (h : HeatEquation ℝ) (depth center : ℝ)
    (pairs : List (ℝ × ℝ × ℝ)) : ℝ :=
  (h.localAt depth center).diffusivity * transverseDifference center pairs

theorem isZeroFlux_of_ne (hflux : h.flux ≠ 0) : h.isZeroFlux = false := by
  rw [isZeroFlux, Scalar.natLit_zero_real]
  exact beq_eq_false_iff_ne.mpr hflux

/-- What is added is told by the temperatures that are read. -/
theorem addFlux_of_reads {x : HeatPoint ℝ} {pairs : List (ℝ × ℝ × ℝ)}
    (hready : h.stage = .evaluating) (hflux : h.isZeroFlux = false) (hx : h.pointOf st = .ok x)
    (hpairs : st.transverseValues (h.dimension - 1) h.dof = .ok pairs) (out : ℝ) :
    h.addFlux st out =
      .ok (out + (h.depthRate st.depth x + h.acrossRate st.depth x.center pairs)) := by
  have hsum : ∀ (pairs : List (ℝ × ℝ × ℝ)) (m c out : ℝ),
      pairs.foldl (fun out (minus, plus, factor) => out + m * factor * (minus + plus - 2 * c))
        out = out + m * transverseDifference c pairs := by
    intro pairs m c
    induction pairs with
    | nil => simp [transverseDifference]
    | cons y pairs ih =>
      intro out
      rw [List.foldl_cons, ih]
      simp only [transverseDifference, Scalar.sum_real, Scalar.natLit_ofNat_real, List.map_cons,
        List.sum_cons]
      ring
  unfold addFlux
  rw [checkReady_eq hready, ok_bind, hflux, hx, hpairs]
  refine congrArg Except.ok ?_
  rw [hsum, add_assoc out, add_assoc out]
  rfl

theorem pointOf_eq (hs : st.Shows nb v n) (hdof : h.dof < n) :
    h.pointOf st = .ok (h.pointAt st nb v) := by
  rw [pointOf, hs.center _ hdof, hs.right _ hdof, ok_bind, ok_bind, hs.mapM_left hdof]
  rfl

theorem addFlux_eq (hs : st.Shows nb v n) (hdof : h.dof < n) (hready : h.stage = .evaluating)
    (out : ℝ) : h.addFlux st out = .ok (out + h.gain st nb v) := by
  cases hzero : h.isZeroFlux with
  | true =>
    simp only [addFlux, gain, checkReady_eq hready, ok_bind, hzero, if_true, add_zero]
    rfl
  | false =>
    rw [addFlux_of_reads hready hzero (pointOf_eq hs hdof) (hs.transverse _ _ hdof)]
    simp only [gain, hzero, depthRate, acrossRate, transverseDifference, Scalar.sum_real,
      List.map_map, ← List.sum_map_mul_left, mul_assoc, Scalar.natLit_ofNat_real]
    rfl

/-- Values that agree on all temperatures give the same. -/
theorem gain_congr {st' : Stencil ℝ} {v' : Nat → Nat → ℝ} (hframe : st.SameFrame st')
    (hv : ∀ q, v q h.dof = v' q h.dof) : h.gain st nb v = h.gain st' nb v' := by
  have hread : ∀ o, nb.read v o h.dof = nb.read v' o h.dof := by
    intro o
    simp only [Neighbours.read, hv]
  simp only [gain, pointAt, Stencil.factorList, hread, hv, hframe.above,
    hframe.below, hframe.factors, hframe.depth]

end ClusterDynamics.HeatEquation
