import ClusterDynamics.Proofs.Depth.Neighbours
import ClusterDynamics.Proofs.OutOfRange

/-! What can be read at the points of a state, and at those of a stencil that is wide enough. -/

namespace ClusterDynamics

variable {K : Type}

namespace GridState

variable {s : GridState K} {q i : Nat}

theorem point_end_le (hq : q < s.points) : q * s.dofs + s.dofs ≤ s.values.size := by
  rw [s.size_values, ← Nat.succ_mul]
  exact Nat.mul_le_mul_right _ hq

theorem point_eq (hq : q < s.points) :
    s.point q = .ok (s.values.extract (q * s.dofs) (q * s.dofs + s.dofs)) :=
  if_pos (point_end_le hq)

theorem size_point {values : Array K} (h : s.point q = .ok values) : values.size = s.dofs := by
  unfold point at h
  split_ifs at h with hsize
  obtain rfl := Except.ok.inj h
  rw [Array.size_extract]
  omega

theorem getElem?_of_point {values : Array K} (h : s.point q = .ok values) (hi : i < s.dofs) :
    values[i]? = s.values[q * s.dofs + i]? := by
  unfold point at h
  split_ifs at h with hsize
  obtain rfl := Except.ok.inj h
  rw [Array.getElem?_extract, if_pos (by omega)]

theorem point_congr {s' : GridState K} (hshape : s'.shape = s.shape) (hdofs : s'.dofs = s.dofs)
    (hvalues : s'.values = s.values) : s'.point q = s.point q := by
  rw [point, point, points, points, hshape, hdofs, hvalues]

theorem lt_size_values (hq : q < s.points) (hi : i < s.dofs) :
    q * s.dofs + i < s.values.size := by
  have hend := point_end_le hq
  omega

theorem exists_set (hq : q < s.points) (hi : i < s.dofs) (c : K) : ∃ s', s.set q i c = .ok s' ∧
    s'.shape = s.shape ∧ s'.dofs = s.dofs ∧
      s'.values = s.values.setIfInBounds (q * s.dofs + i) c :=
  ⟨_, (if_pos hi).trans (if_pos (lt_size_values hq hi)), rfl, rfl, rfl⟩

/-- The state with value `f q i` of degree of freedom `i` at point `q`. -/
def tabulate (shape : GridShape) (dofs : Nat) (f : Nat → Nat → K) : GridState K :=
  ⟨shape, dofs, Array.ofFn fun k : Fin (shape.points * dofs) => f (k / dofs) (k % dofs),
    Array.size_ofFn⟩

theorem getElem?_tabulate {shape : GridShape} {dofs : Nat} {f : Nat → Nat → K}
    (hq : q < shape.points) (hi : i < dofs) :
    (tabulate shape dofs f).values[q * dofs + i]? = some (f q i) := by
  have hlt : q * dofs + i < shape.points * dofs :=
    (lt_size_values (s := tabulate shape dofs f) hq hi).trans_eq (tabulate shape dofs f).size_values
  have hpoint : (q * dofs + i) / dofs = q := by
    rw [Nat.mul_comm, Nat.mul_add_div (Nat.zero_lt_of_lt hi), Nat.div_eq_of_lt hi, Nat.add_zero]
  have hdof : (q * dofs + i) % dofs = i := by
    rw [Nat.mul_comm, Nat.mul_add_mod, Nat.mod_eq_of_lt hi]
  simp [tabulate, hlt, hpoint, hdof]

theorem point_tabulate {shape : GridShape} {dofs : Nat} {f : Nat → Nat → K}
    (hq : q < shape.points) :
    (tabulate shape dofs f).point q = .ok (Array.ofFn fun i : Fin dofs => f q i) := by
  have hpoint := point_eq (s := tabulate shape dofs f) hq
  rw [hpoint]
  refine congrArg _ (Array.ext_getElem? fun i => ?_)
  by_cases hi : i < dofs
  · rw [getElem?_of_point hpoint hi, Array.getElem?_ofFn, dif_pos hi]
    exact getElem?_tabulate hq hi
  · have hsize : ((tabulate shape dofs f).values.extract (q * dofs) (q * dofs + dofs)).size =
        dofs := size_point hpoint
    rw [Array.getElem?_ofFn, dif_neg hi]
    exact Array.getElem?_eq_none (hsize.trans_le (Nat.not_lt.mp hi))

end GridState

namespace Stencil

/-- Each point of a stencil has the first `n` degrees of freedom, and at most two transverse axes
are in use. -/
structure Wide (st : Stencil K) (n : Nat) : Prop where
  center : n ≤ st.center.size
  left : ∀ values ∈ st.left, n ≤ values.size
  right : n ≤ st.right.size
  transverse : ∀ x ∈ st.transverse, n ≤ x.1.size ∧ n ≤ x.2.size
  axes : st.transverse.length ≤ 2

namespace Wide

variable {st : Stencil K} {n i : Nat}

theorem exists_center (h : st.Wide n) (hi : i < n) : ∃ a, st.centerValue i = .ok a :=
  exists_entryAt_iff.mpr (hi.trans_le h.center)

theorem exists_right (h : st.Wide n) (hi : i < n) : ∃ a, st.rightValue i = .ok a :=
  exists_entryAt_iff.mpr (hi.trans_le h.right)

theorem exists_left [Scalar K] (h : st.Wide n) (hi : i < n) : ∃ a, st.leftValue i = .ok a := by
  unfold leftValue
  cases hleft : st.left with
  | none => exact ⟨0, rfl⟩
  | some values => exact exists_entryAt_iff.mpr (hi.trans_le (h.left values hleft))

theorem exists_mapM_left (h : st.Wide n) (hi : i < n) :
    ∃ a, (st.left.mapM fun values => entryAt values i) = .ok a := by
  cases hleft : st.left with
  | none => exact ⟨none, rfl⟩
  | some values =>
    obtain ⟨a, ha⟩ := exists_entryAt_iff.mpr (hi.trans_le (h.left values hleft))
    exact ⟨some a, by rw [Option.mapM_some, ha]; rfl⟩

theorem exists_transverse (h : st.Wide n) (hi : i < n) (axes : Nat) :
    ∃ xs, st.transverseValues axes i = .ok xs := by
  rw [transverseValues, exists_mapM_eq_ok_iff]
  rintro ⟨⟨before, behind⟩, factor⟩ hx
  have hmem : (before, behind) ∈ st.transverse := (List.of_mem_zip (List.mem_of_mem_take hx)).1
  obtain ⟨hbefore, hbehind⟩ := h.transverse _ hmem
  obtain ⟨minus, hminus⟩ := exists_entryAt_iff.mpr (hi.trans_le hbefore)
  obtain ⟨plus, hplus⟩ := exists_entryAt_iff.mpr (hi.trans_le hbehind)
  exact ⟨(minus, plus, factor), by simp only [hminus, hplus, ok_bind]; rfl⟩

theorem usedFactors_eq (h : st.Wide n) :
    st.usedFactors = .ok (st.factorList.take st.transverse.length) :=
  if_pos h.axes

end Wide

theorem wide_of_points {s : GridState K} {nb : Neighbours} {st : Stencil K}
    (hcenter : s.point nb.center = .ok st.center)
    (hleft : nb.left.mapM s.point = .ok st.left) (hright : s.point nb.right = .ok st.right)
    (htransverse : (nb.transverse.mapM fun x => do
      return (← s.point x.1, ← s.point x.2)) = .ok st.transverse)
    (haxes : nb.transverse.length ≤ 2) : st.Wide s.dofs := by
  have hpairs := mapM_eq_ok_iff.mp htransverse
  constructor
  · exact (GridState.size_point hcenter).ge
  · intro values hvalues
    cases hnb : nb.left with
    | none =>
      rw [hnb] at hleft
      rw [← Except.ok.inj hleft] at hvalues
      cases hvalues
    | some q =>
      rw [hnb, Option.mapM_some] at hleft
      obtain ⟨values', hpoint, hleft⟩ := bind_eq_ok_iff.mp hleft
      rw [← Except.ok.inj hleft] at hvalues
      obtain rfl := Option.some.inj hvalues
      exact (GridState.size_point hpoint).ge
  · exact (GridState.size_point hright).ge
  · intro x hx
    obtain ⟨y, -, hy⟩ := exists_mem_of_forall₂ hpairs.flip hx
    obtain ⟨minus, hminus, hy⟩ := bind_eq_ok_iff.mp hy
    obtain ⟨plus, hplus, hy⟩ := bind_eq_ok_iff.mp hy
    obtain rfl := Except.ok.inj hy
    exact ⟨(GridState.size_point hminus).ge, (GridState.size_point hplus).ge⟩
  · rwa [← hpairs.length_eq]

end Stencil

end ClusterDynamics
