import ClusterDynamics.Proofs.Depth.Reads
import ClusterDynamics.Proofs.Real

/-! What a stencil reads. All that transport asks of a stencil is told by the values at the
neighbours, by point and degree of freedom. -/

namespace ClusterDynamics

namespace GridState

variable {s : GridState ℝ} {q i : Nat}

/-- The value of a degree of freedom at a point. -/
def value (s : GridState ℝ) (q i : Nat) : ℝ := s.values.getD (q * s.dofs + i) 0

theorem value_zeros (shape : GridShape) (dofs q i : Nat) :
    (zeros shape dofs : GridState ℝ).value q i = 0 := by
  rw [value, zeros, Array.getD_eq_getD_getElem?, Array.getElem?_replicate]
  split_ifs <;> simp

theorem value_tabulate {shape : GridShape} {dofs : Nat} {f : Nat → Nat → ℝ}
    (hq : q < shape.points) (hi : i < dofs) : (tabulate shape dofs f).value q i = f q i := by
  have hget := getElem?_tabulate (f := f) hq hi
  rw [value, Array.getD_eq_getD_getElem?]
  exact congrArg (Option.getD · 0) hget

theorem getElem?_point {values : Array ℝ} (h : s.point q = .ok values) (hi : i < s.dofs) :
    values[i]? = some (s.value q i) := by
  have hend : q * s.dofs + s.dofs ≤ s.values.size := by
    unfold point at h
    split_ifs at h with hsize
    exact hsize
  have hi' : q * s.dofs + i < s.values.size := by omega
  rw [getElem?_of_point h hi, value, Array.getD_eq_getD_getElem?,
    Array.getElem?_eq_getElem hi', Option.getD_some]

theorem entryAt_point {values : Array ℝ} (h : s.point q = .ok values) (hi : i < s.dofs) :
    entryAt values i = .ok (s.value q i) :=
  entryAt_eq_ok_iff.mpr (getElem?_point h hi)

theorem getD_point {values : Array ℝ} (h : s.point q = .ok values) (hi : i < s.dofs) :
    values.getD i 0 = s.value q i := by
  rw [Array.getD_eq_getD_getElem?, getElem?_point h hi, Option.getD_some]

end GridState

/-- What is read at a stencil's point: the value at the neighbour, or zero where there is none. -/
def Neighbours.read (nb : Neighbours) (v : Nat → Nat → ℝ) (o : Offset) (i : Nat) : ℝ :=
  (nb.resolve o).elim 0 fun q => v q i

namespace Stencil

/-- A stencil shows, of the first `n` degrees of freedom, the values `v` at the neighbours. -/
structure Shows (st : Stencil ℝ) (nb : Neighbours) (v : Nat → Nat → ℝ) (n : Nat) : Prop where
  center : ∀ i < n, st.centerValue i = .ok (nb.read v .center i)
  left : st.left = none ∧ nb.left = none ∨ ∃ values q, st.left = some values ∧
    nb.left = some q ∧ ∀ i < n, entryAt values i = .ok (v q i)
  right : ∀ i < n, st.rightValue i = .ok (nb.read v .right i)
  axes : st.transverse.length = nb.transverse.length
  transverse : ∀ k, ∀ i < n, st.transverseValues k i =
    .ok (((nb.transverse.zip st.factorList).take k).map fun x => (v x.1.1 i, v x.1.2 i, x.2))

namespace Shows

variable {st : Stencil ℝ} {nb : Neighbours} {v : Nat → Nat → ℝ} {n i : Nat}

theorem leftValue (h : st.Shows nb v n) (hi : i < n) :
    st.leftValue i = .ok (nb.read v .left i) := by
  rcases h.left with ⟨hst, hnb⟩ | ⟨values, q, hst, hnb, hvalues⟩
  · rw [Stencil.leftValue, hst, Neighbours.read, Neighbours.resolve, hnb, Scalar.natLit_zero_real]
    rfl
  · rw [Stencil.leftValue, hst, Neighbours.read, Neighbours.resolve, hnb]
    exact hvalues i hi

theorem isSome_left (h : st.Shows nb v n) : st.left.isSome = nb.left.isSome := by
  rcases h.left with ⟨hst, hnb⟩ | ⟨values, q, hst, hnb, -⟩ <;> rw [hst, hnb] <;> rfl

theorem read_left_eq_zero (h : st.Shows nb v n) (hleft : st.left.isSome = false) (i : Nat) :
    nb.read v .left i = 0 := by
  rw [h.isSome_left, Option.isSome_eq_false_iff, Option.isNone_iff_eq_none] at hleft
  rw [Neighbours.read, Neighbours.resolve, hleft]
  rfl

theorem mapM_left (h : st.Shows nb v n) (hi : i < n) :
    (st.left.mapM fun values => entryAt values i) = .ok (nb.left.map fun q => v q i) := by
  rcases h.left with ⟨hst, hnb⟩ | ⟨values, q, hst, hnb, hvalues⟩
  · rw [hst, hnb]
    rfl
  · rw [hst, hnb, Option.mapM_some, hvalues i hi]
    rfl

end Shows

/-- Two stencils that differ in their values alone. -/
structure SameFrame (st st' : Stencil ℝ) : Prop where
  left : st.left.isSome = st'.left.isSome
  axes : st.transverse.length = st'.transverse.length
  above : st.above = st'.above
  below : st.below = st'.below
  factors : st.factors = st'.factors
  depth : st.depth = st'.depth

/-- The stencil whose values are those of a state at the neighbours shows them. -/
theorem shows_of_points {s : GridState ℝ} {nb : Neighbours} {st : Stencil ℝ}
    (hcenter : s.point nb.center = .ok st.center)
    (hleft : nb.left.mapM s.point = .ok st.left) (hright : s.point nb.right = .ok st.right)
    (htransverse : (nb.transverse.mapM fun x => do
      return (← s.point x.1, ← s.point x.2)) = .ok st.transverse) :
    st.Shows nb s.value s.dofs := by
  have hpairs := mapM_eq_ok_iff.mp htransverse
  constructor
  · exact fun i hi => GridState.entryAt_point hcenter hi
  · cases hnb : nb.left with
    | none =>
      rw [hnb] at hleft
      exact .inl ⟨(Except.ok.inj hleft).symm, rfl⟩
    | some q =>
      rw [hnb, Option.mapM_some] at hleft
      cases hq : s.point q with
      | error e =>
        rw [hq] at hleft
        cases hleft
      | ok values =>
        rw [hq] at hleft
        exact .inr ⟨values, q, (Except.ok.inj hleft).symm, rfl,
          fun i hi => GridState.entryAt_point hq hi⟩
  · exact fun i hi => GridState.entryAt_point hright hi
  · exact hpairs.length_eq.symm
  · intro k i hi
    rw [transverseValues, mapM_eq_ok_iff]
    clear hcenter hleft hright htransverse
    generalize st.factorList = factors
    generalize nb.transverse = pairs, st.transverse = values at hpairs
    -- Along the pairs, with one factor less and one axis less at each step.
    induction hpairs generalizing factors k with
    | nil => simp
    | @cons x pair _ _ hpair _ ih =>
      obtain ⟨minus, hminus, hpair⟩ := bind_eq_ok_iff.mp hpair
      obtain ⟨plus, hplus, hpair⟩ := bind_eq_ok_iff.mp hpair
      obtain rfl := Except.ok.inj hpair
      cases factors with
      | nil => simp
      | cons factor factors =>
        cases k with
        | zero => simp
        | succ k =>
          refine .cons ?_ (ih k factors)
          simp only [GridState.entryAt_point hminus hi, GridState.entryAt_point hplus hi, ok_bind]
          rfl

end Stencil

end ClusterDynamics
