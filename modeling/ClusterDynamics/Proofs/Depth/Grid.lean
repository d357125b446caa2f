import ClusterDynamics.Depth.Surface
import ClusterDynamics.Proofs.OutOfRange
import ClusterDynamics.Proofs.Real

/-! Grids that can be made, and surfaces on them. The nodes of a grid lie one below the other, so its
spacings are positive; a surface lies on a node of the grid wherever it is moved. -/

namespace ClusterDynamics

section Nodes

variable {K : Type} [Scalar K]

theorem firstDescent_eq_none_iff {i : Nat} {nodes : List K} :
    firstDescent i nodes = none ↔ nodes.IsChain (· < ·) := by
  induction nodes generalizing i with
  | nil => simp [firstDescent]
  | cons a rest ih =>
    cases rest with
    | nil => simp [firstDescent]
    | cons b rest =>
      rw [firstDescent, List.isChain_cons_cons]
      by_cases hab : a < b
      · rw [if_pos hab, ih]
        simp [hab]
      · simp [hab]

theorem DepthGrid.ofNodes_eq_ok {nodes : List K} {dimension : Nat} {hy hz : K} {g : DepthGrid K}
    (h : ofNodes nodes dimension hy hz = .ok g) :
    g.nodes = nodes.toArray ∧ minNodes ≤ g.size ∧ nodes.IsChain (· < ·) := by
  by_cases hsize : nodes.length < minNodes
  · simp [ofNodes, hsize] at h
  · by_cases hdimension : dimension < 1 ∨ 3 < dimension
    · simp only [ofNodes, hsize, hdimension, if_true, if_false, throw_eq_error, error_bind] at h
      cases h
    · cases hdescent : firstDescent 0 nodes with
      | some node =>
        simp only [ofNodes, hsize, hdimension, hdescent, if_false, throw_eq_error, error_bind] at h
        cases h
      | none =>
        simp only [ofNodes, hsize, hdimension, hdescent, if_false, throw_eq_error, error_bind] at h
        split_ifs at h
        obtain rfl := Except.ok.inj h
        exact ⟨rfl, Nat.not_lt.mp hsize, firstDescent_eq_none_iff.mp hdescent⟩

/-- Two nodes next to each other have one spacing between them. -/
theorem DepthGrid.spacingAbove_succ {g : DepthGrid K} {i : Nat} (h : i + 1 < g.size) :
    g.spacingAbove (i + 1) = g.spacingBelow i := by
  have hlast : ¬g.size - 1 ≤ i := by omega
  rw [spacingAbove, spacingBelow, if_neg (Nat.succ_ne_zero i), if_neg hlast, Nat.add_sub_cancel]

end Nodes

namespace DepthGrid

variable {g : DepthGrid ℝ} {nodes : List ℝ} {dimension : Nat} {hy hz : ℝ}

theorem ofNodes_three : ofNodes [(0 : ℝ), 1, 3] 1 1 1 = .ok ⟨#[0, 1, 3], 1, 1, 1⟩ := by
  norm_num [ofNodes, minNodes, firstDescent, pure, Except.pure]

theorem ofNodes_plane : ofNodes [(0 : ℝ), 1, 3] 2 1 1 = .ok ⟨#[0, 1, 3], 2, 1, 1⟩ := by
  norm_num [ofNodes, minNodes, firstDescent, Scalar.isPositive_real, pure, Except.pure]

theorem node_lt_node (h : ofNodes nodes dimension hy hz = .ok g) {i : Nat}
    (hi : i + 1 < g.size) : g.node i < g.node (i + 1) := by
  obtain ⟨hnodes, -, hchain⟩ := ofNodes_eq_ok h
  rw [size, hnodes, List.size_toArray] at hi
  have hstep := List.isChain_iff_getElem.mp hchain i hi
  have hi' : i < nodes.length := by omega
  simpa [node, hnodes, hi, hi'] using hstep

theorem spacingAbove_pos (h : ofNodes nodes dimension hy hz = .ok g) {i : Nat}
    (hi : i < g.size) : 0 < g.spacingAbove i := by
  obtain ⟨-, hsize, -⟩ := ofNodes_eq_ok h
  unfold spacingAbove
  by_cases hzero : i = 0
  · rw [if_pos hzero]
    exact sub_pos.mpr (node_lt_node h (by unfold minNodes at hsize; omega))
  · rw [if_neg hzero]
    have hstep := node_lt_node (i := i - 1) h (by omega)
    rw [Nat.sub_add_cancel (by omega)] at hstep
    exact sub_pos.mpr hstep

theorem spacingBelow_pos (h : ofNodes nodes dimension hy hz = .ok g) (i : Nat) :
    0 < g.spacingBelow i := by
  obtain ⟨-, hsize, -⟩ := ofNodes_eq_ok h
  unfold minNodes at hsize
  unfold spacingBelow
  by_cases hlast : g.size - 1 ≤ i
  · have hstep := node_lt_node (i := g.size - 1 - 1) h (by omega)
    rw [Nat.sub_add_cancel (by omega)] at hstep
    simpa [hlast] using hstep
  · have hstep := node_lt_node (i := i) h (by omega)
    simpa [hlast] using hstep

theorem transverseFactors_nonneg (g : DepthGrid ℝ) :
    0 ≤ g.transverseFactors.1 ∧ 0 ≤ g.transverseFactors.2 := by
  have hfactor : ∀ (c : Prop) [Decidable c] (x : ℝ), 0 ≤ if c then 1 / (x * x) else 0 := by
    intro c _ x
    split_ifs
    · exact one_div_nonneg.mpr (mul_self_nonneg x)
    · exact le_rfl
  rw [transverseFactors, Scalar.natLit_zero_real, Scalar.natLit_one_real]
  exact ⟨hfactor (2 ≤ g.dimension) _, hfactor (3 ≤ g.dimension) _⟩

end DepthGrid

namespace SurfaceMap

/-- A surface of `ny * nz` columns, each at one of `nodes` nodes. -/
structure Spans (m : SurfaceMap) (nodes ny nz : Nat) : Prop where
  ny_eq : m.ny = ny
  nz_eq : m.nz = nz
  nodes_eq : m.nodes = nodes
  size_positions : m.positions.size = ny * nz
  lt_nodes : ∀ node ∈ m.positions, node < nodes

variable {K : Type} {m m' : SurfaceMap} {n ny nz initial j k node : Nat}

theorem spans_of_flat {g : DepthGrid K} (h : flat ny nz initial g = .ok m) :
    m.Spans g.size ny nz := by
  by_cases hcolumns : ny = 0 ∨ nz = 0
  · simp [flat, hcolumns] at h
  · by_cases hinitial : g.size ≤ initial
    · simp [flat, hcolumns, hinitial] at h
    · rw [flat, if_neg hcolumns, if_neg hinitial] at h
      obtain ⟨columns, -, h⟩ := bind_eq_ok_iff.mp h
      obtain ⟨⟨⟩, -, h⟩ := bind_eq_ok_iff.mp h
      obtain rfl := Except.ok.inj h
      refine ⟨rfl, rfl, rfl, Array.size_replicate, fun node hnode => ?_⟩
      obtain ⟨-, rfl⟩ := Array.mem_replicate.mp hnode
      exact Nat.not_le.mp hinitial

theorem columns_pos_of_flat {g : DepthGrid K} (h : flat ny nz initial g = .ok m) :
    0 < ny ∧ 0 < nz := by
  by_cases hcolumns : ny = 0 ∨ nz = 0
  · simp [flat, hcolumns] at h
  · rw [not_or] at hcolumns
    exact ⟨Nat.pos_of_ne_zero hcolumns.1, Nat.pos_of_ne_zero hcolumns.2⟩

theorem Spans.move (hm : m.Spans n ny nz) (h : (m.move j k node : Except (GridError K) _) = .ok m') :
    m'.Spans n ny nz := by
  unfold SurfaceMap.move at h
  split_ifs at h with hnode hcolumn
  obtain rfl := Except.ok.inj h
  refine { hm with size_positions := ?_, lt_nodes := fun node' hnode' => ?_ }
  · rw [Array.size_setIfInBounds]
    exact hm.size_positions
  · rcases Array.mem_or_eq_of_mem_setIfInBounds hnode' with hmem | rfl
    · exact hm.lt_nodes node' hmem
    · rw [← hm.nodes_eq]
      exact Nat.not_le.mp hnode

theorem Spans.node_lt (hm : m.Spans n ny nz) (hj : j < ny) (hk : k < nz) :
    k * m.ny + j < m.positions.size ∧ m.node j k < n := by
  have hplace : k * m.ny + j < m.positions.size := by
    rw [hm.size_positions, hm.ny_eq]
    calc k * ny + j < k * ny + ny := Nat.add_lt_add_left hj _
      _ = (k + 1) * ny := (Nat.succ_mul k ny).symm
      _ ≤ nz * ny := Nat.mul_le_mul_right ny hk
      _ = ny * nz := Nat.mul_comm nz ny
  refine ⟨hplace, ?_⟩
  rw [SurfaceMap.node, Array.getD_eq_getD_getElem?, Array.getElem?_eq_getElem hplace,
    Option.getD_some]
  exact hm.lt_nodes _ (Array.getElem_mem hplace)

/-- A column of the surface can be moved to any node, and the others stay where they are. -/
theorem Spans.exists_move (hm : m.Spans n ny nz) (hj : j < ny) (hk : k < nz) (hnode : node < n) :
    ∃ m', (m.move j k node : Except (GridError K) _) = .ok m' ∧ m'.node j k = node ∧
      ∀ j' < ny, ∀ k', (j', k') ≠ (j, k) → m'.node j' k' = m.node j' k' := by
  obtain ⟨hplace, -⟩ := hm.node_lt hj hk
  refine ⟨{ m with positions := m.positions.setIfInBounds (k * m.ny + j) node }, ?_, ?_, ?_⟩
  · rw [SurfaceMap.move, if_neg (by rw [hm.nodes_eq]; omega), hm.ny_eq, hm.nz_eq, if_pos ⟨hj, hk⟩]
  · simp [SurfaceMap.node, Array.getD_eq_getD_getElem?, hplace]
  · intro j' hj' k' hne
    have hother : k * m.ny + j ≠ k' * m.ny + j' := by
      intro hsame
      rw [hm.ny_eq] at hsame
      have hrow : k = k' := by
        have hdiv := congrArg (· / ny) hsame
        simpa [Nat.mul_comm _ ny, Nat.mul_add_div (Nat.zero_lt_of_lt hj), Nat.div_eq_of_lt hj,
          Nat.div_eq_of_lt hj'] using hdiv
      subst hrow
      exact hne (Prod.ext (Nat.add_left_cancel hsame).symm rfl)
    simp [SurfaceMap.node, Array.getD_eq_getD_getElem?, hother]

end SurfaceMap

end ClusterDynamics
