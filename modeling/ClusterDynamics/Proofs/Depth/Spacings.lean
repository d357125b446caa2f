import ClusterDynamics.Proofs.Depth.Grid
import Mathlib.Algebra.Order.SuccPred
import Mathlib.Order.Interval.Set.OrdConnected

/-! Spacings and cell depths of a grid. Two nodes next to each other have one spacing between them,
whichever of the two it is read from, and the spacing beyond either end repeats the one inside. Each
node lies above the position that stands for its cell, and the next node lies below it; so cell
depths increase, and the negative ones are those of the nodes above the surface. -/

namespace ClusterDynamics.DepthGrid

section Reads

variable {K : Type} [Scalar K] {g : DepthGrid K} {i surface : Nat}

/-- `depth`, where each node is looked up. -/
def depth? (g : DepthGrid K) (i surface : Nat) : Except OutOfRange K := do
  return (← entryAt g.nodes i) - (← entryAt g.nodes surface)

/-- `spacingAbove`, where each node is looked up. -/
def spacingAbove? (g : DepthGrid K) (i : Nat) : Except OutOfRange K :=
  if i = 0 then g.depth? 1 0 else g.depth? i (i - 1)

/-- `spacingBelow`, where each node is looked up. -/
def spacingBelow? (g : DepthGrid K) (i : Nat) : Except OutOfRange K :=
  let last := g.size - 1
  if last ≤ i then g.depth? last (last - 1) else g.depth? (i + 1) i

/-- The position that stands for a node's cell: the midpoint to the node below, and the last node's
own position. -/
def cellPosition (g : DepthGrid K) (i : Nat) : K :=
  if i = g.size - 1 then g.node i else 0.5 * (g.node i + g.node (i + 1))

/-- `cellPosition`, where each node is looked up. -/
def cellPosition? (g : DepthGrid K) (i : Nat) : Except OutOfRange K := do
  if i = g.size - 1 then entryAt g.nodes i
  else return 0.5 * ((← entryAt g.nodes i) + (← entryAt g.nodes (i + 1)))

/-- `cellDepths`, where each node is looked up. -/
def cellDepths? (g : DepthGrid K) (surface : Nat) : Except (GridError K) (List K) := do
  if g.size ≤ surface then throw (.surfaceOutOfRange surface g.size)
  let origin ← (entryAt g.nodes surface).mapError .outOfRange
  (List.range g.size).mapM fun i => do
    return (← (g.cellPosition? i).mapError .outOfRange) - origin

theorem entryAt_node (hi : i < g.size) : entryAt g.nodes i = .ok (g.node i) := by
  have hi' : i < g.nodes.size := hi
  simp [entryAt_eq_ok_iff, node, Array.getD_eq_getD_getElem?, hi']

theorem depth?_eq (hi : i < g.size) (hsurface : surface < g.size) :
    g.depth? i surface = .ok (g.depth i surface) := by
  rw [depth?, entryAt_node hi, ok_bind, entryAt_node hsurface]
  rfl

theorem spacingAbove?_eq (hsize : minNodes ≤ g.size) (hi : i < g.size) :
    g.spacingAbove? i = .ok (g.spacingAbove i) := by
  unfold minNodes at hsize
  by_cases hzero : i = 0
  · rw [spacingAbove?, spacingAbove, if_pos hzero, if_pos hzero]
    exact depth?_eq (by omega) (by omega)
  · rw [spacingAbove?, spacingAbove, if_neg hzero, if_neg hzero]
    exact depth?_eq hi (by omega)

theorem spacingBelow?_eq (hsize : minNodes ≤ g.size) (i : Nat) :
    g.spacingBelow? i = .ok (g.spacingBelow i) := by
  unfold minNodes at hsize
  by_cases hlast : g.size - 1 ≤ i
  · rw [spacingBelow?, spacingBelow, if_pos hlast, if_pos hlast]
    exact depth?_eq (by omega) (by omega)
  · rw [spacingBelow?, spacingBelow, if_neg hlast, if_neg hlast]
    exact depth?_eq (by omega) (by omega)

theorem cellPosition?_eq (hi : i < g.size) : g.cellPosition? i = .ok (g.cellPosition i) := by
  by_cases hlast : i = g.size - 1
  · rw [cellPosition?, cellPosition, if_pos hlast, if_pos hlast, entryAt_node hi]
  · rw [cellPosition?, cellPosition, if_neg hlast, if_neg hlast, entryAt_node hi, ok_bind,
      entryAt_node (by omega)]
    rfl

theorem cellDepths_eq (hsurface : surface < g.size) :
    g.cellDepths surface =
      .ok ((List.range g.size).map fun i => g.cellPosition i - g.node surface) := by
  rw [cellDepths, if_neg (Nat.not_le.mpr hsurface)]
  refine congrArg Except.ok (List.map_congr_left fun i _ => ?_)
  rw [cellPosition]
  split_ifs <;> rfl

/-- Cell depths read no node that is not there. -/
theorem cellDepths?_eq (g : DepthGrid K) (surface : Nat) :
    g.cellDepths? surface = g.cellDepths surface := by
  by_cases hsurface : surface < g.size
  · have hread : ∀ i ∈ List.range g.size,
        ((g.cellPosition? i).mapError .outOfRange >>= fun x => pure (x - g.node surface) :
          Except (GridError K) K) = pure (g.cellPosition i - g.node surface) := by
      intro i hi
      rw [cellPosition?_eq (List.mem_range.mp hi)]
      rfl
    rw [cellDepths?, if_neg (Nat.not_le.mpr hsurface), entryAt_node hsurface, cellDepths_eq hsurface]
    exact (mapM_congr hread).trans List.mapM_pure
  · rw [cellDepths?, cellDepths, if_pos (Nat.not_lt.mp hsurface), if_pos (Nat.not_lt.mp hsurface)]
    rfl

end Reads

section Cells

variable {g : DepthGrid ℝ} {nodes : List ℝ} {dimension : Nat} {hy hz : ℝ} {i surface : Nat}

theorem node_strictMonoOn (h : ofNodes nodes dimension hy hz = .ok g) :
    StrictMonoOn g.node (Set.Iio g.size) :=
  strictMonoOn_of_lt_add_one Set.ordConnected_Iio fun _ _ _ hi => node_lt_node h hi

theorem node_le_cellPosition (h : ofNodes nodes dimension hy hz = .ok g) (hi : i < g.size) :
    g.node i ≤ g.cellPosition i := by
  by_cases hlast : i = g.size - 1
  · rw [cellPosition, if_pos hlast]
  · have hstep := node_lt_node h (show i + 1 < g.size by omega)
    rw [cellPosition, if_neg hlast]
    norm_num
    linarith

theorem cellPosition_lt_node (h : ofNodes nodes dimension hy hz = .ok g) (hi : i + 1 < g.size) :
    g.cellPosition i < g.node (i + 1) := by
  have hstep := node_lt_node h hi
  rw [cellPosition, if_neg (by omega)]
  norm_num
  linarith

theorem cellPosition_strictMonoOn (h : ofNodes nodes dimension hy hz = .ok g) :
    StrictMonoOn g.cellPosition (Set.Iio g.size) :=
  strictMonoOn_of_lt_add_one Set.ordConnected_Iio fun _ _ _ hi =>
    (cellPosition_lt_node h hi).trans_le (node_le_cellPosition h hi)

theorem cellPosition_lt_node_iff (h : ofNodes nodes dimension hy hz = .ok g) (hi : i < g.size)
    (hsurface : surface < g.size) : g.cellPosition i < g.node surface ↔ i < surface := by
  have hmono := (node_strictMonoOn h).monotoneOn
  constructor
  · contrapose!
    intro hle
    calc g.node surface ≤ g.node i := hmono hsurface hi hle
      _ ≤ g.cellPosition i := node_le_cellPosition h hi
  · intro habove
    have hnext : i + 1 < g.size := by omega
    calc g.cellPosition i < g.node (i + 1) := cellPosition_lt_node h hnext
      _ ≤ g.node surface := hmono hnext hsurface habove

/-- How the spacings of a grid fit together. -/
structure Spaced (g : DepthGrid ℝ) : Prop where
  above : ∀ i < g.size, g.spacingAbove? i = .ok (g.spacingAbove i) ∧ 0 < g.spacingAbove i
  below : ∀ i, g.spacingBelow? i = .ok (g.spacingBelow i) ∧ 0 < g.spacingBelow i
  shared : ∀ i, i + 1 < g.size → g.spacingBelow i = g.spacingAbove (i + 1)
  top : g.spacingAbove 0 = g.spacingBelow 0
  bottom : g.spacingBelow (g.size - 1) = g.spacingAbove (g.size - 1)

theorem spaced_of_ofNodes (h : ofNodes nodes dimension hy hz = .ok g) : g.Spaced := by
  obtain ⟨-, hsize, -⟩ := ofNodes_eq_ok h
  refine ⟨fun i hi => ⟨spacingAbove?_eq hsize hi, spacingAbove_pos h hi⟩,
    fun i => ⟨spacingBelow?_eq hsize i, spacingBelow_pos h i⟩,
    fun i hi => (spacingAbove_succ hi).symm, ?_, ?_⟩
  all_goals unfold minNodes at hsize
  · rw [spacingAbove, spacingBelow, if_pos rfl, if_neg (by omega)]
  · rw [spacingAbove, spacingBelow, if_pos le_rfl, if_neg (by omega)]

/-- What the depths of a grid's cells below a surface node are. -/
structure CellsBelow (g : DepthGrid ℝ) (surface : Nat) (depths : List ℝ) : Prop where
  looksUp : g.cellDepths? surface = .ok depths ∧ g.depth? surface 0 = .ok (g.depth surface 0)
  length_eq : depths.length = g.size
  increasing : depths.Pairwise (· < ·)
  neg_iff : ∀ i, (hi : i < depths.length) → (depths[i] < 0 ↔ i < surface)
  /-- Below the first node all of them are larger by the depth of the surface. -/
  fromTop : g.cellDepths 0 = .ok (depths.map (· + g.depth surface 0))

theorem cellsBelow_of_ofNodes (h : ofNodes nodes dimension hy hz = .ok g)
    (hsurface : surface < g.size) :
    g.CellsBelow surface ((List.range g.size).map fun i => g.cellPosition i - g.node surface) := by
  refine ⟨⟨?_, depth?_eq hsurface (by omega)⟩, by simp, ?_, ?_, ?_⟩
  · rw [cellDepths?_eq, cellDepths_eq hsurface]
  · rw [List.pairwise_map]
    refine List.pairwise_lt_range.imp_of_mem fun hi hj hij => ?_
    exact sub_lt_sub_right (cellPosition_strictMonoOn h (List.mem_range.mp hi)
      (List.mem_range.mp hj) hij) _
  · intro i hi
    rw [List.getElem_map, List.getElem_range, sub_neg]
    exact cellPosition_lt_node_iff h (by simpa using hi) hsurface
  · rw [cellDepths_eq (by omega), List.map_map]
    refine congrArg Except.ok (List.map_congr_left fun i _ => ?_)
    simp only [Function.comp_apply, depth]
    ring

/-- The spacings of a grid are positive and fit together, at both ends too. Below any surface node
the depths of its cells increase, are negative above the surface only, and differ from those below
the first node by the depth of the surface. -/
theorem spacings_and_cellDepths (h : ofNodes nodes dimension hy hz = .ok g) :
    g.Spaced ∧ ∀ surface < g.size,
      ∃ depths, g.cellDepths surface = .ok depths ∧ g.CellsBelow surface depths :=
  ⟨spaced_of_ofNodes h, fun _ hsurface =>
    ⟨_, cellDepths_eq hsurface, cellsBelow_of_ofNodes h hsurface⟩⟩

/-- Three nodes of unequal spacing, the surface at the second. -/
theorem spacings_and_cellDepths_three :
    ofNodes [(0 : ℝ), 1, 3] 1 1 1 = .ok ⟨#[0, 1, 3], 1, 1, 1⟩ ∧
      (⟨#[0, 1, 3], 1, 1, 1⟩ : DepthGrid ℝ).Spaced ∧
      (⟨#[0, 1, 3], 1, 1, 1⟩ : DepthGrid ℝ).cellDepths 1 = .ok [-1 / 2, 1, 2] ∧
      (⟨#[0, 1, 3], 1, 1, 1⟩ : DepthGrid ℝ).CellsBelow 1 [-1 / 2, 1, 2] := by
  obtain ⟨hspaced, hdepths⟩ := spacings_and_cellDepths ofNodes_three
  obtain ⟨depths, heq, hcells⟩ := hdepths 1 (by decide)
  have hvalues : (⟨#[0, 1, 3], 1, 1, 1⟩ : DepthGrid ℝ).cellDepths 1 = .ok [-1 / 2, 1, 2] := by
    norm_num [cellDepths, size, node, List.range_succ]
  obtain rfl : depths = [-1 / 2, 1, 2] := Except.ok.inj (heq.symm.trans hvalues)
  exact ⟨ofNodes_three, hspaced, hvalues, hcells⟩

end Cells

end ClusterDynamics.DepthGrid
