import ClusterDynamics.Proofs.Assembly.Jacobian
import ClusterDynamics.Proofs.Transport.Partials
import ClusterDynamics.Simulation.Basic
import Mathlib.Algebra.BigOperators.Intervals

/-! What derivatives listed by place add up to. -/

namespace ClusterDynamics

/-- The sum of the values listed at a place, zero where there are none. -/
def totalAt (ts : List (Triplet ℝ)) (row column : Nat) : ℝ :=
  ((ts.filter fun t => t.row = row ∧ t.column = column).map Triplet.value).sum

section TotalAt

variable (row column : Nat)

theorem totalAt_cons (t : Triplet ℝ) (ts : List (Triplet ℝ)) : totalAt (t :: ts) row column =
    (if t.row = row ∧ t.column = column then t.value else 0) + totalAt ts row column := by
  unfold totalAt
  rw [List.filter_cons]
  by_cases h : t.row = row ∧ t.column = column
  · simp [h]
  · simp [h]

theorem totalAt_append (ts us : List (Triplet ℝ)) :
    totalAt (ts ++ us) row column = totalAt ts row column + totalAt us row column := by
  rw [totalAt, List.filter_append, List.map_append, List.sum_append, totalAt, totalAt]

theorem totalAt_flatMap {α : Type} (f : α → List (Triplet ℝ)) (xs : List α) :
    totalAt (xs.flatMap f) row column = (xs.map fun x => totalAt (f x) row column).sum := by
  induction xs with
  | nil => rfl
  | cons x xs ih => rw [List.flatMap_cons, totalAt_append, ih, List.map_cons, List.sum_cons]

theorem totalAt_map {α : Type} (f : α → Triplet ℝ) (xs : List α) :
    totalAt (xs.map f) row column = (xs.map fun x =>
      if (f x).row = row ∧ (f x).column = column then (f x).value else 0).sum := by
  induction xs with
  | nil => rfl
  | cons x xs ih => rw [List.map_cons, totalAt_cons, ih, List.map_cons, List.sum_cons]

variable {row} in
theorem totalAt_eq_zero {ts : List (Triplet ℝ)} (h : ∀ t ∈ ts, t.row ≠ row) :
    totalAt ts row column = 0 := by
  rw [totalAt, List.filter_eq_nil_iff.mpr fun t ht => by simp [h t ht]]
  rfl

theorem totalAt_stencilTriplets_append (base dofs : Nat) (nb : Neighbours)
    (es es' : List (StencilEntry ℝ)) :
    totalAt (Simulation.stencilTriplets base dofs nb (es ++ es')) row column =
      totalAt (Simulation.stencilTriplets base dofs nb es) row column +
        totalAt (Simulation.stencilTriplets base dofs nb es') row column := by
  rw [Simulation.stencilTriplets, List.filterMap_append, totalAt_append, Simulation.stencilTriplets,
    Simulation.stencilTriplets]

theorem totalAt_stencilTriplets_of_values {es : List (StencilEntry ℝ)} (h : ∀ e ∈ es, e.value = 0)
    (base dofs : Nat) (nb : Neighbours) :
    totalAt (Simulation.stencilTriplets base dofs nb es) row column = 0 := by
  refine List.sum_eq_zero fun y hy => ?_
  obtain ⟨t, ht, rfl⟩ := List.mem_map.mp hy
  obtain ⟨e, he, ht⟩ := List.mem_filterMap.mp (List.mem_of_mem_filter ht)
  obtain ⟨q, -, rfl⟩ := Option.map_eq_some_iff.mp ht
  exact h e he

/-- A stencil's derivatives add up to what they come to where the place alone weighs. -/
theorem totalAt_stencilTriplets (base dofs : Nat) (nb : Neighbours) (es : List (StencilEntry ℝ)) :
    totalAt (Simulation.stencilTriplets base dofs nb es) (base + row) column =
      entryTotal (Pi.single row 1)
        (nb.read fun q i => (Pi.single column 1 : Nat → ℝ) (q * dofs + i)) es := by
  unfold Simulation.stencilTriplets
  induction es with
  | nil => rfl
  | cons e es ih =>
    rw [entryTotal_cons, List.filterMap_cons, Neighbours.read]
    cases nb.resolve e.offset with
    | none =>
      simp only [Option.map_none, Option.elim_none, mul_zero, zero_add]
      exact ih
    | some q =>
      simp only [Option.map_some, Option.elim_some, totalAt_cons]
      rw [ih, Pi.single_apply, Pi.single_apply, add_right_cancel_iff]
      by_cases hrow : e.row = row
      · by_cases hcolumn : q * dofs + e.column = column
        · simp [hrow, hcolumn]
        · simp [hcolumn]
      · simp [hrow]

end TotalAt

namespace SparseBlock

variable {b : SparseBlock ℝ} {row column base first stop : Nat}

/-- The weight of a place in a row that begins and stops at the given positions: one where the column,
counted from `base`, is the given one. -/
noncomputable def rowWeight (b : SparseBlock ℝ) (base first stop column : Nat) (i : Nat) : ℝ :=
  if first ≤ i ∧ i < stop then (Pi.single column 1 : Nat → ℝ) (base + b.columns.getD i 0) else 0

theorem row_eq_ok (hfirst : b.starts[row]? = some first) (hstop : b.starts[row + 1]? = some stop) :
    b.row row = .ok ⟨row, (b.columns.extract first stop).toList,
      (b.values.extract first stop).toList⟩ := by
  unfold SparseBlock.row entryAt
  rw [hfirst, hstop]
  rfl

theorem row_of_eq_ok {r : BlockRow ℝ} (h : b.row row = .ok r) : r.row = row := by
  obtain ⟨first, -, h⟩ := bind_eq_ok_iff.mp h
  obtain ⟨stop, -, h⟩ := bind_eq_ok_iff.mp h
  obtain rfl := Except.ok.inj h
  rfl

/-- The weights of a row's places are those of its columns. -/
theorem weighs_rowWeight (hb : b.Partitioned) (hfirst : b.starts[row]? = some first)
    (hstop : b.starts[row + 1]? = some stop) :
    b.Weighs (b.rowWeight base first stop column) (Pi.single row 1)
      fun i => (Pi.single column 1 : Nat → ℝ) (base + i) := by
  intro row' column' i h
  have hholds := holds_of_position? h
  have hcolumn : b.columns.getD i 0 = column' := by
    rw [Array.getD_eq_getD_getElem?, hholds.column, Option.getD_some]
  rw [rowWeight, hcolumn]
  by_cases hrow : row' = row
  · subst hrow
    obtain ⟨first', stop', hfirst', hstop', hwithin⟩ := hholds.row
    obtain rfl := Option.some.inj (hfirst.symm.trans hfirst')
    obtain rfl := Option.some.inj (hstop.symm.trans hstop')
    rw [if_pos hwithin, Pi.single_eq_same, one_mul]
  · have hwithin : ¬(first ≤ i ∧ i < stop) := fun hwithin =>
      hrow (hholds.row_eq hb ⟨⟨first, stop, hfirst, hstop, hwithin⟩, hholds.column⟩)
    rw [if_neg hwithin, Pi.single_eq_of_ne hrow, zero_mul]

variable {values : Array ℝ}

theorem totalAt_row (hb : b.Partitioned) (hstop : b.starts[row + 1]? = some stop)
    (hvalues : values.size = b.entryCount) :
    totalAt (List.zipWith (fun c value => ⟨base + row, base + c, value⟩)
      (b.columns.extract first stop).toList (values.extract first stop).toList)
      (base + row) column =
      weightedTotal (b.rowWeight base first stop column) b.entryCount values := by
  have hle : stop ≤ values.size := (hb.stop_le hstop).trans_eq hvalues.symm
  have hcolumns : b.columns.size = values.size := hb.columns_size.trans hvalues.symm
  have hlist : List.zipWith (fun c value => (⟨base + row, base + c, value⟩ : Triplet ℝ))
      (b.columns.extract first stop).toList (values.extract first stop).toList =
      (List.range (stop - first)).map fun k =>
        ⟨base + row, base + b.columns.getD (first + k) 0, values.getD (first + k) 0⟩ := by
    refine List.ext_getElem ?_ fun k hk hk' => ?_
    · simp only [List.length_zipWith, Array.length_toList, Array.size_extract, List.length_map,
        List.length_range]
      omega
    · have hlt : first + k < values.size := by
        simp only [List.length_map, List.length_range] at hk'
        omega
      simp [Array.getD_eq_getD_getElem?, hlt, hlt.trans_eq hcolumns.symm]
  have hsubset : Finset.Ico first stop ⊆ Finset.range b.entryCount := by
    intro i hi
    have hi' := (Finset.mem_Ico.mp hi).2
    exact Finset.mem_range.mpr (hi'.trans_le (hb.stop_le hstop))
  rw [hlist, totalAt_map, weightedTotal, ← Finset.sum_subset hsubset]
  · rw [Finset.sum_Ico_eq_sum_range]
    change _ = (((List.range (stop - first)).map fun k => _).sum : ℝ)
    refine congrArg List.sum (List.map_congr_left fun k hk => ?_)
    have hk' := List.mem_range.mp hk
    have hwithin : first ≤ first + k ∧ first + k < stop := by omega
    simp [rowWeight, hwithin, Pi.single_apply]
  · intro i _ hi
    rw [rowWeight, if_neg (by simpa using hi), zero_mul]

/-- The derivatives of a block with other values add up row by row. -/
theorem totalAt_blockTriplets (hb : b.Partitioned) (hfirst : b.starts[row]? = some first)
    (hstop : b.starts[row + 1]? = some stop) (hvalues : values.size = b.entryCount) :
    totalAt (Simulation.blockTriplets base { b with values }) (base + row) column =
      weightedTotal (b.rowWeight base first stop column) b.entryCount values := by
  let block : SparseBlock ℝ := { b with values }
  have hrow : row < block.rowCount := by
    obtain ⟨hlt, -⟩ := Array.getElem?_eq_some_iff.mp hstop
    exact Nat.lt_sub_of_add_lt hlt
  have hother : ∀ r ∈ Finset.range block.rowCount, r ≠ row →
      totalAt ((block.row r).toOption.toList.flatMap fun y => List.zipWith (fun c value =>
        ⟨base + y.row, base + c, value⟩) y.columns y.values) (base + row) column = 0 := by
    intro r _ hr
    refine totalAt_eq_zero _ fun t ht => ?_
    obtain ⟨y, hy, ht⟩ := List.mem_flatMap.mp ht
    have hy' : block.row r = .ok y := by
      cases hread : block.row r with
      | error e => simp [hread, Except.toOption] at hy
      | ok z =>
        obtain rfl : y = z := by simpa [hread, Except.toOption] using hy
        rfl
    obtain ⟨k, hk, rfl⟩ := List.mem_iff_getElem.mp ht
    have hrow' := row_of_eq_ok hy'
    rw [List.getElem_zipWith]
    dsimp only
    omega
  have hread : block.row row = .ok ⟨row, (b.columns.extract first stop).toList,
      (values.extract first stop).toList⟩ := row_eq_ok hfirst hstop
  rw [Simulation.blockTriplets, allRows, rows, List.filterMap_eq_flatMap_toList, List.flatMap_assoc,
    totalAt_flatMap]
  refine (Finset.sum_eq_single_of_mem row (Finset.mem_range.mpr hrow) hother).trans ?_
  rw [hread]
  exact (congrArg (totalAt · _ _) (List.flatMap_singleton _ _)).trans
    (totalAt_row hb hstop hvalues)

end SparseBlock

namespace Assembly

variable {net : Network ℝ} {pattern : FillPattern} {a : Assembly ℝ} {p : PointRates ℝ}
  {conc : Array ℝ} {base row column : Nat}

/-- The block of an assembly adds up to the derivatives of all reactions, wherever the pattern has
room for them. -/
theorem totalAt_termPartials (ha : ofNetwork net pattern = .ok a) (hrow : row < pattern.size) :
    totalAt (Simulation.blockTriplets base
        { a.template with values := a.termPartials p conc a.template.values }) (base + row) column =
      ((net.reactions.toList.zip p.rates.toList).map fun x => reactionPartials (Pi.single row 1)
        (fun i => (Pi.single column 1 : Nat → ℝ) (base + i)) pattern.temperature? conc
          x.1 x.2).sum := by
  have htemplate := ofNetwork_template ha
  have hpartitioned : a.template.Partitioned :=
    htemplate ▸ SparseBlock.partitioned_ofPattern pattern
  have hstarts : ∀ r ≤ pattern.size,
      a.template.starts[r]? = some (SparseBlock.rowStart pattern r) := by
    intro r hr
    rw [htemplate]
    exact SparseBlock.getElem?_starts_ofPattern hr
  have hweighs : a.template.Weighs (a.template.rowWeight base (SparseBlock.rowStart pattern row)
      (SparseBlock.rowStart pattern (row + 1)) column) (Pi.single row 1)
      fun i => (Pi.single column 1 : Nat → ℝ) (base + i) :=
    SparseBlock.weighs_rowWeight hpartitioned (hstarts row hrow.le) (hstarts (row + 1) hrow)
  have hzero : ∀ w, weightedTotal w a.template.entryCount a.template.values = 0 := by
    intro w
    refine Finset.sum_eq_zero fun i hi => ?_
    have hi' : i < pattern.entryCount := by
      simpa [htemplate, SparseBlock.entryCount, SparseBlock.ofPattern] using hi
    simp [htemplate, SparseBlock.ofPattern, Array.getD_eq_getD_getElem?, hi']
  obtain ⟨hsize, htotal⟩ := weightedTotal_termPartials ha hweighs le_rfl p conc
  rw [hzero, zero_add] at htotal
  rw [← htotal]
  exact SparseBlock.totalAt_blockTriplets hpartitioned (hstarts row hrow.le)
    (hstarts (row + 1) hrow) hsize

end Assembly

end ClusterDynamics
