import ClusterDynamics.Network.SparseBlock
import ClusterDynamics.Proofs.TurningPoint
import Mathlib.Algebra.BigOperators.Group.List.Basic
import Mathlib.Algebra.Order.BigOperators.Group.List
import Mathlib.Algebra.Order.Ring.Nat
import Mathlib.Data.List.Induction

/-! Where the entries of a block stand. A look-up finds an entry of the row and column asked for, so
no entry is found in two places. -/

namespace ClusterDynamics

section RunningTotals

variable {ns : List Nat} {k : Nat}

theorem runningTotals_append (ns : List Nat) (n : Nat) :
    runningTotals (ns ++ [n]) = (runningTotals ns).push (ns ++ [n]).sum := by
  have hsum : ∀ (ns : List Nat) (totals : Array Nat) (sum : Nat),
      (ns.foldl (fun p n => (p.1.push (p.2 + n), p.2 + n)) (totals, sum)).2 =
        sum + ns.sum := by
    intro ns
    induction ns with
    | nil => simp
    | cons n ns ih =>
      intro totals sum
      rw [List.foldl_cons, ih, List.sum_cons, Nat.add_assoc]
  rw [runningTotals, List.foldl_append, runningTotals]
  simp [hsum]

theorem size_runningTotals (ns : List Nat) : (runningTotals ns).size = ns.length + 1 := by
  induction ns using List.reverseRecOn with
  | nil => rfl
  | append_singleton ns n ih =>
    rw [runningTotals_append, Array.size_push, ih, List.length_append, List.length_singleton]

theorem getElem?_runningTotals (hk : k ≤ ns.length) :
    (runningTotals ns)[k]? = some (ns.take k).sum := by
  induction ns using List.reverseRecOn with
  | nil =>
    obtain rfl := Nat.le_zero.mp hk
    rfl
  | append_singleton ns n ih =>
    rw [runningTotals_append, Array.getElem?_push, size_runningTotals]
    by_cases hlast : k = ns.length + 1
    · rw [if_pos hlast, hlast, List.take_of_length_le (by simp)]
    · have hk' : k ≤ ns.length := by
        have hlength : (ns ++ [n]).length = ns.length + 1 := by simp
        omega
      rw [if_neg hlast, ih hk', List.take_append_of_le_length hk']

theorem lt_length_of_getElem?_runningTotals {total : Nat}
    (h : (runningTotals ns)[k]? = some total) : k ≤ ns.length := by
  obtain ⟨hlt, -⟩ := Array.getElem?_eq_some_iff.mp h
  rw [size_runningTotals] at hlt
  omega

end RunningTotals

theorem le_turningPointWithin (p : Nat → Bool) (fuel first count : Nat) :
    first ≤ turningPointWithin p fuel first count := by
  induction fuel generalizing first count with
  | zero => exact Nat.le_refl first
  | succ fuel ih =>
    rw [turningPointWithin]
    have hright := ih (first + count / 2 + 1) (count - count / 2 - 1)
    have hleft := ih first (count / 2)
    dsimp only
    split_ifs <;> omega

theorem FillPattern.entryCount_eq (p : FillPattern) :
    p.entryCount = (p.rows.toList.map List.length).sum := by
  unfold entryCount
  induction p.rows.toList with
  | nil => rfl
  | cons row rows ih => rw [List.foldr_cons, ih, List.map_cons, List.sum_cons]

namespace SparseBlock

variable {K : Type} {b : SparseBlock K} {row column i : Nat}

/-- Entry `i` stands in a row and a column. -/
structure Holds (b : SparseBlock K) (row column i : Nat) : Prop where
  row : ∃ first stop, b.starts[row]? = some first ∧ b.starts[row + 1]? = some stop ∧
    first ≤ i ∧ i < stop
  column : b.columns[i]? = some column

theorem holds_of_position? (h : b.position? row column = some i) : b.Holds row column i := by
  obtain ⟨first, hfirst, h⟩ := Option.bind_eq_some_iff.mp h
  obtain ⟨stop, hstop, h⟩ := Option.bind_eq_some_iff.mp h
  dsimp only at h
  split_ifs at h with hfound
  obtain rfl := Option.some.inj h
  exact ⟨⟨first, stop, hfirst, hstop, le_turningPointWithin _ _ _ _, hfound.1⟩, hfound.2⟩

/-- The entries fill the rows one after the other. -/
structure Partitioned (b : SparseBlock K) : Prop where
  monotone : ∀ {j k m n : Nat}, j ≤ k → b.starts[j]? = some m → b.starts[k]? = some n → m ≤ n
  stop_le : ∀ {k n : Nat}, b.starts[k]? = some n → n ≤ b.entryCount
  columns_size : b.columns.size = b.entryCount

theorem Holds.row_eq (hb : b.Partitioned) {row' column' : Nat} (h : b.Holds row column i)
    (h' : b.Holds row' column' i) : row = row' := by
  obtain ⟨first, stop, hfirst, hstop, hle, hlt⟩ := h.row
  obtain ⟨first', stop', hfirst', hstop', hle', hlt'⟩ := h'.row
  rcases Nat.lt_trichotomy row row' with hrow | hrow | hrow
  · have hgap := hb.monotone (show row + 1 ≤ row' by omega) hstop hfirst'
    omega
  · exact hrow
  · have hgap := hb.monotone (show row' + 1 ≤ row by omega) hstop' hfirst
    omega

theorem Holds.column_eq {row' column' : Nat} (h : b.Holds row column i)
    (h' : b.Holds row' column' i) : column = column' :=
  Option.some.inj (h.column.symm.trans h'.column)

theorem Holds.lt_entryCount (hb : b.Partitioned) (h : b.Holds row column i) :
    i < b.entryCount := by
  obtain ⟨first, stop, -, hstop, -, hlt⟩ := h.row
  exact lt_of_lt_of_le hlt (hb.stop_le hstop)

theorem partitioned_ofPattern [Scalar K] (p : FillPattern) :
    (ofPattern p : SparseBlock K).Partitioned := by
  have hentries : (ofPattern p : SparseBlock K).entryCount = (p.rows.toList.map List.length).sum := by
    rw [entryCount, ofPattern, Array.size_replicate, FillPattern.entryCount_eq]
  have hstarts : ∀ {k n}, (ofPattern p : SparseBlock K).starts[k]? = some n →
      n = ((p.rows.toList.map List.length).take k).sum := by
    intro k n h
    have hk := lt_length_of_getElem?_runningTotals h
    exact Option.some.inj (h.symm.trans (getElem?_runningTotals hk))
  constructor
  · intro j k m n hjk hm hn
    rw [hstarts hm, hstarts hn]
    exact List.monotone_sum_take _ hjk
  · intro k n hn
    rw [hentries, hstarts hn]
    exact (List.take_sublist k _).sum_le_sum fun _ _ => Nat.zero_le _
  · rw [hentries, ofPattern, List.size_toArray, List.length_flatten]

section OfPattern

variable [Scalar K] {p : FillPattern} {columns : List Nat}

/-- The position of the first entry of a row. -/
def rowStart (p : FillPattern) (row : Nat) : Nat := ((p.rows.toList.map List.length).take row).sum

theorem rowStart_succ (h : p.rows[row]? = some columns) :
    rowStart p (row + 1) = rowStart p row + columns.length := by
  rw [rowStart, List.take_add_one, List.sum_append, List.getElem?_map, Array.getElem?_toList, h]
  simp [rowStart]

theorem getElem?_starts_ofPattern (hrow : row ≤ p.rows.size) :
    (ofPattern p : SparseBlock K).starts[row]? = some (rowStart p row) :=
  getElem?_runningTotals (by simpa using hrow)

theorem drop_rowStart (h : p.rows[row]? = some columns) :
    p.rows.toList.flatten.drop (rowStart p row) =
      columns ++ (p.rows.toList.drop (row + 1)).flatten := by
  have hrow : row < p.rows.toList.length :=
    (List.getElem?_eq_some_iff.mp (Array.getElem?_toList.trans h)).1
  have hget : p.rows.toList[row] = columns :=
    Option.some.inj ((List.getElem?_eq_getElem hrow).symm.trans (Array.getElem?_toList.trans h))
  rw [rowStart, List.drop_sum_flatten, List.drop_eq_getElem_cons hrow, List.flatten_cons, hget]

/-- The columns of a row stand from its start on. -/
theorem getElem?_columns_ofPattern (h : p.rows[row]? = some columns) {k : Nat}
    (hk : k < columns.length) :
    (ofPattern p : SparseBlock K).columns[rowStart p row + k]? = columns[k]? := by
  rw [ofPattern, List.getElem?_toArray, ← List.getElem?_drop, drop_rowStart h,
    List.getElem?_append_left hk]

/-- A row of a block with a pattern's entries has the pattern's columns, and a value for each. -/
theorem exists_row_ofPattern (h : p.rows[row]? = some columns) {values : Array K}
    (hvalues : values.size = p.entryCount) :
    ∃ vs, SparseBlock.row { (ofPattern p : SparseBlock K) with values } row =
      .ok ⟨row, columns, vs⟩ ∧ vs.length = columns.length := by
  have hrow : row < p.rows.size := (Array.getElem?_eq_some_iff.mp h).1
  have hstart := getElem?_starts_ofPattern (K := K) hrow.le
  have hstop := getElem?_starts_ofPattern (K := K) hrow
  have hle : rowStart p (row + 1) ≤ p.entryCount := by
    simpa [entryCount, ofPattern] using (partitioned_ofPattern (K := K) p).stop_le hstop
  have hnext := rowStart_succ h
  have hcolumns : ((ofPattern p : SparseBlock K).columns.extract (rowStart p row)
      (rowStart p (row + 1))).toList = columns := by
    simp [ofPattern, hnext, drop_rowStart h]
  have hread : SparseBlock.row { (ofPattern p : SparseBlock K) with values } row =
      .ok ⟨row, ((ofPattern p : SparseBlock K).columns.extract (rowStart p row)
        (rowStart p (row + 1))).toList,
        (values.extract (rowStart p row) (rowStart p (row + 1))).toList⟩ := by
    simp only [SparseBlock.row, entryAt, hstart, hstop]
    rfl
  rw [hcolumns] at hread
  refine ⟨_, hread, ?_⟩
  simp only [Array.length_toList, Array.size_extract]
  omega

/-- A search in an ascending row finds each column in its place. -/
theorem position?_ofPattern (h : p.rows[row]? = some columns) (hsorted : columns.Pairwise (· < ·))
    {k : Nat} (hk : columns[k]? = some column) :
    (ofPattern p : SparseBlock K).position? row column = some (rowStart p row + k) := by
  obtain ⟨hrow, -⟩ := Array.getElem?_eq_some_iff.mp h
  obtain ⟨hlt, hcolumn⟩ := List.getElem?_eq_some_iff.mp hk
  have hread : ∀ m (hm : m < columns.length),
      (ofPattern p : SparseBlock K).columns[rowStart p row + m]? = some columns[m] := by
    intro m hm
    rw [getElem?_columns_ofPattern h hm, List.getElem?_eq_getElem hm]
  have hbefore : ∀ m (hm : m < columns.length),
      standsBefore (ofPattern p : SparseBlock K) column (rowStart p row + m) = true ↔
        columns[m] < column := by
    intro m hm
    rw [standsBefore, hread m hm, Option.any_some, decide_eq_true_eq]
  have hmono : ∀ i j (hi : i < columns.length) (hj : j < columns.length), i < j →
      columns[i] < columns[j] := fun i j hi hj => List.pairwise_iff_getElem.mp hsorted i j hi hj
  have hturns := @turnsAt_turningPoint (standsBefore (ofPattern p : SparseBlock K) column)
    (rowStart p row) columns.length fun i j hi hij hj hp => by
      obtain ⟨a, rfl⟩ := Nat.exists_eq_add_of_le hi
      obtain ⟨b, rfl⟩ := Nat.exists_eq_add_of_le (hi.trans hij)
      have hb : b < columns.length := by omega
      have ha : a < columns.length := by omega
      rw [hbefore b hb] at hp
      rw [hbefore a ha]
      rcases Nat.lt_or_ge a b with hab | hab
      · exact (hmono a b ha hb hab).trans hp
      · obtain rfl : a = b := by omega
        exact hp
  have hturn : turningPoint (standsBefore (ofPattern p : SparseBlock K) column) (rowStart p row)
      columns.length = rowStart p row + k := by
    obtain ⟨m, hm⟩ := Nat.exists_eq_add_of_le hturns.first_le
    rw [hm]
    rcases Nat.lt_trichotomy m k with hmk | rfl | hmk
    · have hnot := hturns.behind (rowStart p row + m) hm.le (by omega)
      have hless := (hbefore m (by omega)).mpr (hcolumn ▸ hmono m k (by omega) hlt hmk)
      rw [hless] at hnot
      cases hnot
    · rfl
    · have hless := (hbefore k hlt).mp (hturns.before (rowStart p row + k) (by omega) (by omega))
      omega
  rw [position?, getElem?_starts_ofPattern hrow.le, getElem?_starts_ofPattern hrow,
    rowStart_succ h]
  simp only [Option.bind_eq_bind, Option.bind_some, Nat.add_sub_cancel_left]
  rw [hturn, if_pos ⟨by omega, (getElem?_columns_ofPattern h hlt).trans hk⟩]

end OfPattern

end SparseBlock

end ClusterDynamics
