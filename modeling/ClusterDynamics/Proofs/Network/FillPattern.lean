import ClusterDynamics.Network.FillPattern
import ClusterDynamics.Proofs.OutOfRange
import Mathlib.Data.List.Sort

/-! The rows of a fill pattern: their number, their order, and which columns they hold. -/

namespace ClusterDynamics

section Ascending

variable {n : Nat} {ns : List Nat}

theorem mem_putNew {m : Nat} : m ∈ putNew n ns ↔ m = n ∨ m ∈ ns := by
  cases ns with
  | nil => simp [putNew]
  | cons k ns =>
    rw [putNew]
    split_ifs with h
    · subst h
      simp
    · simp

theorem mem_ascending {m : Nat} : m ∈ ascending ns ↔ m ∈ ns := by
  have hfold : ∀ ns : List Nat, m ∈ ns.foldr putNew [] ↔ m ∈ ns := by
    intro ns
    induction ns with
    | nil => rfl
    | cons n ns ih => rw [List.foldr_cons, mem_putNew, ih, List.mem_cons]
  rw [ascending, hfold, List.mem_mergeSort]

theorem pairwise_putNew (hle : ∀ m ∈ ns, n ≤ m) (hns : ns.Pairwise (· < ·)) :
    (putNew n ns).Pairwise (· < ·) := by
  cases ns with
  | nil => simp [putNew]
  | cons k ns =>
    rw [putNew]
    split_ifs with h
    · exact hns
    · have hlt : n < k := lt_of_le_of_ne (hle k List.mem_cons_self) (Ne.symm h)
      refine List.pairwise_cons.mpr ⟨fun m hm => ?_, hns⟩
      rcases List.mem_cons.mp hm with rfl | hm
      · exact hlt
      · exact hlt.trans (List.rel_of_pairwise_cons hns hm)

theorem pairwise_ascending (ns : List Nat) : (ascending ns).Pairwise (· < ·) := by
  have hfold : ∀ ns : List Nat, ns.Pairwise (· ≤ ·) →
      (ns.foldr putNew []).Pairwise (· < ·) ∧ ∀ m ∈ ns.foldr putNew [], m ∈ ns := by
    intro ns hns
    induction hns with
    | nil => simp
    | @cons n ns hle _ ih =>
      refine ⟨pairwise_putNew (fun m hm => hle m (ih.2 m hm)) ih.1, fun m hm => ?_⟩
      rcases mem_putNew.mp hm with rfl | hm
      · exact List.mem_cons_self
      · exact List.mem_cons_of_mem _ (ih.2 m hm)
  have hsorted : (ns.mergeSort fun m n => decide (m ≤ n)).Pairwise (· ≤ ·) :=
    List.pairwise_mergeSort' _ ns
  exact (hfold _ hsorted).1

end Ascending

namespace FillPattern

variable {K : Type} {rows : Array (List Nat)} {rs : List (Reaction K)} {p : FillPattern}
  {i j n : Nat}

theorem mem_foldl_modify {ids columns : List Nat} (hi : i < rows.size) :
    j ∈ (ids.foldl (fun rows a => rows.modify a (columns ++ ·)) rows).getD i [] ↔
      j ∈ rows.getD i [] ∨ i ∈ ids ∧ j ∈ columns := by
  induction ids generalizing rows with
  | nil => simp
  | cons a ids ih =>
    have hrow : (rows.modify a (columns ++ ·)).getD i [] =
        if a = i then columns ++ rows.getD i [] else rows.getD i [] := by
      rw [Array.getD_eq_getD_getElem?, Array.getElem?_modify, Array.getD_eq_getD_getElem?,
        Array.getElem?_eq_getElem hi]
      split_ifs <;> rfl
    rw [List.foldl_cons, ih (by rwa [Array.size_modify]), hrow]
    by_cases ha : a = i
    · subst ha
      simp only [if_true, List.mem_append, List.mem_cons, true_or, true_and]
      tauto
    · simp only [if_neg ha, List.mem_cons, Ne.symm ha, false_or]

theorem size_collect (rows : Array (List Nat)) (r : Reaction K) :
    (collect rows r).size = rows.size := by
  have hfold : ∀ (columns ids : List Nat) (rows : Array (List Nat)),
      (ids.foldl (fun rows a => rows.modify a (columns ++ ·)) rows).size = rows.size := by
    intro columns ids
    induction ids with
    | nil => exact fun rows => rfl
    | cons a ids ih => exact fun rows => (ih _).trans Array.size_modify
  exact hfold _ _ rows

theorem size_foldl_collect (rows : Array (List Nat)) (rs : List (Reaction K)) :
    (rs.foldl collect rows).size = rows.size := by
  induction rs generalizing rows with
  | nil => rfl
  | cons r rs ih => rw [List.foldl_cons, ih, size_collect]

theorem mem_foldl_collect (hi : i < rows.size) : j ∈ (rs.foldl collect rows).getD i [] ↔
    j ∈ rows.getD i [] ∨ ∃ r ∈ rs, i ∈ r.participants ∧ j ∈ r.participants := by
  induction rs generalizing rows with
  | nil => simp
  | cons r rs ih =>
    rw [List.foldl_cons, ih (by rwa [size_collect]), collect, mem_foldl_modify hi]
    simp only [List.mem_cons, exists_eq_or_imp]
    tauto

/-- A cluster's row holds the cluster itself and whatever takes part in a reaction with it. -/
theorem exists_row_ofReactions (rs : List (Reaction K)) (hi : i < n) :
    ∃ row, (ofReactions n rs).rows[i]? = some row ∧ row.Pairwise (· < ·) ∧
      ∀ j, j ∈ row ↔ j = i ∨ ∃ r ∈ rs, i ∈ r.participants ∧ j ∈ r.participants := by
  let start : Array (List Nat) := (Array.range n).map fun a => [a]
  have hstart : start[i]? = some [i] := by simp [start, hi]
  have hsize : i < start.size := by simpa [start] using hi
  have hsize' : i < (rs.foldl collect start).size := by rwa [size_foldl_collect]
  refine ⟨ascending ((rs.foldl collect start).getD i []), ?_, pairwise_ascending _, fun j => ?_⟩
  · rw [ofReactions, Array.getElem?_map, Array.getD_eq_getD_getElem?,
      Array.getElem?_eq_getElem hsize']
    rfl
  · rw [mem_ascending, mem_foldl_collect hsize, Array.getD_eq_getD_getElem?, hstart]
    simp

/-- As many rows as clusters, and one more for the temperature. -/
structure Sized (p : FillPattern) (n : Nat) : Prop where
  clusters : p.clusters = n
  size : p.size = n + if p.hasTemperature then 1 else 0

namespace Sized

theorem ofReactions (n : Nat) (rs : List (Reaction K)) : (ofReactions n rs).Sized n := by
  refine ⟨rfl, ?_⟩
  simp [FillPattern.size, FillPattern.ofReactions, size_foldl_collect]

theorem enableTemperature (h : p.Sized n) : p.enableTemperature.Sized n := by
  unfold FillPattern.enableTemperature
  split_ifs with ht
  · exact h
  · refine ⟨h.clusters, ?_⟩
    have hsize := h.size
    simp only [FillPattern.size, ht, Bool.false_eq_true, if_false, Nat.add_zero] at hsize
    simp [FillPattern.size, hsize]

theorem link (h : p.Sized n) (row column : Nat) : (p.link row column).Sized n :=
  ⟨h.clusters, Array.size_modify.trans h.size⟩

theorem linkTemperature (h : p.Sized n) (ids : List Nat) :
    (p.linkTemperature ids).1.Sized n := by
  induction ids generalizing p with
  | nil => exact h
  | cons id ids ih =>
    rw [FillPattern.linkTemperature]
    split
    · exact ih ((h.link _ _).link _ _)
    · exact h

theorem couple (h : p.Sized n) (ids : List Nat) : (p.couple ids).1.Sized n :=
  h.enableTemperature.linkTemperature ids

end Sized

theorem hasTemperature_enableTemperature : p.enableTemperature.hasTemperature = true := by
  unfold enableTemperature
  split_ifs with h
  · exact h
  · rfl

theorem hasTemperature_linkTemperature (ids : List Nat) :
    (p.linkTemperature ids).1.hasTemperature = p.hasTemperature := by
  induction ids generalizing p with
  | nil => rfl
  | cons id ids ih =>
    rw [linkTemperature]
    split
    · exact ih
    · rfl

theorem hasTemperature_couple (ids : List Nat) : (p.couple ids).1.hasTemperature = true :=
  (hasTemperature_linkTemperature ids).trans hasTemperature_enableTemperature

section Entries

/-- Degree of freedom `i` depends on `j`. -/
def Has (p : FillPattern) (i j : Nat) : Prop := ∃ row, p.row i = .ok row ∧ j ∈ row

theorem has_iff : p.Has i j ↔ ∃ row, p.rows[i]? = some row ∧ j ∈ row := by
  simp only [Has, FillPattern.row, entryAt_eq_ok_iff]

theorem Has.lt_size (h : p.Has i j) : i < p.size := by
  obtain ⟨row, hrow, -⟩ := has_iff.mp h
  exact (Array.getElem?_eq_some_iff.mp hrow).1

theorem mem_insertSorted {m : Nat} {ns : List Nat} : m ∈ insertSorted n ns ↔ m = n ∨ m ∈ ns := by
  induction ns with
  | nil => simp [insertSorted]
  | cons k ns ih =>
    rw [insertSorted]
    split_ifs with hlt heq
    · simp
    · subst heq
      simp
    · rw [List.mem_cons, ih, List.mem_cons]
      tauto

theorem has_link_iff {row column : Nat} : (p.link row column).Has i j ↔
    p.Has i j ∨ i = row ∧ j = column ∧ row < p.size := by
  rw [has_iff, has_iff, link, Array.getElem?_modify]
  by_cases hi : row = i
  · subst hi
    by_cases hrow : row < p.rows.size
    · simp [FillPattern.size, hrow, mem_insertSorted, or_comm]
    · simp [FillPattern.size, hrow]
  · simp [hi, Ne.symm hi]

/-- The temperature is the last row and the last column of every row. -/
theorem has_enableTemperature_iff (h : p.Sized n) (ht : p.hasTemperature = false) :
    p.enableTemperature.Has i j ↔ p.Has i j ∨ i ≤ n ∧ j = n := by
  have hsize : p.rows.size = n := by
    have hrows := h.size
    rwa [ht] at hrows
  rw [has_iff, has_iff, enableTemperature, if_neg (by simp [ht]), h.clusters, Array.getElem?_push,
    Array.size_map, hsize]
  by_cases hi : i = n
  · subst hi
    simp [hsize]
  · by_cases hlt : i < n
    · have hlt' : i < p.rows.size := by rwa [hsize]
      simp [hi, hlt', hlt.le]
    · have hnone : p.rows[i]? = none := Array.getElem?_eq_none (by omega)
      have hnot : ¬i ≤ n := by omega
      simp [hi, hnot, hnone]

/-- A degree of freedom depends on others, on itself, and on the temperature where that is one. -/
structure Closed (p : FillPattern) : Prop where
  lt_size : ∀ i j, p.Has i j → j < p.size
  diagonal : ∀ i < p.size, p.Has i i
  temperature : ∀ t ∈ p.temperature?, ∀ i < p.size, p.Has i t

namespace Closed

theorem ofReactions {rs : List (Reaction K)} (h : ∀ r ∈ rs, ∀ i ∈ r.participants, i < n) :
    (ofReactions n rs).Closed := by
  have hsize : (FillPattern.ofReactions n rs).size = n := (Sized.ofReactions n rs).size
  refine ⟨fun i j hij => ?_, fun i hi => ?_, nofun⟩
  · rw [hsize]
    have hi : i < n := hsize ▸ hij.lt_size
    obtain ⟨row, hrow, hj⟩ := has_iff.mp hij
    obtain ⟨row', hrow', -, hmem⟩ := exists_row_ofReactions rs hi
    obtain rfl := Option.some.inj (hrow.symm.trans hrow')
    rcases (hmem j).mp hj with rfl | ⟨r, hr, -, hj⟩
    · exact hi
    · exact h r hr j hj
  · rw [hsize] at hi
    obtain ⟨row, hrow, -, hmem⟩ := exists_row_ofReactions rs hi
    exact has_iff.mpr ⟨row, hrow, (hmem i).mpr (.inl rfl)⟩

theorem enableTemperature (h : p.Closed) (hn : p.Sized n) : p.enableTemperature.Closed := by
  cases ht : p.hasTemperature with
  | true =>
    rw [FillPattern.enableTemperature, if_pos ht]
    exact h
  | false =>
    have hsize : p.size = n := by simpa [ht] using hn.size
    have hsize' : p.enableTemperature.size = n + 1 := by
      simpa [hasTemperature_enableTemperature] using hn.enableTemperature.size
    have hhas : ∀ i j, p.enableTemperature.Has i j ↔ p.Has i j ∨ i ≤ n ∧ j = n :=
      fun _ _ => has_enableTemperature_iff hn ht
    refine ⟨fun i j hij => ?_, fun i hi => ?_, fun t ht' i hi => ?_⟩
    · rcases (hhas i j).mp hij with hij | ⟨-, rfl⟩
      · have hj := h.lt_size i j hij
        omega
      · omega
    · by_cases hlt : i < n
      · exact (hhas i i).mpr (.inl (h.diagonal i (hsize ▸ hlt)))
      · obtain rfl : i = n := by omega
        exact (hhas i i).mpr (.inr ⟨le_rfl, rfl⟩)
    · rw [temperature?, if_pos hasTemperature_enableTemperature,
        hn.enableTemperature.clusters] at ht'
      obtain rfl := Option.some.inj ht'
      exact (hhas i n).mpr (.inr ⟨by omega, rfl⟩)

theorem link (h : p.Closed) {row column : Nat} (hcolumn : column < p.size) :
    (p.link row column).Closed := by
  have hsize : (p.link row column).size = p.size := Array.size_modify
  refine ⟨fun i j hij => ?_, fun i hi => ?_, fun t ht i hi => ?_⟩
  · rw [hsize]
    rcases has_link_iff.mp hij with hij | ⟨-, rfl, -⟩
    · exact h.lt_size i j hij
    · exact hcolumn
  · exact has_link_iff.mpr (.inl (h.diagonal i (hsize ▸ hi)))
  · exact has_link_iff.mpr (.inl (h.temperature t ht i (hsize ▸ hi)))

theorem linkTemperature (h : p.Closed) (hclusters : p.clusters < p.size) (ids : List Nat) :
    (p.linkTemperature ids).1.Closed := by
  induction ids generalizing p with
  | nil => exact h
  | cons id ids ih =>
    rw [FillPattern.linkTemperature]
    cases hid : checkRange id p.size with
    | error e => exact h
    | ok =>
      have hid' : id < p.size := checkRange_eq_ok_iff.mp hid
      have hsize : (p.link id p.clusters).size = p.size := Array.size_modify
      have hsize' : ((p.link id p.clusters).link p.clusters id).size = p.size :=
        Array.size_modify.trans hsize
      exact ih ((h.link hclusters).link (hsize ▸ hid')) (hclusters.trans_eq hsize'.symm)

theorem couple (h : p.Closed) (hn : p.Sized n) (ids : List Nat) : (p.couple ids).1.Closed := by
  have hclusters : p.enableTemperature.clusters < p.enableTemperature.size := by
    rw [hn.enableTemperature.clusters, hn.enableTemperature.size,
      hasTemperature_enableTemperature]
    exact Nat.lt_succ_self n
  exact (h.enableTemperature hn).linkTemperature hclusters ids

end Closed

end Entries

end FillPattern

end ClusterDynamics
