import ClusterDynamics.Proofs.Network.FillPattern
import Mathlib.Data.List.TakeWhile

/-! Fill patterns under calls. The first call puts the temperature behind the clusters, and from
then on only the temperature's own row grows: a pattern is known in full from its start and from the
clusters coupled so far. -/

namespace ClusterDynamics

section Ascending

variable {n : Nat} {ns ms : List Nat}

theorem insertSorted_of_mem (hns : ns.Pairwise (· < ·)) (hn : n ∈ ns) : insertSorted n ns = ns := by
  induction hns with
  | nil => cases hn
  | @cons m ns hlt _ ih =>
    rw [insertSorted]
    by_cases hnm : n = m
    · subst hnm
      simp
    · have hrest : n ∈ ns := (List.mem_cons.mp hn).resolve_left hnm
      have hmn : m < n := hlt n hrest
      rw [if_neg (by omega), if_neg hnm, ih hrest]

theorem pairwise_insertSorted (hns : ns.Pairwise (· < ·)) :
    (insertSorted n ns).Pairwise (· < ·) := by
  induction hns with
  | nil => simp [insertSorted]
  | @cons m ns hlt hns ih =>
    rw [insertSorted]
    split_ifs with hnm heq
    · refine List.pairwise_cons.mpr ⟨fun k hk => ?_, List.pairwise_cons.mpr ⟨hlt, hns⟩⟩
      rcases List.mem_cons.mp hk with rfl | hk
      · exact hnm
      · exact hnm.trans (hlt k hk)
    · exact List.pairwise_cons.mpr ⟨hlt, hns⟩
    · refine List.pairwise_cons.mpr ⟨fun k hk => ?_, ih⟩
      rcases FillPattern.mem_insertSorted.mp hk with rfl | hk
      · omega
      · exact hlt k hk

theorem ascending_congr (h : ∀ m, m ∈ ns ↔ m ∈ ms) : ascending ns = ascending ms := by
  refine (pairwise_ascending ns).eq_of_mem_iff (pairwise_ascending ms) fun m => ?_
  rw [mem_ascending, mem_ascending, h]

theorem insertSorted_ascending (n : Nat) (ns : List Nat) :
    insertSorted n (ascending ns) = ascending (ns ++ [n]) := by
  refine (pairwise_insertSorted (pairwise_ascending ns)).eq_of_mem_iff (pairwise_ascending _)
    fun m => ?_
  rw [FillPattern.mem_insertSorted, mem_ascending, mem_ascending, List.mem_append,
    List.mem_singleton, or_comm]

end Ascending

namespace FillPattern

/-- A call that may change a pattern. -/
inductive Call where
  | enableTemperature
  | couple (ids : List Nat)

namespace Call

/-- The degrees of freedom that a call names. -/
def ids : Call → List Nat
  | .enableTemperature => []
  | .couple ids => ids

/-- Those of them that it couples to the temperature `t`: it ends at the first one behind it. -/
def coupled (t : Nat) (c : Call) : List Nat := c.ids.takeWhile fun id => decide (id ≤ t)

theorem le_of_mem_coupled {c : Call} {t id : Nat} (h : id ∈ c.coupled t) : id ≤ t := by
  have hsatisfies := List.mem_takeWhile_imp h
  simpa using hsatisfies

theorem coupled_eq_ids {c : Call} {t : Nat} (h : ∀ id ∈ c.ids, id < t) : c.coupled t = c.ids :=
  List.takeWhile_eq_self_iff.mpr fun id hid => decide_eq_true (h id hid).le

end Call

/-- The pattern after a call. One that names a degree of freedom which is not there leaves what it
has done until then. -/
def perform (p : FillPattern) : Call → FillPattern
  | .enableTemperature => p.enableTemperature
  | .couple ids => (p.couple ids).1

def performAll (p : FillPattern) (calls : List Call) : FillPattern := calls.foldl perform p

/-- The pattern with the temperature, to which the given clusters are coupled. -/
def heated (p : FillPattern) (ids : List Nat) : FillPattern :=
  { clusters := p.clusters
    rows := (p.rows.map fun row => row ++ [p.clusters]).push (ascending (p.clusters :: ids))
    hasTemperature := true }

/-- A pattern of `n` clusters without a temperature. -/
structure Plain (p : FillPattern) (n : Nat) : Prop where
  clusters : p.clusters = n
  size : p.rows.size = n
  hasTemperature : p.hasTemperature = false
  row : ∀ (i : Nat) (row : List Nat), p.rows[i]? = some row →
    row.Pairwise (· < ·) ∧ i ∈ row ∧ ∀ j ∈ row, j < n

variable {K : Type} {p : FillPattern} {n : Nat} {ids : List Nat} {rs : List (Reaction K)}

theorem Plain.ofReactions (h : ∀ r ∈ rs, ∀ i ∈ r.participants, i < n) :
    (ofReactions n rs).Plain n := by
  have hsize : (FillPattern.ofReactions n rs).rows.size = n := (Sized.ofReactions n rs).size
  refine ⟨rfl, hsize, rfl, fun i row hrow => ?_⟩
  have hi : i < n := hsize ▸ (Array.getElem?_eq_some_iff.mp hrow).1
  obtain ⟨row', hrow', hsorted, hmem⟩ := exists_row_ofReactions rs hi
  obtain rfl := Option.some.inj (hrow.symm.trans hrow')
  refine ⟨hsorted, (hmem i).mpr (.inl rfl), fun j hj => ?_⟩
  rcases (hmem j).mp hj with rfl | ⟨r, hr, -, hj⟩
  · exact hi
  · exact h r hr j hj

/-- A pattern does not change where a column is linked that its row has. -/
theorem link_eq_self {row column : Nat} (h : ∀ columns, p.rows[row]? = some columns →
    columns.Pairwise (· < ·) ∧ column ∈ columns) : p.link row column = p := by
  have hrows : p.rows.modify row (insertSorted column) = p.rows := by
    refine Array.ext_getElem? fun i => ?_
    rw [Array.getElem?_modify]
    by_cases hi : row = i
    · subst hi
      cases hrow : p.rows[row]? with
      | none => simp
      | some columns =>
        obtain ⟨hsorted, hmem⟩ := h columns hrow
        simp [insertSorted_of_mem hsorted hmem]
    · rw [if_neg hi]
  rw [link, hrows]

namespace Plain

theorem size_heated (h : p.Plain n) (ids : List Nat) : (p.heated ids).size = n + 1 := by
  simp [FillPattern.size, heated, h.size]

theorem rows_heated_lt (h : p.Plain n) (ids : List Nat) {i : Nat} (hi : i < n) :
    (p.heated ids).rows[i]? = (p.rows[i]?).map fun row => row ++ [n] := by
  have hi' : i < (p.rows.map fun row => row ++ [p.clusters]).size := by
    rwa [Array.size_map, h.size]
  rw [heated, Array.getElem?_push_lt hi', ← Array.getElem?_eq_getElem, Array.getElem?_map,
    h.clusters]

theorem rows_heated_last (h : p.Plain n) (ids : List Nat) :
    (p.heated ids).rows[n]? = some (ascending (n :: ids)) := by
  rw [heated, Array.getElem?_push, Array.size_map, h.size, if_pos rfl, h.clusters]

/-- Every row is ascending, begins with what it held and ends, but for the last one, with the
temperature. -/
theorem exists_row_heated (h : p.Plain n) (ids : List Nat) {i : Nat} (hi : i < n) :
    ∃ row, p.rows[i]? = some row ∧ (p.heated ids).rows[i]? = some (row ++ [n]) ∧
      (row ++ [n]).Pairwise (· < ·) ∧ n ∉ row := by
  have hrow := Array.getElem?_eq_getElem (h.size.symm ▸ hi)
  obtain ⟨hsorted, -, hlt⟩ := h.row _ _ hrow
  refine ⟨_, hrow, by rw [h.rows_heated_lt ids hi, hrow]; rfl, ?_, fun hn => (hlt n hn).false⟩
  exact List.pairwise_append.mpr ⟨hsorted, List.pairwise_singleton _ _,
    fun j hj t ht => List.mem_singleton.mp ht ▸ hlt j hj⟩

theorem row_heated (h : p.Plain n) (hids : ∀ id ∈ ids, id ≤ n) {i : Nat} {row : List Nat}
    (hrow : (p.heated ids).rows[i]? = some row) :
    row.Pairwise (· < ·) ∧ i ∈ row ∧ n ∈ row ∧ ∀ j ∈ row, j ≤ n := by
  have hi : i < n + 1 := h.size_heated ids ▸ (Array.getElem?_eq_some_iff.mp hrow).1
  by_cases hlast : i = n
  · subst hlast
    obtain rfl := Option.some.inj (hrow.symm.trans (h.rows_heated_last ids))
    refine ⟨pairwise_ascending _, ?_, ?_, fun j hj => ?_⟩
    · simp [mem_ascending]
    · simp [mem_ascending]
    · rcases List.mem_cons.mp (mem_ascending.mp hj) with rfl | hj
      · exact le_rfl
      · exact hids j hj
  · obtain ⟨row', hrow', hheated, hsorted, -⟩ := h.exists_row_heated ids (show i < n by omega)
    obtain rfl := Option.some.inj (hrow.symm.trans hheated)
    obtain ⟨-, hdiagonal, hlt⟩ := h.row i row' hrow'
    refine ⟨hsorted, List.mem_append_left _ hdiagonal, by simp, fun j hj => ?_⟩
    rcases List.mem_append.mp hj with hj | hj
    · exact (hlt j hj).le
    · exact (List.mem_singleton.mp hj).le

section Step

theorem enableTemperature_eq (h : p.Plain n) : p.enableTemperature = p.heated [] := by
  have hrow : ascending [p.clusters] = [p.clusters] := by simp [ascending, putNew]
  rw [FillPattern.enableTemperature, if_neg (by simp [h.hasTemperature]), heated, hrow]

theorem enableTemperature_heated (p : FillPattern) (ids : List Nat) :
    (p.heated ids).enableTemperature = p.heated ids := if_pos rfl

/-- Coupling one degree of freedom changes the row of the temperature alone. -/
theorem link_heated (h : p.Plain n) (hids : ∀ id ∈ ids, id ≤ n) (id : Nat) :
    ((p.heated ids).link id n).link n id = p.heated (ids ++ [id]) := by
  have hcolumn : (p.heated ids).link id n = p.heated ids := by
    refine link_eq_self fun columns hcolumns => ?_
    obtain ⟨hsorted, -, hn, -⟩ := h.row_heated hids hcolumns
    exact ⟨hsorted, hn⟩
  have hrows : (p.heated ids).rows.modify n (insertSorted id) = (p.heated (ids ++ [id])).rows := by
    refine Array.ext_getElem? fun i => ?_
    rw [Array.getElem?_modify]
    by_cases hi : n = i
    · subst hi
      rw [if_pos rfl, h.rows_heated_last, h.rows_heated_last, Option.map_some,
        insertSorted_ascending, List.cons_append]
    · rw [if_neg hi]
      by_cases hlt : i < n
      · rw [h.rows_heated_lt _ hlt, h.rows_heated_lt _ hlt]
      · have hnone : ∀ ids, (p.heated ids).rows[i]? = none := by
          intro ids
          have hsize : (p.heated ids).rows.size = n + 1 := h.size_heated ids
          exact Array.getElem?_eq_none (by omega)
        rw [hnone, hnone]
  rw [hcolumn, FillPattern.link, hrows]
  rfl

theorem linkTemperature_cons (h : p.Plain n) (hids : ∀ id ∈ ids, id ≤ n) {id : Nat} (hid : id ≤ n)
    (more : List Nat) : (p.heated ids).linkTemperature (id :: more) =
      (p.heated (ids ++ [id])).linkTemperature more := by
  have hclusters : (p.heated ids).clusters = n := h.clusters
  have hrange : checkRange id (n + 1) = .ok () := checkRange_eq_ok_iff.mpr (by omega)
  rw [FillPattern.linkTemperature, h.size_heated, hrange]
  dsimp only
  rw [hclusters, h.link_heated hids]

theorem linkTemperature_heated (h : p.Plain n) (hids : ∀ id ∈ ids, id ≤ n) (more : List Nat) :
    ((p.heated ids).linkTemperature more).1 =
      p.heated (ids ++ more.takeWhile fun id => decide (id ≤ n)) := by
  induction more generalizing ids with
  | nil => simp [FillPattern.linkTemperature]
  | cons id more ih =>
    by_cases hid : id ≤ n
    · have hids' : ∀ k ∈ ids ++ [id], k ≤ n :=
        List.forall_mem_append.mpr ⟨hids, List.forall_mem_singleton.mpr hid⟩
      rw [h.linkTemperature_cons hids hid, ih hids', List.takeWhile_cons, decide_eq_true hid,
        if_pos rfl, List.append_assoc, List.singleton_append]
    · have hrange : checkRange id (n + 1) = .error ⟨id, n + 1⟩ := if_neg (by omega)
      rw [FillPattern.linkTemperature, h.size_heated, hrange, List.takeWhile_cons,
        decide_eq_false hid, if_neg Bool.false_ne_true, List.append_nil]

theorem linkTemperature_ok (h : p.Plain n) (hids : ∀ id ∈ ids, id ≤ n) {more : List Nat}
    (hmore : ∀ id ∈ more, id ≤ n) : ((p.heated ids).linkTemperature more).2 = .ok () := by
  induction more generalizing ids with
  | nil => rfl
  | cons id more ih =>
    obtain ⟨hid, hmore⟩ := List.forall_mem_cons.mp hmore
    have hids' : ∀ k ∈ ids ++ [id], k ≤ n :=
      List.forall_mem_append.mpr ⟨hids, List.forall_mem_singleton.mpr hid⟩
    rw [h.linkTemperature_cons hids hid]
    exact ih hids' hmore

end Step

section Run

theorem perform_eq (h : p.Plain n) (c : Call) : p.perform c = p.heated (c.coupled n) := by
  cases c with
  | enableTemperature => exact h.enableTemperature_eq
  | couple ids =>
    rw [FillPattern.perform, couple, h.enableTemperature_eq,
      h.linkTemperature_heated (List.forall_mem_nil _)]
    rfl

theorem perform_heated (h : p.Plain n) (hids : ∀ id ∈ ids, id ≤ n) (c : Call) :
    (p.heated ids).perform c = p.heated (ids ++ c.coupled n) := by
  cases c with
  | enableTemperature =>
    have hnone : Call.enableTemperature.coupled n = [] := rfl
    rw [FillPattern.perform, enableTemperature_heated, hnone, List.append_nil]
  | couple more =>
    rw [FillPattern.perform, couple, enableTemperature_heated, h.linkTemperature_heated hids]
    rfl

theorem performAll_heated (h : p.Plain n) (hids : ∀ id ∈ ids, id ≤ n) (calls : List Call) :
    (p.heated ids).performAll calls = p.heated (ids ++ calls.flatMap (Call.coupled n)) := by
  induction calls generalizing ids with
  | nil => rw [List.flatMap_nil, List.append_nil]; rfl
  | cons c calls ih =>
    have hids' : ∀ id ∈ ids ++ c.coupled n, id ≤ n :=
      List.forall_mem_append.mpr ⟨hids, fun _ => Call.le_of_mem_coupled⟩
    rw [List.flatMap_cons, ← List.append_assoc, ← ih hids', ← h.perform_heated hids]
    rfl

/-- After the first call the pattern is the one at the start with the temperature, to which all the
clusters named so far are coupled. -/
theorem performAll_eq (h : p.Plain n) {calls : List Call} (hcalls : calls ≠ []) :
    p.performAll calls = p.heated (calls.flatMap (Call.coupled n)) := by
  cases calls with
  | nil => exact absurd rfl hcalls
  | cons c calls =>
    rw [List.flatMap_cons, ← h.performAll_heated fun _ => Call.le_of_mem_coupled, ← h.perform_eq]
    rfl

theorem le_of_mem_flatMap_coupled {calls : List Call} :
    ∀ id ∈ calls.flatMap (Call.coupled n), id ≤ n := by
  intro id hid
  obtain ⟨c, -, hc⟩ := List.mem_flatMap.mp hid
  exact Call.le_of_mem_coupled hc

end Run

theorem has_heated_iff (h : p.Plain n) {i j : Nat} : (p.heated ids).Has i j ↔
    p.Has i j ∨ i < n ∧ j = n ∨ i = n ∧ (j = n ∨ j ∈ ids) := by
  rw [has_iff, has_iff]
  rcases Nat.lt_trichotomy i n with hi | rfl | hi
  · obtain ⟨row, hrow, hheated, -, -⟩ := h.exists_row_heated ids hi
    simp [hrow, hheated, hi, hi.ne]
  · have hnone : p.rows[i]? = none := Array.getElem?_eq_none h.size.le
    simp [h.rows_heated_last, mem_ascending, hnone]
  · have hnone : p.rows[i]? = none := Array.getElem?_eq_none (h.size.trans_le hi.le)
    have hsize : (p.heated ids).rows.size = n + 1 := h.size_heated ids
    have hnone' : (p.heated ids).rows[i]? = none := Array.getElem?_eq_none (by omega)
    simp [hnone, hnone', hi.ne', hi.not_gt]

section AfterCalls

variable {calls : List Call}

theorem size_performAll (h : p.Plain n) :
    (p.performAll calls).size = if calls = [] then n else n + 1 := by
  by_cases hcalls : calls = []
  · rw [if_pos hcalls, hcalls]
    exact h.size
  · rw [if_neg hcalls, h.performAll_eq hcalls, h.size_heated]

theorem temperature?_performAll (h : p.Plain n) :
    (p.performAll calls).temperature? = if calls = [] then none else some n := by
  by_cases hcalls : calls = []
  · rw [if_pos hcalls, hcalls]
    exact if_neg (by simp [FillPattern.performAll, h.hasTemperature])
  · rw [if_neg hcalls, h.performAll_eq hcalls, ← h.clusters]
    rfl

/-- Calls in any order keep the rows ascending, with their diagonal and the temperature. -/
theorem row_performAll (h : p.Plain n) {i : Nat} {row : List Nat}
    (hrow : (p.performAll calls).rows[i]? = some row) : row.Pairwise (· < ·) ∧ i ∈ row ∧
      (∀ t ∈ (p.performAll calls).temperature?, t ∈ row) ∧
      ∀ j ∈ row, j < (p.performAll calls).size := by
  rw [h.size_performAll, h.temperature?_performAll]
  by_cases hcalls : calls = []
  · subst hcalls
    obtain ⟨hsorted, hdiagonal, hlt⟩ := h.row i row hrow
    exact ⟨hsorted, hdiagonal, nofun, hlt⟩
  · rw [h.performAll_eq hcalls] at hrow
    obtain ⟨hsorted, hdiagonal, hn, hle⟩ := h.row_heated le_of_mem_flatMap_coupled hrow
    rw [if_neg hcalls, if_neg hcalls]
    refine ⟨hsorted, hdiagonal, fun t ht => ?_, fun j hj => Nat.lt_succ_of_le (hle j hj)⟩
    obtain rfl := Option.some.inj ht
    exact hn

/-- Clusters depend on each other as they do at the start. -/
theorem has_performAll_iff (h : p.Plain n) {a b : Nat} (ha : a < n) (hb : b < n) :
    (p.performAll calls).Has a b ↔ p.Has a b := by
  by_cases hcalls : calls = []
  · rw [hcalls]
    rfl
  · rw [h.performAll_eq hcalls, h.has_heated_iff]
    simp [hb.ne, ha.ne]

/-- A call that was made before, whichever came in between, changes nothing. -/
theorem perform_performAll (h : p.Plain n) {c : Call} (hc : c ∈ calls) :
    (p.performAll calls).perform c = p.performAll calls := by
  have hcalls : calls ≠ [] := List.ne_nil_of_mem hc
  have hsame : ascending (p.clusters :: (calls.flatMap (Call.coupled n) ++ c.coupled n)) =
      ascending (p.clusters :: calls.flatMap (Call.coupled n)) := by
    refine ascending_congr fun m => ?_
    have hmem : m ∈ c.coupled n → m ∈ calls.flatMap (Call.coupled n) := fun hm =>
      List.mem_flatMap.mpr ⟨c, hc, hm⟩
    simp only [List.mem_cons, List.mem_append]
    tauto
  rw [h.performAll_eq hcalls, h.perform_heated le_of_mem_flatMap_coupled, heated, heated, hsame]

end AfterCalls

end Plain

theorem ofReactions?_eq_ok_iff (h : ∀ r ∈ rs, ∀ i ∈ r.participants, i < n) :
    ofReactions? n rs = .ok p ↔ p = ofReactions n rs ∧ n * 3 ≤ tableLimit := by
  have hranges : (rs.forM fun r => r.participants.forM fun a => checkRange a n) = .ok () :=
    forM_eq_ok_iff.mpr fun r hr => forM_eq_ok_iff.mpr fun a ha =>
      checkRange_eq_ok_iff.mpr (h r hr a ha)
  rw [ofReactions?, bind_unit_eq_ok_iff, bind_unit_eq_ok_iff, checkRoom_eq_ok_iff]
  constructor
  · rintro ⟨hroom, -, hp⟩
    exact ⟨(Except.ok.inj hp).symm, hroom⟩
  · rintro ⟨rfl, hroom⟩
    exact ⟨hroom, hranges, rfl⟩

/-- What a pattern of `n` clusters and of reactions among them has to be after calls. -/
structure Grown (p : FillPattern) (n : Nat) (rs : List (Reaction K)) (calls : List Call) : Prop where
  row : ∀ i row, p.row i = .ok row → row.Pairwise (· < ·) ∧ i ∈ row
  reacting : ∀ a < n, ∀ b < n, a ≠ b →
    (p.Has a b ↔ ∃ r ∈ rs, a ∈ r.participants ∧ b ∈ r.participants)
  symmetric : ∀ a < n, ∀ b < n, p.Has a b → p.Has b a
  size : p.size = if calls = [] then n else n + 1
  lt_size : ∀ i j, p.Has i j → j < p.size
  /-- The temperature is the last column of every cluster and no other one of it. -/
  temperature_column : calls ≠ [] → ∀ a < n, ∃ row, p.row a = .ok (row ++ [n]) ∧ n ∉ row
  temperature_row : calls ≠ [] → ∃ row, p.row n = .ok row ∧
    ∀ j, j ∈ row ↔ j = n ∨ ∃ c ∈ calls, j ∈ c.ids
  repeated : ∀ c ∈ calls, p.perform c = p

section Grown

variable {a b : Nat} {calls : List Call}

theorem has_ofReactions_iff (ha : a < n) : (ofReactions n rs).Has a b ↔
    b = a ∨ ∃ r ∈ rs, a ∈ r.participants ∧ b ∈ r.participants := by
  obtain ⟨row, hrow, -, hmem⟩ := exists_row_ofReactions rs ha
  rw [has_iff, hrow]
  simp [hmem]

theorem grown_performAll (h : (ofReactions n rs).Plain n)
    (hcalls : ∀ c ∈ calls, ∀ id ∈ c.ids, id < n) :
    ((ofReactions n rs).performAll calls).Grown n rs calls := by
  have hreacting : ∀ a < n, ∀ b < n, ((ofReactions n rs).performAll calls).Has a b ↔
      b = a ∨ ∃ r ∈ rs, a ∈ r.participants ∧ b ∈ r.participants := fun a ha b hb =>
    (h.has_performAll_iff ha hb).trans (has_ofReactions_iff ha)
  have hcoupled : ∀ j, j ∈ calls.flatMap (Call.coupled n) ↔ ∃ c ∈ calls, j ∈ c.ids := by
    intro j
    rw [List.mem_flatMap]
    refine exists_congr fun c => and_congr_right fun hc => ?_
    rw [Call.coupled_eq_ids (hcalls c hc)]
  constructor
  case row =>
    intro i row hrow
    obtain ⟨hsorted, hdiagonal, -⟩ := h.row_performAll (entryAt_eq_ok_iff.mp hrow)
    exact ⟨hsorted, hdiagonal⟩
  case reacting =>
    intro a ha b hb hab
    rw [hreacting a ha b hb, or_iff_right (Ne.symm hab)]
  case symmetric =>
    intro a ha b hb hab
    rcases (hreacting a ha b hb).mp hab with rfl | ⟨r, hr, hra, hrb⟩
    · exact hab
    · exact (hreacting b hb a ha).mpr (.inr ⟨r, hr, hrb, hra⟩)
  case size => exact h.size_performAll
  case lt_size =>
    rintro i j ⟨row, hrow, hj⟩
    exact (h.row_performAll (entryAt_eq_ok_iff.mp hrow)).2.2.2 j hj
  case temperature_column =>
    intro hne a ha
    obtain ⟨row, -, hrow, -, hn⟩ := h.exists_row_heated (calls.flatMap (Call.coupled n)) ha
    exact ⟨row, by rw [h.performAll_eq hne]; exact entryAt_eq_ok_iff.mpr hrow, hn⟩
  case temperature_row =>
    intro hne
    rw [h.performAll_eq hne]
    refine ⟨_, entryAt_eq_ok_iff.mpr (h.rows_heated_last _), fun j => ?_⟩
    rw [mem_ascending, List.mem_cons, hcoupled]
  case repeated => exact fun c hc => h.perform_performAll hc

theorem Plain.couple_ok (h : p.Plain n) {ids : List Nat} (hids : ∀ id ∈ ids, id < n) :
    ((p.performAll calls).couple ids).2 = .ok () := by
  have hids' : ∀ id ∈ ids, id ≤ n := fun id hid => (hids id hid).le
  by_cases hnil : calls = []
  · subst hnil
    change (p.enableTemperature.linkTemperature ids).2 = _
    rw [h.enableTemperature_eq]
    exact h.linkTemperature_ok (List.forall_mem_nil _) hids'
  · rw [h.performAll_eq hnil, couple, Plain.enableTemperature_heated]
    exact h.linkTemperature_ok Plain.le_of_mem_flatMap_coupled hids'

end Grown

/-- The pattern of any reactions among `n` clusters, and the patterns after any calls that couple
clusters to the temperature, none of which fails: the rows stay ascending, clusters depend on those
that they react with, and each row of theirs ends with the temperature from the first call on. A
call made again changes nothing. The pattern is there if a table of its rows has room. -/
theorem grown_after_calls (h : ∀ r ∈ rs, ∀ i ∈ r.participants, i < n) :
    (∀ p, ofReactions? n rs = .ok p ↔ p = ofReactions n rs ∧ n * 3 ≤ tableLimit) ∧
      ∀ calls : List Call, (∀ c ∈ calls, ∀ id ∈ c.ids, id < n) →
        let p := (ofReactions n rs).performAll calls
        p.Grown n rs calls ∧ ∀ ids, (∀ id ∈ ids, id < n) → (p.couple ids).2 = .ok () := by
  have hplain : (ofReactions n rs).Plain n := .ofReactions h
  refine ⟨fun p => ofReactions?_eq_ok_iff h, fun calls hcalls => ?_⟩
  exact ⟨grown_performAll hplain hcalls, fun ids hids => hplain.couple_ok hids⟩

/-- A merger and an absorption among four clusters, and calls that name a cluster twice. -/
theorem grown_after_calls_merger :
    let p := (ofReactions 4 [.production 0 1 3 (0.5 : Float), .sink 2]).performAll
      [.couple [1], .enableTemperature, .couple [3, 1]]
    p.size = 5 ∧ p.Has 0 3 ∧ ¬p.Has 0 2 ∧ p.perform (.couple [1]) = p ∧
      ∃ row, p.row 4 = .ok row ∧ ∀ j, j ∈ row ↔ j = 4 ∨ j = 1 ∨ j = 3 := by
  obtain ⟨-, hcalls⟩ :=
    @grown_after_calls Float 4 [.production 0 1 3 0.5, .sink 2] (by decide)
  obtain ⟨hgrown, -⟩ := hcalls [.couple [1], .enableTemperature, .couple [3, 1]] (by decide)
  have hreacting := hgrown.reacting 0 (by decide)
  refine ⟨hgrown.size, ?_, ?_, hgrown.repeated _ (by simp), ?_⟩
  · exact (hreacting 3 (by decide) (by decide)).mpr ⟨_, List.mem_cons_self, by decide, by decide⟩
  · rw [hreacting 2 (by decide) (by decide)]
    decide
  · obtain ⟨row, hrow, hmem⟩ := hgrown.temperature_row (by simp)
    refine ⟨row, hrow, fun j => ?_⟩
    rw [hmem]
    simp only [List.mem_cons, List.not_mem_nil, or_false, exists_eq_or_imp, exists_eq_left,
      Call.ids]
    tauto

end FillPattern

end ClusterDynamics
