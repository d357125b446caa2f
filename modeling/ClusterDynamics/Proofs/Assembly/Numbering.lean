import ClusterDynamics.Proofs.Assembly.Lowering
import ClusterDynamics.Proofs.Network.Coupling

/-! The entries of a fill pattern are numbered: a block has one position for each of them and no
other, row by row and in each row by increasing column. A network's own pattern, after any calls,
has an entry for every derivative of its reactions, so it can always be assembled. -/

namespace ClusterDynamics

open Reported

namespace FillPattern

/-- Every row lists its columns in ascending order. -/
def Ascends (p : FillPattern) : Prop :=
  ∀ (i : Nat) (row : List Nat), p.rows[i]? = some row → row.Pairwise (· < ·)

end FillPattern

namespace SparseBlock

variable {K : Type} {p : FillPattern} {row column row' column' i i' : Nat}

/-- The positions of a block are those of a pattern's entries. -/
structure Numbers (b : SparseBlock K) (p : FillPattern) : Prop where
  columns : b.columns.size = p.entryCount
  values : b.values.size = p.entryCount
  position : ∀ row column, p.Has row column → ∃ i < p.entryCount, b.position? row column = some i
  none : ∀ row column, ¬p.Has row column → b.position? row column = none
  place : ∀ i < p.entryCount, ∃! y : Nat × Nat, b.position? y.1 y.2 = some i
  increasing : ∀ {row column row' column' i i'}, b.position? row column = some i →
    b.position? row' column' = some i' → (i < i' ↔ row < row' ∨ row = row' ∧ column < column')

section RowStart

theorem rowStart_mono (p : FillPattern) (h : row ≤ row') : rowStart p row ≤ rowStart p row' :=
  List.monotone_sum_take _ h

theorem rowStart_size (p : FillPattern) : rowStart p p.rows.size = p.entryCount := by
  rw [FillPattern.entryCount_eq, rowStart, List.take_of_length_le (by simp)]

/-- Each position below the start of a row lies in one of the rows before it. -/
theorem exists_row_of_lt_rowStart (h : i < rowStart p row) :
    ∃ r < row, rowStart p r ≤ i ∧ i < rowStart p (r + 1) := by
  induction row with
  | zero => exact absurd h (Nat.not_lt_zero i)
  | succ row ih =>
    by_cases hi : i < rowStart p row
    · obtain ⟨r, hr, hwithin⟩ := ih hi
      exact ⟨r, Nat.lt_succ_of_lt hr, hwithin⟩
    · exact ⟨row, Nat.lt_succ_self row, Nat.not_lt.mp hi, h⟩

end RowStart

variable [Scalar K]

theorem position?_ofPattern_iff (hp : p.Ascends) :
    (ofPattern p : SparseBlock K).position? row column = some i ↔
      ∃ columns k, p.rows[row]? = some columns ∧ columns[k]? = some column ∧
        i = rowStart p row + k := by
  constructor
  · intro h
    obtain ⟨⟨first, stop, hfirst, hstop, hle, hlt⟩, hcolumn⟩ := holds_of_position? h
    have hrow : row < p.rows.size := by
      have hlength := lt_length_of_getElem?_runningTotals hstop
      simpa using hlength
    have hget := Array.getElem?_eq_getElem hrow
    obtain rfl := Option.some.inj (hfirst.symm.trans (getElem?_starts_ofPattern hrow.le))
    obtain rfl := Option.some.inj (hstop.symm.trans (getElem?_starts_ofPattern hrow))
    rw [rowStart_succ hget] at hlt
    obtain ⟨k, rfl⟩ := Nat.exists_eq_add_of_le hle
    refine ⟨_, k, hget, ?_, rfl⟩
    rw [← getElem?_columns_ofPattern (K := K) hget (by omega)]
    exact hcolumn
  · rintro ⟨columns, k, hrow, hk, rfl⟩
    exact position?_ofPattern hrow (hp row columns hrow) hk

theorem position?_lt (hp : p.Ascends)
    (h : (ofPattern p : SparseBlock K).position? row column = some i)
    (h' : (ofPattern p : SparseBlock K).position? row' column' = some i')
    (hlt : row < row' ∨ row = row' ∧ column < column') : i < i' := by
  obtain ⟨columns, k, hrow, hk, rfl⟩ := (position?_ofPattern_iff hp).mp h
  obtain ⟨columns', k', hrow', hk', rfl⟩ := (position?_ofPattern_iff hp).mp h'
  obtain ⟨hlength, hcolumn⟩ := List.getElem?_eq_some_iff.mp hk
  obtain ⟨hlength', hcolumn'⟩ := List.getElem?_eq_some_iff.mp hk'
  rcases hlt with hlt | ⟨rfl, hlt⟩
  · have hnext := rowStart_succ hrow
    have hmono := rowStart_mono p (show row + 1 ≤ row' from hlt)
    omega
  · obtain rfl := Option.some.inj (hrow.symm.trans hrow')
    have hsorted := List.pairwise_iff_getElem.mp (hp row columns hrow)
    rcases Nat.lt_trichotomy k k' with hkk | rfl | hkk
    · omega
    · omega
    · have hgt := hsorted k' k hlength' hlength hkk
      omega

theorem has_iff_exists_position? (hp : p.Ascends) : p.Has row column ↔
    ∃ i, (ofPattern p : SparseBlock K).position? row column = some i := by
  simp only [position?_ofPattern_iff hp, FillPattern.has_iff]
  constructor
  · rintro ⟨columns, hrow, hcolumn⟩
    obtain ⟨k, hk⟩ := List.mem_iff_getElem?.mp hcolumn
    exact ⟨_, columns, k, hrow, hk, rfl⟩
  · rintro ⟨i, columns, k, hrow, hk, rfl⟩
    exact ⟨columns, hrow, List.mem_of_getElem? hk⟩

/-- Where the rows of a pattern ascend, its block has a position for each of its entries. -/
theorem numbers_ofPattern (hp : p.Ascends) : (ofPattern p : SparseBlock K).Numbers p := by
  have hpartitioned := partitioned_ofPattern (K := K) p
  have hvalues : (ofPattern p : SparseBlock K).values.size = p.entryCount := Array.size_replicate
  have hincreasing : ∀ {row column row' column' i i'},
      (ofPattern p : SparseBlock K).position? row column = some i →
      (ofPattern p : SparseBlock K).position? row' column' = some i' →
      (i < i' ↔ row < row' ∨ row = row' ∧ column < column') := by
    intro row column row' column' i i' h h'
    refine ⟨fun hlt => ?_, position?_lt hp h h'⟩
    have hnot : ¬(row' < row ∨ row' = row ∧ column' < column) := fun hgt =>
      hlt.not_gt (position?_lt hp h' h hgt)
    have hne : ¬(row = row' ∧ column = column') := by
      rintro ⟨rfl, rfl⟩
      exact hlt.ne (Option.some.inj (h.symm.trans h'))
    omega
  constructor
  case columns => exact hpartitioned.columns_size.trans hvalues
  case values => exact hvalues
  case position =>
    intro row column h
    obtain ⟨i, hi⟩ := (has_iff_exists_position? (K := K) hp).mp h
    exact ⟨i, (holds_of_position? hi).lt_entryCount hpartitioned |>.trans_eq hvalues, hi⟩
  case none =>
    intro row column h
    rw [has_iff_exists_position? (K := K) hp] at h
    exact Option.eq_none_iff_forall_ne_some.mpr fun i hi => h ⟨i, hi⟩
  case place =>
    intro i hi
    obtain ⟨row, hrow, hle, hlt⟩ := exists_row_of_lt_rowStart ((rowStart_size p).symm ▸ hi)
    have hget := Array.getElem?_eq_getElem hrow
    rw [rowStart_succ hget] at hlt
    have hk : i - rowStart p row < p.rows[row].length := by omega
    have hposition := (position?_ofPattern_iff (K := K) hp (i := i)).mpr
      ⟨_, _, hget, List.getElem?_eq_getElem hk, by omega⟩
    refine ⟨(row, _), hposition, fun y hy => ?_⟩
    have hbelow := (hincreasing hy hposition).not.mp (lt_irrefl i)
    have habove := (hincreasing hposition hy).not.mp (lt_irrefl i)
    refine Prod.ext ?_ ?_ <;> dsimp only <;> omega
  case increasing => exact hincreasing

end SparseBlock

namespace Network.BuiltFrom

variable {K : Type} [Scalar K] {net : Network K} {spec : NetworkSpec K}

theorem plain (h : net.BuiltFrom spec) : net.pattern.Plain net.size := by
  have hplain : (FillPattern.ofReactions net.paving.size net.reactions.toList).Plain
      net.paving.size :=
    .ofReactions fun r hr i hi => (h.lt_size_of_mem_participants hr hi).trans_eq h.size_eq
  rw [h.pattern, h.size_eq]
  exact hplain

theorem ascends_performAll (h : net.BuiltFrom spec) (calls : List FillPattern.Call) :
    (net.pattern.performAll calls).Ascends := fun _ _ hrow => (h.plain.row_performAll hrow).1

/-- What a derivative of a reaction needs: its row depends on all that takes part, and on the
temperature where there is one. -/
theorem has_performAll (h : net.BuiltFrom spec) {calls : List FillPattern.Call} {r : Reaction K}
    (hr : r ∈ net.reactions.toList) {row column : Nat} (hrow : row ∈ r.participants)
    (hcolumn : column ∈ r.participants ++ (net.pattern.performAll calls).temperature?.toList) :
    (net.pattern.performAll calls).Has row column := by
  have hlt : ∀ {i}, i ∈ r.participants → i < net.size := h.lt_size_of_mem_participants hr
  have hsize : net.size ≤ (net.pattern.performAll calls).size := by
    rw [h.plain.size_performAll]
    split_ifs <;> omega
  rcases List.mem_append.mp hcolumn with hcolumn | hcolumn
  · rw [h.plain.has_performAll_iff (hlt hrow) (hlt hcolumn), h.pattern]
    have hrow' := (hlt hrow).trans_eq h.size_eq
    exact (FillPattern.has_ofReactions_iff hrow').mpr (.inr ⟨r, hr, hrow, hcolumn⟩)
  · have hget := Array.getElem?_eq_getElem (lt_of_lt_of_le (hlt hrow) hsize)
    obtain ⟨-, -, htemperature, -⟩ := h.plain.row_performAll hget
    exact FillPattern.has_iff.mpr ⟨_, hget, htemperature _ (Option.mem_toList.mp hcolumn)⟩

/-- A built network can be assembled for its pattern after any calls. -/
theorem exists_assembly (h : net.BuiltFrom spec) (calls : List FillPattern.Call) :
    ∃ a, Assembly.ofNetwork net (net.pattern.performAll calls) = .ok a :=
  Assembly.exists_ofNetwork fun _ hr _ hrow _ hcolumn =>
    (SparseBlock.has_iff_exists_position? (h.ascends_performAll calls)).mp
      (h.has_performAll hr hrow hcolumn)

end Network.BuiltFrom

/-- However the pattern of a built network was coupled to the temperature, the positions of a block
are its entries in order, and every reaction of the network finds the entries of its derivatives. -/
theorem SparseBlock.numbers_after_calls {K : Type} [Scalar K] {spec : NetworkSpec K}
    {net : Network K} (hnet : (Network.build spec).value = .ok net)
    (calls : List FillPattern.Call) :
    let p := net.pattern.performAll calls
    (ofPattern p : SparseBlock K).Numbers p ∧
      ∃ a, (Assembly.build net p).value = .ok a ∧ a.template = ofPattern p ∧
        List.Forall₂ (fun r t => Term.ofReaction a.template p.temperature? r = .ok t)
          net.reactions.toList a.terms.toList ∧
        ∀ t ∈ a.terms.toList, ∀ c ∈ t.changes, c.Placed a.template p.temperature? t.factors := by
  intro p
  have h := Network.builtFrom_of_build hnet
  obtain ⟨a, ha⟩ := h.exists_assembly calls
  obtain ⟨-, hterms⟩ := Assembly.ofNetwork_eq_ok ha
  refine ⟨numbers_ofPattern (h.ascends_performAll calls), a,
    value_eq_ok_iff.mpr (exists_returns_logged_iff.mpr ha), Assembly.ofNetwork_template ha, hterms,
    fun t ht => ?_⟩
  obtain ⟨r, -, hr⟩ := exists_mem_of_forall₂ hterms.flip ht
  exact Term.placed_of_ofReaction hr

/-- Two xenon clusters, the first of which is coupled to the temperature. -/
theorem SparseBlock.numbers_after_calls_xenon :
    ∃ net, (Network.build (NetworkSpec.xenon 2 : NetworkSpec ℝ)).value = .ok net ∧
      let p := net.pattern.performAll [.couple [0], .enableTemperature]
      (∃ i < p.entryCount, (ofPattern p : SparseBlock ℝ).position? 2 0 = some i) ∧
        (ofPattern p : SparseBlock ℝ).position? 2 1 = none ∧
        ∃ a, (Assembly.build net p).value = .ok a := by
  obtain ⟨net, hnet, hsize⟩ := Network.exists_build_xenon
  have hb := Network.builtFrom_of_build hnet
  obtain ⟨hnumbers, a, ha, -⟩ := numbers_after_calls hnet [.couple [0], .enableTemperature]
  have hlast : ∀ j, (net.pattern.performAll [.couple [0], .enableTemperature]).Has 2 j ↔
      j = 2 ∨ j = 0 := by
    intro j
    have hp := hb.plain
    rw [hsize] at hp
    rw [hp.performAll_eq (List.cons_ne_nil _ _), FillPattern.has_iff, hp.rows_heated_last]
    simp [mem_ascending, FillPattern.Call.coupled, FillPattern.Call.ids]
  exact ⟨net, hnet, hnumbers.position 2 0 ((hlast 0).mpr (.inr rfl)),
    hnumbers.none 2 1 ((hlast 1).not.mpr (by decide)), a, ha⟩

end ClusterDynamics
