import ClusterDynamics.Calibration.Surrogate
import ClusterDynamics.Proofs.OutOfRange
import Mathlib.Data.List.Lex
import Mathlib.Data.Nat.Choose.Sum

/-! The terms up to a total degree. Every multi-index with at most that sum is listed once, by
increasing sum and then by decreasing entries from the first one on, and the same list comes from
an enumeration that keeps the entries chosen so far in one buffer. -/

namespace ClusterDynamics

open Finset (range)

section Sums

variable {parts total : Nat} {m : List Nat}

/-- One number is no exception: it is the total, and then nothing is left to be written as no
numbers. -/
theorem sumsOf_succ (parts total : Nat) :
    sumsOf (parts + 1) total = (List.range (total + 1)).reverse.flatMap fun first =>
      (sumsOf parts (total - first)).map (first :: ·) := by
  cases parts with
  | succ parts => rfl
  | zero =>
    have hless : (List.range total).reverse.flatMap (fun first =>
        (sumsOf 0 (total - first)).map (first :: ·)) = [] := by
      refine List.flatMap_eq_nil_iff.mpr fun first hfirst => ?_
      have hlt : first < total := List.mem_range.mp (List.mem_reverse.mp hfirst)
      rw [sumsOf, if_neg (by omega), List.map_nil]
    rw [List.range_succ, List.reverse_append, List.flatMap_append, hless]
    simp [sumsOf]

theorem mem_sumsOf_iff : m ∈ sumsOf parts total ↔ m.length = parts ∧ m.sum = total := by
  induction parts generalizing total m with
  | zero =>
    rw [sumsOf]
    split_ifs with h
    · subst h
      simp +contextual
    · simp only [List.not_mem_nil, List.length_eq_zero_iff, false_iff]
      rintro ⟨rfl, hsum⟩
      exact h hsum.symm
  | succ parts ih =>
    simp only [sumsOf_succ, List.mem_flatMap, List.mem_reverse, List.mem_range, List.mem_map, ih]
    constructor
    · rintro ⟨first, hfirst, rest, ⟨hlength, hsum⟩, rfl⟩
      refine ⟨by rw [List.length_cons, hlength], ?_⟩
      rw [List.sum_cons]
      omega
    · rintro ⟨hlength, hsum⟩
      cases m with
      | nil => cases hlength
      | cons first rest =>
        rw [List.sum_cons] at hsum
        exact ⟨first, by omega, rest, ⟨Nat.succ.inj hlength, by omega⟩, rfl⟩

theorem pairwise_sumsOf (parts total : Nat) :
    (sumsOf parts total).Pairwise fun m m' => m' < m := by
  induction parts generalizing total with
  | zero =>
    rw [sumsOf]
    split_ifs
    · exact List.pairwise_singleton _ _
    · exact .nil
  | succ parts ih =>
    rw [sumsOf_succ, List.pairwise_flatMap]
    refine ⟨fun first _ => ?_, ?_⟩
    · rw [List.pairwise_map]
      refine (ih (total - first)).imp fun hlt => ?_
      exact List.cons_lt_cons_iff.mpr (.inr ⟨rfl, hlt⟩)
    · rw [List.pairwise_reverse]
      refine List.pairwise_lt_range.imp fun hlt m hm m' hm' => ?_
      obtain ⟨_, -, rfl⟩ := List.mem_map.mp hm
      obtain ⟨_, -, rfl⟩ := List.mem_map.mp hm'
      exact List.cons_lt_cons_iff.mpr (.inl hlt)

theorem length_sumsOf (parts total : Nat) :
    (sumsOf parts total).length = parts.multichoose total := by
  induction parts generalizing total with
  | zero => cases total <;> simp [sumsOf]
  | succ parts ih =>
    calc (sumsOf (parts + 1) total).length
        = ∑ first ∈ range (total + 1), parts.multichoose (total - first) := by
          simp only [sumsOf_succ, List.length_flatMap, List.length_map, ih, List.map_reverse,
            List.sum_reverse]
          rfl
      _ = ∑ rest ∈ range (total + 1), parts.multichoose rest :=
          Finset.sum_range_reflect _ (total + 1)
      _ = (total + parts).choose parts := Nat.sum_range_multichoose total parts
      _ = (total + parts).choose total := Nat.choose_symm_add.symm
      _ = (parts + 1).multichoose total := by
          rw [Nat.multichoose_eq, Nat.add_right_comm, Nat.add_sub_cancel, Nat.add_comm]

end Sums

section Buffer

/-- The entries chosen so far, and the multi-indices listed so far. -/
structure Listing where
  chosen : List Nat
  listed : List (List Nat)

namespace Listing

def push (l : Listing) (n : Nat) : Listing := { l with chosen := l.chosen ++ [n] }

def pop (l : Listing) : Listing := { l with chosen := l.chosen.dropLast }

/-- List the entries chosen so far. -/
def record (l : Listing) : Listing := { l with listed := l.listed ++ [l.chosen] }

/-- List everything that continues the entries chosen so far by `parts` numbers with the sum
`total`. -/
def recordSums : (parts total : Nat) → Listing → Listing
  | 0, total, l => if total = 0 then l.record else l
  | 1, total, l => (l.push total).record.pop
  | parts + 2, total, l =>
    (List.range (total + 1)).reverse.foldl (fun l first =>
      (recordSums (parts + 1) (total - first) (l.push first)).pop) l

/-- The multi-indices up to a total degree, from an empty buffer for every sum. -/
def upTo (inputs degree : Nat) : List (List Nat) :=
  (List.range (degree + 1)).foldl
    (fun listed total => (recordSums inputs total ⟨[], listed⟩).listed) []

theorem foldl_choices {fill : Nat → Listing → Listing} {sums : Nat → List (List Nat)}
    (h : ∀ first l,
      fill first l = { l with listed := l.listed ++ (sums first).map (l.chosen ++ ·) })
    (firsts : List Nat) (l : Listing) :
    firsts.foldl (fun l first => (fill first (l.push first)).pop) l =
      { l with
        listed := l.listed ++ (firsts.flatMap fun first => (sums first).map (first :: ·)).map
          (l.chosen ++ ·) } := by
  induction firsts generalizing l with
  | nil => simp
  | cons first firsts ih =>
    have hstep : (fill first (l.push first)).pop =
        { l with listed := l.listed ++ (sums first).map (l.chosen ++ first :: ·) } := by
      rw [h]
      simp [push, pop]
    rw [List.foldl_cons, hstep, ih]
    simp

/-- The buffer is as it was before, and the sums are listed behind what it held. -/
theorem recordSums_eq (parts total : Nat) (l : Listing) :
    l.recordSums parts total =
      { l with listed := l.listed ++ (sumsOf parts total).map (l.chosen ++ ·) } := by
  induction parts generalizing total l with
  | zero =>
    rw [recordSums, sumsOf]
    split_ifs <;> simp [record]
  | succ parts ih =>
    cases parts with
    | zero => simp [recordSums, sumsOf, push, pop, record]
    | succ parts => exact foldl_choices (fun first l => ih (total - first) l) _ l

theorem upTo_eq (inputs degree : Nat) :
    upTo inputs degree = (List.range (degree + 1)).flatMap (sumsOf inputs) := by
  unfold upTo
  induction degree + 1 with
  | zero => rfl
  | succ n ih =>
    rw [List.range_succ, List.foldl_append, ih, List.flatMap_append]
    simp [recordSums_eq]

end Listing

end Buffer

namespace Surrogate

variable {basis : Basis} {inputs degree : Nat} {m : List Nat}

/-- Without coordinates there is nothing to list at a higher degree than zero. -/
theorem multiIndices_ofTotalDegree (basis : Basis) (inputs degree : Nat) :
    (ofTotalDegree basis inputs degree).multiIndices =
      (List.range (degree + 1)).flatMap (sumsOf inputs) := by
  cases inputs with
  | succ inputs => rfl
  | zero =>
    have hhigher : ∀ n, sumsOf 0 (n + 1) = [] := fun _ => rfl
    rw [List.range_succ_eq_map, List.flatMap_cons, List.flatMap_map]
    simp [ofTotalDegree, hhigher]

theorem mem_multiIndices_ofTotalDegree :
    m ∈ (ofTotalDegree basis inputs degree).multiIndices ↔ m.length = inputs ∧ m.sum ≤ degree := by
  simp only [multiIndices_ofTotalDegree, List.mem_flatMap, List.mem_range, mem_sumsOf_iff,
    Nat.lt_succ_iff]
  constructor
  · rintro ⟨total, htotal, hlength, rfl⟩
    exact ⟨hlength, htotal⟩
  · rintro ⟨hlength, hsum⟩
    exact ⟨m.sum, hsum, hlength, rfl⟩

theorem pairwise_ofTotalDegree (basis : Basis) (inputs degree : Nat) :
    (ofTotalDegree basis inputs degree).multiIndices.Pairwise fun m m' =>
      m.sum < m'.sum ∨ m.sum = m'.sum ∧ m' < m := by
  rw [multiIndices_ofTotalDegree, List.pairwise_flatMap]
  refine ⟨fun total _ => ?_, List.pairwise_lt_range.imp fun hlt m hm m' hm' => .inl ?_⟩
  · refine (pairwise_sumsOf inputs total).imp_of_mem fun hm hm' hlt => .inr ⟨?_, hlt⟩
    rw [(mem_sumsOf_iff.mp hm).2, (mem_sumsOf_iff.mp hm').2]
  · rwa [(mem_sumsOf_iff.mp hm).2, (mem_sumsOf_iff.mp hm').2]

theorem nodup_ofTotalDegree (basis : Basis) (inputs degree : Nat) :
    (ofTotalDegree basis inputs degree).multiIndices.Nodup := by
  refine (pairwise_ofTotalDegree basis inputs degree).imp fun h => ?_
  rintro rfl
  exact h.elim (lt_irrefl _) fun h => lt_irrefl _ h.2

theorem parameters_ofTotalDegree (basis : Basis) (inputs degree : Nat) :
    (ofTotalDegree basis inputs degree).parameters = (inputs + degree).choose degree := by
  calc (ofTotalDegree basis inputs degree).parameters
      = ∑ total ∈ range (degree + 1), inputs.multichoose total := by
        simp only [parameters, multiIndices_ofTotalDegree, List.length_flatMap, length_sumsOf]
        rfl
    _ = (degree + inputs).choose inputs := Nat.sum_range_multichoose degree inputs
    _ = (inputs + degree).choose degree := by rw [Nat.add_comm, Nat.choose_symm_add]

theorem le_maxDegree_ofTotalDegree (hm : m ∈ (ofTotalDegree basis inputs degree).multiIndices)
    {n : Nat} (hn : n ∈ m) : n ≤ (ofTotalDegree basis inputs degree).maxDegree := by
  obtain ⟨hlength, hsum⟩ := mem_multiIndices_ofTotalDegree.mp hm
  have hinputs : inputs ≠ 0 := by
    rintro rfl
    rw [List.length_eq_zero_iff.mp hlength] at hn
    cases hn
  calc n ≤ m.sum := List.le_sum_of_mem hn
    _ ≤ degree := hsum
    _ = _ := (if_neg hinputs).symm

/-- Where there is room for an entry per coordinate, the expansion up to a total degree has every
multi-index of that degree once and no other, by increasing sum and then in decreasing order; an
enumeration that keeps its choices in one buffer lists the same. Their number is a binomial
coefficient, and polynomials are tabulated up to all their entries. -/
theorem total_degree_terms (basis : Basis) (inputs degree : Nat) :
    let s := ofTotalDegree basis inputs degree
    (ofTotalDegree? basis inputs degree =
      if inputs ≤ tableLimit then .ok s else .error ⟨inputs, tableLimit⟩) ∧
    s.inputs = inputs ∧ s.multiIndices = Listing.upTo inputs degree ∧
    (∀ m, m ∈ s.multiIndices ↔ m.length = inputs ∧ m.sum ≤ degree) ∧ s.multiIndices.Nodup ∧
    s.multiIndices.Pairwise (fun m m' => m.sum < m'.sum ∨ m.sum = m'.sum ∧ m' < m) ∧
    s.parameters = (inputs + degree).choose degree ∧
    ∀ m ∈ s.multiIndices, ∀ n ∈ m, n ≤ s.maxDegree := by
  refine ⟨?_, rfl, ?_, fun m => mem_multiIndices_ofTotalDegree,
    nodup_ofTotalDegree basis inputs degree, pairwise_ofTotalDegree basis inputs degree,
    parameters_ofTotalDegree basis inputs degree, fun m hm n hn => le_maxDegree_ofTotalDegree hm hn⟩
  · unfold ofTotalDegree? ClusterDynamics.checkRoom
    rw [Nat.mul_one]
    split_ifs <;> rfl
  · rw [multiIndices_ofTotalDegree, Listing.upTo_eq]

/-- For `2 ^ 60` coordinates there is no room for even the constant term. -/
theorem ofTotalDegree?_without_room :
    ofTotalDegree? .legendre 1152921504606846976 0 =
      .error ⟨1152921504606846976, tableLimit⟩ := rfl

/-- The terms of two coordinates up to the second degree. -/
example : (ofTotalDegree .hermite 2 2).multiIndices =
    [[0, 0], [1, 0], [0, 1], [2, 0], [1, 1], [0, 2]] := rfl

end Surrogate

end ClusterDynamics
