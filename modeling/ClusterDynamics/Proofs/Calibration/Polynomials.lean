import ClusterDynamics.Calibration.Surrogate
import ClusterDynamics.Proofs.OutOfRange
import ClusterDynamics.Proofs.Real
import Mathlib.Algebra.BigOperators.Field
import Mathlib.Data.Nat.Choose.Cast

/-! The polynomials that the recurrences give. In exact arithmetic they are the classical ones: each
recurrence holds for the single powers of the explicit sums. A table has the polynomials of all its
degrees, also if it is filled in place in a buffer that was used before. -/

namespace ClusterDynamics

open Finset (range)
open scoped Nat

section Explicit

/-- The sum of the terms `u m k` of a degree `2 * m + k`. -/
def sumOfTerms (u : Nat → Nat → ℝ) (n : Nat) : ℝ := ∑ m ∈ range (n / 2 + 1), u m (n - 2 * m)

/-- The term `m` of a degree, zero where the degree has no room for it. -/
def termAt (u : Nat → Nat → ℝ) (n m : Nat) : ℝ := if 2 * m ≤ n then u m (n - 2 * m) else 0

section Terms

variable {u : Nat → Nat → ℝ} {n : Nat} {a b c : ℝ}

theorem termAt_add (u : Nat → Nat → ℝ) (m k : Nat) : termAt u (2 * m + k) m = u m k := by
  rw [termAt, if_pos (by omega), Nat.add_sub_cancel_left]

theorem termAt_of_lt {m : Nat} (h : n < 2 * m) : termAt u n m = 0 := if_neg (not_le.mpr h)

theorem sumOfTerms_eq (u : Nat → Nat → ℝ) {N : Nat} (h : n / 2 + 1 ≤ N) :
    sumOfTerms u n = ∑ m ∈ range N, termAt u n m := by
  have hterm : ∀ m ∈ range (n / 2 + 1), u m (n - 2 * m) = termAt u n m := by
    intro m hm
    rw [Finset.mem_range] at hm
    exact (if_pos (by omega)).symm
  rw [sumOfTerms, Finset.sum_congr rfl hterm]
  refine Finset.sum_subset (Finset.range_subset_range.mpr h) fun m _ hm => termAt_of_lt ?_
  rw [Finset.mem_range] at hm
  omega

theorem sum_eq_sumOfTerms {f : Nat → ℝ} (h : ∀ m k, n = 2 * m + k → f m = u m k) :
    ∑ m ∈ range (n / 2 + 1), f m = sumOfTerms u n := by
  refine Finset.sum_congr rfl fun m hm => h m (n - 2 * m) ?_
  rw [Finset.mem_range] at hm
  omega

theorem termAt_recurrence (hlast : ∀ m, n = 2 * m → c * u (m + 1) 0 = -(b * u m 0))
    (hnext : ∀ m k, n = 2 * m + (k + 1) →
      c * u (m + 1) (k + 1) = a * u (m + 1) k - b * u m (k + 1)) (m : Nat) :
    c * termAt u (n + 2) (m + 1) = a * termAt u (n + 1) (m + 1) - b * termAt u n m := by
  rcases Nat.lt_trichotomy n (2 * m) with hlt | heq | hgt
  · rw [termAt_of_lt (by omega), termAt_of_lt (by omega), termAt_of_lt hlt]
    ring
  · have htop := termAt_add u (m + 1) 0
    have hlow := termAt_add u m 0
    rw [show 2 * (m + 1) + 0 = n + 2 by omega] at htop
    rw [show 2 * m + 0 = n by omega] at hlow
    rw [htop, hlow, termAt_of_lt (by omega), hlast m heq]
    ring
  · obtain ⟨k, hk⟩ : ∃ k, n = 2 * m + (k + 1) := ⟨n - 2 * m - 1, by omega⟩
    have htop := termAt_add u (m + 1) (k + 1)
    have hmiddle := termAt_add u (m + 1) k
    have hlow := termAt_add u m (k + 1)
    rw [show 2 * (m + 1) + (k + 1) = n + 2 by omega] at htop
    rw [show 2 * (m + 1) + k = n + 1 by omega] at hmiddle
    rw [← hk] at hlow
    rw [htop, hmiddle, hlow, hnext m k hk]

/-- A three-term recurrence holds for sums of terms if it holds for the terms. The first term of a
degree has nothing to come from two degrees below, and the last one of an even degree nothing from
one degree below. -/
theorem sumOfTerms_recurrence (hfirst : c * u 0 (n + 2) = a * u 0 (n + 1))
    (hlast : ∀ m, n = 2 * m → c * u (m + 1) 0 = -(b * u m 0))
    (hnext : ∀ m k, n = 2 * m + (k + 1) →
      c * u (m + 1) (k + 1) = a * u (m + 1) k - b * u m (k + 1)) :
    c * sumOfTerms u (n + 2) = a * sumOfTerms u (n + 1) - b * sumOfTerms u n := by
  calc c * sumOfTerms u (n + 2)
      = ∑ m ∈ range (n + 1), c * termAt u (n + 2) (m + 1) + c * termAt u (n + 2) 0 := by
        rw [sumOfTerms_eq u (show (n + 2) / 2 + 1 ≤ n + 2 by omega), Finset.sum_range_succ',
          mul_add, Finset.mul_sum]
    _ = ∑ m ∈ range (n + 1), (a * termAt u (n + 1) (m + 1) - b * termAt u n m) +
          a * termAt u (n + 1) 0 := by
        rw [Finset.sum_congr rfl fun m _ => termAt_recurrence hlast hnext m]
        exact congrArg _ hfirst
    _ = a * (∑ m ∈ range (n + 1), termAt u (n + 1) (m + 1) + termAt u (n + 1) 0) -
          b * ∑ m ∈ range (n + 1), termAt u n m := by
        rw [Finset.sum_sub_distrib, ← Finset.mul_sum, ← Finset.mul_sum]
        ring
    _ = a * sumOfTerms u (n + 1) - b * sumOfTerms u n := by
        rw [sumOfTerms_eq u (show (n + 1) / 2 + 1 ≤ n + 2 by omega),
          sumOfTerms_eq u (show n / 2 + 1 ≤ n + 1 by omega), Finset.sum_range_succ' _ (n + 1)]

end Terms

/-- The Legendre polynomial of degree `n`. -/
noncomputable def legendrePolynomial (n : Nat) (x : ℝ) : ℝ :=
  (∑ m ∈ range (n / 2 + 1),
    (-1) ^ m * n.choose m * (2 * n - 2 * m).choose n * x ^ (n - 2 * m)) / (2 ^ n : ℕ)

/-- The Hermite polynomial of degree `n` for the standard normal distribution. -/
noncomputable def hermitePolynomial (n : Nat) (x : ℝ) : ℝ :=
  n ! * ∑ m ∈ range (n / 2 + 1), (-1) ^ m * x ^ (n - 2 * m) / (m ! * (n - 2 * m)! * 2 ^ m : ℕ)

/-- The power `k` in the Legendre polynomial of degree `2 * m + k`. -/
noncomputable def legendreTerm (x : ℝ) (m k : Nat) : ℝ :=
  (-1) ^ m * ((2 * m + 2 * k)! / (m ! * (m + k)! * k ! * 2 ^ (2 * m + k) : ℕ)) * x ^ k

/-- The power `k` in the Hermite polynomial of degree `2 * m + k`. -/
noncomputable def hermiteTerm (x : ℝ) (m k : Nat) : ℝ :=
  (-1) ^ m * ((2 * m + k)! / (m ! * k ! * 2 ^ m : ℕ)) * x ^ k

theorem choose_mul_choose (m k : Nat) :
    ((2 * m + k).choose m * (2 * m + 2 * k).choose (2 * m + k) : ℝ) =
      (2 * m + 2 * k)! / (m ! * (m + k)! * k !) := by
  have hchoose : ((2 * m + k).choose m : ℝ) = (2 * m + k)! / (m ! * (m + k)!) := by
    rw [show 2 * m + k = m + (m + k) by omega, Nat.cast_add_choose]
  have hchoose' : ((2 * m + 2 * k).choose (2 * m + k) : ℝ) =
      (2 * m + 2 * k)! / ((2 * m + k)! * k !) := by
    rw [show 2 * m + 2 * k = 2 * m + k + k by omega, Nat.cast_add_choose]
  have hn : ((2 * m + k)! : ℝ) ≠ 0 := by positivity
  rw [hchoose, hchoose']
  field_simp

theorem legendrePolynomial_eq (n : Nat) (x : ℝ) :
    legendrePolynomial n x = sumOfTerms (legendreTerm x) n := by
  rw [legendrePolynomial, Finset.sum_div]
  refine sum_eq_sumOfTerms fun m k hn => ?_
  subst hn
  rw [show 2 * (2 * m + k) - 2 * m = 2 * m + 2 * k by omega, Nat.add_sub_cancel_left,
    mul_assoc ((-1) ^ m), choose_mul_choose, legendreTerm]
  push_cast
  ring

theorem hermitePolynomial_eq (n : Nat) (x : ℝ) :
    hermitePolynomial n x = sumOfTerms (hermiteTerm x) n := by
  rw [hermitePolynomial, Finset.mul_sum]
  refine sum_eq_sumOfTerms fun m k hn => ?_
  subst hn
  rw [Nat.add_sub_cancel_left, hermiteTerm]
  push_cast
  ring

theorem hermite_recurrence (n : Nat) (x : ℝ) :
    hermitePolynomial (n + 2) x =
      x * hermitePolynomial (n + 1) x - (n + 1) * hermitePolynomial n x := by
  rw [← one_mul (hermitePolynomial (n + 2) x), hermitePolynomial_eq, hermitePolynomial_eq,
    hermitePolynomial_eq]
  refine sumOfTerms_recurrence ?_ (fun m hm => ?_) fun m k hk => ?_
  · simp only [hermiteTerm, Nat.mul_zero, Nat.zero_add, Nat.factorial_succ]
    push_cast
    field_simp
    ring
  · subst hm
    simp only [hermiteTerm, Nat.mul_succ, Nat.add_zero, Nat.factorial_succ]
    push_cast
    field_simp
    ring
  · subst hk
    -- The factorials are expanded down to those of the lowest degree, so their arguments are
    -- written as that degree plus a number first.
    have hdegree : 2 * (m + 1) + (k + 1) = 2 * m + k + 3 := by omega
    have hdegree' : 2 * (m + 1) + k = 2 * m + k + 2 := by omega
    have hdegree'' : 2 * m + (k + 1) = 2 * m + k + 1 := by omega
    simp only [hermiteTerm, hdegree, hdegree', hdegree'', Nat.factorial_succ]
    push_cast
    field_simp
    ring

theorem legendre_recurrence (n : Nat) (x : ℝ) :
    (n + 2) * legendrePolynomial (n + 2) x =
      (2 * n + 3) * x * legendrePolynomial (n + 1) x - (n + 1) * legendrePolynomial n x := by
  rw [legendrePolynomial_eq, legendrePolynomial_eq, legendrePolynomial_eq]
  refine sumOfTerms_recurrence ?_ (fun m hm => ?_) fun m k hk => ?_
  · simp only [legendreTerm, Nat.mul_zero, Nat.zero_add, Nat.factorial_succ, Nat.mul_succ]
    push_cast
    field_simp
    ring
  · subst hm
    simp only [legendreTerm, Nat.mul_succ, Nat.add_zero, Nat.mul_zero, Nat.factorial_succ]
    push_cast
    field_simp
    ring
  · subst hk
    have hdegree : 2 * (m + 1) + (k + 1) = 2 * m + k + 3 := by omega
    have hdegree' : 2 * (m + 1) + k = 2 * m + k + 2 := by omega
    have hdegree'' : 2 * m + (k + 1) = 2 * m + k + 1 := by omega
    have htwice : 2 * (m + 1) + 2 * (k + 1) = 2 * m + 2 * k + 4 := by omega
    have htwice' : 2 * (m + 1) + 2 * k = 2 * m + 2 * k + 2 := by omega
    have htwice'' : 2 * m + 2 * (k + 1) = 2 * m + 2 * k + 2 := by omega
    have hsum : m + 1 + (k + 1) = m + k + 2 := by omega
    have hsum' : m + 1 + k = m + k + 1 := by omega
    have hsum'' : m + (k + 1) = m + k + 1 := by omega
    simp only [legendreTerm, hdegree, hdegree', hdegree'', htwice, htwice', htwice'', hsum, hsum',
      hsum'', Nat.factorial_succ]
    push_cast
    field_simp
    ring

/-- The classical polynomial of degree `n`. -/
noncomputable def Basis.polynomial : Basis → Nat → ℝ → ℝ
  | legendre => legendrePolynomial
  | hermite => hermitePolynomial

namespace Basis

theorem polynomial_zero (b : Basis) (x : ℝ) : b.polynomial 0 x = 1 := by
  cases b <;> simp [polynomial, legendrePolynomial, hermitePolynomial]

theorem polynomial_one (b : Basis) (x : ℝ) : b.polynomial 1 x = x := by
  cases b <;> simp [polynomial, legendrePolynomial, hermitePolynomial]

/-- The classical polynomials follow the recurrence. -/
theorem polynomial_next (b : Basis) (x : ℝ) (n : Nat) :
    b.polynomial (n + 2) x = b.next x (n + 1) (b.polynomial n x) (b.polynomial (n + 1) x) := by
  cases b with
  | legendre =>
    have hn : (n : ℝ) + 2 ≠ 0 := by positivity
    simp only [polynomial, next, Scalar.ofNat_real, Scalar.natLit_ofNat_real,
      Scalar.natLit_one_real]
    push_cast
    rw [show (n : ℝ) + 1 + 1 = n + 2 by ring, eq_div_iff hn, mul_comm, legendre_recurrence]
    ring
  | hermite =>
    simp only [polynomial, next, Scalar.ofNat_real]
    push_cast
    exact hermite_recurrence n x

theorem neighbours_eq (b : Basis) (x : ℝ) (n : Nat) :
    b.neighbours x n = (b.polynomial n x, b.polynomial (n + 1) x) := by
  induction n with
  | zero => simp [neighbours, polynomial_zero, polynomial_one]
  | succ n ih => rw [neighbours, ih, polynomial_next]

theorem value_eq_polynomial (b : Basis) (x : ℝ) (n : Nat) : b.value x n = b.polynomial n x :=
  congrArg Prod.fst (b.neighbours_eq x n)

end Basis

end Explicit

section Tables

variable {K : Type} [Scalar K] {b : Basis} {x : K}

namespace Basis

theorem toList_tableFrom (count n : Nat) (table : Array K) :
    (b.tableFrom x count n (b.value x n) (b.value x (n + 1)) table).toList =
      table.toList ++ (List.range' n count).map (b.value x) := by
  induction count generalizing n table with
  | zero => simp [tableFrom]
  | succ count ih =>
    rw [List.range'_succ, List.map_cons, tableFrom]
    refine (ih (n + 1) (table.push (b.value x n))).trans ?_
    rw [Array.toList_push, List.append_assoc]
    rfl

theorem toList_table (b : Basis) (x : K) (degree : Nat) :
    (b.table x degree).toList = (List.range (degree + 1)).map (b.value x) := by
  rw [List.range_eq_range', ← List.nil_append (List.map _ _)]
  exact toList_tableFrom (degree + 1) 0 #[]

theorem table_succ (b : Basis) (x : K) (degree : Nat) :
    b.table x (degree + 1) = (b.table x degree).push (b.value x (degree + 1)) := by
  rw [← Array.toList_inj, Array.toList_push, toList_table, toList_table, List.range_succ,
    List.map_append]
  rfl

theorem entryAt_table {degree n : Nat} (h : n ≤ degree) :
    entryAt (b.table x degree) n = .ok (b.value x n) := by
  rw [entryAt_eq_ok_iff, ← Array.getElem?_toList, toList_table, List.getElem?_map,
    List.getElem?_range (by omega)]
  rfl

/-- Add the polynomial of degree `n + 1` to a table of those up to the degree `n`. -/
def extend (b : Basis) (x : K) (table : Array K) (n : Nat) : Except OutOfRange (Array K) := do
  let last ← entryAt table n
  let before ← entryAt table (n - 1)
  return table.push (b.next x n before last)

/-- Fill a buffer with the polynomials up to a degree, whatever it held before. -/
def fill (b : Basis) (x : K) (degree : Nat) (buffer : Array K) : Except OutOfRange (Array K) :=
  if degree = 0 then return (buffer.shrink 0).push 1
  else (List.range' 1 (degree - 1)).foldlM (b.extend x) (((buffer.shrink 0).push 1).push x)

theorem extend_table (b : Basis) (x : K) {n : Nat} (h : 1 ≤ n) :
    b.extend x (b.table x n) n = .ok (b.table x (n + 1)) := by
  obtain ⟨n, rfl⟩ := Nat.exists_eq_add_of_le' h
  rw [extend, entryAt_table le_rfl, ok_bind, entryAt_table (Nat.sub_le _ _), ok_bind,
    table_succ b x (n + 1)]
  rfl

theorem foldlM_extend (b : Basis) (x : K) (count : Nat) {n : Nat} (h : 1 ≤ n) :
    (List.range' n count).foldlM (b.extend x) (b.table x n) = .ok (b.table x (n + count)) := by
  induction count generalizing n with
  | zero => rfl
  | succ count ih =>
    rw [List.range'_succ, List.foldlM_cons, extend_table b x h, ok_bind, ih (Nat.le_succ_of_le h),
      Nat.succ_add_eq_add_succ]

/-- A buffer that is filled in place is the table, and every look-up on the way finds its entry. -/
theorem fill_eq (b : Basis) (x : K) (degree : Nat) (buffer : Array K) :
    b.fill x degree buffer = .ok (b.table x degree) := by
  have hempty : buffer.shrink 0 = #[] := by simp
  rw [fill, hempty]
  split_ifs with h
  · subst h
    rfl
  · have hpass := b.foldlM_extend x (degree - 1) le_rfl
    rwa [show 1 + (degree - 1) = degree by omega] at hpass

end Basis

end Tables

end ClusterDynamics
