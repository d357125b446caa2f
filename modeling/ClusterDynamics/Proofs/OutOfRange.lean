import ClusterDynamics.OutOfRange
import ClusterDynamics.Proofs.Outcome
import Mathlib.Algebra.BigOperators.Group.List.Lemmas
import Mathlib.Algebra.Order.BigOperators.Group.List
import Mathlib.Tactic.Common

/-! When a look-up finds an entry, and when a size is a word or a table has room. -/

namespace ClusterDynamics

section EntryAt

variable {α : Type} {xs : Array α} {i : Nat}

theorem entryAt_eq_ok_iff {a : α} : entryAt xs i = .ok a ↔ xs[i]? = some a := by
  unfold entryAt
  cases xs[i]? <;> simp

theorem exists_entryAt_iff : (∃ a, entryAt xs i = .ok a) ↔ i < xs.size := by
  simp only [entryAt_eq_ok_iff]
  rw [← Option.isSome_iff_exists, isSome_getElem?]

theorem checkRange_eq_ok_iff {size : Nat} : checkRange i size = .ok () ↔ i < size := by
  unfold checkRange
  split_ifs with h <;> simp [h]

end EntryAt

theorem word_eq_ok_iff {n k : Nat} : word n = .ok k ↔ k = n ∧ n < wordLimit := by
  unfold word
  split_ifs with h <;> simp [h, eq_comm]

theorem foldlM_word_eq_ok_iff {extents : List Nat} (h : ∀ n ∈ extents, 1 ≤ n) {m k : Nat}
    (hm : m < wordLimit) :
    extents.foldlM (fun n extent => word (n * extent)) m = .ok k ↔
      k = m * extents.prod ∧ m * extents.prod < wordLimit := by
  induction extents generalizing m with
  | nil => simp [pure, Except.pure, hm, eq_comm]
  | cons n extents ih =>
    have hprod : 1 ≤ extents.prod :=
      List.prod_pos_iff_forall_pos_nat.mpr fun x hx => h x (List.mem_cons_of_mem _ hx)
    rw [List.foldlM_cons, bind_eq_ok_iff, List.prod_cons, ← Nat.mul_assoc]
    constructor
    · rintro ⟨k', hk', hrest⟩
      obtain ⟨rfl, hlt⟩ := word_eq_ok_iff.mp hk'
      exact (ih (fun x hx => h x (List.mem_cons_of_mem _ hx)) hlt).mp hrest
    · rintro ⟨rfl, hlt⟩
      have hlt' : m * n < wordLimit := lt_of_le_of_lt (Nat.le_mul_of_pos_right _ hprod) hlt
      exact ⟨m * n, word_eq_ok_iff.mpr ⟨rfl, hlt'⟩,
        (ih (fun x hx => h x (List.mem_cons_of_mem _ hx)) hlt').mpr ⟨rfl, hlt⟩⟩

/-- The first product that is no word ends the multiplication. -/
theorem exists_foldlM_word_eq_error {extents : List Nat} {m : Nat} (hm : m < wordLimit)
    (h : wordLimit ≤ m * extents.prod) : ∃ n, wordLimit ≤ n ∧
      extents.foldlM (fun n extent => word (n * extent)) m = .error ⟨n, wordLimit⟩ := by
  induction extents generalizing m with
  | nil =>
    rw [List.prod_nil, Nat.mul_one] at h
    omega
  | cons n extents ih =>
    rw [List.prod_cons, ← Nat.mul_assoc] at h
    rw [List.foldlM_cons]
    by_cases hword : m * n < wordLimit
    · rw [word_eq_ok_iff.mpr ⟨rfl, hword⟩, ok_bind]
      exact ih hword h
    · rw [word, if_neg hword, error_bind]
      exact ⟨_, Nat.le_of_not_lt hword, rfl⟩

theorem extentProduct_eq_ok_iff {extents : List Nat} (h : ∀ n ∈ extents, 1 ≤ n) {k : Nat} :
    extentProduct extents = .ok k ↔ k = extents.prod ∧ extents.prod < wordLimit := by
  rw [extentProduct, foldlM_word_eq_ok_iff h (by decide)]
  simp

theorem checkRoom_eq_ok_iff {entries words : Nat} :
    checkRoom entries words = .ok () ↔ entries * words ≤ tableLimit := by
  unfold checkRoom
  split_ifs with h <;> simp [h]

end ClusterDynamics
