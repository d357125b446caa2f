import ClusterDynamics.Lattice.Region
import ClusterDynamics.Proofs.Lattice.Cuts
import ClusterDynamics.Proofs.Real
import Mathlib.Algebra.BigOperators.Intervals
import Mathlib.Tactic.FieldSimp

/-! Counting the sums of compositions. The share of a merger that a region receives, which is
computed axis by axis from triangular numbers, is the number of pairs of compositions with a sum in
the region, divided by the number of all pairs. -/

namespace ClusterDynamics

open Finset

theorem triangle_succ (n : Nat) : triangle (n + 1) = triangle n + (n + 1) := by
  unfold triangle
  rw [← Nat.add_mul_div_left _ _ (by omega : 0 < 2)]
  congr 1
  ring

/-- The pairs below `v` and `w` with a sum below `n`, added up by their first numbers. -/
theorem sum_min_add_triangle (v w n : Nat) :
    ∑ x ∈ range v, min w (n - x) + (triangle (n - v) + triangle (n - w)) =
      triangle n + triangle (n - v - w) := by
  induction v with
  | zero => simp
  | succ v ih =>
    rw [sum_range_succ]
    rcases Nat.lt_or_ge v n with h | h
    · obtain ⟨m, hm⟩ : ∃ m, n - v = m + 1 := ⟨n - v - 1, by omega⟩
      have hm' : n - (v + 1) = m := by omega
      rw [hm, triangle_succ] at ih
      rw [hm, hm']
      rcases Nat.lt_or_ge m w with hw | hw
      · rw [show m + 1 - w = 0 by omega] at ih
        rw [show m - w = 0 by omega]
        omega
      · rw [show m + 1 - w = (m - w) + 1 by omega, triangle_succ] at ih
        omega
    · have hz : n - v = 0 := by omega
      have hz' : n - (v + 1) = 0 := by omega
      simp only [hz, hz', Nat.zero_sub, Nat.min_zero] at ih ⊢
      omega

theorem sum_sum_lt (v w n : Nat) :
    ∑ x ∈ range v, ∑ y ∈ range w, (if x + y < n then 1 else 0) = pairsBelow v w n := by
  have hrow : ∀ x, ∑ y ∈ range w, (if x + y < n then 1 else 0) = min w (n - x) := by
    intro x
    have hfilter : (range w).filter (fun y => x + y < n) = range (min w (n - x)) := by
      ext y
      simp only [mem_filter, mem_range]
      omega
    rw [← card_filter, hfilter, card_range]
  have hsum := sum_min_add_triangle v w n
  simp only [hrow, pairsBelow]
  omega

namespace Interval

theorem sum_sum_contains (a b t : Interval) :
    ∑ m ∈ Ico a.first a.stop, ∑ n ∈ Ico b.first b.stop, (if t.contains (m + n) then 1 else 0) =
      a.sumHits b t := by
  have hsplit : ∀ x y, (if t.contains (a.first + x + (b.first + y)) then 1 else 0) +
      (if x + y < t.first - (a.first + b.first) then 1 else 0) =
      if x + y < t.stop - (a.first + b.first) then 1 else 0 := by
    intro x y
    have ht := t.first_lt_stop
    simp only [contains_eq_true]
    split_ifs <;> omega
  have hall := sum_sum_lt a.width b.width (t.stop - (a.first + b.first))
  simp only [← hsplit, sum_add_distrib] at hall
  rw [sum_sum_lt] at hall
  simp only [sum_Ico_eq_sum_range]
  unfold sumHits
  dsimp only
  unfold width at hall ⊢
  omega

theorem card_Ico (a : Interval) : (Ico a.first a.stop).card = a.width := Nat.card_Ico _ _

theorem width_pos (a : Interval) : 0 < a.width := Nat.sub_pos_of_lt a.first_lt_stop

end Interval

/-- A count in front of the counts of further axes. -/
@[simps] def consCounts : Nat × Composition ↪ Composition where
  toFun x := x.1 :: x.2
  inj' _ _ h := Prod.ext (List.cons.inj h).1 (List.cons.inj h).2

/-- The compositions of a box. -/
def boxCompositions : List Interval → Finset Composition
  | [] => {[]}
  | a :: as => (Ico a.first a.stop ×ˢ boxCompositions as).map consCounts

@[simp] theorem mem_boxCompositions {as : List Interval} {c : Composition} :
    c ∈ boxCompositions as ↔ boxContains as c = true := by
  induction as generalizing c with
  | nil => cases c <;> simp [boxCompositions, boxContains]
  | cons a as ih => cases c <;> simp [boxCompositions, boxContains, ih]

theorem sum_boxCompositions_cons {M : Type} [AddCommMonoid M] (a : Interval) (as : List Interval)
    (f : Composition → M) : ∑ c ∈ boxCompositions (a :: as), f c =
      ∑ n ∈ Ico a.first a.stop, ∑ c ∈ boxCompositions as, f (n :: c) := by
  rw [boxCompositions, sum_map, sum_product]
  rfl

theorem card_boxCompositions_cons (a : Interval) (as : List Interval) :
    (boxCompositions (a :: as)).card = a.width * (boxCompositions as).card := by
  rw [boxCompositions, card_map, card_product, a.card_Ico]

theorem boxCompositions_card_pos (as : List Interval) : 0 < (boxCompositions as).card := by
  induction as with
  | nil => simp [boxCompositions]
  | cons a as ih =>
    rw [card_boxCompositions_cons]
    exact Nat.mul_pos a.width_pos ih

/-- The composition that two merging clusters of the given compositions form. -/
def mergeCounts (c d : Composition) : Composition := List.zipWith (· + ·) c d

/-- The number of pairs of compositions of two boxes that merge into a third. -/
def boxHits (as bs ts : List Interval) : Nat :=
  ∑ c ∈ boxCompositions as, ∑ d ∈ boxCompositions bs,
    if boxContains ts (mergeCounts c d) then 1 else 0

theorem boxHits_cons (a b t : Interval) (as bs ts : List Interval) :
    boxHits (a :: as) (b :: bs) (t :: ts) = a.sumHits b t * boxHits as bs ts := by
  have hterm : ∀ (m n : Nat) (c d : Composition),
      (if boxContains (t :: ts) (mergeCounts (m :: c) (n :: d)) then 1 else 0) =
        (if t.contains (m + n) then 1 else 0) *
          if boxContains ts (mergeCounts c d) then 1 else 0 := by
    intro m n c d
    simp only [mergeCounts, List.zipWith_cons_cons, boxContains, Bool.and_eq_true]
    split_ifs <;> simp_all
  unfold boxHits
  simp only [sum_boxCompositions_cons, hterm]
  rw [← Interval.sum_sum_contains, sum_mul_sum]
  refine sum_congr rfl fun m _ => sum_congr rfl fun c _ => ?_
  rw [sum_mul_sum]

theorem sumFraction_eq_boxHits {as bs ts : List Interval} (hab : as.length = bs.length)
    (hat : as.length = ts.length) :
    (Scalar.product (List.zipWith (fun t (x : Interval × Interval) => x.1.sumFraction x.2 t) ts
      (as.zip bs)) : ℝ) =
      boxHits as bs ts / ((boxCompositions as).card * (boxCompositions bs).card) := by
  rw [Scalar.product_real]
  induction as generalizing bs ts with
  | nil =>
    obtain rfl := List.eq_nil_of_length_eq_zero hab.symm
    obtain rfl := List.eq_nil_of_length_eq_zero hat.symm
    simp [boxHits, boxCompositions, mergeCounts, boxContains]
  | cons a as ih =>
    cases bs with
    | nil => simp at hab
    | cons b bs =>
      cases ts with
      | nil => simp at hat
      | cons t ts =>
        have ha : (a.width : ℝ) ≠ 0 := Nat.cast_ne_zero.mpr a.width_pos.ne'
        have hb : (b.width : ℝ) ≠ 0 := Nat.cast_ne_zero.mpr b.width_pos.ne'
        have has := Nat.cast_ne_zero (R := ℝ).mpr (boxCompositions_card_pos as).ne'
        have hbs := Nat.cast_ne_zero (R := ℝ).mpr (boxCompositions_card_pos bs).ne'
        rw [List.zip_cons_cons, List.zipWith_cons_cons, List.prod_cons,
          ih (by simpa using hab) (by simpa using hat), boxHits_cons, card_boxCompositions_cons,
          card_boxCompositions_cons]
        simp only [Interval.sumFraction, Scalar.ofNat_real]
        push_cast
        field_simp

namespace Region

/-- The compositions of a region. -/
def compositions (r : Region) : Finset Composition := boxCompositions r.axes

@[simp] theorem mem_compositions {r : Region} {c : Composition} :
    c ∈ r.compositions ↔ r.contains c = true := mem_boxCompositions

/-- The pairs of compositions of two regions that merge into a third. -/
def mergers (r s t : Region) : Finset (Composition × Composition) :=
  (r.compositions ×ˢ s.compositions).filter fun x => t.contains (mergeCounts x.1 x.2) = true

theorem card_mergers (r s t : Region) : (r.mergers s t).card = boxHits r.axes s.axes t.axes := by
  rw [mergers, card_filter, sum_product]
  rfl

theorem card_compositions_pos (r : Region) : 0 < r.compositions.card :=
  boxCompositions_card_pos r.axes

/-- The share of the pairs of compositions of two regions that merge into a third. -/
noncomputable def mergerShare (r s t : Region) : ℝ :=
  (r.mergers s t).card / (r.compositions.card * s.compositions.card)

theorem sumFraction_eq_mergerShare {r s t : Region} (hrs : r.axes.length = s.axes.length)
    (hrt : r.axes.length = t.axes.length) : (r.sumFraction s t : ℝ) = r.mergerShare s t := by
  rw [mergerShare, card_mergers]
  exact sumFraction_eq_boxHits hrs hrt

end Region

end ClusterDynamics
