import ClusterDynamics.Lattice.Axis
import ClusterDynamics.Proofs.Lattice.Counting
import ClusterDynamics.Proofs.OutOfRange

/-! Pairs with a sum in a target, counted row by row. A row holds the pairs with one count of the
first interval: the target is moved back by that count, as far as zero, and cut to the second
interval. What is left of it goes into a counter of one word, which never runs over. -/

namespace ClusterDynamics

open Finset

theorem foldlM_word_add {f : Nat → Nat} {bound : Nat} (hf : ∀ n, f n ≤ bound) {ns : List Nat}
    {m : Nat} (h : m + ns.length * bound < wordLimit) :
    ns.foldlM (fun hits n => word (hits + f n)) m = .ok (m + (ns.map f).sum) := by
  induction ns generalizing m with
  | nil => simp [pure, Except.pure]
  | cons n ns ih =>
    have hn := hf n
    rw [List.length_cons, Nat.add_mul, Nat.one_mul] at h
    have hword : word (m + f n) = .ok (m + f n) := word_eq_ok_iff.mpr ⟨rfl, by omega⟩
    rw [List.foldlM_cons, hword, ok_bind, ih (by omega), List.map_cons, List.sum_cons,
      Nat.add_assoc]

namespace Interval

/-- How many counts of `b` have a sum with `n` in the target. -/
def rowHits (b target : Interval) (n : Nat) : Nat :=
  let lo := max (target.first - n) b.first
  let hi := min (target.stop - n) b.stop
  if lo < hi then hi - lo else 0

/-- The rows of all counts of `a`, added up one after another. -/
def countHits (a b target : Interval) : Except OutOfRange Nat :=
  (List.range' a.first a.width).foldlM (fun hits n => word (hits + b.rowHits target n)) 0

/-- The pairs of a count of `a` and a count of `b` with a sum in the target. -/
def sumPairs (a b target : Interval) : Finset (Nat × Nat) :=
  (Ico a.first a.stop ×ˢ Ico b.first b.stop).filter fun x => target.contains (x.1 + x.2) = true

theorem rowHits_eq_sum (b target : Interval) (n : Nat) :
    b.rowHits target n =
      ∑ m ∈ Ico b.first b.stop, if target.contains (n + m) = true then 1 else 0 := by
  have hrow : (Ico b.first b.stop).filter (fun m => target.contains (n + m) = true) =
      Ico (max (target.first - n) b.first) (min (target.stop - n) b.stop) := by
    ext m
    simp only [mem_filter, mem_Ico, contains_eq_true]
    omega
  rw [← card_filter, hrow, Nat.card_Ico]
  unfold rowHits
  dsimp only
  split_ifs <;> omega

theorem rowHits_le_width (b target : Interval) (n : Nat) : b.rowHits target n ≤ b.width := by
  unfold rowHits width
  dsimp only
  split_ifs <;> omega

theorem card_sumPairs (a b target : Interval) :
    (a.sumPairs b target).card = a.sumHits b target := by
  rw [sumPairs, card_filter, sum_product, sum_sum_contains]

theorem sum_rowHits (a b target : Interval) :
    ((List.range' a.first a.width).map (b.rowHits target)).sum = (a.sumPairs b target).card := by
  have hrange : (List.range' a.first a.width).toFinset = Ico a.first a.stop := by
    ext n
    have ha := a.first_lt_stop
    simp only [List.mem_toFinset, List.mem_range'_1, mem_Ico, width]
    omega
  rw [← List.sum_toFinset _ List.nodup_range', hrange, sumPairs, card_filter, sum_product]
  exact sum_congr rfl fun n _ => b.rowHits_eq_sum target n

/-- The share of a target is the number of pairs with a sum in it, divided by the number of all
pairs. Where the bounds of the two intervals are counts, adding these pairs up row by row gives a
word after each row, and their number after the last. -/
theorem sumFraction_eq_card_sumPairs (a b target : Interval) :
    (a.sumFraction b target : ℝ) = (a.sumPairs b target).card / (a.width * b.width) ∧
      (a.stop ≤ countLimit → b.stop ≤ countLimit →
        a.countHits b target = .ok (a.sumPairs b target).card) := by
  constructor
  · rw [card_sumPairs, sumFraction]
    simp only [Scalar.ofNat_real]
  · intro ha hb
    have hroom : a.width * b.width ≤ countLimit * countLimit :=
      Nat.mul_le_mul (le_trans (Nat.sub_le _ _) ha) (le_trans (Nat.sub_le _ _) hb)
    have hlimit : countLimit * countLimit < wordLimit := by decide
    rw [countHits, foldlM_word_add (b.rowHits_le_width target), Nat.zero_add, sum_rowHits]
    rw [List.length_range']
    omega

/-- The widest intervals: almost `2 ^ 64` pairs, of which about half have a sum that is a count. -/
theorem sumFraction_eq_card_sumPairs_widest :
    let a : Interval := ⟨0, countLimit, by decide⟩
    a.stop ≤ countLimit ∧ a.countHits a a = .ok 9223372034707292160 ∧
      (a.sumFraction a a : ℝ) = 9223372034707292160 / (4294967295 * 4294967295) := by
  intro a
  obtain ⟨hshare, hcount⟩ := sumFraction_eq_card_sumPairs a a a
  have hcard : (a.sumPairs a a).card = 9223372034707292160 := by
    rw [card_sumPairs]
    decide
  rw [hcard] at hshare hcount
  refine ⟨le_rfl, hcount le_rfl le_rfl, hshare.trans ?_⟩
  norm_num [a, width, countLimit]

end Interval

end ClusterDynamics
