import ClusterDynamics.Proofs.Real
import ClusterDynamics.Rates.CrossSection

/-! Cross-sections in exact arithmetic: none is negative, and which of them depend on the order of
the pair. -/

namespace ClusterDynamics

open Finset

section Angles

variable {n k : Nat}

theorem alignmentAngle_real (n k : Nat) :
    (alignmentAngle n k : ℝ) = (k + 1 / 2) * (Real.pi / 2) / n := by
  change ((k : ℝ) + 0.5) * (Real.pi / ((2 : ℕ) : ℝ)) / (n : ℝ) = _
  norm_num

theorem alignmentAngle_pos (hk : k < n) : 0 < (alignmentAngle n k : ℝ) := by
  have hn : (0 : ℝ) < n := Nat.cast_pos.mpr (by omega)
  rw [alignmentAngle_real]
  positivity

/-- The angles lie symmetrically about half of a right angle. -/
theorem alignmentAngle_reflect (hk : k < n) :
    (alignmentAngle n (n - 1 - k) : ℝ) = Real.pi / 2 - alignmentAngle n k := by
  have hn : (n : ℝ) ≠ 0 := Nat.cast_ne_zero.mpr (by omega)
  have hcast : ((n - 1 - k : ℕ) : ℝ) = n - 1 - k := by
    rw [Nat.cast_sub (by omega), Nat.cast_sub (by omega), Nat.cast_one]
  rw [alignmentAngle_real, alignmentAngle_real, hcast]
  field_simp
  ring

theorem alignmentAngle_lt (hk : k < n) : (alignmentAngle n k : ℝ) < Real.pi / 2 := by
  have h := alignmentAngle_pos (show n - 1 - k < n by omega)
  rw [alignmentAngle_reflect hk] at h
  linarith

theorem sin_alignmentAngle_pos (hk : k < n) : 0 < Real.sin (alignmentAngle n k) := by
  have h := alignmentAngle_lt hk
  exact Real.sin_pos_of_pos_of_lt_pi (alignmentAngle_pos hk) (by linarith [Real.pi_pos])

theorem cos_alignmentAngle_pos (hk : k < n) : 0 < Real.cos (alignmentAngle n k) := by
  have h := alignmentAngle_pos hk
  exact Real.cos_pos_of_mem_Ioo ⟨by linarith [Real.pi_pos], alignmentAngle_lt hk⟩

theorem sum_sin_pos (hn : n ≠ 0) : 0 < ∑ k ∈ range n, Real.sin (alignmentAngle n k) :=
  sum_pos (fun _ hk => sin_alignmentAngle_pos (mem_range.mp hk)) (nonempty_range_iff.mpr hn)

theorem sum_sin_sq_eq_sum_cos_sq (n : Nat) :
    ∑ k ∈ range n, Real.sin (alignmentAngle n k) ^ 2 =
      ∑ k ∈ range n, Real.cos (alignmentAngle n k) ^ 2 := by
  rw [← sum_range_reflect]
  refine sum_congr rfl fun k hk => ?_
  rw [alignmentAngle_reflect (mem_range.mp hk), Real.sin_pi_div_two_sub]

/-- With two angles or more, the first is less than half of a right angle. -/
theorem sum_sin_mul_cos_lt (hn : 2 ≤ n) :
    ∑ k ∈ range n, Real.sin (alignmentAngle n k) * Real.cos (alignmentAngle n k) <
      ∑ k ∈ range n, Real.sin (alignmentAngle n k) ^ 2 := by
  have hgap : 0 < ∑ k ∈ range n,
      (Real.sin (alignmentAngle n k) - Real.cos (alignmentAngle n k)) ^ 2 := by
    refine sum_pos' (fun _ _ => sq_nonneg _) ⟨0, mem_range.mpr (by omega), ?_⟩
    have hlt : (alignmentAngle n 0 : ℝ) < Real.pi / 2 - alignmentAngle n 0 := by
      have hn' : (2 : ℝ) ≤ n := by exact_mod_cast hn
      have hangle : (alignmentAngle n 0 : ℝ) = Real.pi / 4 / n := by
        rw [alignmentAngle_real]
        norm_num
        ring
      have : Real.pi / 4 / n < Real.pi / 4 := div_lt_self (by positivity) (by linarith)
      linarith
    have hsin := Real.sin_lt_sin_of_lt_of_le_pi_div_two
      (by linarith [alignmentAngle_pos (show 0 < n by omega), Real.pi_pos])
      (by linarith [alignmentAngle_pos (show 0 < n by omega)]) hlt
    rw [Real.sin_pi_div_two_sub] at hsin
    exact sq_pos_of_neg (by linarith)
  have hsplit : ∑ k ∈ range n, (Real.sin (alignmentAngle n k) - Real.cos (alignmentAngle n k)) ^ 2 =
      2 * (∑ k ∈ range n, Real.sin (alignmentAngle n k) ^ 2 -
        ∑ k ∈ range n, Real.sin (alignmentAngle n k) * Real.cos (alignmentAngle n k)) := by
    have hexpand : ∀ k, (Real.sin (alignmentAngle n k) - Real.cos (alignmentAngle n k)) ^ 2 =
        Real.sin (alignmentAngle n k) ^ 2 + Real.cos (alignmentAngle n k) ^ 2 -
          2 * (Real.sin (alignmentAngle n k) * Real.cos (alignmentAngle n k)) := by
      intro k
      ring
    rw [sum_congr rfl fun k _ => hexpand k, sum_sub_distrib, sum_add_distrib,
      ← sum_sin_sq_eq_sum_cos_sq, ← mul_sum]
    ring
  linarith

end Angles

section Ellipse

variable {n : Nat} {r s : ℝ}

theorem fold_area_weight (n : Nat) (area weight : Nat → ℝ) :
    n.fold (fun k _ (acc : ℝ × ℝ) => (acc.1 + area k, acc.2 + weight k)) (0, 0) =
      (∑ k ∈ range n, area k, ∑ k ∈ range n, weight k) := by
  induction n with
  | zero => rfl
  | succ n ih => rw [Nat.fold_succ, ih, sum_range_succ, sum_range_succ]

theorem averagedEllipse_eq (hn : n ≠ 0) (semiAxes : ℝ → ℝ × ℝ) :
    averagedEllipse n semiAxes =
      (∑ k ∈ range n, Real.sin (alignmentAngle n k) * Real.pi *
        (semiAxes (alignmentAngle n k)).1 * (semiAxes (alignmentAngle n k)).2) /
        ∑ k ∈ range n, Real.sin (alignmentAngle n k) := by
  have hfold := fold_area_weight n
    (fun k => Real.sin (alignmentAngle n k) * Real.pi * (semiAxes (alignmentAngle n k)).1 *
      (semiAxes (alignmentAngle n k)).2)
    (fun k => Real.sin (alignmentAngle n k))
  unfold averagedEllipse
  generalize hm : max n 1 = m
  obtain rfl : m = n := by omega
  simp only [Scalar.natLit_zero_real]
  exact congrArg (fun acc : ℝ × ℝ => acc.1 / acc.2) hfold

theorem averagedEllipse_nonneg (hn : n ≠ 0) {semiAxes : ℝ → ℝ × ℝ}
    (h : ∀ t, 0 ≤ (semiAxes t).1 ∧ 0 ≤ (semiAxes t).2) : 0 ≤ averagedEllipse n semiAxes := by
  rw [averagedEllipse_eq hn]
  refine div_nonneg (sum_nonneg fun k hk => ?_) (sum_sin_pos hn).le
  have hsin := (sin_alignmentAngle_pos (mem_range.mp hk)).le
  exact mul_nonneg (mul_nonneg (mul_nonneg hsin Real.pi_pos.le) (h _).1) (h _).2

theorem loopSphereCrossSection_nonneg (hn : n ≠ 0) (hr : 0 ≤ r) (hs : 0 ≤ s) :
    0 ≤ loopSphereCrossSection r s n :=
  averagedEllipse_nonneg hn fun _ =>
    ⟨add_nonneg hr hs, add_nonneg (mul_nonneg hr (abs_nonneg _)) hs⟩

theorem loopLoopCrossSection_nonneg (hn : n ≠ 0) (hr : 0 ≤ r) (hs : 0 ≤ s) :
    0 ≤ loopLoopCrossSection r s n :=
  averagedEllipse_nonneg hn fun _ =>
    ⟨add_nonneg hr hs, add_nonneg (mul_nonneg hr (abs_nonneg _)) (mul_nonneg hs (abs_nonneg _))⟩

theorem loopLoopCrossSection_eq (hn : n ≠ 0) (r s : ℝ) :
    loopLoopCrossSection r s n =
      Real.pi * (r + s) *
        (r * ∑ k ∈ range n, Real.sin (alignmentAngle n k) * Real.cos (alignmentAngle n k) +
          s * ∑ k ∈ range n, Real.sin (alignmentAngle n k) ^ 2) /
        ∑ k ∈ range n, Real.sin (alignmentAngle n k) := by
  rw [loopLoopCrossSection, averagedEllipse_eq hn, mul_sum, mul_sum, ← sum_add_distrib, mul_sum]
  congr 1
  refine sum_congr rfl fun k hk => ?_
  change _ * _ * (r + s) * (r * |Real.cos _| + s * |Real.sin _|) = _
  rw [abs_of_pos (sin_alignmentAngle_pos (mem_range.mp hk)),
    abs_of_pos (cos_alignmentAngle_pos (mem_range.mp hk))]
  ring

/-- Two loops of different radii meet with different cross-sections in the two orders, unless the
only angle is half of a right angle. -/
theorem loopLoopCrossSection_comm_iff (hn : n ≠ 0) (hr : 0 ≤ r) (hs : 0 ≤ s) :
    loopLoopCrossSection r s n = loopLoopCrossSection s r n ↔ r = s ∨ n = 1 := by
  set c := ∑ k ∈ range n, Real.sin (alignmentAngle n k) * Real.cos (alignmentAngle n k) with hc
  set q := ∑ k ∈ range n, Real.sin (alignmentAngle n k) ^ 2 with hq
  rw [loopLoopCrossSection_eq hn, loopLoopCrossSection_eq hn, div_left_inj' (sum_sin_pos hn).ne',
    ← hc, ← hq]
  constructor
  · intro h
    by_contra hne
    push Not at hne
    have hlt : c < q := sum_sin_mul_cos_lt (by omega)
    have hsum : 0 < r + s := lt_of_le_of_ne (add_nonneg hr hs) fun h0 => hne.1 (by linarith)
    have hfactor : Real.pi * (r + s) * ((r - s) * (q - c)) = 0 := by linarith
    have hdiff : (r - s) * (q - c) = 0 :=
      (mul_eq_zero.mp hfactor).resolve_left (mul_pos Real.pi_pos hsum).ne'
    rcases mul_eq_zero.mp hdiff with h0 | h0
    · exact hne.1 (by linarith)
    · linarith
  · rintro (rfl | rfl)
    · rfl
    · have hangle : (alignmentAngle 1 0 : ℝ) = Real.pi / 2 - alignmentAngle 1 0 := by
        rw [← alignmentAngle_reflect (by omega)]
      have hcos : Real.cos (alignmentAngle 1 0) = Real.sin (alignmentAngle 1 0) := by
        rw [hangle, Real.cos_pi_div_two_sub, ← hangle]
      have hcq : c = q := by
        rw [hc, hq]
        simp [hcos, sq]
      rw [hcq]
      ring

end Ellipse

section Disc

variable {r s core : ℝ}

theorem sphereFactor_real : sphereFactor r s core = 4 * Real.pi * (r + s + core) := by
  change ((4 : ℕ) : ℝ) * Real.pi * (r + s + core) = _
  norm_num

theorem sphereFactor_nonneg (hr : 0 ≤ r) (hs : 0 ≤ s) (hcore : 0 ≤ core) :
    0 ≤ sphereFactor r s core := by
  rw [sphereFactor_real]
  positivity

theorem trapCrossSection_real : trapCrossSection r s =
    if s ≤ r then Real.pi * (r + s) * (r + s) else 4 * Real.pi * r * s := by
  have h4 : (@OfNat.ofNat ℝ 4 (Scalar.natLit 4)) = 4 := Nat.cast_ofNat
  unfold trapCrossSection
  rw [h4]
  by_cases h : s ≤ r
  · rw [if_pos h, if_pos h]
    rfl
  · rw [if_neg h, if_neg h]
    rfl

theorem trapCrossSection_nonneg (hr : 0 ≤ r) (hs : 0 ≤ s) : 0 ≤ trapCrossSection r s := by
  rw [trapCrossSection_real]
  split_ifs <;> positivity

/-- The full disc is larger than the reduced cross-section by the square of the difference of the
radii. -/
theorem trapCrossSection_comm_iff : trapCrossSection r s = trapCrossSection s r ↔ r = s := by
  rw [trapCrossSection_real, trapCrossSection_real]
  constructor
  · intro h
    by_contra hne
    have hsq : 0 < Real.pi * (r - s) ^ 2 := mul_pos Real.pi_pos (sq_pos_of_ne_zero (sub_ne_zero.mpr hne))
    rcases lt_or_gt_of_ne hne with hlt | hlt
    · rw [if_neg hlt.not_ge, if_pos hlt.le] at h
      linarith
    · rw [if_pos hlt.le, if_neg hlt.not_ge] at h
      linarith
  · rintro rfl
    rfl

end Disc

end ClusterDynamics
