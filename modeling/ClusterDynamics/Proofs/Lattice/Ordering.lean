import ClusterDynamics.Proofs.Lattice.Construction
import ClusterDynamics.Proofs.Lattice.Odometer
import Mathlib.GroupTheory.GroupAction.Ring

/-! The order of the regions and their number. The intervals of an axis begin at increasing counts,
so the boxes, whose last axis varies fastest, begin at increasing compositions, compared axis by
axis. One box of all is the empty cluster; cutting off moves no origin and drops no region. Wider
runs leave an axis with no more intervals than before. -/

namespace ClusterDynamics

theorem Consecutive.pairwise_first {m n : Nat} {as : List Interval} (h : Consecutive m as n) :
    as.Pairwise fun a b => a.first < b.first := by
  induction as generalizing m with
  | nil => exact .nil
  | cons a as ih =>
    refine .cons (fun b hb => ?_) (ih h.2)
    have hb' := h.2.first_ge b hb
    have ha := a.first_lt_stop
    omega

namespace Axis

theorem pairwise_first_of_intervals {a : Axis} {cuts : List Interval}
    (h : a.intervals = .ok cuts) : cuts.Pairwise fun c d => c.first < d.first := by
  obtain ⟨-, groups, hr, rfl⟩ := intervals_eq_ok_iff.mp h
  obtain ⟨stop, hg⟩ := runs_consecutive hr
  rw [List.pairwise_append]
  refine ⟨(consecutive_singletons _).pairwise_first, hg.pairwise_first, fun c hc d hd => ?_⟩
  have hd' := hg.first_ge d hd
  obtain ⟨n, hn, rfl⟩ := List.mem_map.mp hc
  rw [List.mem_range] at hn
  simp only [Interval.singleton]
  omega

theorem IsCut.countP_null {a : Axis} {cuts : List Interval} (h : a.IsCut cuts) :
    cuts.countP (fun c => c.first == 0 && c.stop == 1) = 1 := by
  refine Eq.trans (List.countP_congr fun c hc => ?_) (h.countP_contains (Nat.zero_le a.max))
  have hzero := h.zero_alone c hc
  have hc' := c.first_lt_stop
  simp only [Bool.and_eq_true, beq_iff_eq, Interval.contains_eq_true]
  omega

/-- The same axis with runs that are no shorter. -/
structure Widened (a b : Axis) : Prop where
  species_eq : b.species = a.species
  max_eq : b.max = a.max
  groupMin_eq : b.groupMin = a.groupMin
  width_le : a.groupWidth ≤ b.groupWidth

theorem ceilDiv_le_ceilDiv {n width width' : Nat} (hw : 0 < width) (h : width ≤ width') :
    n ⌈/⌉ width' ≤ n ⌈/⌉ width := by
  have hn : n ≤ width * (n ⌈/⌉ width) := by
    rw [← smul_eq_mul]
    exact le_smul_ceilDiv hw
  rw [ceilDiv_le_iff_le_smul (by omega), smul_eq_mul]
  exact le_trans hn (Nat.mul_le_mul_right _ h)

theorem Widened.cellCount_le {a b : Axis} (h : a.Widened b) (ha : a.Sound) :
    b.cellCount ≤ a.cellCount := by
  have hruns := ceilDiv_le_ceilDiv (n := a.max + 1 - a.groupMin) ha.width_pos h.width_le
  unfold cellCount
  rw [h.max_eq, h.groupMin_eq]
  omega

theorem Widened.sound {a b : Axis} (h : a.Widened b) (ha : a.Sound) : b.Sound where
  width_pos := le_trans ha.width_pos h.width_le
  groupMin_pos := h.groupMin_eq ▸ ha.groupMin_pos
  max_lt := h.max_eq ▸ ha.max_lt

end Axis

theorem length_boxes (cuts : List (List Interval)) :
    (boxes cuts).length = (cuts.map List.length).prod := by
  induction cuts with
  | nil => rfl
  | cons choices cuts ih => simp [boxes, List.length_flatMap, ih]

theorem pairwise_boxes {cuts : List (List Interval)}
    (h : ∀ choices ∈ cuts, choices.Pairwise fun a b => a.first < b.first) :
    (boxes cuts).Pairwise fun b c => b.map Interval.first < c.map Interval.first := by
  induction cuts with
  | nil => exact List.pairwise_singleton _ _
  | cons choices cuts ih =>
    have hrest := ih fun others hothers => h others (by simp [hothers])
    rw [boxes, List.pairwise_flatMap]
    refine ⟨fun a _ => ?_, (h choices (by simp)).imp fun hab b hb c hc => ?_⟩
    · rw [List.pairwise_map]
      refine hrest.imp fun hbc => ?_
      rw [List.map_cons, List.map_cons, List.cons_lt_cons_iff]
      exact .inr ⟨rfl, hbc⟩
    · obtain ⟨b, -, rfl⟩ := List.mem_map.mp hb
      obtain ⟨c, -, rfl⟩ := List.mem_map.mp hc
      rw [List.map_cons, List.map_cons, List.cons_lt_cons_iff]
      exact .inl hab

theorem countP_boxes_null {axes : List Axis} {cuts : List (List Interval)}
    (hcuts : List.Forall₂ Axis.IsCut axes cuts) :
    (boxes cuts).countP (fun b => b.all fun a => a.first == 0 && a.stop == 1) = 1 := by
  induction hcuts with
  | nil => rfl
  | cons ha _ ih =>
    rw [boxes, countP_product (fun _ _ => List.all_cons), ih, ha.countP_null]

theorem Region.Within.origin_eq {r s : Region} (h : r.Within s) : r.origin = s.origin :=
  (map_eq_map_of_forall₂ h fun _ _ hab => hab.1.symm).symm

namespace Paving

variable {axes wider : List Axis} {p : Paving}

theorem map_origin_of_within {rs ss : List Region} (h : List.Forall₂ Region.Within rs ss) :
    rs.map Region.origin = ss.map Region.origin :=
  (map_eq_map_of_forall₂ h fun _ _ hrs => hrs.origin_eq.symm).symm

theorem pairwise_origin (h : ofAxes axes = .ok p) :
    p.regions.Pairwise fun r s => r.origin < s.origin := by
  obtain ⟨cuts, hc, all, hall, -, ht⟩ := ofAxes_eq_ok_iff.mp h
  have hcuts : ∀ choices ∈ cuts, choices.Pairwise fun a b => a.first < b.first := by
    intro choices hchoices
    obtain ⟨a, -, ha⟩ := exists_mem_of_forall₂ (cutsOf_eq_ok_iff.mp hc).2.2.flip hchoices
    exact Axis.pairwise_first_of_intervals ha
  have hwhole : all.Pairwise fun r s => r.origin < s.origin := by
    have hboxes := pairwise_boxes hcuts
    rwa [← map_axes_of_mapM hall, List.pairwise_map] at hboxes
  rw [← List.pairwise_map, map_origin_of_within (tileAxes_within ht).1, List.pairwise_map]
  exact hwhole.filter _

/-- The regions are the products of intervals without the empty cluster. -/
theorem size_add_one (hs : ∀ a ∈ axes, a.Sound) (h : ofAxes axes = .ok p) :
    p.size + 1 = cellCount axes := by
  obtain ⟨cuts, hc, all, hall, -, ht⟩ := ofAxes_eq_ok_iff.mp h
  have hmap := map_axes_of_mapM hall
  have hnull : all.countP Region.isNull = 1 := by
    have hboxes := countP_boxes_null (isCut_of_cutsOf hs hc)
    rwa [← hmap, List.countP_map] at hboxes
  have hall : all.length = cellCount axes := by
    rw [← List.length_map Region.axes, hmap, length_boxes, length_of_cutsOf hs hc, cellCount]
  have hsplit := List.length_eq_length_filter_add (l := all) Region.isNull
  rw [List.countP_eq_length_filter] at hnull
  rw [size, (tileAxes_within ht).1.length_eq]
  dsimp only
  omega

theorem cellCount_le (h : List.Forall₂ Axis.Widened axes wider) (hs : ∀ a ∈ axes, a.Sound) :
    cellCount wider ≤ cellCount axes := by
  induction h with
  | nil => exact le_rfl
  | cons hab _ ih =>
    have hrest := ih fun a ha => hs a (by simp [ha])
    simp only [cellCount, List.map_cons, List.prod_cons] at hrest ⊢
    exact Nat.mul_le_mul (hab.cellCount_le (hs _ (by simp))) hrest

/-- Which axes a paving is returned for. -/
theorem exists_ofAxes?_iff (hbound : ∀ a ∈ axes, a.groupMin ≤ countLimit) :
    (∃ p, ofAxes? axes = .ok p) ↔ (axes.map Axis.species).Nodup ∧ (∀ a ∈ axes, a.Sound) ∧
      (∃ a ∈ axes, 1 ≤ a.max) ∧ cellCount axes * 6 ≤ tableLimit := by
  constructor
  · rintro ⟨p, hp⟩
    have hp' := ofAxes_of_ofAxes? hp
    obtain ⟨cuts, hc, -⟩ := ofAxes_eq_ok_iff.mp hp'
    obtain ⟨hne, hspecies, -⟩ := cutsOf_eq_ok_iff.mp hc
    have hs := sound_of_ofAxes hbound hp'
    refine ⟨hspecies, hs, ?_, ((ofAxes?_eq_ok_iff hs hp').mp hp).2⟩
    by_contra hmax
    push Not at hmax
    have hzero : ∀ a ∈ axes, a.max = 0 := fun a ha => Nat.lt_one_iff.mp (hmax a ha)
    rw [ofAxes_of_max_eq_zero hne hspecies hs hzero] at hp'
    cases hp'
  · rintro ⟨hspecies, hs, hpos, hroom⟩
    obtain ⟨p, hp⟩ := exists_ofAxes hspecies hs hpos
    exact ⟨p, (ofAxes?_eq_ok_iff hs hp).mpr ⟨rfl, hroom⟩⟩

/-- A paving of wider runs is returned as well, and has no more regions. -/
theorem exists_size_le_of_widened (hbound : ∀ a ∈ axes, a.groupMin ≤ countLimit)
    (h : ofAxes? axes = .ok p) (hw : List.Forall₂ Axis.Widened axes wider) :
    ∃ q, ofAxes? wider = .ok q ∧ q.size ≤ p.size := by
  obtain ⟨hspecies, hs, ⟨a, ha, hpos⟩, hroom⟩ := (exists_ofAxes?_iff hbound).mp ⟨p, h⟩
  have hcount := cellCount_le hw hs
  have hsound : ∀ b ∈ wider, ∃ a ∈ axes, a.Widened b := fun b hb =>
    exists_mem_of_forall₂ hw.flip hb
  have hs' : ∀ b ∈ wider, b.Sound := by
    intro b hb
    obtain ⟨a, ha, hab⟩ := hsound b hb
    exact hab.sound (hs a ha)
  have hbound' : ∀ b ∈ wider, b.groupMin ≤ countLimit := by
    intro b hb
    obtain ⟨a, ha, hab⟩ := hsound b hb
    exact hab.groupMin_eq ▸ hbound a ha
  obtain ⟨b, hb, hab⟩ := exists_mem_of_forall₂ hw ha
  have hspecies' : wider.map Axis.species = axes.map Axis.species :=
    map_eq_map_of_forall₂ hw fun _ _ hab => hab.species_eq
  obtain ⟨q, hq⟩ := (exists_ofAxes?_iff hbound').mpr
    ⟨hspecies' ▸ hspecies, hs', ⟨b, hb, hab.max_eq ▸ hpos⟩, by omega⟩
  have hp := size_add_one hs (ofAxes_of_ofAxes? h)
  have hq' := size_add_one hs' (ofAxes_of_ofAxes? hq)
  exact ⟨q, hq, by omega⟩

/-- A paving is returned for axes of different species whose runs have a width, whose zero counts
stand alone and whose counts leave room for a bound, not all of them without counts, where there is
room for all products of intervals. It is the one that the odometer passes. Its regions are the
products of intervals but for the empty cluster, they begin at strictly increasing compositions, the
last axis fastest, and no axes with wider runs have more of them. Counts are bounded by
`countLimit`. -/
theorem regions_in_order (hbound : ∀ a ∈ axes, a.groupMin ≤ countLimit) :
    ((∃ p, ofAxes? axes = .ok p) ↔ (axes.map Axis.species).Nodup ∧ (∀ a ∈ axes, a.Sound) ∧
      (∃ a ∈ axes, 1 ≤ a.max) ∧ cellCount axes * 6 ≤ tableLimit) ∧
    ∀ p, ofAxes? axes = .ok p → ofOdometer axes = .ok p ∧
      p.size + 1 = (axes.map fun a =>
        min a.groupMin (a.max + 1) + (a.max + 1 - a.groupMin) ⌈/⌉ a.groupWidth).prod ∧
      p.regions.Pairwise (fun r s => r.origin < s.origin) ∧
      ∀ wider, List.Forall₂ Axis.Widened axes wider →
        ∃ q, ofAxes? wider = .ok q ∧ q.size ≤ p.size := by
  refine ⟨exists_ofAxes?_iff hbound, fun p h => ?_⟩
  have hp := ofAxes_of_ofAxes? h
  exact ⟨(ofOdometer_eq_ofAxes axes).trans hp, size_add_one (sound_of_ofAxes hbound hp) hp,
    pairwise_origin hp, fun _ => exists_size_le_of_widened hbound h⟩

/-- Four intervals of helium and three of vacancies leave eleven regions; runs of four helium and of
three vacancies leave no more. -/
theorem regions_in_order_runs : ∃ p,
    ofAxes? [⟨.helium, 5, 2, 3⟩, ⟨.vacancy, 3, 1, 2⟩] = .ok p ∧ p.size = 11 ∧
      p.regions.Pairwise (fun r s => r.origin < s.origin) ∧
      ∃ q, ofAxes? [⟨.helium, 5, 2, 4⟩, ⟨.vacancy, 3, 1, 3⟩] = .ok q ∧ q.size ≤ 11 := by
  obtain ⟨hexists, hregions⟩ :=
    @regions_in_order [⟨.helium, 5, 2, 3⟩, ⟨.vacancy, 3, 1, 2⟩] (by decide)
  have hsound : ∀ a ∈ [(⟨.helium, 5, 2, 3⟩ : Axis), ⟨.vacancy, 3, 1, 2⟩], a.Sound := by
    simp only [List.forall_mem_cons, List.not_mem_nil, false_imp_iff, implies_true, and_true]
    exact ⟨⟨by decide, by decide, by decide⟩, ⟨by decide, by decide, by decide⟩⟩
  obtain ⟨p, hp⟩ := hexists.mpr ⟨by decide, hsound, by decide, by decide⟩
  obtain ⟨-, hsize, horder, hwider⟩ := hregions p hp
  have heleven : p.size = 11 := by
    have hcells : cellCount [⟨.helium, 5, 2, 3⟩, ⟨.vacancy, 3, 1, 2⟩] = 12 := by decide
    exact Nat.succ.inj (hsize.trans hcells)
  rw [← heleven]
  exact ⟨p, hp, rfl, horder, hwider _
    (.cons ⟨rfl, rfl, rfl, by decide⟩ (.cons ⟨rfl, rfl, rfl, by decide⟩ .nil))⟩

end Paving

end ClusterDynamics
