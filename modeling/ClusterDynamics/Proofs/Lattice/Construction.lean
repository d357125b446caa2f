import ClusterDynamics.Proofs.Lattice.Partition
import ClusterDynamics.Proofs.OutOfRange

/-! Construction of a paving. Sound axes always have an exact partition; it is returned if and only
if a table of the products of their intervals has room in memory. -/

namespace ClusterDynamics

theorem Axis.Sound.cellCount_pos {a : Axis} (h : a.Sound) : 1 ≤ a.cellCount := by
  have hmin := h.groupMin_pos
  unfold Axis.cellCount
  omega

namespace Paving

variable {axes : List Axis} {p : Paving}

/-- How many products of intervals the axes have: the regions and the empty cluster. -/
def cellCount (axes : List Axis) : Nat := (axes.map Axis.cellCount).prod

theorem length_of_cutsOf {cuts : List (List Interval)} (hs : ∀ a ∈ axes, a.Sound)
    (h : cutsOf axes = .ok cuts) : cuts.map List.length = axes.map Axis.cellCount := by
  have hcut := isCut_of_cutsOf hs h
  clear h hs
  induction hcut with
  | nil => rfl
  | cons ha _ ih => rw [List.map_cons, List.map_cons, ha.length_eq, ih]

/-- A region takes six words. -/
theorem checkRoom_axes_eq_ok_iff (hs : ∀ a ∈ axes, a.Sound) {cuts : List (List Interval)}
    (hc : cutsOf axes = .ok cuts) :
    Paving.checkRoom axes = .ok () ↔ cellCount axes * 6 ≤ tableLimit := by
  have hpos : ∀ n ∈ cuts.map List.length, 1 ≤ n := by
    rw [length_of_cutsOf hs hc]
    simpa using fun a ha => (hs a ha).cellCount_pos
  rw [Paving.checkRoom, hc, ok_bind, bind_eq_ok_iff]
  constructor
  · rintro ⟨k, hk, hroom⟩
    rw [mapError_eq_ok_iff, extentProduct_eq_ok_iff hpos, length_of_cutsOf hs hc] at hk
    rw [mapError_eq_ok_iff, checkRoom_eq_ok_iff, hk.1] at hroom
    exact hroom
  · intro hroom
    have hword : (cuts.map List.length).prod < wordLimit := by
      rw [length_of_cutsOf hs hc]
      have hlimit : tableLimit < wordLimit := by decide
      unfold cellCount at hroom
      omega
    refine ⟨_, mapError_eq_ok_iff.mpr ((extentProduct_eq_ok_iff hpos).mpr ⟨rfl, hword⟩), ?_⟩
    rw [mapError_eq_ok_iff, checkRoom_eq_ok_iff, length_of_cutsOf hs hc]
    exact hroom

theorem ofAxes?_eq_ok_iff (hs : ∀ a ∈ axes, a.Sound) (h : ofAxes axes = .ok p) {q : Paving} :
    ofAxes? axes = .ok q ↔ q = p ∧ cellCount axes * 6 ≤ tableLimit := by
  obtain ⟨cuts, hc, -⟩ := ofAxes_eq_ok_iff.mp h
  rw [ofAxes?, bind_eq_ok_iff, h]
  constructor
  · rintro ⟨⟨⟩, hroom, hq⟩
    exact ⟨(Except.ok.inj hq).symm, (checkRoom_axes_eq_ok_iff hs hc).mp hroom⟩
  · rintro ⟨rfl, hroom⟩
    exact ⟨(), (checkRoom_axes_eq_ok_iff hs hc).mpr hroom, rfl⟩

theorem ofAxes?_of_max_eq_zero (hne : axes ≠ []) (hspecies : (axes.map Axis.species).Nodup)
    (hs : ∀ a ∈ axes, a.Sound) (hmax : ∀ a ∈ axes, a.max = 0) :
    ofAxes? axes = .error .emptyPaving := by
  obtain ⟨cuts, hc⟩ := exists_cutsOf hne hspecies hs
  have hone : cellCount axes = 1 := by
    refine List.prod_eq_one fun n hn => ?_
    obtain ⟨a, ha, rfl⟩ := List.mem_map.mp hn
    have hmin := (hs a ha).groupMin_pos
    have hruns : a.max + 1 - a.groupMin = 0 := by have := hmax a ha; omega
    rw [Axis.cellCount, hruns, zero_ceilDiv, hmax a ha]
    omega
  have hroom := (checkRoom_axes_eq_ok_iff hs hc).mpr (by rw [hone]; decide)
  rw [ofAxes?, hroom, ok_bind, ofAxes_of_max_eq_zero hne hspecies hs hmax]

/-- As long as the products can be counted, a table of them that has no room is what fails. -/
theorem ofAxes?_of_no_room (hs : ∀ a ∈ axes, a.Sound) {cuts : List (List Interval)}
    (hc : cutsOf axes = .ok cuts) (hword : cellCount axes < wordLimit)
    (hroom : tableLimit < cellCount axes * 6) :
    ofAxes? axes = .error (.outOfRange ⟨cellCount axes * 6, tableLimit⟩) := by
  have hlength : (cuts.map List.length).prod = cellCount axes := by
    rw [length_of_cutsOf hs hc, cellCount]
  have hpos : ∀ n ∈ cuts.map List.length, 1 ≤ n := by
    rw [length_of_cutsOf hs hc]
    simpa using fun a ha => (hs a ha).cellCount_pos
  have hproduct : extentProduct (cuts.map List.length) = .ok (cellCount axes) :=
    (extentProduct_eq_ok_iff hpos).mpr ⟨hlength.symm, hlength ▸ hword⟩
  have hcheck : ClusterDynamics.checkRoom (cellCount axes) 6 =
      .error ⟨cellCount axes * 6, tableLimit⟩ :=
    if_neg hroom.not_ge
  rw [ofAxes?, Paving.checkRoom, hc, ok_bind, hproduct, mapError_ok, ok_bind, hcheck]
  rfl

/-- Products that cannot be counted fail at the first number of them that is no word. -/
theorem exists_ofAxes?_of_no_word (hs : ∀ a ∈ axes, a.Sound) {cuts : List (List Interval)}
    (hc : cutsOf axes = .ok cuts) (hword : wordLimit ≤ cellCount axes) :
    ∃ n, wordLimit ≤ n ∧ ofAxes? axes = .error (.outOfRange ⟨n, wordLimit⟩) := by
  obtain ⟨n, hn, hproduct⟩ : ∃ n, wordLimit ≤ n ∧
      extentProduct (cuts.map List.length) = .error ⟨n, wordLimit⟩ := by
    refine exists_foldlM_word_eq_error (by decide) ?_
    rwa [length_of_cutsOf hs hc, Nat.one_mul]
  refine ⟨n, hn, ?_⟩
  rw [ofAxes?, Paving.checkRoom, hc, ok_bind, hproduct]
  rfl

theorem exists_outOfRange_of_ofAxes? (hs : ∀ a ∈ axes, a.Sound) {cuts : List (List Interval)}
    (hc : cutsOf axes = .ok cuts) (hroom : tableLimit < cellCount axes * 6) :
    ∃ e, ofAxes? axes = .error (.outOfRange e) := by
  rcases Nat.lt_or_ge (cellCount axes) wordLimit with hword | hword
  · exact ⟨_, ofAxes?_of_no_room hs hc hword hroom⟩
  · obtain ⟨n, -, hn⟩ := exists_ofAxes?_of_no_word hs hc hword
    exact ⟨_, hn⟩

theorem existsUnique_region (hs : ∀ a ∈ axes, a.Sound) (h : ofAxes axes = .ok p) {c : Composition}
    (hbox : InBox (axes.map Axis.max) c) (hne : ∃ n ∈ c, n ≠ 0) :
    ∃! id : Nat, ∃ r, p.regions[id]? = some r ∧ r.contains c = true := by
  apply existsUnique_of_countP
  rw [countP_regions hs h, if_pos ⟨hbox, hne⟩]

theorem inBox_of_contains (hs : ∀ a ∈ axes, a.Sound) (h : ofAxes axes = .ok p) {r : Region}
    (hr : r ∈ p.regions) {c : Composition} (hc : r.contains c = true) :
    InBox (axes.map Axis.max) c ∧ ∃ n ∈ c, n ≠ 0 := by
  have hpos : 0 < p.regions.countP (·.contains c) := List.countP_pos_iff.mpr ⟨r, hr, hc⟩
  rw [countP_regions hs h] at hpos
  by_contra hout
  rw [if_neg hout] at hpos
  omega

/-- Axes of different species whose runs have a width and whose zero counts stand alone, not all of
them without counts, have an exact partition: each composition of the box but the empty cluster
lies in one region, and the regions hold nothing else. The partition is returned if and only if
there is room for a table of all products of intervals. Without it, the table fails, or the count of
the products where that is no word. -/
theorem exact_partition (hspecies : (axes.map Axis.species).Nodup)
    (hwidth : ∀ a ∈ axes, 1 ≤ a.groupWidth) (hmin : ∀ a ∈ axes, 1 ≤ a.groupMin)
    (hmax : ∀ a ∈ axes, a.max < countLimit) (hpos : ∃ a ∈ axes, 1 ≤ a.max) :
    ∃ p, ofAxes axes = .ok p ∧
      (∀ q, ofAxes? axes = .ok q ↔ q = p ∧ cellCount axes * 6 ≤ tableLimit) ∧
      (∀ c, InBox (axes.map Axis.max) c → (∃ n ∈ c, n ≠ 0) →
        ∃! id : Nat, ∃ r, p.regions[id]? = some r ∧ r.contains c = true) ∧
      (∀ r ∈ p.regions, ∀ c, r.contains c = true →
        InBox (axes.map Axis.max) c ∧ ∃ n ∈ c, n ≠ 0) ∧
      (cellCount axes < wordLimit → tableLimit < cellCount axes * 6 →
        ofAxes? axes = .error (.outOfRange ⟨cellCount axes * 6, tableLimit⟩)) ∧
      (wordLimit ≤ cellCount axes →
        ∃ n, wordLimit ≤ n ∧ ofAxes? axes = .error (.outOfRange ⟨n, wordLimit⟩)) := by
  have hs : ∀ a ∈ axes, a.Sound := fun a ha => ⟨hwidth a ha, hmin a ha, hmax a ha⟩
  obtain ⟨p, hp⟩ := exists_ofAxes hspecies hs hpos
  obtain ⟨cuts, hc, -⟩ := ofAxes_eq_ok_iff.mp hp
  exact ⟨p, hp, fun _ => ofAxes?_eq_ok_iff hs hp, fun _ => existsUnique_region hs hp,
    fun _ hr _ => inBox_of_contains hs hp hr, ofAxes?_of_no_room hs hc,
    exists_ofAxes?_of_no_word hs hc⟩

/-- Runs that reach past the largest count on one axis, and no count beside zero on the other. -/
theorem exact_partition_runs : ∃ p,
    ofAxes? [⟨.helium, 5, 2, 3⟩, ⟨.vacancy, 0, 7, 2⟩] = .ok p ∧
      ∃! id : Nat, ∃ r, p.regions[id]? = some r ∧ r.contains [5, 0] = true := by
  obtain ⟨p, -, hroom, hunique, -, -, -⟩ :=
    @exact_partition [⟨.helium, 5, 2, 3⟩, ⟨.vacancy, 0, 7, 2⟩] (by decide) (by decide)
      (by decide) (by decide) (by decide)
  exact ⟨p, (hroom p).mpr ⟨rfl, by decide⟩, hunique [5, 0] (by decide) ⟨5, by decide, by decide⟩⟩

/-- Three axes of `2 ^ 21` counts each leave no room for their regions. -/
theorem ofAxes?_without_room :
    let axes := [Axis.exact .helium 2097151, .exact .vacancy 2097151, .exact .interstitial 2097151]
    (axes.map Axis.species).Nodup ∧ (∀ a ∈ axes, 1 ≤ a.groupWidth) ∧
      (∀ a ∈ axes, 1 ≤ a.groupMin) ∧ (∀ a ∈ axes, a.max < countLimit) ∧
      (∃ a ∈ axes, 1 ≤ a.max) ∧ ∀ p, ofAxes? axes ≠ .ok p := by
  intro axes
  have hs : ∀ a ∈ axes, a.Sound := fun a ha =>
    ⟨(by decide : ∀ a ∈ axes, 1 ≤ a.groupWidth) a ha,
      (by decide : ∀ a ∈ axes, 1 ≤ a.groupMin) a ha,
      (by decide : ∀ a ∈ axes, a.max < countLimit) a ha⟩
  have hspecies : (axes.map Axis.species).Nodup := by decide
  have hpos : ∃ a ∈ axes, 1 ≤ a.max := by decide
  refine ⟨hspecies, fun a ha => (hs a ha).width_pos, fun a ha => (hs a ha).groupMin_pos,
    fun a ha => (hs a ha).max_lt, hpos, fun p hp => ?_⟩
  obtain ⟨q, hq⟩ := exists_ofAxes hspecies hs hpos
  exact absurd ((ofAxes?_eq_ok_iff hs hq).mp hp).2 (by decide)

end Paving

end ClusterDynamics
