import ClusterDynamics.Proofs.Lattice.Clipping

/-! The regions of a paving are an exact partition: every composition of the box other than the
empty cluster lies in exactly one region, and no region holds anything else. -/

namespace ClusterDynamics

/-- No count of a composition passes the largest count of its axis. -/
def InBox (max : List Nat) (c : Composition) : Prop := List.Forall₂ (· ≤ ·) c max

instance (max : List Nat) (c : Composition) : Decidable (InBox max c) :=
  inferInstanceAs (Decidable (List.Forall₂ (· ≤ ·) c max))

theorem boxContains_iff {as : List Interval} {c : Composition} :
    boxContains as c = true ↔ List.Forall₂ (fun a n => a.contains n = true) as c := by
  induction as generalizing c with
  | nil => cases c <;> simp [boxContains]
  | cons a as ih => cases c <;> simp [boxContains, ih]

theorem Region.length_of_contains {r : Region} {c : Composition} (h : r.contains c = true) :
    c.length = r.dimension :=
  (boxContains_iff.mp h).length_eq.symm

theorem Region.contains_origin (r : Region) : r.contains r.origin = true := by
  rw [Region.contains, boxContains_iff, Region.origin, List.forall₂_map_right_iff, List.forall₂_same]
  intro a _
  simpa using a.first_lt_stop

theorem Region.contains_last (r : Region) : r.contains (r.axes.map Interval.last) = true := by
  rw [Region.contains, boxContains_iff, List.forall₂_map_right_iff, List.forall₂_same]
  intro a _
  have ha := a.first_lt_stop
  rw [Interval.contains_eq_true, Interval.last]
  omega

theorem mem_boxes_iff {cuts : List (List Interval)} {b : List Interval} :
    b ∈ boxes cuts ↔ List.Forall₂ (· ∈ ·) b cuts := by
  induction cuts generalizing b with
  | nil => cases b <;> simp [boxes]
  | cons choices rest ih =>
    cases b with
    | nil => simp [boxes]
    | cons a b => simp [boxes, ih]

/-- A test on the head and a test on the tail pick out a product of the numbers that they pick. -/
theorem countP_product {α : Type} {p : α → Bool} {q r : List α → Bool}
    (h : ∀ a t, r (a :: t) = (p a && q t)) (choices : List α) (tails : List (List α)) :
    (choices.flatMap fun a => tails.map (a :: ·)).countP r =
      choices.countP p * tails.countP q := by
  induction choices with
  | nil => simp
  | cons a choices ih =>
    have hmap : (tails.map (a :: ·)).countP r = if p a then tails.countP q else 0 := by
      rw [List.countP_map]
      cases hp : p a <;> simp [Function.comp_def, h, hp]
    rw [List.flatMap_cons, List.countP_append, ih, hmap, List.countP_cons]
    cases p a <;> simp [Nat.add_mul, Nat.add_comm]

theorem existsUnique_of_countP {α : Type} {p : α → Bool} {xs : List α} (h : xs.countP p = 1) :
    ∃! i : Nat, ∃ x, xs[i]? = some x ∧ p x = true := by
  induction xs with
  | nil => simp at h
  | cons x xs ih =>
    rw [List.countP_cons] at h
    cases hx : p x with
    | true =>
      have hnone : ∀ y ∈ xs, ¬p y = true := List.countP_eq_zero.mp (by simpa [hx] using h)
      refine ⟨0, ⟨x, rfl, hx⟩, ?_⟩
      rintro (_ | i) ⟨y, hy, hpy⟩
      · rfl
      · exact absurd hpy (hnone y (List.mem_of_getElem? hy))
    | false =>
      obtain ⟨i, ⟨y, hy, hpy⟩, hu⟩ := ih (by simpa [hx] using h)
      refine ⟨i + 1, ⟨y, hy, hpy⟩, ?_⟩
      rintro (_ | j) ⟨z, hz, hpz⟩
      · obtain rfl : x = z := Option.some.inj hz
        simp [hx] at hpz
      · rw [hu j ⟨z, hz, hpz⟩]

theorem countP_boxes {axes : List Axis} {cuts : List (List Interval)} {c : Composition}
    (hcuts : List.Forall₂ Axis.IsCut axes cuts) (hc : InBox (axes.map Axis.max) c) :
    (boxes cuts).countP (boxContains · c) = 1 := by
  induction hcuts generalizing c with
  | nil =>
    cases c with
    | nil => rfl
    | cons n ns => cases hc
  | @cons a choices axes cuts ha _ ih =>
    cases hc with
    | @cons n _ ns _ hn hns =>
      rw [boxes, countP_product (p := (·.contains n)) (q := (boxContains · ns)) fun _ _ => rfl,
        ih hns, ha.countP_contains hn]

theorem Species.firstRepeated_eq_none_iff {seen xs : List Species} :
    firstRepeated seen xs = none ↔ xs.Nodup ∧ ∀ s ∈ xs, s ∉ seen := by
  induction xs generalizing seen with
  | nil => simp [firstRepeated]
  | cons x xs ih =>
    rw [firstRepeated]
    by_cases hx : x ∈ seen
    · simp [hx]
    · simp only [List.contains_eq_mem, hx, decide_false, Bool.false_eq_true, if_false, ih,
        List.nodup_cons, List.mem_cons, not_or, forall_eq_or_imp, not_false_eq_true, true_and]
      constructor
      · rintro ⟨hn, hs⟩
        exact ⟨⟨fun h => (hs x h).1 rfl, hn⟩, fun s hs' => (hs s hs').2⟩
      · rintro ⟨⟨hx', hn⟩, hs⟩
        exact ⟨hn, fun s hs' => ⟨fun he => hx' (he ▸ hs'), hs s hs'⟩⟩

theorem Region.ofAxes_eq_ok_iff {as : List Interval} {r : Region} :
    Region.ofAxes as = .ok r ↔ r.axes = as := by
  unfold Region.ofAxes
  constructor
  · intro h
    split at h
    · cases h
    · obtain rfl := Except.ok.inj h
      rfl
  · rintro rfl
    simp [r.axes_ne_nil]

theorem exists_regions {bs : List (List Interval)} (h : ∀ b ∈ bs, b ≠ []) :
    ∃ rs, bs.mapM Region.ofAxes = .ok rs ∧ rs.map Region.axes = bs := by
  induction bs with
  | nil => exact ⟨[], rfl, rfl⟩
  | cons b bs ih =>
    obtain ⟨rs, hm, he⟩ := ih fun b' hb' => h b' (by simp [hb'])
    refine ⟨⟨b, h b (by simp)⟩ :: rs, ?_, by simp [he]⟩
    rw [mapM_eq_ok_iff] at hm ⊢
    exact .cons (Region.ofAxes_eq_ok_iff.mpr rfl) hm

theorem map_axes_of_mapM {bs : List (List Interval)} {rs : List Region}
    (h : bs.mapM Region.ofAxes = .ok rs) : rs.map Region.axes = bs := by
  rw [mapM_eq_ok_iff] at h
  induction h with
  | nil => rfl
  | cons hr _ ih => rw [List.map_cons, ih, Region.ofAxes_eq_ok_iff.mp hr]

namespace Paving

theorem cutsOf_eq_ok_iff {axes : List Axis} {cuts : List (List Interval)} :
    cutsOf axes = .ok cuts ↔ axes ≠ [] ∧ (axes.map Axis.species).Nodup ∧
      List.Forall₂ (fun a c => a.intervals = .ok c) axes cuts := by
  have hn := @Species.firstRepeated_eq_none_iff [] (axes.map Axis.species)
  simp only [List.not_mem_nil, not_false_eq_true, implies_true, and_true] at hn
  rw [← hn, ← mapM_eq_ok_iff]
  unfold cutsOf
  cases axes with
  | nil => simp
  | cons a axes =>
    cases h : Species.firstRepeated [] ((a :: axes).map Axis.species) with
    | some s => simp
    | none => simp

theorem ofAxes_eq_ok_iff {axes : List Axis} {p : Paving} :
    ofAxes axes = .ok p ↔ ∃ cuts, cutsOf axes = .ok cuts ∧ ∃ all,
      (boxes cuts).mapM Region.ofAxes = .ok all ∧ all.filter (fun r => !r.isNull) ≠ [] ∧
      tileAxes axes 0 ⟨all.filter fun r => !r.isNull, axes.map Axis.species,
        axes.map Axis.max⟩ = .ok p := by
  unfold ofAxes
  rw [bind_eq_ok_iff]
  refine exists_congr fun cuts => and_congr_right fun _ => ?_
  rw [bind_eq_ok_iff]
  refine exists_congr fun all => and_congr_right fun _ => ?_
  by_cases h : (all.filter fun r => !r.isNull) = [] <;> simp [h]

theorem species_of_ofAxes {axes : List Axis} {p : Paving} (h : ofAxes axes = .ok p) :
    p.species = axes.map Axis.species := by
  obtain ⟨cuts, -, all, -, -, ht⟩ := ofAxes_eq_ok_iff.mp h
  exact (tileAxes_within ht).2.1

theorem ofAxes_of_ofAxes? {axes : List Axis} {p : Paving} (h : ofAxes? axes = .ok p) :
    ofAxes axes = .ok p := by
  obtain ⟨-, -, hp⟩ := bind_eq_ok_iff.mp h
  exact hp

end Paving

theorem boxContains_cutOff {as : List Interval} {axes : List Axis} {c : Composition}
    (h : List.Forall₂ (fun i a => i.first ≤ a.max) as axes) :
    boxContains (List.zipWith (fun i a => i.cutOff (a.max + 1)) as axes) c = true ↔
      boxContains as c = true ∧ InBox (axes.map Axis.max) c := by
  induction h generalizing c with
  | nil => cases c <;> simp [boxContains, InBox]
  | @cons i a as axes hi _ ih =>
    cases c with
    | nil => simp [boxContains]
    | cons n c =>
      have hcut := Interval.contains_cutOff (n := n) (Nat.lt_succ_of_le hi)
      simp only [List.zipWith_cons_cons, boxContains, Bool.and_eq_true, Nat.succ_eq_add_one] at hcut ⊢
      rw [hcut, ih]
      simp only [InBox, List.map_cons, List.forall₂_cons, Nat.lt_succ_iff]
      tauto

/-- Where the zero count stands alone, a box is the empty cluster if and only if a composition in
it is zero. -/
theorem all_null_iff {as : List Interval} {c : Composition}
    (hz : ∀ i ∈ as, i.first = 0 → i.stop = 1) (hc : boxContains as c = true) :
    as.all (fun i => i.first == 0 && i.stop == 1) = true ↔ ∀ n ∈ c, n = 0 := by
  rw [boxContains_iff] at hc
  induction hc with
  | nil => simp
  | @cons i n as c hi _ ih =>
    have hrest := ih fun j hj => hz j (by simp [hj])
    have hone := hz i (by simp)
    rw [Interval.contains_eq_true] at hi
    rw [List.all_cons, Bool.and_eq_true, hrest, List.forall_mem_cons]
    refine and_congr_left fun _ => ?_
    simp only [Bool.and_eq_true, beq_iff_eq]
    omega

section Whole

variable {axes : List Axis} {cuts : List (List Interval)}

theorem zero_alone_of_mem_boxes (hcuts : List.Forall₂ Axis.IsCut axes cuts) {b : List Interval}
    (hb : b ∈ boxes cuts) : ∀ i ∈ b, i.first = 0 → i.stop = 1 := by
  rw [mem_boxes_iff] at hb
  induction hcuts generalizing b with
  | nil =>
    cases hb
    simp
  | cons ha _ ih =>
    cases hb with
    | cons hi hb =>
      rw [List.forall_mem_cons]
      exact ⟨ha.zero_alone _ hi, ih hb⟩

theorem first_le_of_mem_boxes (hcuts : List.Forall₂ Axis.IsCut axes cuts) {b : List Interval}
    (hb : b ∈ boxes cuts) : List.Forall₂ (fun i a => i.first ≤ a.max) b axes := by
  rw [mem_boxes_iff] at hb
  induction hcuts generalizing b with
  | nil =>
    cases hb
    exact .nil
  | cons ha _ ih =>
    cases hb with
    | cons hi hb => exact .cons (ha.first_le _ hi) (ih hb)

/-- Before any axis is cut off, a composition of the box lies in one region, or in none if it is
the empty cluster. -/
theorem countP_whole (hcuts : List.Forall₂ Axis.IsCut axes cuts) {all : List Region}
    (hall : all.map Region.axes = boxes cuts) {c : Composition}
    (hc : InBox (axes.map Axis.max) c) :
    (all.filter fun r => !r.isNull).countP (·.contains c) =
      if ∃ n ∈ c, n ≠ 0 then 1 else 0 := by
  have hnull : ∀ r ∈ all, r.contains c = true → (r.isNull = true ↔ ∀ n ∈ c, n = 0) := by
    intro r hr
    have hb : r.axes ∈ boxes cuts := hall ▸ List.mem_map_of_mem hr
    exact all_null_iff (zero_alone_of_mem_boxes hcuts hb)
  rw [List.countP_filter]
  split_ifs with hz
  · have hone : all.countP (·.contains c) = 1 := by
      have h := countP_boxes hcuts hc
      rwa [← hall, List.countP_map] at h
    rw [← hone]
    refine List.countP_congr fun r hr => ?_
    simp only [Bool.and_eq_true, Bool.not_eq_true', and_iff_left_iff_imp]
    intro hcr
    rw [Bool.eq_false_iff, Ne, hnull r hr hcr]
    simpa using hz
  · rw [List.countP_eq_zero]
    intro r hr h
    simp only [Bool.and_eq_true, Bool.not_eq_true'] at h
    have ht := (hnull r hr h.1).mpr (by simpa using hz)
    rw [h.2] at ht
    cases ht

end Whole

namespace Paving

variable {axes : List Axis} {p : Paving}

theorem isCut_of_cutsOf {cuts : List (List Interval)} (hs : ∀ a ∈ axes, a.Sound)
    (h : cutsOf axes = .ok cuts) : List.Forall₂ Axis.IsCut axes cuts := by
  have hf := (List.forall₂_and_left _ _).mpr ⟨hs, (cutsOf_eq_ok_iff.mp h).2.2⟩
  exact hf.imp fun a c hac => Axis.isCut_of_intervals hac.1 hac.2

theorem tileAxes_whole {cuts : List (List Interval)} (hs : ∀ a ∈ axes, a.Sound)
    (hcuts : List.Forall₂ Axis.IsCut axes cuts) {rs : List Region}
    (hrs : ∀ r ∈ rs, r.axes ∈ boxes cuts) :
    tileAxes axes 0 ⟨rs, axes.map Axis.species, axes.map Axis.max⟩ =
      .ok ⟨rs.map (·.cutAxes axes 0), axes.map Axis.species, axes.map Axis.max⟩ := by
  rw [tileAxes_eq_ok]
  · simp [dimension]
  · exact fun a ha => (hs a ha).max_lt
  · exact fun r hr => ⟨[], r.axes, rfl, rfl, first_le_of_mem_boxes hcuts (hrs r hr)⟩

/-- Axes with a partition are sound where counts are bounded. -/
theorem sound_of_ofAxes (hbound : ∀ a ∈ axes, a.groupMin ≤ countLimit) (h : ofAxes axes = .ok p) :
    ∀ a ∈ axes, a.Sound := by
  obtain ⟨cuts, hc, -⟩ := ofAxes_eq_ok_iff.mp h
  obtain ⟨-, -, hf⟩ := cutsOf_eq_ok_iff.mp hc
  intro a ha
  obtain ⟨cut, -, hcut⟩ := exists_mem_of_forall₂ hf ha
  exact Axis.Sound.of_intervals (hbound a ha) hcut

/-- An exact partition: how many regions hold a composition. -/
theorem countP_regions (hs : ∀ a ∈ axes, a.Sound) (h : ofAxes axes = .ok p) (c : Composition) :
    p.regions.countP (·.contains c) =
      if InBox (axes.map Axis.max) c ∧ ∃ n ∈ c, n ≠ 0 then 1 else 0 := by
  obtain ⟨cuts, hc, all, hall, -, ht⟩ := ofAxes_eq_ok_iff.mp h
  have hcuts := isCut_of_cutsOf hs hc
  have hmap := map_axes_of_mapM hall
  have hmem : ∀ r ∈ all.filter fun r => !r.isNull, r.axes ∈ boxes cuts :=
    fun r hr => hmap ▸ List.mem_map_of_mem (List.mem_of_mem_filter hr)
  rw [tileAxes_whole hs hcuts hmem] at ht
  obtain rfl := Except.ok.inj ht
  -- Cutting off takes from a region what lies outside of the box and nothing else.
  have hcontains : ∀ r ∈ all.filter fun r => !r.isNull, (r.cutAxes axes 0).contains c = true ↔
      r.contains c = true ∧ InBox (axes.map Axis.max) c := by
    intro r hr
    have hf := first_le_of_mem_boxes hcuts (hmem r hr)
    have haxes := Region.cutAxes_axes (List.nil_append r.axes).symm hf.length_eq
    rw [Region.contains, Region.contains, ← boxContains_cutOff hf]
    exact iff_of_eq (congrArg (boxContains · c = true) haxes)
  rw [List.countP_map]
  by_cases hbox : InBox (axes.map Axis.max) c
  · simp only [hbox, true_and]
    rw [← countP_whole hcuts hmap hbox]
    refine List.countP_congr fun r hr => ?_
    rw [Function.comp_apply, hcontains r hr]
    exact and_iff_left hbox
  · rw [if_neg fun hb => hbox hb.1, List.countP_eq_zero]
    intro r hr hcr
    exact hbox ((hcontains r hr).mp hcr).2

theorem exists_cutsOf (hne : axes ≠ []) (hspecies : (axes.map Axis.species).Nodup)
    (hs : ∀ a ∈ axes, a.Sound) : ∃ cuts, cutsOf axes = .ok cuts := by
  choose! cut hcut using fun a (ha : a ∈ axes) => (hs a ha).intervals_ok
  refine ⟨axes.map cut, cutsOf_eq_ok_iff.mpr ⟨hne, hspecies, List.forall₂_map_right_iff.mpr ?_⟩⟩
  exact List.forall₂_same.mpr fun a ha => (hcut a ha).1

theorem exists_wholeRegions (hne : axes ≠ []) {cuts : List (List Interval)}
    (hcuts : List.Forall₂ Axis.IsCut axes cuts) :
    ∃ all, (boxes cuts).mapM Region.ofAxes = .ok all ∧ all.map Region.axes = boxes cuts := by
  refine exists_regions fun b hb => ?_
  have hl := (first_le_of_mem_boxes hcuts hb).length_eq
  rintro rfl
  exact hne (List.eq_nil_of_length_eq_zero hl.symm)

/-- Sound axes of different species can be paved if one of them has a count beside zero. -/
theorem exists_ofAxes (hspecies : (axes.map Axis.species).Nodup) (hs : ∀ a ∈ axes, a.Sound)
    (hpos : ∃ a ∈ axes, 1 ≤ a.max) : ∃ p, ofAxes axes = .ok p := by
  obtain ⟨a, ha, hone⟩ := hpos
  have hne : axes ≠ [] := List.ne_nil_of_mem ha
  obtain ⟨cuts, hc⟩ := exists_cutsOf hne hspecies hs
  have hcut := isCut_of_cutsOf hs hc
  obtain ⟨all, hall, hmap⟩ := exists_wholeRegions hne hcut
  have hmem : ∀ r ∈ all.filter fun r => !r.isNull, r.axes ∈ boxes cuts :=
    fun r hr => hmap ▸ List.mem_map_of_mem (List.mem_of_mem_filter hr)
  refine ⟨_, ofAxes_eq_ok_iff.mpr ⟨cuts, hc, all, hall, ?_, tileAxes_whole hs hcut hmem⟩⟩
  -- The largest composition of the box is not the empty cluster, so some region holds it.
  intro hnil
  have hbox : InBox (axes.map Axis.max) (axes.map Axis.max) :=
    List.forall₂_same.mpr fun _ _ => le_rfl
  have hcount := countP_whole hcut hmap hbox
  rw [hnil, if_pos ⟨a.max, List.mem_map_of_mem ha, by omega⟩] at hcount
  simp at hcount

/-- Axes without a count beside zero leave nothing but the empty cluster. -/
theorem ofAxes_of_max_eq_zero (hne : axes ≠ []) (hspecies : (axes.map Axis.species).Nodup)
    (hs : ∀ a ∈ axes, a.Sound) (hmax : ∀ a ∈ axes, a.max = 0) :
    ofAxes axes = .error .emptyPaving := by
  obtain ⟨cuts, hc⟩ := exists_cutsOf hne hspecies hs
  have hcut := isCut_of_cutsOf hs hc
  obtain ⟨all, hall, hmap⟩ := exists_wholeRegions hne hcut
  have hnull : (all.filter fun r => !r.isNull) = [] := by
    refine List.filter_eq_nil_iff.mpr fun r hr => ?_
    have hb : r.axes ∈ boxes cuts := hmap ▸ List.mem_map_of_mem hr
    have hzero : ∀ i ∈ r.axes, i.first = 0 ∧ i.stop = 1 := by
      intro i hi
      obtain ⟨a, ha, hle⟩ := exists_mem_of_forall₂ (first_le_of_mem_boxes hcut hb) hi
      have hfirst : i.first = 0 := by have := hmax a ha; omega
      exact ⟨hfirst, zero_alone_of_mem_boxes hcut hb i hi hfirst⟩
    simpa [Region.isNull] using hzero
  rw [ofAxes, hc, ok_bind, hall, ok_bind]
  simp [hnull]

end Paving

end ClusterDynamics
