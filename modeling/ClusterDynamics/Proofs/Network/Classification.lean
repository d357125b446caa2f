import ClusterDynamics.Proofs.Lattice.Alignment
import ClusterDynamics.Proofs.Network.Build

/-! Conditions on grouped clusters. Rules look at the smallest composition of a region only. What
they find there holds of the whole region, because no region mixes the zero count with others and
groups begin at a count that their axis gives. -/

namespace ClusterDynamics

/-- The count of a species in a composition; a species without an axis counts as absent. -/
def countOf (species : List Species) (d : Composition) (s : Species) : Nat :=
  match species.findIdx? (· == s) with
  | none => 0
  | some axis => (d[axis]?).getD 0

namespace Condition

variable {species : List Species} {r : Region} {x : Condition} {s : Species} {d : Composition}

/-- Whether a composition satisfies a condition. -/
def SatisfiedBy (species : List Species) (c : Composition) : Condition → Prop
  | zero s => countOf species c s = 0
  | positive s => 0 < countOf species c s
  | atLeast s n => n ≤ countOf species c s
  | dominant s => 0 < countOf species c s ∧ ∀ n ∈ c, n ≤ countOf species c s

instance (species : List Species) (c : Composition) : DecidablePred (SatisfiedBy species c)
  | zero s => inferInstanceAs (Decidable (countOf species c s = 0))
  | positive s => inferInstanceAs (Decidable (0 < countOf species c s))
  | atLeast s n => inferInstanceAs (Decidable (n ≤ countOf species c s))
  | dominant s => inferInstanceAs (Decidable (0 < countOf species c s ∧ _))

/-- A condition on the count of one species. -/
def OnCount (x : Condition) : Prop := ∀ s, x ≠ dominant s

theorem count?_eq (hlength : r.axes.length = species.length) (s : Species) :
    count? species r s = some (countOf species r.origin s) := by
  unfold count? countOf
  cases haxis : species.findIdx? (· == s) with
  | none => rfl
  | some axis =>
    have hlt : axis < r.axes.length :=
      hlength ▸ (List.findIdx?_eq_some_iff_getElem.mp haxis).1
    simp [Region.origin, hlt]

/-- Conditions on counts are tested on the smallest composition. -/
theorem holds?_eq (hlength : r.axes.length = species.length) (hx : x.OnCount) :
    x.holds? species r = some (decide (x.SatisfiedBy species r.origin)) := by
  cases x with
  | zero s | positive s | atLeast s n =>
    rw [holds?, count?_eq hlength]
    rfl
  | dominant s => exact absurd rfl (hx s)

/-- A composition on its own is tested for what it is, also for its dominant species. -/
theorem holds?_point (hd : d.length = species.length) (hr : r.axes = d.map Interval.singleton) :
    x.holds? species r = some (decide (x.SatisfiedBy species d)) := by
  have horigin : r.origin = d := by
    simp [Region.origin, hr, Function.comp_def, Interval.singleton]
  have hlength : r.axes.length = species.length := by simp [hr, hd]
  cases x with
  | dominant s =>
    have hweight : ∀ n, (Interval.singleton n).weight = 2 * n := fun n => by
      simp only [Interval.weight, Interval.last, Interval.singleton]
      omega
    cases haxis : species.findIdx? (· == s) with
    | none => simp [holds?, SatisfiedBy, countOf, haxis]
    | some axis =>
      have hlt : axis < d.length := hd ▸ (List.findIdx?_eq_some_iff_getElem.mp haxis).1
      have hget : r.axes[axis]? = some (.singleton d[axis]) := by simp [hr, hlt]
      have hcount : countOf species d s = d[axis] := by simp [countOf, haxis, hlt]
      simp only [holds?, haxis, hget, Option.map_some, Option.some.injEq]
      rw [Bool.eq_iff_iff]
      simp [SatisfiedBy, hr, hcount, hweight]
  | zero s | positive s | atLeast s n =>
    rw [holds?_eq hlength (fun _ h => by cases h), horigin]

/-- A condition on a count whose threshold, if it has one, does not lie behind the beginning of the
first group of its axis. Groups of one count have no inside that a threshold could lie in. -/
def RespectsGroups (axes : List Axis) : Condition → Prop
  | zero _ | positive _ => True
  | atLeast s n => ∀ a ∈ axes, a.species = s → n ≤ a.groupMin ∨ a.groupWidth = 1
  | dominant _ => False

instance (axes : List Axis) : DecidablePred (RespectsGroups axes)
  | zero _ | positive _ => .isTrue trivial
  | atLeast s n =>
    inferInstanceAs (Decidable (∀ a ∈ axes, a.species = s → n ≤ a.groupMin ∨ a.groupWidth = 1))
  | dominant _ => .isFalse id

theorem RespectsGroups.onCount {axes : List Axis} (h : x.RespectsGroups axes) : x.OnCount := by
  rintro s rfl
  exact h

end Condition

section Rules

variable {species : List Species} {r : Region} {f : Condition → Bool}

theorem ShapeRule.matches?_eq {rule : ShapeRule}
    (h : ∀ x ∈ rule.conditions, x.holds? species r = some (f x)) :
    rule.matches? species r = some (rule.conditions.all f) := by
  unfold matches?
  generalize rule.conditions = xs at h
  induction xs with
  | nil => rfl
  | cons x xs ih =>
    obtain ⟨hx, hxs⟩ := List.forall_mem_cons.mp h
    rw [matches?.go, hx, List.all_cons]
    cases hfx : f x with
    | false => rfl
    | true => simpa using ih hxs

/-- The geometry of the first rule whose conditions all pass a test. -/
def Profile.geometryBy (p : Profile) (f : Condition → Bool) : Geometry :=
  ((p.rules.find? fun rule => rule.conditions.all f).map ShapeRule.geometry).getD p.defaultGeometry

theorem Profile.classify?_eq {p : Profile}
    (h : ∀ rule ∈ p.rules, ∀ x ∈ rule.conditions, x.holds? p.species r = some (f x)) :
    p.classify? r = some (p.geometryBy f) := by
  unfold classify? geometryBy
  generalize p.rules = rules at h
  induction rules with
  | nil => rfl
  | cons rule rules ih =>
    obtain ⟨hrule, hrules⟩ := List.forall_mem_cons.mp h
    rw [classify?.go, ShapeRule.matches?_eq hrule, List.find?_cons]
    cases rule.conditions.all f with
    | false => simpa using ih hrules
    | true => rfl

end Rules

section Regions

variable {species : List Species} {r : Region} {s : Species} {d : Composition} {axis : Nat}

/-- The counts of a species in the compositions of a region. -/
theorem exists_counts (hlength : r.axes.length = species.length)
    (haxis : species.findIdx? (· == s) = some axis) :
    ∃ i, r.axes[axis]? = some i ∧ countOf species r.origin s = i.first ∧
      ∀ d, r.contains d = true → i.contains (countOf species d s) = true := by
  have hlt : axis < r.axes.length := hlength ▸ (List.findIdx?_eq_some_iff_getElem.mp haxis).1
  have hi : r.axes[axis]? = some r.axes[axis] := List.getElem?_eq_getElem hlt
  refine ⟨_, hi, by simp [countOf, haxis, Region.origin, hlt], fun d hd => ?_⟩
  obtain ⟨n, hn, hcontains⟩ := exists_getElem?_of_forall₂ (boxContains_iff.mp hd) hi
  simpa [countOf, haxis, hn] using hcontains

theorem countOf_origin_le (hlength : r.axes.length = species.length) (hd : r.contains d = true)
    (s : Species) : countOf species r.origin s ≤ countOf species d s := by
  cases haxis : species.findIdx? (· == s) with
  | none => simp [countOf, haxis]
  | some axis =>
    obtain ⟨i, -, hfirst, hcontains⟩ := exists_counts hlength haxis
    rw [hfirst]
    exact (Interval.contains_eq_true.mp (hcontains d hd)).1

variable {axes : List Axis} {p : Paving} {x : Condition}

theorem length_axes_of_ofAxes (hp : Paving.ofAxes axes = .ok p) (hr : r ∈ p.regions) :
    r.axes.length = (axes.map Axis.species).length := by
  rw [(Paving.Aligned.of_ofAxes hp).length_eq r hr, Paving.dimension, Paving.species_of_ofAxes hp]

/-- In front of the first group, and where groups are one count wide, a region has one count. -/
theorem countOf_eq_of_lt (hp : Paving.ofAxes axes = .ok p) (hr : r ∈ p.regions)
    (hd : r.contains d = true) {n : Nat}
    (hn : ∀ a ∈ axes, a.species = s → n ≤ a.groupMin ∨ a.groupWidth = 1)
    (hlt : countOf (axes.map Axis.species) r.origin s < n) :
    countOf (axes.map Axis.species) d s = countOf (axes.map Axis.species) r.origin s := by
  cases haxis : (axes.map Axis.species).findIdx? (· == s) with
  | none => simp [countOf, haxis]
  | some axis =>
    obtain ⟨i, hi, hfirst, hcontains⟩ := exists_counts (length_axes_of_ofAxes hp hr) haxis
    obtain ⟨a, ha, hholds⟩ := Paving.holds_of_ofAxes hp hr hi
    have hspecies : a.species = s := by
      obtain ⟨hlt, heq, -⟩ := List.findIdx?_eq_some_iff_getElem.mp haxis
      rw [List.getElem?_eq_some_iff] at ha
      obtain ⟨hlt', rfl⟩ := ha
      simpa using heq
    have hcount := Interval.contains_eq_true.mp (hcontains d hd)
    have hgroup := hn a (List.mem_of_getElem? ha) hspecies
    unfold Axis.Holds at hholds
    omega

theorem satisfiedBy_origin_iff (hp : Paving.ofAxes axes = .ok p) (hr : r ∈ p.regions)
    (hmin : ∀ a ∈ axes, 1 ≤ a.groupMin) (hx : x.RespectsGroups axes) (hd : r.contains d = true) :
    x.SatisfiedBy (axes.map Axis.species) d ↔ x.SatisfiedBy (axes.map Axis.species) r.origin := by
  have hle := countOf_origin_le (length_axes_of_ofAxes hp hr) hd
  have hone : ∀ s, ∀ a ∈ axes, a.species = s → 1 ≤ a.groupMin ∨ a.groupWidth = 1 :=
    fun _ a ha _ => .inl (hmin a ha)
  cases x with
  | zero s | positive s =>
    have hs := hle s
    have heq := countOf_eq_of_lt hp hr hd (hone s)
    unfold Condition.SatisfiedBy
    omega
  | atLeast s n =>
    have hs := hle s
    have heq := countOf_eq_of_lt hp hr hd hx
    unfold Condition.SatisfiedBy
    omega
  | dominant s => exact hx.elim

/-- A condition on a count holds of the smallest composition if and only if it holds of all. -/
theorem satisfiedBy_origin_iff_forall (hp : Paving.ofAxes axes = .ok p) (hr : r ∈ p.regions)
    (hmin : ∀ a ∈ axes, 1 ≤ a.groupMin) (hx : x.OnCount) :
    x.SatisfiedBy (axes.map Axis.species) r.origin ↔
      ∀ d, r.contains d = true → x.SatisfiedBy (axes.map Axis.species) d := by
  refine ⟨fun h d hd => ?_, fun h => h _ r.contains_origin⟩
  cases x with
  | zero s => exact (satisfiedBy_origin_iff (x := .zero s) hp hr hmin trivial hd).mpr h
  | positive s => exact (satisfiedBy_origin_iff (x := .positive s) hp hr hmin trivial hd).mpr h
  | atLeast s n => exact h.trans (countOf_origin_le (length_axes_of_ofAxes hp hr) hd s)
  | dominant s => exact absurd rfl (hx s)

end Regions

/-- The geometry of a single composition: that of the first rule whose conditions it satisfies. -/
def Profile.geometryOf (p : Profile) (c : Composition) : Geometry :=
  p.geometryBy fun x => decide (x.SatisfiedBy p.species c)

theorem Profile.exists_classify?_point {p : Profile} {d : Composition} (hne : p.species ≠ [])
    (hd : d.length = p.species.length) :
    ∃ q, Region.point d = .ok q ∧ p.classify? q = some (p.geometryOf d) := by
  have hnil : d.map Interval.singleton ≠ [] := by
    rw [Ne, ← List.length_eq_zero_iff, List.length_map, hd]
    exact fun h => hne (List.length_eq_zero_iff.mp h)
  refine ⟨⟨_, hnil⟩, Region.ofAxes_eq_ok_iff.mpr rfl, classify?_eq fun rule _ x _ => ?_⟩
  exact Condition.holds?_point hd rfl

/-- What conditions on counts say of a region. -/
structure Region.TestedFaithfully (species : List Species) (r : Region) : Prop where
  holds_iff : ∀ x : Condition, x.OnCount → ∃ b, x.holds? species r = some b ∧
    (b = true ↔ ∀ d, r.contains d = true → x.SatisfiedBy species d)
  zero_fails_iff : ∀ s, (Condition.zero s).holds? species r = some false ↔
    ∀ d, r.contains d = true → ¬(Condition.zero s).SatisfiedBy species d
  positive_fails_iff : ∀ s, (Condition.positive s).holds? species r = some false ↔
    ∀ d, r.contains d = true → ¬(Condition.positive s).SatisfiedBy species d

theorem Region.testedFaithfully {axes : List Axis} {p : Paving} {r : Region}
    (hp : Paving.ofAxes axes = .ok p) (hr : r ∈ p.regions) (hmin : ∀ a ∈ axes, 1 ≤ a.groupMin) :
    r.TestedFaithfully (axes.map Axis.species) := by
  have hlength := length_axes_of_ofAxes hp hr
  -- No region mixes compositions with and without a species.
  have hfails : ∀ x : Condition, x.RespectsGroups axes →
      (x.holds? (axes.map Axis.species) r = some false ↔
        ∀ d, r.contains d = true → ¬x.SatisfiedBy (axes.map Axis.species) d) := by
    intro x hx
    rw [Condition.holds?_eq hlength hx.onCount, Option.some.injEq, decide_eq_false_iff_not]
    exact ⟨fun h d hd => mt (satisfiedBy_origin_iff hp hr hmin hx hd).mp h,
      fun h => h _ r.contains_origin⟩
  refine ⟨fun x hx => ?_, fun s => hfails (.zero s) trivial, fun s => hfails (.positive s) trivial⟩
  refine ⟨_, Condition.holds?_eq hlength hx, ?_⟩
  rw [decide_eq_true_iff]
  exact satisfiedBy_origin_iff_forall hp hr hmin hx

namespace Network

/-- A condition on a count holds of a cluster if and only if all compositions of the cluster satisfy
it, and where one on the absence or presence of a species fails, none of them does. Rules whose
conditions respect the groups give a cluster the geometry that they give each of its compositions. -/
theorem conditions_of_clusters {K : Type} [Scalar K] {spec : NetworkSpec K} {net : Network K}
    (hnet : (build spec).value = .ok net) {i : Nat} {c : Cluster K} (hc : net.cluster i = .ok c) :
    c.region.TestedFaithfully spec.profile.species ∧
    ((∀ rule ∈ spec.profile.rules, ∀ x ∈ rule.conditions, x.RespectsGroups spec.axes) →
      ∀ d, c.region.contains d = true → c.geometry = spec.profile.geometryOf d ∧
        spec.profile.classify? c.region = some c.geometry ∧
        ∃ q, Region.point d = .ok q ∧ spec.profile.classify? q = some c.geometry) := by
  have h := builtFrom_of_build hnet
  have hp := Paving.ofAxes_of_ofAxes? h.paving
  obtain ⟨hprofile, haxes, hcuts⟩ := NetworkSpec.lattice_of_validate h.valid
  have hmin : ∀ a ∈ spec.axes, 1 ≤ a.groupMin := fun a ha =>
    (Axis.validate_eq_ok_iff.mp (hcuts a ha)).2
  obtain ⟨r, hr, rfl⟩ := h.cluster_eq_ok_iff.mp hc
  have hmem := List.mem_of_getElem? hr
  have hlength := length_axes_of_ofAxes hp hmem
  rw [haxes] at hlength
  refine ⟨haxes ▸ Region.testedFaithfully hp hmem hmin, fun hrules d hd => ?_⟩
  have hregion : spec.profile.classify? r = some (spec.profile.geometryOf d) := by
    refine Profile.classify?_eq fun rule hrule x hx => ?_
    have hrespects := hrules rule hrule x hx
    rw [Condition.holds?_eq hlength hrespects.onCount, Option.some.injEq, decide_eq_decide, ← haxes]
    exact (satisfiedBy_origin_iff hp hmem hmin hrespects hd).symm
  have hgeometry : (Cluster.ofRegion spec net.lengths r).geometry = spec.profile.geometryOf d := by
    change (spec.profile.classify? r).getD _ = _
    rw [hregion]
    rfl
  have hd' : d.length = spec.profile.species.length :=
    (Region.length_of_contains hd).trans hlength
  rw [hgeometry]
  exact ⟨rfl, hregion, Profile.exists_classify?_point hprofile.species_ne_nil hd'⟩

end Network

/-- Up to one helium atom and four vacancies in iron, where two to four vacancies are one group. -/
def NetworkSpec.ironGroups {K : Type} [Scalar K] : NetworkSpec K :=
  ((ofProfile .iron 1).withAxis ⟨.vacancy, 4, 2, 3⟩).withMax .interstitial 0

theorem NetworkSpec.ironGroups_valid : (ironGroups : NetworkSpec ℝ).Valid :=
  { ofProfile_valid (Profile.validate_eq_ok_iff.mp (by decide)) 1 with
    axes := by decide
    cuts := by decide }

/-- One helium atom with two to four vacancies. -/
def heliumWithGroup : Region :=
  ⟨[.singleton 1, ⟨2, 5, by decide⟩, .singleton 0], List.cons_ne_nil _ _⟩

/-- The group is a trap, and so is the cluster of one helium atom and three vacancies. -/
theorem Network.conditions_of_clusters_iron :
    ∃ (net : Network ℝ) (c : Cluster ℝ), (build (.ironGroups : NetworkSpec ℝ)).value = .ok net ∧
      net.cluster 4 = .ok c ∧ c.region = heliumWithGroup ∧
      heliumWithGroup.TestedFaithfully [.helium, .vacancy, .interstitial] ∧
      (∀ rule ∈ Profile.iron.rules, ∀ x ∈ rule.conditions,
        x.RespectsGroups (NetworkSpec.ironGroups : NetworkSpec ℝ).axes) ∧
      heliumWithGroup.contains [1, 3, 0] = true ∧ c.geometry = .trap ∧
      ∃ q, Region.point [1, 3, 0] = .ok q ∧ Profile.iron.classify? q = some .trap := by
  have hp : Paving.ofAxes? (NetworkSpec.ironGroups : NetworkSpec ℝ).axes = .ok
      { regions := [⟨[.singleton 0, .singleton 1, .singleton 0], by simp⟩,
          ⟨[.singleton 0, ⟨2, 5, by decide⟩, .singleton 0], by simp⟩,
          ⟨[.singleton 1, .singleton 0, .singleton 0], by simp⟩,
          ⟨[.singleton 1, .singleton 1, .singleton 0], by simp⟩, heliumWithGroup]
        species := [.helium, .vacancy, .interstitial], max := [1, 4, 0] } := by decide +kernel
  obtain ⟨net, hnet, hpaving⟩ := exists_build NetworkSpec.ironGroups_valid (by decide) hp
  have hr : net.paving.regions[4]? = some heliumWithGroup := by
    rw [hpaving]
    rfl
  have hc := (builtFrom_of_build hnet).cluster_eq_ok_iff.mpr ⟨_, hr, rfl⟩
  obtain ⟨htested, hall⟩ := conditions_of_clusters hnet hc
  have hrules : ∀ rule ∈ Profile.iron.rules, ∀ x ∈ rule.conditions,
      x.RespectsGroups (NetworkSpec.ironGroups : NetworkSpec ℝ).axes := by
    decide
  have hmember : heliumWithGroup.contains [1, 3, 0] = true := by decide
  obtain ⟨hgeometry, -, q, hq, hclassify⟩ := hall hrules [1, 3, 0] hmember
  have htrap : Profile.iron.geometryOf [1, 3, 0] = .trap := by decide
  have hc' := hgeometry.trans htrap
  exact ⟨net, _, hnet, hc, rfl, htested, hrules, hmember, hc', q, hq, hc' ▸ hclassify⟩

end ClusterDynamics
