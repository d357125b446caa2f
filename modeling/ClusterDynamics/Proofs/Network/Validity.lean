import ClusterDynamics.Network.Samples
import ClusterDynamics.Proofs.Lattice.Partition
import ClusterDynamics.Proofs.Real

/-! What the checks of profiles and descriptions establish. -/

namespace ClusterDynamics

namespace Profile

/-- A profile with axes, none of them repeated, among which are the primary species and the
monomers. -/
@[mk_iff]
structure Valid (p : Profile) : Prop where
  species_ne_nil : p.species ≠ []
  nodup : p.species.Nodup
  primary_mem : p.primary ∈ p.species
  monomer_mem : ∀ s ∈ p.monomerAxes, s ∈ p.species

theorem axisOf?_isNone_iff {p : Profile} {s : Species} :
    (p.axisOf? s).isNone = true ↔ s ∉ p.species := by
  rw [axisOf?, Option.isNone_iff_eq_none, List.findIdx?_eq_none_iff]
  simp only [beq_eq_false_iff_ne]
  exact ⟨fun h hs => h s hs rfl, fun h x hx he => h (he ▸ hx)⟩

theorem primaryAxis_eq_ok_iff {p : Profile} {axis : Nat} :
    p.primaryAxis = .ok axis ↔ p.axisOf? p.primary = some axis := by
  unfold primaryAxis
  cases p.axisOf? p.primary <;> simp

theorem validate_eq_ok_iff {p : Profile} : p.validate = .ok () ↔ p.Valid := by
  have hn := @Species.firstRepeated_eq_none_iff [] p.species
  simp only [List.not_mem_nil, not_false_eq_true, implies_true, and_true] at hn
  rw [valid_iff, ← hn]
  have hm : (p.monomerAxes.find? fun s => (p.axisOf? s).isNone) = none ↔
      ∀ s ∈ p.monomerAxes, s ∈ p.species := by
    simp only [List.find?_eq_none, axisOf?_isNone_iff, not_not]
  have hp : (∃ axis, p.primaryAxis = .ok axis) ↔ p.primary ∈ p.species := by
    simp only [primaryAxis_eq_ok_iff, ← Option.isSome_iff_exists, ← Option.not_isNone,
      Bool.not_eq_true', Bool.eq_false_iff, Ne, axisOf?_isNone_iff, not_not]
  unfold validate
  rw [← hm, ← hp]
  cases p.species with
  | nil => simp
  | cons s ss =>
    cases Species.firstRepeated [] (s :: ss) with
    | some s => simp
    | none =>
      cases p.monomerAxes.find? fun s => (p.axisOf? s).isNone with
      | some s => simp [bind_eq_ok_iff]
      | none => simp [bind_eq_ok_iff, pure, Except.pure]

theorem basic_valid {name : String} {species : List Species} {primary : Species}
    (hn : species.Nodup) (hp : primary ∈ species) : (basic name species primary).Valid :=
  ⟨List.ne_nil_of_mem hp, hn, hp, by simpa [basic] using hp⟩

/-- The primary species is one of the axes that the regions were cut on. -/
theorem Valid.exists_primaryAxis {profile : Profile} (h : profile.Valid) {axes : List Axis}
    (haxes : axes.map Axis.species = profile.species) {p : Paving}
    (hp : Paving.ofAxes axes = .ok p) :
    ∃ axis, profile.primaryAxis = .ok axis ∧ axis < p.dimension := by
  have hdimension : p.dimension = profile.species.length := by
    rw [Paving.dimension, Paving.species_of_ofAxes hp, haxes]
  obtain ⟨axis, haxis⟩ := Option.ne_none_iff_exists'.mp fun hnone =>
    axisOf?_isNone_iff.mp (Option.isNone_iff_eq_none.mpr hnone) h.primary_mem
  refine ⟨axis, primaryAxis_eq_ok_iff.mpr haxis, ?_⟩
  rw [hdimension]
  exact (List.findIdx?_eq_some_iff_getElem.mp haxis).1

end Profile

namespace NetworkSpec

/-- The lattice of a description that passes the checks, whatever numbers it is written in. -/
theorem lattice_of_validate {K : Type} [Scalar K] {spec : NetworkSpec K}
    (h : spec.validate = .ok ()) : spec.profile.Valid ∧
      spec.axes.map Axis.species = spec.profile.species ∧ ∀ a ∈ spec.axes, a.validate = .ok () := by
  unfold validate at h
  rw [bind_unit_eq_ok_iff, mapError_eq_ok_iff, Profile.validate_eq_ok_iff] at h
  obtain ⟨hprofile, h⟩ := h
  by_cases hc : spec.axes.map Axis.species = spec.profile.species
  · simp only [hc, ne_eq, not_true_eq_false, if_false] at h
    obtain ⟨⟨⟩, hcuts, -⟩ := bind_eq_ok_iff.mp h
    refine ⟨hprofile, hc, fun a ha => ?_⟩
    exact mapError_eq_ok_iff.mp (forM_eq_ok_iff.mp hcuts a ha)
  · simp [hc] at h

section Mobility

variable {K : Type} [Scalar K]

theorem checkMobility_eq_ok_iff {dimension : Nat} {seen : List Composition}
    {mobility : List (Mobility K)} : checkMobility dimension seen mobility = .ok () ↔
      (∀ m ∈ mobility, m.composition.length = dimension ∧ Scalar.isAtLeast 0 m.factor = true ∧
        Scalar.isFinite m.energy = true) ∧
      (mobility.map Mobility.composition).Nodup ∧ ∀ m ∈ mobility, m.composition ∉ seen := by
  induction mobility generalizing seen with
  | nil => simp [checkMobility]
  | cons m mobility ih =>
    have hquantity : checkQuantity .diffusionFactor 0 m.factor = .ok () ↔
        Scalar.isAtLeast 0 m.factor = true := by
      unfold checkQuantity
      split_ifs with h <;> simp [h]
    by_cases hlength : m.composition.length = dimension
    · by_cases henergy : Scalar.isFinite m.energy = true
      · by_cases hseen : m.composition ∈ seen
        · simp [checkMobility, hlength, henergy, hseen, bind_unit_eq_ok_iff]
        · have hrest : checkMobility dimension seen (m :: mobility) = .ok () ↔
              Scalar.isAtLeast 0 m.factor = true ∧
                checkMobility dimension (m.composition :: seen) mobility = .ok () := by
            simp [checkMobility, hlength, henergy, hseen, bind_unit_eq_ok_iff, hquantity]
          rw [hrest, ih, List.forall_mem_cons, List.forall_mem_cons, List.map_cons, List.nodup_cons]
          simp only [hlength, henergy, hseen, List.mem_map, List.mem_cons]
          grind
      · simp [checkMobility, hlength, henergy, bind_unit_eq_ok_iff]
    · simp [checkMobility, hlength]

theorem mobility_of_validate {spec : NetworkSpec K} (h : spec.validate = .ok ()) :
    checkMobility spec.axes.length [] spec.mobility = .ok () := by
  unfold validate at h
  obtain ⟨-, h⟩ := bind_unit_eq_ok_iff.mp h
  by_cases hc : spec.axes.map Axis.species = spec.profile.species
  · simp only [hc, ne_eq, not_true_eq_false, if_false] at h
    obtain ⟨-, h⟩ := bind_unit_eq_ok_iff.mp h
    obtain ⟨hmobility, -⟩ := bind_unit_eq_ok_iff.mp h
    rwa [← hc, List.length_map] at hmobility
  · simp [hc] at h

/-- The mobilities of a valid description can be exchanged for others that pass their check. -/
theorem validate_of_mobility {spec : NetworkSpec K} {mobility : List (Mobility K)}
    (h : spec.validate = .ok ())
    (hmobility : checkMobility spec.axes.length [] mobility = .ok ()) :
    { spec with mobility }.validate = .ok () := by
  have hold := mobility_of_validate h
  unfold validate at h ⊢
  simp only [List.length_map, hold, hmobility] at h ⊢
  exact h

end Mobility

theorem checkQuantity_eq_ok_iff {q : Quantity} {bound value : ℝ} :
    checkQuantity q bound value = .ok () ↔ bound ≤ value := by
  unfold checkQuantity
  split_ifs with h
  · simpa using Scalar.isAtLeast_real.mp h
  · simpa using fun h' => h (Scalar.isAtLeast_real.mpr h')

/-- A valid profile with sound axes in its order, and all quantities within their bounds. -/
@[mk_iff]
structure Valid (spec : NetworkSpec ℝ) : Prop where
  profile : spec.profile.Valid
  axes : spec.axes.map Axis.species = spec.profile.species
  cuts : ∀ a ∈ spec.axes, a.validate = .ok ()
  mobility : checkMobility spec.axes.length [] spec.mobility = .ok ()
  coreRadii : ∀ e ∈ spec.coreRadii.entries, 0 ≤ e.2
  sinks : ∀ s, spec.sinks = some s → 0 ≤ s.strength ∧ 1 ≤ s.bias
  reSolution : ∀ r, spec.reSolution = some r → 0 ≤ r.fit
  nucleation : ∀ rate, spec.nucleation = some rate → 0 ≤ rate
  fissionRate : 0 ≤ spec.fissionRate
  fissionYield : 0 ≤ spec.fissionYield
  loopAngles : spec.loopAngles ≠ 0

theorem validate_eq_ok_iff {spec : NetworkSpec ℝ} : spec.validate = .ok () ↔ spec.Valid := by
  unfold validate
  rw [bind_unit_eq_ok_iff, mapError_eq_ok_iff, Profile.validate_eq_ok_iff, valid_iff]
  by_cases hc : spec.axes.map Axis.species = spec.profile.species
  · have hl : spec.profile.species.length = spec.axes.length := by rw [← hc, List.length_map]
    simp only [hc, ne_eq, not_true_eq_false, if_false, bind_unit_eq_ok_iff, forM_eq_ok_iff,
      mapError_eq_ok_iff, checkQuantity_eq_ok_iff, true_and, hl]
    cases spec.sinks <;> cases spec.reSolution <;> cases spec.nucleation <;>
      simp [bind_unit_eq_ok_iff, checkQuantity_eq_ok_iff, ite_error_eq_ok_iff, and_assoc]
  · simp [hc]

theorem ofProfile_valid {p : Profile} (h : p.Valid) (max : Nat) :
    (ofProfile p max : NetworkSpec ℝ).Valid where
  profile := h
  axes := by simp [ofProfile, Axis.exact, Function.comp_def]
  cuts := by
    intro a ha
    obtain ⟨s, -, rfl⟩ := List.mem_map.mp ha
    rw [Axis.validate_eq_ok_iff]
    refine ⟨le_rfl, ?_⟩
    simp only [Axis.exact, boundedAdd, countLimit]
    omega
  mobility := rfl
  coreRadii := by simp [ofProfile]
  sinks := by simp [ofProfile]
  reSolution := by simp [ofProfile]
  nucleation := by simp [ofProfile]
  fissionRate := by simp [ofProfile]
  fissionYield := by norm_num [ofProfile]
  loopAngles := by simp [ofProfile]

theorem checkMobility_singleton {n : Nat} {m : Mobility ℝ} (hlen : m.composition.length = n)
    (hfactor : 0 ≤ m.factor) : checkMobility n [] [m] = .ok () := by
  have hsound : Scalar.isAtLeast 0 m.factor = true := Scalar.isAtLeast_real.mpr (by simpa)
  simp [checkMobility_eq_ok_iff, hlen, hsound]

theorem xenon_valid (max : Nat) : (xenon max : NetworkSpec ℝ).Valid :=
  { ofProfile_valid (Profile.basic_valid (by decide) (by decide)) max with
    mobility := checkMobility_singleton (m := ⟨[1], 1e11, _⟩) rfl (by norm_num) }

theorem groupedXenon_valid (max : Nat) : (groupedXenon max : NetworkSpec ℝ).Valid :=
  { ofProfile_valid (Profile.basic_valid (by decide) (by decide)) 1 with
    axes := rfl
    cuts := by
      intro a ha
      obtain rfl := List.mem_singleton.mp ha
      rfl
    mobility := checkMobility_singleton (m := ⟨[1], 1e11, _⟩) rfl (by norm_num) }

end NetworkSpec

end ClusterDynamics
