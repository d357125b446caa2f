import ClusterDynamics.Proofs.Network.Build

/-! The clusters of a built network. The lengths of its lattice are positive, and so are the radii
of its clusters; no energy to break up lies below the floor of the fits. -/

namespace ClusterDynamics

open Reported

structure Lengths.Positive (l : Lengths ℝ) : Prop where
  lattice : 0 < l.lattice
  impurityRadius : 0 < l.impurityRadius
  atomicVolume : 0 < l.atomicVolume
  burgersVector : 0 < l.burgersVector

namespace Material

theorem latticeConstant_pos (m : Material) : (0 : ℝ) < m.latticeConstant := by
  cases m <;> norm_num [latticeConstant, uraniumDioxideLattice, ironLattice, tungstenLattice]

theorem atomsPerCell_pos (m : Material) : (0 : ℝ) < m.atomsPerCell := by
  cases m <;> norm_num [atomsPerCell]

theorem burgersVector_pos (m : Material) {a : ℝ} (ha : 0 < a) : 0 < m.burgersVector a := by
  have hsqrt : ∀ x : ℝ, 0 < x → 0 < Scalar.sqrt x := fun x hx => Real.sqrt_pos.mpr hx
  unfold burgersVector
  simp only [Scalar.natLit_ofNat_real]
  split
  · exact div_pos ha (hsqrt 2 (by norm_num))
  · exact div_pos (mul_pos ha (hsqrt 3 (by norm_num))) (by norm_num)

end Material

theorem Species.radius?_pos {s : Species} {x : ℝ} (h : s.radius? = some x) : 0 < x := by
  cases s <;> simp [radius?] at h <;> subst h <;>
    norm_num [heliumRadius, xenonRadius, hydrogenRadius]

namespace NetworkSpec

variable {spec : NetworkSpec ℝ}

theorem isolatedRadius_pos (spec : NetworkSpec ℝ) : 0 < spec.isolatedRadius := by
  unfold isolatedRadius
  cases hp : (spec.profile.primary.radius? : Option ℝ) with
  | some x => exact Species.radius?_pos hp
  | none =>
    cases hd : (spec.material.defaultImpurity.radius? : Option ℝ) with
    | some x => exact Species.radius?_pos hd
    | none => norm_num [heliumRadius]

theorem pos_of_returns_orFallback {ε : Type} {length : FallbackLength} {given used a : ℝ}
    {j j' : Journal ℝ} (hused : 0 < used)
    (h : (orFallback length given used : Reported ℝ ε ℝ).Returns j a j') : 0 < a := by
  unfold orFallback at h
  split_ifs at h with hgiven
  · obtain ⟨rfl, -⟩ := returns_pure_iff.mp h
    simpa using hgiven
  · obtain ⟨⟨⟩, i, -, h⟩ := returns_bind_iff.mp h
    obtain ⟨rfl, -⟩ := returns_pure_iff.mp h
    exact hused

theorem lengths_pos_of_returns_resolve {l : Lengths ℝ} {j j' : Journal ℝ}
    (h : spec.resolve.Returns j l j') : l.Positive := by
  unfold resolve at h
  obtain ⟨⟨⟩, j₁, -, h⟩ := returns_bind_iff.mp h
  obtain ⟨lattice, j₂, hl, h⟩ := returns_bind_iff.mp h
  obtain ⟨radius, j₃, hr, h⟩ := returns_bind_iff.mp h
  obtain ⟨rfl, -⟩ := returns_pure_iff.mp h
  have hlattice := pos_of_returns_orFallback spec.material.latticeConstant_pos hl
  exact
    { lattice := hlattice
      impurityRadius := pos_of_returns_orFallback spec.isolatedRadius_pos hr
      atomicVolume := div_pos (mul_pos (mul_pos hlattice hlattice) hlattice)
        spec.material.atomsPerCell_pos
      burgersVector := spec.material.burgersVector_pos hlattice }

end NetworkSpec

section Radii

variable {l : Lengths ℝ}

theorem monomerRadius_pos (h : l.Positive) (p : Profile) (s : Species) :
    0 < monomerRadius p l s := by
  unfold monomerRadius
  split_ifs
  · exact h.impurityRadius
  · cases hr : (s.radius? : Option ℝ) with
    | some x => exact Species.radius?_pos hr
    | none =>
      simp only [Scalar.natLit_ofNat_real]
      exact div_pos (mul_pos h.lattice (Real.sqrt_pos.mpr (by norm_num))) (by norm_num)

theorem sphereRadius_eq_first {first size : ℝ} (hsize : size ≤ 1) :
    sphereRadius l first size = first := by
  unfold sphereRadius
  simp only [Scalar.natLit_one_real]
  exact if_pos hsize

/-- The cube root of a size above one exceeds one, so larger spheres have larger radii. -/
theorem lt_sphereRadius (h : l.Positive) {first size : ℝ} (hsize : 1 < size) :
    first < sphereRadius l first size := by
  have hvolume : 0 < 3 * l.atomicVolume / (4 * Real.pi) :=
    div_pos (mul_pos (by norm_num) h.atomicVolume) (mul_pos (by norm_num) Real.pi_pos)
  have hscale : 0 < Scalar.cbrt (3 * l.atomicVolume / (4 * Real.pi)) := by
    rw [Scalar.cbrt_real hvolume]
    exact Real.rpow_pos_of_pos hvolume _
  have hroot : 1 < Scalar.cbrt size := by
    rw [Scalar.cbrt_real (by linarith)]
    exact Real.one_lt_rpow hsize (by norm_num)
  unfold sphereRadius
  simp only [Scalar.natLit_one_real, Scalar.natLit_ofNat_real]
  rw [if_neg hsize.not_ge]
  exact lt_add_of_pos_right _ (mul_pos hscale (by linarith))

theorem sphereRadius_pos (h : l.Positive) {first : ℝ} (hfirst : 0 < first) (size : ℝ) :
    0 < sphereRadius l first size := by
  by_cases hsize : size ≤ 1
  · rw [sphereRadius_eq_first hsize]
    exact hfirst
  · exact hfirst.trans (lt_sphereRadius h (not_le.mp hsize))

theorem reactionRadius_nonneg (h : l.Positive) (p : Profile) (g : Geometry) (r : Region) :
    0 ≤ p.reactionRadius l g r := by
  unfold Profile.reactionRadius
  cases r.monomer? p.species with
  | some s => exact (monomerRadius_pos h p s).le
  | none =>
    cases g
    case loop => exact Real.sqrt_nonneg _
    all_goals exact (sphereRadius_pos h (monomerRadius_pos h p _) _).le

end Radii

section Energies

theorem minBindingEnergy_le_energy (fit : BindingFit ℝ) (n : ℝ) :
    minBindingEnergy ≤ fit.energy n := by
  unfold BindingFit.energy
  simp only [Scalar.max_real]
  exact le_max_right _ _

namespace Cluster

variable {parent a b : Cluster ℝ}

theorem splitEnergy_comm (parent a b : Cluster ℝ) :
    parent.splitEnergy a b = parent.splitEnergy b a := by
  unfold splitEnergy
  cases a.monomer <;> cases b.monomer <;> simp [min_comm]

/-- The least energy at which the parent emits one of the parts that are monomers. -/
theorem isLeast_splitEnergy (h : a.monomer ≠ none ∨ b.monomer ≠ none) :
    IsLeast {e | ∃ s, (a.monomer = some s ∨ b.monomer = some s) ∧ e = parent.emissionEnergy s}
      (parent.splitEnergy a b) := by
  unfold splitEnergy
  cases ha : a.monomer with
  | none =>
    cases hb : b.monomer with
    | none => simp [ha, hb] at h
    | some t => simp
  | some s =>
    cases hb : b.monomer with
    | none => simp
    | some t =>
      simp only [Option.some.injEq, Scalar.min_real]
      constructor
      · rcases min_choice (parent.emissionEnergy s) (parent.emissionEnergy t) with hmin | hmin
        · exact ⟨s, .inl rfl, hmin⟩
        · exact ⟨t, .inr rfl, hmin⟩
      · rintro e ⟨u, rfl | rfl, rfl⟩
        · exact min_le_left _ _
        · exact min_le_right _ _

section OfRegion

variable {spec : NetworkSpec ℝ} {lengths : Lengths ℝ} {r : Region}

theorem radius_nonneg (h : lengths.Positive) : 0 ≤ (ofRegion spec lengths r).reactionRadius :=
  reactionRadius_nonneg h _ _ _

theorem minBindingEnergy_le_bindingEnergy :
    minBindingEnergy ≤ (ofRegion spec lengths r).bindingEnergy :=
  minBindingEnergy_le_energy _ _

theorem minBindingEnergy_le_emissionEnergy (s : Species) :
    minBindingEnergy ≤ (ofRegion spec lengths r).emissionEnergy s := by
  unfold emissionEnergy
  cases hl : (ofRegion spec lengths r).emission.lookup s with
  | none => exact minBindingEnergy_le_bindingEnergy
  | some e =>
    obtain ⟨l₁, l₂, hsplit, -⟩ := List.lookup_eq_some_iff.mp hl
    have hmem : (s, e) ∈ (ofRegion spec lengths r).emission := by simp [hsplit]
    obtain ⟨s', -, hs'⟩ := List.mem_map.mp hmem
    obtain ⟨-, rfl⟩ := Prod.mk.inj hs'
    exact minBindingEnergy_le_energy _ _

theorem minBindingEnergy_le_splitEnergy (a b : Cluster ℝ) :
    minBindingEnergy ≤ (ofRegion spec lengths r).splitEnergy a b := by
  unfold splitEnergy
  cases a.monomer with
  | none =>
    cases b.monomer with
    | none => exact minBindingEnergy_le_bindingEnergy
    | some t => exact minBindingEnergy_le_emissionEnergy t
  | some s =>
    cases b.monomer with
    | none => exact minBindingEnergy_le_emissionEnergy s
    | some t =>
      simp only [Scalar.min_real]
      exact le_min (minBindingEnergy_le_emissionEnergy s) (minBindingEnergy_le_emissionEnergy t)

end OfRegion

theorem isMobile_real {c : Cluster ℝ} : c.isMobile = true ↔ 0 < c.diffusionFactor := by
  rw [isMobile, @decide_eq_true_iff _ (_), Scalar.natLit_zero_real]

end Cluster

end Energies

namespace Network

variable {net : Network ℝ} {spec : NetworkSpec ℝ} {i : Nat} {c : Cluster ℝ}

theorem lengths_pos_of_build (h : (build spec).value = .ok net) : net.lengths.Positive :=
  NetworkSpec.lengths_pos_of_returns_resolve (builtWith_of_build h).returns_resolve

theorem mem_diffusing_iff : i ∈ net.table.diffusing ↔
    ∃ c, net.cluster i = .ok c ∧ c.isMobile = true := by
  simp only [ClusterTable.diffusing, List.mem_filter, List.mem_range, Option.any_eq_true, cluster,
    ClusterTable.cluster, entryAt_eq_ok_iff]
  constructor
  · rintro ⟨-, c, hc, hmobile⟩
    exact ⟨c, hc, hmobile⟩
  · rintro ⟨c, hc, hmobile⟩
    exact ⟨(Array.getElem?_eq_some_iff.mp hc).1, c, hc, hmobile⟩

/-- Of single and paired xenon atoms only the single ones move. -/
theorem exists_build_xenon_diffusing :
    ∃ net, (build (NetworkSpec.xenon 2 : NetworkSpec ℝ)).value = .ok net ∧ net.size = 2 ∧
      ∀ i, i ∈ net.table.diffusing ↔ i = 0 := by
  obtain ⟨net, hnet, hregions⟩ := exists_build_xenon_regions
  have hb := builtFrom_of_build hnet
  refine ⟨net, hnet, by rw [hb.size_eq, hregions]; rfl, fun i => ?_⟩
  simp only [mem_diffusing_iff, hb.cluster_eq_ok_iff, hregions]
  constructor
  · rintro ⟨c, ⟨r, hr, rfl⟩, hmobile⟩
    rcases i with _ | _ | i
    · rfl
    · obtain rfl := Option.some.inj hr
      have hfixed : (Cluster.ofRegion (.xenon 2 : NetworkSpec ℝ) net.lengths
          ⟨[.singleton 2], List.cons_ne_nil _ _⟩).diffusionFactor = 0 := Nat.cast_zero
      rw [Cluster.isMobile_real, hfixed] at hmobile
      exact absurd hmobile (lt_irrefl 0)
    · cases hr
  · rintro rfl
    refine ⟨_, ⟨_, rfl, rfl⟩, ?_⟩
    have hfactor : (Cluster.ofRegion (.xenon 2 : NetworkSpec ℝ) net.lengths
        ⟨[.singleton 1], List.cons_ne_nil _ _⟩).diffusionFactor = 1e11 := rfl
    rw [Cluster.isMobile_real, hfactor]
    norm_num

end Network

end ClusterDynamics
