import ClusterDynamics.Proofs.Network.Cluster
import ClusterDynamics.Proofs.Rates.CrossSection
import ClusterDynamics.Proofs.Rates.Evaluation

/-! Encounters of a pair in either order. The laws of most geometries treat the two clusters alike;
those of two traps and of two loops do not. -/

namespace ClusterDynamics

theorem CoreRadii.pairOf_comm (s t : Species) : pairOf s t = pairOf t s := by
  cases s <;> cases t <;> rfl

theorem CoreRadii.get_comm (radii : CoreRadii ℝ) (s t : Species) :
    radii.get s t = radii.get t s := by
  rw [get, get, pairOf_comm]

theorem boltzmann_pos : 0 < (boltzmann : ℝ) := by
  unfold boltzmann
  norm_num

theorem diffusionCoefficient_value (factor energy t : ℝ) :
    (diffusionCoefficient factor energy t).value =
      factor * Real.exp (-energy / (boltzmann * t)) := by
  unfold diffusionCoefficient
  by_cases hf : factor = 0
  · have hbeq : (factor == (@OfNat.ofNat ℝ 0 (Scalar.natLit 0))) = true := by simp [hf]
    rw [if_pos hbeq, hf, zero_mul]
    exact Scalar.natLit_zero_real
  · have hbeq : ¬(factor == (@OfNat.ofNat ℝ 0 (Scalar.natLit 0))) = true := by simpa using hf
    rw [if_neg hbeq]
    rfl

namespace Network

variable {net : Network ℝ} {a b : Cluster ℝ} {da db : Thermal ℝ}

/-- The geometric factor of the pair does not depend on the order of its clusters. -/
def TreatsAlike (net : Network ℝ) (a b : Cluster ℝ) : Prop :=
  a.reactionRadius = b.reactionRadius ∨
    ¬(a.geometry = .trap ∧ b.geometry = .trap) ∧
      ¬(a.geometry = .loop ∧ b.geometry = .loop ∧ 1 < net.spec.loopAngles)

theorem captureFactor_comm_iff (hl : net.lengths.Positive) (hn : net.spec.loopAngles ≠ 0)
    (ha : 0 ≤ a.reactionRadius) (hb : 0 ≤ b.reactionRadius) :
    net.captureFactor a b = net.captureFactor b a ↔ net.TreatsAlike a b := by
  have hlattice := hl.lattice.ne'
  have hburgers := hl.burgersVector.ne'
  have hspheres : ∀ core, sphereFactor a.reactionRadius b.reactionRadius core =
      sphereFactor b.reactionRadius a.reactionRadius core := by
    intro core
    rw [sphereFactor_real, sphereFactor_real]
    ring
  have hcore := net.spec.coreRadii.get_comm a.dominant b.dominant
  have htrap := @trapCrossSection_comm_iff a.reactionRadius b.reactionRadius
  have hloop := loopLoopCrossSection_comm_iff hn ha hb
  have hone : net.spec.loopAngles = 1 ↔ ¬1 < net.spec.loopAngles := by omega
  unfold captureFactor TreatsAlike
  cases hga : a.geometry <;> cases hgb : b.geometry
  case trap.trap => simp [div_left_inj' hlattice, htrap]
  case loop.loop =>
    simp [div_left_inj' (mul_ne_zero hlattice hlattice), mul_left_inj' hburgers, hloop, hone]
  -- The mixed arms are mirror images of each other.
  all_goals simp [hspheres, hcore]

theorem captureRate_comm_iff : net.captureRate a b da db = net.captureRate b a db da ↔
    net.captureFactor a b = net.captureFactor b a ∨
      da.value + db.value = 0 ∧ da.slope + db.slope = 0 := by
  have hvalue := add_comm db.value da.value
  have hslope := add_comm db.slope da.slope
  unfold captureRate
  simp only [Thermal.mk.injEq, hvalue, hslope, mul_eq_mul_right_iff]
  tauto

end Network

/-- Up to one helium atom and two vacancies in iron, where the smaller of the two traps moves. -/
def NetworkSpec.ironTraps {K : Type} [Scalar K] : NetworkSpec K :=
  (((ofProfile .iron 1).withMax .vacancy 2).withMax .interstitial 0).withMobility [1, 1, 0] 1e11 1

section Traps

theorem NetworkSpec.ironTraps_valid : (ironTraps : NetworkSpec ℝ).Valid :=
  { ofProfile_valid (Profile.validate_eq_ok_iff.mp (by decide)) 1 with
    axes := by decide
    cuts := by decide
    mobility := checkMobility_singleton (m := ⟨[1, 1, 0], 1e11, _⟩) rfl (by norm_num) }

/-- One helium atom with the given number of vacancies. -/
def heliumVacancies (n : Nat) : Region :=
  ⟨[.singleton 1, .singleton n, .singleton 0], by simp⟩

theorem exists_build_ironTraps :
    ∃ net, (Network.build (.ironTraps : NetworkSpec ℝ)).value = .ok net ∧
      net.paving.regions[3]? = some (heliumVacancies 1) ∧
      net.paving.regions[4]? = some (heliumVacancies 2) := by
  have hp : Paving.ofAxes? (NetworkSpec.ironTraps : NetworkSpec ℝ).axes = .ok
      { regions := [⟨[.singleton 0, .singleton 1, .singleton 0], by simp⟩,
          ⟨[.singleton 0, .singleton 2, .singleton 0], by simp⟩,
          ⟨[.singleton 1, .singleton 0, .singleton 0], by simp⟩,
          heliumVacancies 1, heliumVacancies 2]
        species := [.helium, .vacancy, .interstitial], max := [1, 2, 0] } := by decide +kernel
  obtain ⟨net, hnet, hpaving⟩ := Network.exists_build NetworkSpec.ironTraps_valid (by decide) hp
  exact ⟨net, hnet, by rw [hpaving]; rfl, by rw [hpaving]; rfl⟩

variable {l : Lengths ℝ}

theorem geometry_heliumVacancies {n : Nat} (hn : n ≠ 0) :
    (Cluster.ofRegion (.ironTraps : NetworkSpec ℝ) l (heliumVacancies n)).geometry = .trap := by
  obtain ⟨m, rfl⟩ := Nat.exists_eq_succ_of_ne_zero hn
  rfl

theorem reactionRadius_heliumVacancies {n : Nat} (hn : n ≠ 0) :
    (Cluster.ofRegion (.ironTraps : NetworkSpec ℝ) l (heliumVacancies n)).reactionRadius =
      sphereRadius l (monomerRadius .iron l .vacancy) n := by
  have hgeometry := geometry_heliumVacancies (l := l) hn
  obtain ⟨m, rfl⟩ := Nat.exists_eq_succ_of_ne_zero hn
  have hmonomer : (heliumVacancies (m + 1)).monomer? Profile.iron.species = none := by
    unfold Region.monomer?
    split_ifs <;> rfl
  have hdefect : Profile.iron.sizeDefect? (heliumVacancies (m + 1)) = some .vacancy := rfl
  have hsize : Profile.iron.size (heliumVacancies (m + 1)) = ((m + 1 : ℕ) : ℝ) := by
    unfold Profile.size
    rw [hdefect]
    change (((m + 1 : ℕ) : ℝ) + ((m + 1 + 1 - 1 : ℕ) : ℝ)) / ((2 : ℕ) : ℝ) = (m + 1 : ℕ)
    rw [Nat.add_sub_cancel]
    norm_num
  change Profile.iron.reactionRadius l
    (Cluster.ofRegion (.ironTraps : NetworkSpec ℝ) l (heliumVacancies (m + 1))).geometry _ = _
  rw [hgeometry]
  unfold Profile.reactionRadius
  rw [hmonomer, hdefect, hsize]
  rfl

end Traps

namespace RateContext

variable {net : Network ℝ} {spec : NetworkSpec ℝ} {x : RateContext ℝ} {i j : Nat}
  {a b : Cluster ℝ} {da db : Thermal ℝ}

/-- The rate of encounters and its derivative depend on the order in which the clusters are named
for two traps of different radii, for two loops of different radii under two or more alignment
angles, and for no other pair, if the diffusion of the two adds up to anything. The reactions of the
network name each pair in ascending order. -/
theorem capture_comm_iff (hnet : (Network.build spec).value = .ok net) (hx : x.net = net)
    (ha : net.cluster i = .ok a) (hb : net.cluster j = .ok b)
    (hda : entryAt x.diffusion i = .ok da) (hdb : entryAt x.diffusion j = .ok db) :
    (∃ rate rate', x.capture i j = .ok rate ∧ x.capture j i = .ok rate' ∧
      (rate = rate' ↔
        net.TreatsAlike a b ∨ da.value + db.value = 0 ∧ da.slope + db.slope = 0)) ∧
    ∀ y ∈ net.reactions.toList,
      y.reactants.Pairwise (· ≤ ·) ∧ y.products.Pairwise (· ≤ ·) := by
  subst hx
  have hbuilt := Network.builtFrom_of_build hnet
  have hl := Network.lengths_pos_of_build hnet
  have hn := hbuilt.valid_spec.loopAngles
  refine ⟨⟨_, _, capture_eq_ok ha hb hda hdb, capture_eq_ok hb ha hdb hda, ?_⟩, fun y hy => ?_⟩
  · obtain ⟨r, -, rfl⟩ := hbuilt.cluster_eq_ok_iff.mp ha
    obtain ⟨s, -, rfl⟩ := hbuilt.cluster_eq_ok_iff.mp hb
    rw [Network.captureRate_comm_iff, Network.captureFactor_comm_iff hl hn
      (Cluster.radius_nonneg hl) (Cluster.radius_nonneg hl)]
  · exact (hbuilt.mem_reactions_iff.mp hy).pairwise_le

theorem capture_comm_iff_xenon :
    ∃ net : Network ℝ, (Network.build (.xenon 2)).value = .ok net ∧
      ∃ rate, (ofTemperature net 1000).capture 0 1 = .ok rate ∧
        (ofTemperature net 1000).capture 1 0 = .ok rate := by
  obtain ⟨net, hnet, hsize⟩ := Network.exists_build_xenon
  have hbuilt := Network.builtFrom_of_build hnet
  have h0 : 0 < net.size := by omega
  have h1 : 1 < net.size := by omega
  obtain ⟨a, ha⟩ := exists_cluster_iff.mpr h0
  obtain ⟨b, hb⟩ := exists_cluster_iff.mpr h1
  obtain ⟨⟨rate, rate', hrate, hrate', hiff⟩, -⟩ := capture_comm_iff hnet rfl ha hb
    (entryAt_diffusion ha 1000) (entryAt_diffusion hb 1000)
  have halike : net.TreatsAlike a b := by
    obtain ⟨r, -, rfl⟩ := hbuilt.cluster_eq_ok_iff.mp ha
    have hsphere : (Cluster.ofRegion (.xenon 2) net.lengths r).geometry = .sphere := rfl
    right
    simp [hsphere]
  have heq := hiff.mpr (.inl halike)
  exact ⟨net, hnet, rate, hrate, heq ▸ hrate'⟩

/-- A pair of traps that meets at different rates in the two orders. -/
theorem capture_not_comm :
    ∃ net : Network ℝ, (Network.build .ironTraps).value = .ok net ∧
      ∃ rate rate', (ofTemperature net 1000).capture 3 4 = .ok rate ∧
        (ofTemperature net 1000).capture 4 3 = .ok rate' ∧ rate ≠ rate' := by
  obtain ⟨net, hnet, h3, h4⟩ := exists_build_ironTraps
  have hbuilt := Network.builtFrom_of_build hnet
  have hl := Network.lengths_pos_of_build hnet
  have ha := hbuilt.cluster_eq_ok_iff.mpr ⟨_, h3, rfl⟩
  have hb := hbuilt.cluster_eq_ok_iff.mpr ⟨_, h4, rfl⟩
  refine ⟨net, hnet, _, _,
    capture_eq_ok ha hb (entryAt_diffusion ha 1000) (entryAt_diffusion hb 1000),
    capture_eq_ok hb ha (entryAt_diffusion hb 1000) (entryAt_diffusion ha 1000), ?_⟩
  have hn := hbuilt.valid_spec.loopAngles
  intro hrate
  rcases Network.captureRate_comm_iff.mp hrate with hfactor | ⟨hvalue, -⟩
  · rcases (Network.captureFactor_comm_iff hl hn (Cluster.radius_nonneg hl)
      (Cluster.radius_nonneg hl)).mp hfactor with hradius | ⟨htraps, -⟩
    · rw [reactionRadius_heliumVacancies one_ne_zero, reactionRadius_heliumVacancies two_ne_zero,
        sphereRadius_eq_first (by norm_num)] at hradius
      exact (lt_sphereRadius hl (by norm_num)).ne hradius
    · exact htraps
        ⟨geometry_heliumVacancies one_ne_zero, geometry_heliumVacancies two_ne_zero⟩
  · rw [diffusionCoefficient_value, diffusionCoefficient_value] at hvalue
    have hmobile : (Cluster.ofRegion (.ironTraps : NetworkSpec ℝ) net.lengths
        (heliumVacancies 1)).diffusionFactor = 1e11 := rfl
    have hfixed : (Cluster.ofRegion (.ironTraps : NetworkSpec ℝ) net.lengths
        (heliumVacancies 2)).diffusionFactor = 0 := Nat.cast_zero
    rw [hmobile, hfixed, zero_mul, add_zero] at hvalue
    have hpos := Real.exp_pos (-(Cluster.ofRegion (.ironTraps : NetworkSpec ℝ) net.lengths
      (heliumVacancies 1)).migrationEnergy / (boltzmann * 1000))
    exact absurd hvalue (mul_pos (by norm_num) hpos).ne'

end RateContext

end ClusterDynamics
