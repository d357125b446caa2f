import ClusterDynamics.Proofs.Network.Cluster
import ClusterDynamics.Proofs.Network.MergerBalance
import ClusterDynamics.Proofs.Rates.Capture

/-! Detailed balance. Every break-up reverses a merger that the network lists, or the nucleation of
two primary monomers, and its rate is the rate of that merger times a Boltzmann factor. -/

namespace ClusterDynamics

theorem Ascending.index_eq {K : Type} {rs : List (Reaction K)} (h : Ascending rs) {m n : Nat}
    {x y : Reaction K} (hx : rs[m]? = some x) (hy : rs[n]? = some y) (hkey : x.key = y.key) :
    m = n := by
  obtain ⟨hm, rfl⟩ := List.getElem?_eq_some_iff.mp hx
  obtain ⟨hn, rfl⟩ := List.getElem?_eq_some_iff.mp hy
  have hbefore := List.pairwise_iff_getElem.mp h
  rcases Nat.lt_trichotomy m n with hlt | heq | hlt
  · exact absurd hkey (hbefore m n hm hn hlt).2
  · exact heq
  · exact absurd hkey.symm (hbefore n m hn hm hlt).2

namespace Network

variable {net : Network ℝ} {spec : NetworkSpec ℝ} {i j k : Nat} {r s : Region}

/-- Two primary monomers meet where their mergers count as nucleation. -/
def NucleatesAt (net : Network ℝ) (i j : Nat) : Prop :=
  net.spec.nucleation.isSome = true ∧ i = j ∧ net.table.primaryMonomer = some i

namespace BuiltFrom

theorem primaryMonomer_eq_some_iff (h : net.BuiltFrom spec) (hs : ∀ a ∈ spec.axes, a.Sound)
    (hi : net.paving.regions[i]? = some r) :
    net.table.primaryMonomer = some i ↔
      r.IsMonomer spec.profile.species spec.profile.primary := by
  have hmonomer : ∀ t : Region, ((Cluster.ofRegion spec net.lengths t).monomer ==
      some spec.profile.primary) = true ↔
      t.IsMonomer spec.profile.species spec.profile.primary := by
    intro t
    rw [beq_iff_eq, ← Region.monomer?_eq_some_iff]
    rfl
  obtain ⟨hlt, rfl⟩ := List.getElem?_eq_some_iff.mp hi
  rw [h.table]
  simp only [ClusterTable.ofPaving, List.findIdx?_eq_some_iff_getElem, List.getElem_map, hmonomer,
    List.length_map]
  constructor
  · rintro ⟨_, hr, -⟩
    exact hr
  · intro hr
    refine ⟨hlt, hr, fun m hm hm' => ?_⟩
    have hmi := Paving.eq_of_isMonomer hs (Paving.ofAxes_of_ofAxes? h.paving)
      h.validated.profile.nodup (List.getElem?_eq_getElem (by omega)) hi hm' hr
    omega

theorem nucleates_iff (h : net.BuiltFrom spec) (hs : ∀ a ∈ spec.axes, a.Sound)
    (hi : net.paving.regions[i]? = some r) (hj : net.paving.regions[j]? = some s) :
    spec.channels.Nucleates spec.profile.species r s ↔ net.NucleatesAt i j := by
  have hprimary : ∀ t, spec.channels.PrimaryMonomer spec.profile.species t ↔
      t.IsMonomer spec.profile.species spec.profile.primary := by
    intro t
    simp [Channels.PrimaryMonomer, NetworkSpec.channels]
  have hspec := h.spec_eq
  constructor
  · intro hn
    refine ⟨hspec ▸ hn.1, h.eq_of_nucleates hs hi hj hn, ?_⟩
    exact (h.primaryMonomer_eq_some_iff hs hi).mpr ((hprimary r).mp hn.2.1)
  · rintro ⟨hon, rfl, hmonomer⟩
    obtain rfl := Option.some.inj (hi.symm.trans hj)
    have hr := (hprimary r).mpr ((h.primaryMonomer_eq_some_iff hs hi).mp hmonomer)
    exact ⟨hspec ▸ hon, hr, hr⟩

end BuiltFrom

/-- Cluster `k` breaks into `i` and `j` at an energy, whichever of the two is named first: the
least energy at which `k` emits one of the monomers among them. -/
structure SplitsAt (net : Network ℝ) (k i j : Nat) (energy : ℝ) : Prop where
  eq_ok : net.table.splitEnergy k i j = .ok energy
  swap_eq_ok : net.table.splitEnergy k j i = .ok energy
  isLeast : ∃ parent a b, net.cluster k = .ok parent ∧ net.cluster i = .ok a ∧
    net.cluster j = .ok b ∧ IsLeast {e | ∃ s, (a.monomer = some s ∨ b.monomer = some s) ∧
      e = parent.emissionEnergy s} energy
  floor_le : 0.1 ≤ energy

theorem splitEnergy_eq_ok {parent a b : Cluster ℝ} (hk : net.cluster k = .ok parent)
    (hi : net.cluster i = .ok a) (hj : net.cluster j = .ok b) :
    net.table.splitEnergy k i j = .ok (parent.splitEnergy a b) := by
  unfold cluster at hk hi hj
  rw [ClusterTable.splitEnergy, hk, hi, hj]
  rfl

theorem BuiltFrom.exists_splitsAt (h : net.BuiltFrom spec) {t : Region}
    (hm : net.paving.Merger i j k r s t)
    (he : spec.channels.Emitted spec.profile.species r ∨
      spec.channels.Emitted spec.profile.species s) : ∃ energy, net.SplitsAt k i j energy := by
  have hk := h.cluster_eq_ok_iff.mpr ⟨t, hm.product, rfl⟩
  have hi := h.cluster_eq_ok_iff.mpr ⟨r, hm.first, rfl⟩
  have hj := h.cluster_eq_ok_iff.mpr ⟨s, hm.second, rfl⟩
  have hne : ∀ u, spec.channels.Emitted spec.profile.species u →
      (Cluster.ofRegion spec net.lengths u).monomer ≠ none := by
    rintro u ⟨x, -, hx⟩ hnone
    exact nomatch (Region.monomer?_eq_some_iff.mpr hx).symm.trans hnone
  have hfloor : (0.1 : ℝ) ≤ minBindingEnergy := by norm_num [minBindingEnergy]
  refine ⟨_, splitEnergy_eq_ok hk hi hj, ?_, ⟨_, _, _, hk, hi, hj,
    Cluster.isLeast_splitEnergy (he.imp (hne r) (hne s))⟩,
    hfloor.trans (Cluster.minBindingEnergy_le_splitEnergy _ _)⟩
  rw [Cluster.splitEnergy_comm]
  exact splitEnergy_eq_ok hk hj hi

end Network

namespace RateContext

variable {x : RateContext ℝ} {net : Network ℝ} {i j k : Nat} {backward : Thermal ℝ} {energy : ℝ}

/-- The rate of a break-up is that of the encounters it reverses times a Boltzmann factor. -/
theorem exists_forward (h : x.dissociation k i j = .ok backward)
    (he : x.net.table.splitEnergy k i j = .ok energy) :
    ∃ forward, x.capture i j = .ok forward ∧
      backward.value = forward.value * Real.exp (-energy / (boltzmann * x.temperature)) := by
  obtain ⟨forward, hforward, h⟩ := bind_eq_ok_iff.mp h
  obtain ⟨energy', he', h⟩ := bind_eq_ok_iff.mp h
  obtain rfl := Except.ok.inj (he.symm.trans he')
  obtain rfl := Except.ok.inj h
  exact ⟨forward, hforward, rfl⟩

end RateContext

namespace PointRates

theorem exists_rate_at {net : Network ℝ} {point n : Nat} {t : ℝ} {p : PointRates ℝ}
    {x : Reaction ℝ} (hp : compute net point t = .ok p) (hx : net.reactions[n]? = some x) :
    ∃ rate, p.rates[n]? = some rate ∧ (RateContext.ofTemperature net t).rate x = .ok rate := by
  obtain ⟨-, rates, hrates, rfl⟩ := compute_eq_ok_iff.mp hp
  rw [← Array.getElem?_toList] at hx
  obtain ⟨rate, hrate, hok⟩ := exists_getElem?_of_forall₂ (arrayMapM_eq_ok_iff.mp hrates) hx
  rw [Array.getElem?_toList] at hrate
  exact ⟨rate, hrate, hok⟩

end PointRates

namespace Network

variable {net : Network ℝ} {spec : NetworkSpec ℝ} {t : ℝ}

/-- Every break-up `k → i + j` of a network reverses exactly one listed merger `i + j → k`, of the
same coefficient, or else the nucleation of two primary monomers. Its rate is that of the merger,
or of the monomers' encounters, times the Boltzmann factor of the energy of the break-up. -/
theorem detailed_balance (hbound : ∀ a ∈ spec.axes, a.groupMin ≤ countLimit)
    (hnet : (build spec).value = .ok net) (ht : 0 < t) (point : Nat) :
    ∃ p, PointRates.compute net point t = .ok p ∧
      ∀ (n : Nat) (x : Reaction ℝ), net.reactions[n]? = some x → x.kind = .dissociation →
        ∃ (k i j : Nat) (w energy : ℝ) (backward : Thermal ℝ), x = .dissociation k i j w ∧ i ≤ j ∧
          net.SplitsAt k i j energy ∧ p.rates[n]? = some backward ∧
          (¬net.NucleatesAt i j → ∃ (m : Nat) (forward : Thermal ℝ),
            net.reactions[m]? = some (.production i j k w) ∧
            (∀ (m' : Nat) (y : Reaction ℝ), net.reactions[m']? = some y → y.kind = .production →
              y.reactants = [i, j] → y.products = [k] → m' = m) ∧
            p.rates[m]? = some forward ∧
            backward.value = forward.value * Real.exp (-energy / (boltzmann * t))) ∧
          (net.NucleatesAt i j → ∃ forward : Thermal ℝ,
            (RateContext.ofTemperature net t).capture i j = .ok forward ∧
            backward.value = forward.value * Real.exp (-energy / (boltzmann * t))) := by
  have h := builtFrom_of_build hnet
  have hs := Paving.sound_of_ofAxes hbound (Paving.ofAxes_of_ofAxes? h.paving)
  obtain ⟨p, hp⟩ := h.exists_compute point (Scalar.isPositive_real.mpr ht)
  refine ⟨p, hp, fun n x hx hkind => ?_⟩
  obtain ⟨backward, hbackward, hrate⟩ := PointRates.exists_rate_at hp hx
  cases h.mem_reactions_iff.mp (List.mem_of_getElem? (Array.getElem?_toList ▸ hx)) with
  | production hm hn => cases hkind
  | nucleation hm hn => cases hkind
  | reSolution hm he hleast hsize => cases hkind
  | sink hs hr hm => cases hkind
  | @dissociation i j k r s _ hm he =>
    obtain ⟨energy, hsplit⟩ := h.exists_splitsAt hm he
    rw [Reaction.dissociation, hm.pair_eq] at hrate
    obtain ⟨forward, hforward, hvalue⟩ :=
      RateContext.exists_forward (mapError_eq_ok_iff.mp hrate) hsplit.eq_ok
    refine ⟨k, i, j, _, energy, backward, rfl, hm.le, hsplit, hbackward, ?_,
      fun _ => ⟨forward, hforward, hvalue⟩⟩
    intro hnucleates
    rw [← h.nucleates_iff hs hm.first hm.second] at hnucleates
    obtain ⟨m, hmerger⟩ := List.mem_iff_getElem?.mp
      (h.mem_reactions_iff.mpr (.production hm hnucleates))
    rw [Array.getElem?_toList] at hmerger
    obtain ⟨forward', hforward', hrate'⟩ := PointRates.exists_rate_at hp hmerger
    rw [Reaction.production, hm.pair_eq] at hrate'
    obtain rfl := Except.ok.inj (hforward.symm.trans (mapError_eq_ok_iff.mp hrate'))
    refine ⟨m, forward, hmerger, ?_, hforward', hvalue⟩
    intro m' y hy hykind hyreactants hyproducts
    rw [← Array.getElem?_toList] at hy hmerger
    refine h.ascending.index_eq hy hmerger ?_
    change (⟨y.kind, y.reactants, y.products⟩ : ReactionKey) = _
    rw [hykind, hyreactants, hyproducts, Reaction.production, hm.pair_eq]

/-- Two atoms of xenon part at the rate of their merger times a Boltzmann factor. -/
theorem detailed_balance_xenon :
    ∃ (net : Network ℝ) (p : PointRates ℝ), (build (.xenon 2)).value = .ok net ∧
      PointRates.compute net 0 1000 = .ok p ∧
      ∃ (m n : Nat) (w energy : ℝ) (forward backward : Thermal ℝ),
        net.reactions[m]? = some (.production 0 0 1 w) ∧ p.rates[m]? = some forward ∧
        net.reactions[n]? = some (.dissociation 1 0 0 w) ∧ p.rates[n]? = some backward ∧
        net.SplitsAt 1 0 0 energy ∧
        backward.value = forward.value * Real.exp (-energy / (boltzmann * 1000)) := by
  obtain ⟨net, hnet, hregions⟩ := exists_build_xenon_regions
  have h := builtFrom_of_build hnet
  have hm : net.paving.Merger 0 0 1 ⟨[.singleton 1], List.cons_ne_nil _ _⟩
      ⟨[.singleton 1], List.cons_ne_nil _ _⟩ ⟨[.singleton 2], List.cons_ne_nil _ _⟩ :=
    ⟨le_rfl, by rw [hregions]; rfl, by rw [hregions]; rfl, by rw [hregions]; rfl,
      [1], [1], by decide, by decide, by decide⟩
  have hemitted : (NetworkSpec.xenon 2 : NetworkSpec ℝ).channels.Emitted [.xenon]
      ⟨[.singleton 1], List.cons_ne_nil _ _⟩ :=
    ⟨.xenon, List.mem_singleton_self _, Region.monomer?_eq_some_iff.mp (by decide)⟩
  obtain ⟨n, hn⟩ := List.mem_iff_getElem?.mp
    (h.mem_reactions_iff.mpr (.dissociation hm (.inl hemitted)))
  rw [Array.getElem?_toList] at hn
  have hbound : ∀ a ∈ (NetworkSpec.xenon 2 : NetworkSpec ℝ).axes, a.groupMin ≤ countLimit := by
    decide
  obtain ⟨p, hp, hall⟩ := detailed_balance hbound hnet (t := 1000) (by norm_num) 0
  obtain ⟨k, i, j, w, energy, backward, hx, hij, hsplit, hbackward, hmerger, -⟩ :=
    hall n _ hn rfl
  have hkey : 1 = k ∧ 0 = i ∧ 0 = j := by
    simpa [Reaction.dissociation, Reaction.pair, hij] using congrArg Reaction.key hx
  obtain ⟨rfl, rfl, rfl⟩ := hkey
  rw [hx] at hn
  have hquiet : ¬net.NucleatesAt 0 0 := by
    rintro ⟨hon, -⟩
    rw [h.spec_eq] at hon
    cases hon
  obtain ⟨m, forward, hproduction, -, hforward, hvalue⟩ := hmerger hquiet
  exact ⟨net, p, hnet, hp, m, n, _, energy, forward, backward, hproduction, hforward, hn,
    hbackward, hsplit, hvalue⟩

end Network

end ClusterDynamics
