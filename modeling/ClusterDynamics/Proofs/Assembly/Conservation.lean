import ClusterDynamics.Proofs.Assembly.Terms
import ClusterDynamics.Proofs.Network.Participants
import Mathlib.Tactic.IntervalCases

/-! Conservation. Where every cluster is a single composition, a merged cluster holds the counts of
the two that merged, so the reactions move counts among clusters and only sinks take any away. -/

namespace ClusterDynamics

theorem getD_mergeCounts {c d : Composition} (h : c.length = d.length) (axis : Nat) :
    (mergeCounts c d).getD axis 0 = c.getD axis 0 + d.getD axis 0 := by
  rcases Nat.lt_or_ge axis c.length with hc | hc
  · have hd : axis < d.length := h ▸ hc
    simp [mergeCounts, hc, hd]
  · have hd : d.length ≤ axis := h ▸ hc
    simp [mergeCounts, hc, hd]

theorem Paving.Merger.origin_eq {p : Paving} {i j k : Nat} {r s t : Region}
    (h : p.Merger i j k r s t) (hr : r.isSimplex = true) (hs : s.isSimplex = true)
    (ht : t.isSimplex = true) : t.origin = mergeCounts r.origin s.origin := by
  obtain ⟨c, d, hc, hd, hcd⟩ := h.sum
  rw [Region.contains_iff_of_isSimplex hr] at hc
  rw [Region.contains_iff_of_isSimplex hs] at hd
  rw [Region.contains_iff_of_isSimplex ht] at hcd
  rw [← hc, ← hd, hcd]

namespace Network

/-- The count on an axis in the smallest composition of a cluster. -/
noncomputable def count (net : Network ℝ) (axis i : Nat) : ℝ :=
  ((net.table.clusters[i]?).map fun c => (c.region.origin.getD axis 0 : ℝ)).getD 0

/-- What sinks absorb of the counts on an axis, at the given rates and concentrations. -/
noncomputable def absorbed (net : Network ℝ) (axis : Nat) (p : PointRates ℝ) (conc : Array ℝ) : ℝ :=
  ((net.reactions.toList.zip p.rates.toList).map fun x =>
    if x.1.kind = .sink then
      (x.1.reactants.map fun i => net.count axis i * (x.2.value * conc.getD i 0)).sum
    else 0).sum

namespace BuiltFrom

variable {net : Network ℝ} {spec : NetworkSpec ℝ} {i j k : Nat} {r s t : Region} {x : Reaction ℝ}

theorem count_eq (h : net.BuiltFrom spec) (axis : Nat) (hi : net.paving.regions[i]? = some r) :
    net.count axis i = r.origin.getD axis 0 := by
  rw [count, h.table, clusters_ofPaving, hi]
  rfl

theorem length_origin (h : net.BuiltFrom spec) (hi : net.paving.regions[i]? = some r) :
    r.origin.length = net.paving.dimension :=
  (Region.length_of_contains r.contains_origin).trans
    ((Paving.Aligned.of_ofAxes (Paving.ofAxes_of_ofAxes? h.paving)).length_eq r
      (List.mem_of_getElem? hi))

theorem count_merger (h : net.BuiltFrom spec) (axis : Nat)
    (hexact : ∀ r ∈ net.paving.regions, r.isSimplex = true)
    (hm : net.paving.Merger i j k r s t) :
    net.count axis k = net.count axis i + net.count axis j := by
  have horigin := hm.origin_eq (hexact r (List.mem_of_getElem? hm.first))
    (hexact s (List.mem_of_getElem? hm.second)) (hexact t (List.mem_of_getElem? hm.product))
  rw [h.count_eq axis hm.first, h.count_eq axis hm.second, h.count_eq axis hm.product, horigin,
    getD_mergeCounts ((h.length_origin hm.first).trans (h.length_origin hm.second).symm),
    Nat.cast_add]

theorem count_eq_of_nucleates (h : net.BuiltFrom spec) (axis : Nat)
    (hi : net.paving.regions[i]? = some r) (hj : net.paving.regions[j]? = some s)
    (hn : spec.channels.Nucleates spec.profile.species r s) :
    net.count axis i = net.count axis j := by
  obtain ⟨-, ⟨a, ha, hra⟩, b, hb, hsb⟩ := hn
  obtain rfl := Option.some.inj (ha.symm.trans hb)
  have hdimension : r.dimension = s.dimension := by
    rw [← Region.length_of_contains r.contains_origin, ← Region.length_of_contains s.contains_origin,
      h.length_origin hi, h.length_origin hj]
  rw [h.count_eq axis hi, h.count_eq axis hj,
    hra.origin_eq h.validated.profile.nodup hsb hdimension]

/-- A reaction takes no count away, and absorption takes those of the cluster. -/
theorem count_balance (h : net.BuiltFrom spec) (axis : Nat)
    (hexact : ∀ r ∈ net.paving.regions, r.isSimplex = true)
    (hx : Listed spec spec.channels net.paving x) :
    (x.products.map (net.count axis)).sum - (x.reactants.map (net.count axis)).sum =
      if x.kind = .sink then -(x.reactants.map (net.count axis)).sum else 0 := by
  cases hx with
  | production hm hn =>
    have hcount := h.count_merger axis hexact hm
    simp [Reaction.production, Reaction.kind, Reaction.reactants, Reaction.products, hm.pair_eq,
      hcount]
  | nucleation hm hn =>
    have hcount := h.count_merger axis hexact hm
    have hsame := h.count_eq_of_nucleates axis hm.first hm.second hn
    simp [Reaction.nucleation, Reaction.kind, Reaction.reactants, Reaction.products, hcount, hsame]
  | dissociation hm he =>
    have hcount := h.count_merger axis hexact hm
    simp [Reaction.dissociation, Reaction.kind, Reaction.reactants, Reaction.products, hm.pair_eq,
      hcount]
  | reSolution hm he hleast hsize =>
    have hcount := h.count_merger axis hexact hm
    simp [Reaction.reSolution, Reaction.kind, Reaction.reactants, Reaction.products, hm.pair_eq,
      hcount]
  | sink hs hr hm => simp [Reaction.sink, Reaction.kind, Reaction.reactants, Reaction.products]

theorem reactionFlux_count (h : net.BuiltFrom spec) (axis : Nat)
    (hexact : ∀ r ∈ net.paving.regions, r.isSimplex = true)
    (hx : Listed spec spec.channels net.paving x) (conc : Array ℝ) (rate : ℝ) :
    Assembly.reactionFlux (net.count axis) conc x rate = if x.kind = .sink then
      -(x.reactants.map fun i => net.count axis i * (rate * conc.getD i 0)).sum else 0 := by
  rw [Assembly.reactionFlux, changeWeight_netChanges _ (h.formed (h.mem_reactions_iff.mpr hx)),
    h.count_balance axis hexact hx]
  split_ifs with hkind
  · cases hx with
    | sink hs hr hm =>
      simp [Reaction.sink, Reaction.reactants, Reaction.factors, Reaction.kind,
        concentrationProduct]
    | production hm hn => cases hkind
    | nucleation hm hn => cases hkind
    | dissociation hm he => cases hkind
    | reSolution hm he hleast hsize => cases hkind
  · rw [zero_mul]

theorem sum_reactionFlux_count (h : net.BuiltFrom spec) (axis : Nat)
    (hexact : ∀ r ∈ net.paving.regions, r.isSimplex = true) (p : PointRates ℝ)
    (conc : Array ℝ) :
    ((net.reactions.toList.zip p.rates.toList).map fun x =>
      Assembly.reactionFlux (net.count axis) conc x.1 x.2.value).sum = -net.absorbed axis p conc := by
  rw [absorbed, List.sum_neg, List.map_map]
  refine congrArg List.sum (List.map_congr_left fun x hx => ?_)
  have hlisted := h.mem_reactions_iff.mp (List.of_mem_zip hx).1
  rw [h.reactionFlux_count axis hexact hlisted, Function.comp_apply, apply_ite Neg.neg, neg_zero]

theorem absorbed_eq_zero (h : net.BuiltFrom spec) (hsinks : spec.sinks = none) (axis : Nat)
    (p : PointRates ℝ) (conc : Array ℝ) : net.absorbed axis p conc = 0 := by
  refine List.sum_eq_zero fun y hy => ?_
  obtain ⟨⟨r, rate⟩, hr, rfl⟩ := List.mem_map.mp hy
  refine if_neg fun hkind => ?_
  cases h.mem_reactions_iff.mp (List.of_mem_zip hr).1 with
  | sink hs hr hm => simp [NetworkSpec.channels, hsinks] at hs
  | production hm hn => cases hkind
  | nucleation hm hn => cases hkind
  | dissociation hm he => cases hkind
  | reSolution hm he hleast hsize => cases hkind

end BuiltFrom

variable {spec : NetworkSpec ℝ} {net : Network ℝ} {pattern : FillPattern} {a : Assembly ℝ}

/-- In a network whose clusters are single compositions, the flux changes the total count on every
axis by what sinks absorb, at all rates and concentrations, and not at all without sinks. There is a
flux for as many rates as reactions and room for all clusters. -/
theorem addFlux_conserves (h : (build spec).value = .ok net)
    (hexact : ∀ r ∈ net.paving.regions, r.isSimplex = true)
    (ha : Assembly.ofNetwork net pattern = .ok a) (p : PointRates ℝ) (conc out : Array ℝ) :
    ((∃ out', a.addFlux p conc out = .ok out') ↔
        p.rates.size = net.reactions.size ∧ net.size ≤ conc.size ∧ net.size ≤ out.size) ∧
      ∀ out', a.addFlux p conc out = .ok out' → ∀ axis,
        ∑ i ∈ Finset.range net.size, net.count axis i * (out'.getD i 0 - out.getD i 0) =
            -net.absorbed axis p conc ∧
          (spec.sinks = none →
            ∑ i ∈ Finset.range net.size, net.count axis i * (out'.getD i 0 - out.getD i 0) = 0) := by
  have hb := builtFrom_of_build h
  refine ⟨Assembly.exists_addFlux_iff ha, fun out' hout axis => ?_⟩
  have hflux : ∑ i ∈ Finset.range net.size, net.count axis i * (out'.getD i 0 - out.getD i 0) =
      -net.absorbed axis p conc := by
    obtain ⟨-, -, hroom⟩ := (Assembly.exists_addFlux_iff ha).mp ⟨out', hout⟩
    obtain ⟨-, htotal⟩ := Assembly.addFlux_eq_ok ha
      (fun r hr i hi => hb.lt_size_of_mem_participants hr hi) hout (net.count axis) le_rfl hroom
    rw [hb.sum_reactionFlux_count axis hexact] at htotal
    simp only [mul_sub, Finset.sum_sub_distrib]
    rw [sub_eq_iff_eq_add, add_comm]
    exact htotal
  refine ⟨hflux, fun hsinks => ?_⟩
  rw [hflux, hb.absorbed_eq_zero hsinks, neg_zero]

/-- Xenon up to two, with nucleation: the dimer gains half of what the monomer loses. -/
theorem addFlux_conserves_xenon :
    let spec : NetworkSpec ℝ := { NetworkSpec.ofProfile .fissionGas 2 with nucleation := some 1 }
    ∃ net a, ∃ p : PointRates ℝ, ∃ out', (build spec).value = .ok net ∧
      Assembly.ofNetwork net ⟨2, #[[0, 1], [0, 1]], false⟩ = .ok a ∧
      a.addFlux p #[1, 1] #[0, 0] = .ok out' ∧ out'.getD 0 0 + 2 * out'.getD 1 0 = 0 := by
  intro spec
  have hp : Paving.ofAxes? spec.axes = .ok ⟨[⟨[⟨1, 2, by omega⟩], by simp⟩,
      ⟨[⟨2, 3, by omega⟩], by simp⟩], [.xenon], [2]⟩ := by
    decide +kernel
  have hv : spec.Valid :=
    { NetworkSpec.ofProfile_valid (Profile.basic_valid (by decide) (by decide)) 2 with
      nucleation := by simp [spec] }
  obtain ⟨net, hnet, hpaving⟩ := exists_build hv (by decide) hp
  have hb := builtFrom_of_build hnet
  have hsize : net.size = 2 := by rw [hb.size_eq, hpaving]; rfl
  have hslot : ∀ row < 2, ∀ column < 2, ∃ slot, (SparseBlock.ofPattern
      ⟨2, #[[0, 1], [0, 1]], false⟩ : SparseBlock ℝ).position? row column = some slot := by
    intro row hrow column hcolumn
    interval_cases row <;> interval_cases column <;> exact ⟨_, rfl⟩
  obtain ⟨a, ha⟩ := @Assembly.exists_ofNetwork ℝ _ net ⟨2, #[[0, 1], [0, 1]], false⟩
    fun r hr row hrow column hcolumn => by
      have hids : ∀ i ∈ r.participants, i < 2 := fun i hi =>
        hsize ▸ hb.lt_size_of_mem_participants hr hi
      exact hslot row (hids row hrow) column
        (hids column (by simpa [FillPattern.temperature?] using hcolumn))
  let p : PointRates ℝ := ⟨0, 1000, 0, 0, 0, #[], Array.replicate net.reactions.size ⟨1, 0⟩⟩
  obtain ⟨hflux, hconserved⟩ := addFlux_conserves hnet (by rw [hpaving]; decide) ha p #[1, 1] #[0, 0]
  obtain ⟨out', hout⟩ := hflux.mpr ⟨by simp [p], by simp [hsize], by simp [hsize]⟩
  refine ⟨net, a, p, out', hnet, ha, hout, ?_⟩
  have hone : net.count 0 0 = 1 := by
    rw [hb.count_eq 0 (i := 0) (by rw [hpaving]; rfl)]
    exact Nat.cast_one
  have htwo : net.count 0 1 = 2 := by
    rw [hb.count_eq 0 (i := 1) (by rw [hpaving]; rfl)]
    exact Nat.cast_two
  have htotal := (hconserved out' hout 0).2 rfl
  rw [hsize, Finset.sum_range_succ, Finset.sum_range_one, hone, htwo] at htotal
  simpa using htotal

end Network

end ClusterDynamics
