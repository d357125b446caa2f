import ClusterDynamics.Proofs.Lattice.Construction
import ClusterDynamics.Proofs.Network.Build
import ClusterDynamics.Proofs.Network.Participants
import ClusterDynamics.Proofs.Network.Scan

/-! The mergers of a pair of clusters account for exactly the pairs of compositions whose sum stays
in the box: the regions are a partition, so each such sum falls into one cluster. -/

namespace ClusterDynamics

open Finset

namespace Paving

variable {axes : List Axis} {p : Paving}

theorem eq_of_isMonomer (hs : ∀ a ∈ axes, a.Sound) (h : ofAxes axes = .ok p)
    {species : List Species} (hn : species.Nodup) {x : Species} {i j : Nat} {r s : Region}
    (hi : p.regions[i]? = some r) (hj : p.regions[j]? = some s) (hr : r.IsMonomer species x)
    (hs' : s.IsMonomer species x) : i = j := by
  have hdimension : r.dimension = s.dimension :=
    ((Aligned.of_ofAxes h).length_eq r (List.mem_of_getElem? hi)).trans
      ((Aligned.of_ofAxes h).length_eq s (List.mem_of_getElem? hj)).symm
  have hsr : s.contains r.origin = true := by
    rw [hr.origin_eq hn hs' hdimension]
    exact s.contains_origin
  obtain ⟨hbox, hne⟩ := inBox_of_contains hs h (List.mem_of_getElem? hi) r.contains_origin
  exact (existsUnique_region hs h hbox hne).unique ⟨r, hi, r.contains_origin⟩ ⟨s, hj, hsr⟩

end Paving

namespace Region

variable {r s : Region}

theorem sum_card_mergers (r s : Region) (ts : List Region) :
    (ts.map fun t => (r.mergers s t).card).sum =
      ∑ x ∈ r.compositions ×ˢ s.compositions, ts.countP (·.contains (mergeCounts x.1 x.2)) := by
  induction ts with
  | nil => simp
  | cons t ts ih =>
    rw [List.map_cons, List.sum_cons, ih, mergers, card_filter, Nat.add_comm]
    simp only [List.countP_cons, sum_add_distrib]

/-- The pairs of compositions of two regions whose sum stays in a box. -/
def fitting (max : List Nat) (r s : Region) : Finset (Composition × Composition) :=
  (r.compositions ×ˢ s.compositions).filter fun x => InBox max (mergeCounts x.1 x.2)

theorem fitting_eq_empty_iff {max : List Nat} : fitting max r s = ∅ ↔
    ∀ c d, r.contains c = true → s.contains d = true → ¬InBox max (mergeCounts c d) := by
  simp only [fitting, filter_eq_empty_iff, mem_product, mem_compositions, Prod.forall, and_imp]

theorem fitting_eq_product {max : List Nat} (h : InBox max (greatestSums r s)) :
    fitting max r s = r.compositions ×ˢ s.compositions := by
  rw [fitting, filter_eq_self]
  intro x hx
  obtain ⟨hc, hd⟩ := mem_product.mp hx
  obtain ⟨-, hhi⟩ := mergeCounts_bounds (mem_compositions.mp hc) (mem_compositions.mp hd)
  exact @forall₂_trans _ (· ≤ ·) (fun _ _ _ => Nat.le_trans) _ _ _ hhi h

/-- A sum in the box is not the empty cluster, so one region holds it. -/
theorem sum_card_mergers_eq {axes : List Axis} {p : Paving} (hs : ∀ a ∈ axes, a.Sound)
    (h : Paving.ofAxes axes = .ok p) (hr : r ∈ p.regions) (hs' : s ∈ p.regions) :
    (p.regions.map fun t => (r.mergers s t).card).sum =
      (fitting (axes.map Axis.max) r s).card := by
  rw [sum_card_mergers, fitting, card_filter]
  refine sum_congr rfl fun x hx => ?_
  obtain ⟨hc, hd⟩ := mem_product.mp hx
  rw [mem_compositions] at hc hd
  obtain ⟨-, n, hn, hpos⟩ := Paving.inBox_of_contains hs h hr hc
  have hne : ∃ n ∈ mergeCounts x.1 x.2, n ≠ 0 := by
    have hl : x.1.length = x.2.length := by
      rw [length_of_contains hc, length_of_contains hd]
      exact ((Paving.Aligned.of_ofAxes h).length_eq r hr).trans
        ((Paving.Aligned.of_ofAxes h).length_eq s hs').symm
    obtain ⟨i, hi, rfl⟩ := List.getElem_of_mem hn
    refine ⟨x.1[i] + x.2[i], ?_, by omega⟩
    rw [mergeCounts, List.mem_iff_getElem]
    exact ⟨i, by simpa [← hl] using hi, by simp⟩
  rw [Paving.countP_regions hs h]
  exact if_congr (and_iff_left hne) rfl rfl

theorem sum_mergerShare {axes : List Axis} {p : Paving} (hs : ∀ a ∈ axes, a.Sound)
    (h : Paving.ofAxes axes = .ok p) (hr : r ∈ p.regions) (hs' : s ∈ p.regions) :
    (p.regions.map (r.mergerShare s)).sum =
      (fitting (axes.map Axis.max) r s).card / (r.compositions.card * s.compositions.card) := by
  have hsum := congrArg (Nat.cast (R := ℝ)) (sum_card_mergers_eq hs h hr hs')
  rw [← hsum, Nat.cast_list_sum, List.map_map, div_eq_mul_inv, ← List.sum_map_mul_right]
  rfl

theorem mergerShare_eq_one {t : Region} {c d : Composition}
    (hr : ∀ x, r.contains x = true ↔ x = c) (hs : ∀ x, s.contains x = true ↔ x = d)
    (h : (r.mergers s t).Nonempty) : r.mergerShare s t = 1 := by
  have hr' : r.compositions = {c} := by ext x; simp [hr]
  have hs' : s.compositions = {d} := by ext x; simp [hs]
  have hcard : (r.mergers s t).card = 1 := by
    refine le_antisymm ?_ (card_pos.mpr h)
    have hle : (r.mergers s t).card ≤ (r.compositions ×ˢ s.compositions).card :=
      card_filter_le _ _
    rwa [hr', hs', card_product, card_singleton, card_singleton] at hle
  rw [mergerShare, hcard, hr', hs', card_singleton, card_singleton]
  norm_num

end Region

theorem sum_map_filter_of_eq_zero {α : Type} {q : α → Bool} {f : α → ℝ} (xs : List α)
    (h : ∀ x, q x = false → f x = 0) : ((xs.filter q).map f).sum = (xs.map f).sum := by
  induction xs with
  | nil => rfl
  | cons x xs ih =>
    rw [List.filter_cons, List.map_cons, List.sum_cons, ← ih]
    cases hx : q x with
    | true => simp
    | false => simp [h x hx]

namespace Network

variable {spec : NetworkSpec ℝ} {net : Network ℝ} {i j : Nat} {r s : Region} {x : Reaction ℝ}

/-- The reactions that merge clusters `i ≤ j`, by encounter or as nucleation. -/
def mergersOf (net : Network ℝ) (i j : Nat) : List (Reaction ℝ) :=
  net.reactions.toList.filter fun x =>
    decide ((x.kind = .production ∨ x.kind = .nucleation) ∧ x.reactants = [i, j])

open Classical in
/-- The reaction that merges clusters `i` and `j` with regions `r` and `s` into a region at a
position. -/
noncomputable def mergerInto (spec : NetworkSpec ℝ) (i j : Nat) (r s : Region)
    (t : Region × Nat) : Reaction ℝ :=
  if spec.channels.Nucleates spec.profile.species r s then .nucleation i t.2
  else .production i j t.2 (r.mergerShare s t.1)

theorem products_mergerInto (spec : NetworkSpec ℝ) (i j : Nat) (r s : Region) (t : Region × Nat) :
    (mergerInto spec i j r s t).products = [t.2] := by
  unfold mergerInto
  split_ifs <;> rfl

/-- The coefficient of a merger is the share that it brings, also for nucleation. -/
theorem coefficient_mergerInto {t : Region × Nat} (ht : (r.mergers s t.1).Nonempty) :
    (mergerInto spec i j r s t).coefficient = r.mergerShare s t.1 := by
  unfold mergerInto
  split_ifs with hn
  · obtain ⟨-, ⟨a, -, hra⟩, b, -, hsb⟩ := hn
    obtain ⟨c, hc⟩ := hra.exists_composition
    obtain ⟨d, hd⟩ := hsb.exists_composition
    rw [Region.mergerShare_eq_one hc hd ht]
    simp [Reaction.nucleation]
  · rfl

namespace BuiltFrom

theorem eq_of_nucleates (h : net.BuiltFrom spec) (hs : ∀ a ∈ spec.axes, a.Sound)
    (hi : net.paving.regions[i]? = some r) (hj : net.paving.regions[j]? = some s)
    (hn : spec.channels.Nucleates spec.profile.species r s) : i = j := by
  obtain ⟨-, ⟨a, ha, hra⟩, b, hb, hsb⟩ := hn
  obtain rfl := Option.some.inj (ha.symm.trans hb)
  exact Paving.eq_of_isMonomer hs (Paving.ofAxes_of_ofAxes? h.paving)
    h.validated.profile.nodup hi hj hra hsb

theorem mem_mergersOf_iff (h : net.BuiltFrom spec) (hs : ∀ a ∈ spec.axes, a.Sound) (hij : i ≤ j)
    (hi : net.paving.regions[i]? = some r) (hj : net.paving.regions[j]? = some s) :
    x ∈ net.mergersOf i j ↔ ∃ t ∈ net.paving.regions.zipIdx,
      (r.mergers s t.1).Nonempty ∧ mergerInto spec i j r s t = x := by
  rw [mergersOf, List.mem_filter, h.mem_reactions_iff, decide_eq_true_eq]
  constructor
  · rintro ⟨hx, hkind, hreactants⟩
    cases hx with
    | @production i' j' k r' s' t hm hn =>
      obtain ⟨rfl, rfl⟩ : i' = i ∧ j' = j := by
        simpa [Reaction.production, Reaction.reactants, hm.pair_eq] using hreactants
      obtain rfl := Option.some.inj (hi.symm.trans hm.first)
      obtain rfl := Option.some.inj (hj.symm.trans hm.second)
      exact ⟨(t, k), List.mem_zipIdx_iff_getElem?.mpr hm.product,
        Region.mergers_nonempty_iff.mpr hm.sum, if_neg hn⟩
    | @nucleation i' j' k r' s' t hm hn =>
      -- Nucleation names its monomer twice, so the second cluster must be the first.
      obtain rfl := h.eq_of_nucleates hs hm.first hm.second hn
      obtain ⟨rfl, rfl⟩ : i' = i ∧ i' = j := by
        simpa [Reaction.nucleation, Reaction.reactants] using hreactants
      obtain rfl := Option.some.inj (hi.symm.trans hm.first)
      obtain rfl := Option.some.inj (hj.symm.trans hm.second)
      exact ⟨(t, k), List.mem_zipIdx_iff_getElem?.mpr hm.product,
        Region.mergers_nonempty_iff.mpr hm.sum, if_pos hn⟩
    | dissociation hm he => rcases hkind with hk | hk <;> cases hk
    | reSolution hm he hleast hsize => rcases hkind with hk | hk <;> cases hk
    | sink hs hr hm => rcases hkind with hk | hk <;> cases hk
  · rintro ⟨⟨t, k⟩, ht, hm, rfl⟩
    rw [List.mem_zipIdx_iff_getElem?] at ht
    have hmerger : net.paving.Merger i j k r s t :=
      ⟨hij, hi, hj, ht, Region.mergers_nonempty_iff.mp hm⟩
    unfold mergerInto
    split_ifs with hn
    · have he := h.eq_of_nucleates hs hi hj hn
      exact ⟨.nucleation hmerger hn, .inr rfl, by simp [Reaction.nucleation, Reaction.reactants, he]⟩
    · exact ⟨.production hmerger hn, .inl rfl, hmerger.pair_eq⟩

theorem mergersOf_perm (h : net.BuiltFrom spec) (hs : ∀ a ∈ spec.axes, a.Sound) (hij : i ≤ j)
    (hi : net.paving.regions[i]? = some r) (hj : net.paving.regions[j]? = some s) :
    (net.mergersOf i j).Perm ((net.paving.regions.zipIdx.filter fun t =>
      decide (r.mergers s t.1).Nonempty).map (mergerInto spec i j r s)) := by
  refine (List.perm_ext_iff_of_nodup ?_ ?_).mpr fun x => ?_
  · exact (h.ascending.imp fun {x y} hxy he => hxy.2 (congrArg _ he)).filter _
  · refine List.Nodup.of_map Reaction.products ?_
    rw [List.map_map]
    have hpositions : (net.paving.regions.zipIdx.map Prod.snd).Nodup := by
      rw [List.zipIdx_map_snd]
      exact List.nodup_range'
    have hproducts : Reaction.products ∘ mergerInto spec i j r s = fun t => [t.2] :=
      funext (products_mergerInto spec i j r s)
    rw [hproducts, ← Function.comp_def (fun k : Nat => [k]) Prod.snd, ← List.map_map]
    exact (hpositions.sublist (List.filter_sublist.map _)).map fun m n hmn => (List.cons.inj hmn).1
  · simp only [h.mem_mergersOf_iff hs hij hi hj, List.mem_map, List.mem_filter, decide_eq_true_eq,
      and_assoc]

theorem sum_mergersOf (h : net.BuiltFrom spec) (hs : ∀ a ∈ spec.axes, a.Sound) (hij : i ≤ j)
    (hi : net.paving.regions[i]? = some r) (hj : net.paving.regions[j]? = some s) :
    ((net.mergersOf i j).map Reaction.coefficient).sum =
      (Region.fitting (spec.axes.map Axis.max) r s).card /
        (r.compositions.card * s.compositions.card) := by
  have hp := Paving.ofAxes_of_ofAxes? h.paving
  rw [((h.mergersOf_perm hs hij hi hj).map _).sum_eq, List.map_map,
    ← Region.sum_mergerShare hs hp (List.mem_of_getElem? hi) (List.mem_of_getElem? hj)]
  have hfst : net.paving.regions.map (r.mergerShare s) =
      net.paving.regions.zipIdx.map fun t => r.mergerShare s t.1 := by
    conv_lhs => rw [← List.zipIdx_map_fst 0 net.paving.regions, List.map_map]
    rfl
  have hzero : ∀ t : Region × Nat, decide (r.mergers s t.1).Nonempty = false →
      r.mergerShare s t.1 = 0 := by
    intro t ht
    rw [decide_eq_false_iff_not, not_nonempty_iff_eq_empty] at ht
    rw [Region.mergerShare, ht]
    simp
  rw [hfst, ← sum_map_filter_of_eq_zero _ hzero]
  refine congrArg List.sum (List.map_congr_left fun t ht => ?_)
  exact coefficient_mergerInto (of_decide_eq_true (List.mem_filter.mp ht).2)

theorem mergersOf_eq_nil_iff (h : net.BuiltFrom spec) (hs : ∀ a ∈ spec.axes, a.Sound)
    (hij : i ≤ j) (hi : net.paving.regions[i]? = some r) (hj : net.paving.regions[j]? = some s) :
    net.mergersOf i j = [] ↔ Region.fitting (spec.axes.map Axis.max) r s = ∅ := by
  have hp := Paving.ofAxes_of_ofAxes? h.paving
  have hperm := h.mergersOf_perm hs hij hi hj
  rw [← card_eq_zero, ← Region.sum_card_mergers_eq hs hp (List.mem_of_getElem? hi)
    (List.mem_of_getElem? hj), List.sum_eq_zero_iff]
  have hnil : net.mergersOf i j = [] ↔ (net.paving.regions.zipIdx.filter fun t =>
      decide (r.mergers s t.1).Nonempty) = [] := by
    rw [← List.length_eq_zero_iff, hperm.length_eq, List.length_map, List.length_eq_zero_iff]
  rw [hnil, List.filter_eq_nil_iff, List.forall_mem_map]
  simp only [decide_eq_true_eq, not_nonempty_iff_eq_empty, card_eq_zero]
  constructor
  · intro hall t ht
    obtain ⟨k, hk⟩ := List.mem_iff_getElem?.mp ht
    exact hall (t, k) (List.mem_zipIdx_iff_getElem?.mpr hk)
  · exact fun hall t ht => hall t.1 (List.fst_mem_of_mem_zipIdx ht)

end BuiltFrom

/-- If sums of its counts are counts, the sums that a network was built from are exact. -/
theorem exactOn_of_build {o : Overflow} (hsums : ∀ a ∈ spec.axes, 2 * a.max ≤ countLimit)
    (h : (build spec o).value = .ok net) : o.ExactOn net.paving := by
  have hb := builtWith_of_build h
  cases o with
  | checked => exact hb.completeOn.exactOn
  | wrapping =>
    have hp := Paving.ofAxes_of_ofAxes? hb.paving
    have hfits : ∀ a ∈ spec.axes, Overflow.wrapping.Fits a.max := hsums
    exact Paving.exactOn_of_fits (Paving.sound_of_fits hp hfits) hp hfits

/-- The coefficients of the mergers of two clusters sum to the fraction of pairs of their
compositions that fit into the box. The sum is one where the largest sum fits, and there is no
merger if and only if no pair fits. Sums of counts are counts, and the number of clusters is a word
of names, so that the scan by names finds the same reactions. -/
theorem merger_balance (o : Overflow) (hsums : ∀ a ∈ spec.axes, 2 * a.max ≤ countLimit)
    (h : (build spec o).value = .ok net) (hsize : net.size < nameLimit) (hij : i ≤ j)
    (hi : net.paving.regions[i]? = some r) (hj : net.paving.regions[j]? = some s) :
    (∃ axis buckets, spec.profile.primaryAxis = .ok axis ∧
        BucketIndex.ofPaving net.paving axis = .ok buckets ∧
        scanReactions o buckets net.paving net.table spec.channels = .ok net.reactions.toList) ∧
      ((net.mergersOf i j).map Reaction.coefficient).sum =
        (Region.fitting (spec.axes.map Axis.max) r s).card /
          (r.compositions.card * s.compositions.card) ∧
      (InBox (spec.axes.map Axis.max) (greatestSums r s) →
        ((net.mergersOf i j).map Reaction.coefficient).sum = 1) ∧
      (net.mergersOf i j = [] ↔ ∀ c d, r.contains c = true → s.contains d = true →
        ¬InBox (spec.axes.map Axis.max) (mergeCounts c d)) := by
  have hexact := exactOn_of_build hsums h
  have hw := builtWith_of_build h
  have hb := hw.builtFrom hexact
  have hp := Paving.ofAxes_of_ofAxes? hb.paving
  have hfits : ∀ a ∈ spec.axes, Overflow.wrapping.Fits a.max := hsums
  have hs := Paving.sound_of_fits hp hfits
  have hsum := hb.sum_mergersOf hs hij hi hj
  refine ⟨?_, hsum, fun hlargest => ?_, ?_⟩
  · obtain ⟨axis, haxis, hindex⟩ := hw.index
    have hreactions := hw.reactions
    rw [hw.table] at hreactions ⊢
    rw [hb.size_eq] at hsize
    have haligned := Paving.Aligned.of_ofAxes hp
    obtain ⟨buckets, hbuckets, hquery, -⟩ := BucketIndex.exists_query_eq haligned
      (Paving.regions_ne_nil_of_ofAxes hp) (Nat.le_of_lt hsize) hindex
    exact ⟨axis, buckets, haxis, hbuckets,
      (scanReactions_eq haligned hsize hindex hquery hexact).trans hreactions⟩
  · have hr := Nat.cast_ne_zero (R := ℝ).mpr r.card_compositions_pos.ne'
    have hs := Nat.cast_ne_zero (R := ℝ).mpr s.card_compositions_pos.ne'
    rw [hsum, Region.fitting_eq_product hlargest, card_product, Nat.cast_mul]
    exact div_self (mul_ne_zero hr hs)
  · rw [hb.mergersOf_eq_nil_iff hs hij hi hj, Region.fitting_eq_empty_iff]

/-- Xenon up to four in pairs from two on, with nucleation: of the sums of the pair `2, 3` with
itself, only the smallest stays in the box. -/
theorem merger_balance_xenon :
    let spec : NetworkSpec ℝ :=
      { NetworkSpec.ofProfile .fissionGas 4 with axes := [⟨.xenon, 4, 2, 2⟩], nucleation := some 1 }
    ∃ net, (build spec).value = .ok net ∧
      ((net.mergersOf 1 1).map Reaction.coefficient).sum = 1 / 4 := by
  intro spec
  let pair : Region := ⟨[⟨2, 4, by omega⟩], by simp⟩
  have hp : Paving.ofAxes? spec.axes = .ok ⟨[⟨[⟨1, 2, by omega⟩], by simp⟩, pair,
      ⟨[⟨4, 5, by omega⟩], by simp⟩], [.xenon], [4]⟩ := by
    decide +kernel
  have hv : spec.Valid :=
    { NetworkSpec.ofProfile_valid (Profile.basic_valid (by decide) (by decide)) 4 with
      axes := rfl, cuts := by decide, nucleation := by simp [spec] }
  obtain ⟨net, hnet, hpaving⟩ := exists_build hv (by decide) hp
  refine ⟨net, hnet, ?_⟩
  have hsize : net.size < nameLimit := by
    rw [(builtFrom_of_build hnet).size_eq, hpaving]
    decide
  have hpair : net.paving.regions[1]? = some pair := by rw [hpaving]; rfl
  obtain ⟨-, hsum, -⟩ := merger_balance .checked (by decide) hnet hsize le_rfl hpair hpair
  rw [hsum, show (Region.fitting (spec.axes.map Axis.max) pair pair).card = 1 by decide,
    show pair.compositions.card = 2 by decide]
  norm_num

/-- Xenon up to `2 ^ 32 - 2` in two runs. Without checks the box of the sums of the first run with
itself ends at zero, so no merger of it is found, though two monomers fit into the box. -/
theorem merger_balance_wrapped :
    let spec : NetworkSpec ℝ :=
      { NetworkSpec.ofProfile .fissionGas 4 with axes := [⟨.xenon, 4294967294, 1, 2147483648⟩] }
    ∃ net r, (build spec .wrapping).value = .ok net ∧ net.paving.regions[0]? = some r ∧
      net.mergersOf 0 0 = [] ∧ r.contains [1] = true ∧
      InBox (spec.axes.map Axis.max) (mergeCounts [1] [1]) := by
  intro spec
  let low : Region := ⟨[⟨1, 2147483649, by omega⟩], by simp⟩
  let high : Region := ⟨[⟨2147483649, 4294967295, by omega⟩], by simp⟩
  have hp : Paving.ofAxes? spec.axes = .ok ⟨[low, high], [.xenon], [4294967294]⟩ := by
    decide +kernel
  have hv : spec.Valid :=
    { NetworkSpec.ofProfile_valid (Profile.basic_valid (by decide) (by decide)) 4 with
      axes := rfl, cuts := by decide }
  obtain ⟨net, hnet, hpaving⟩ := exists_build_of_validate (NetworkSpec.validate_eq_ok_iff.mpr hv) hp
    (Overflow.completeOn_wrapping _)
  have hlow : net.paving.regions[0]? = some low := by
    rw [hpaving]
    rfl
  refine ⟨net, low, hnet, hlow, ?_, by decide, by decide⟩
  have h := builtWith_of_build hnet
  obtain ⟨axis, -, hindex⟩ := h.index
  have hreactions := h.reactions
  rw [h.table] at hreactions
  rw [mergersOf, List.filter_eq_nil_iff]
  intro x hx hmerger
  obtain ⟨hkind, hreactants⟩ := of_decide_eq_true hmerger
  rcases mem_of_mem_reactionList (.of_ofAxes (Paving.ofAxes_of_ofAxes? h.paving)) hindex hreactions hx
    with ⟨i, j, r, s, -, hr, hs, box, k, t, hbox, ht, hmeets, -, hx⟩ | ⟨hsinks, -⟩
  · rcases Channels.mem_reactionsOf_iff.mp hx with
      ⟨⟨hn, -⟩, -⟩ | ⟨-, rfl⟩ | ⟨-, rfl⟩ | ⟨-, -, rfl⟩
    · cases hn
    · obtain ⟨rfl, rfl⟩ : i = 0 ∧ j = 0 := by
        have hmem : ∀ n, n ∈ Reaction.pair i j ↔ n = 0 := by
          intro n
          rw [show Reaction.pair i j = [0, 0] from hreactants]
          simp
        exact ⟨(hmem i).mp (Reaction.mem_pair.mpr (.inl rfl)),
          (hmem j).mp (Reaction.mem_pair.mpr (.inr rfl))⟩
      obtain rfl := Option.some.inj (hlow.symm.trans hr)
      obtain rfl := Option.some.inj (hlow.symm.trans hs)
      obtain rfl : ([2], [0]) = box :=
        Except.ok.inj ((by decide : sumBox .wrapping low low = .ok ([2], [0])).symm.trans hbox)
      have ht' : t ∈ [low, high] := by
        have hmem := List.mem_of_getElem? ht
        rwa [hpaving] at hmem
      have hnone : ∀ t ∈ [low, high], t.meets [2] [0] = false := by decide
      exact Bool.noConfusion (hmeets.symm.trans (hnone t ht'))
    · rcases hkind with hk | hk <;> cases hk
    · rcases hkind with hk | hk <;> cases hk
  · cases hsinks

end Network

end ClusterDynamics
