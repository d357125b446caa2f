import ClusterDynamics.Proofs.Assembly.Numbering
import ClusterDynamics.Proofs.Assembly.Terms

/-! The flux slot by slot. A term of an assembly holds one net change per cluster; the plain reading
of a reaction takes its frequency from every reactant and gives it to every product, one slot after
the other. In exact arithmetic an assembly adds what the plain reading does. -/

namespace ClusterDynamics

section Slots

variable {K : Type} [Scalar K]

/-- How often a reaction happens at a rate. A production multiplies the concentrations of all its
reactant slots; any other reaction takes that of the first. -/
def Reaction.slotFrequency (r : Reaction K) (conc : Array K) (rate : K) : K :=
  let amount := match r.kind, r.reactants with
    | .production, ids => Scalar.product (ids.map fun c => conc.getD c 0)
    | _, first :: _ => conc.getD first 0
    | _, [] => 0
  r.coefficient * rate * amount

/-- Take a frequency from every reactant slot, and give it to every product slot. -/
def Reaction.addSlots (r : Reaction K) (frequency : K) (out : Array K) : Array K :=
  let consumed := r.reactants.foldl (fun out i => out.modify i (· - frequency)) out
  r.products.foldl (fun out i => out.modify i (· + frequency)) consumed

/-- What all reactions of a network do to its clusters, slot by slot. -/
def Network.slotFlux (net : Network K) (p : PointRates K) (conc : Array K) : Array K :=
  (net.reactions.toList.zip p.rates.toList).foldl
    (fun out (r, rate) => r.addSlots (r.slotFrequency conc rate.value) out)
    (Array.replicate net.size 0)

end Slots

namespace Reaction

variable {r : Reaction ℝ} {m : Nat} {conc : Array ℝ}

theorem slotFrequency_eq (h : r.Formed m) (conc : Array ℝ) (rate : ℝ) :
    r.slotFrequency conc rate = r.coefficient * rate * concentrationProduct conc r.factors := by
  cases h with
  | production hi hj hk => rfl
  | dissociation hk hi hj =>
    simp [slotFrequency, concentrationProduct, dissociation, kind, reactants, factors]
  | reSolution hk hi hj =>
    simp [slotFrequency, concentrationProduct, reSolution, kind, reactants, factors]
  | sink hi => simp [slotFrequency, concentrationProduct, sink, kind, reactants, factors]
  | nucleation hi hk =>
    simp [slotFrequency, concentrationProduct, nucleation, kind, reactants, factors]

theorem weightedTotal_addSlots (n : Nat → ℝ) (hr : ∀ i ∈ r.participants, i < m) (frequency : ℝ)
    {out : Array ℝ} (hm : m ≤ out.size) : (r.addSlots frequency out).size = out.size ∧
      weightedTotal n m (r.addSlots frequency out) = weightedTotal n m out +
        ((r.products.map n).sum - (r.reactants.map n).sum) * frequency := by
  have hslots : ∀ {ids : List Nat} (x : ℝ) {out : Array ℝ}, (∀ i ∈ ids, i < m) → m ≤ out.size →
      (ids.foldl (fun out i => out.modify i (· + x)) out).size = out.size ∧
        weightedTotal n m (ids.foldl (fun out i => out.modify i (· + x)) out) =
          weightedTotal n m out + (ids.map n).sum * x := by
    intro ids x out hids hm
    rw [← List.sum_map_mul_right]
    exact weightedTotal_foldl n
      (fun i hi out hout => ⟨Array.size_modify, weightedTotal_modify n (hids i hi) hout x⟩) hm
  obtain ⟨hsize, htotal⟩ := hslots (-frequency) (fun i hi => hr i (List.mem_append_left _ hi)) hm
  obtain ⟨hsize', htotal'⟩ := hslots frequency (fun i hi => hr i (List.mem_append_right _ hi))
    (hm.trans hsize.ge)
  refine ⟨hsize'.trans hsize, htotal'.trans ?_⟩
  rw [htotal]
  ring

end Reaction

namespace Network.BuiltFrom

variable {spec : NetworkSpec ℝ} {net : Network ℝ}

/-- Slot by slot, the reactions add what they add by net changes. -/
theorem weightedTotal_slotFlux (h : net.BuiltFrom spec) (n : Nat → ℝ) (p : PointRates ℝ)
    (conc : Array ℝ) : (net.slotFlux p conc).size = net.size ∧
      weightedTotal n net.size (net.slotFlux p conc) =
        ((net.reactions.toList.zip p.rates.toList).map fun x =>
          Assembly.reactionFlux n conc x.1 x.2.value).sum := by
  have hstart : (Array.replicate net.size (0 : ℝ)).size = net.size := Array.size_replicate
  have hzero : weightedTotal n net.size (Array.replicate net.size 0) = 0 := by
    refine Finset.sum_eq_zero fun i hi => ?_
    simp [Array.getD_eq_getD_getElem?, Finset.mem_range.mp hi]
  have hpass : ∀ x ∈ net.reactions.toList.zip p.rates.toList, ∀ out : Array ℝ,
      net.size ≤ out.size →
        (x.1.addSlots (x.1.slotFrequency conc x.2.value) out).size = out.size ∧
          weightedTotal n net.size (x.1.addSlots (x.1.slotFrequency conc x.2.value) out) =
            weightedTotal n net.size out + Assembly.reactionFlux n conc x.1 x.2.value := by
    intro x hx out hout
    have hformed := h.formed (List.of_mem_zip hx).1
    rw [Assembly.reactionFlux, changeWeight_netChanges n hformed,
      ← Reaction.slotFrequency_eq hformed]
    exact Reaction.weightedTotal_addSlots n (fun i hi => hformed.lt_of_mem_participants hi) _ hout
  obtain ⟨hsize, htotal⟩ := weightedTotal_foldl n hpass hstart.ge
  rw [hzero, zero_add] at htotal
  rw [slotFlux, Scalar.natLit_zero_real]
  exact ⟨hsize.trans hstart, htotal⟩

theorem getD_slotFlux (h : net.BuiltFrom spec) (p : PointRates ℝ) (conc : Array ℝ) (row : Nat) :
    (net.slotFlux p conc).getD row 0 = ((net.reactions.toList.zip p.rates.toList).map fun x =>
      Assembly.reactionFlux (Pi.single row 1) conc x.1 x.2.value).sum := by
  obtain ⟨hsize, htotal⟩ := h.weightedTotal_slotFlux (Pi.single row 1) p conc
  rcases Nat.lt_or_ge row net.size with hrow | hrow
  · rwa [weightedTotal_single hrow] at htotal
  -- Behind the clusters there is no entry, and the weight is on none of the clusters.
  · rw [← htotal, Array.getD_eq_getD_getElem?, Array.getElem?_eq_none (hsize.le.trans hrow)]
    refine (Finset.sum_eq_zero fun i hi => ?_).symm
    have hne : i ≠ row := (Finset.mem_range.mp hi |>.trans_le hrow).ne
    rw [Pi.single_eq_of_ne hne, zero_mul]

end Network.BuiltFrom

namespace Assembly

variable {net : Network ℝ} {pattern : FillPattern} {a : Assembly ℝ}

theorem getElem?_termFlux {spec : NetworkSpec ℝ} (hb : net.BuiltFrom spec)
    (ha : ofNetwork net pattern = .ok a) {p : PointRates ℝ} {conc out : Array ℝ}
    (hcheck : a.checkLengths p conc.size out.size = .ok ()) (i : Nat) :
    (a.termFlux p conc out)[i]? = out[i]?.map (· + (net.slotFlux p conc).getD i 0) := by
  rcases Nat.lt_or_ge i out.size with hi | hi
  · have hentry := getD_addFlux hb ha (addFlux_eq_ok_iff.mpr ⟨hcheck, rfl⟩) hi
    have hi' : i < (a.termFlux p conc out).size := hi.trans_eq size_termFlux.symm
    rw [← hb.getD_slotFlux, Array.getD_eq_getD_getElem?, Array.getElem?_eq_getElem hi',
      Array.getD_eq_getD_getElem?, Array.getElem?_eq_getElem hi] at hentry
    rw [Array.getElem?_eq_getElem hi', Array.getElem?_eq_getElem hi]
    exact congrArg some hentry
  · rw [Array.getElem?_eq_none hi, Array.getElem?_eq_none (size_termFlux.le.trans hi),
      Option.map_none]

/-- In exact arithmetic an assembly adds to its output what the reactions do slot by slot: a
reaction of coefficient `w` and rate `k` takes `w k` times its concentrations from each of its
reactants and gives it to each of its products, repetitions included. Entries behind the clusters
stay as they are, and so does an output that is refused. -/
theorem scatterFlux_slots {spec : NetworkSpec ℝ} (hnet : (Network.build spec).value = .ok net)
    (ha : ofNetwork net pattern = .ok a) (p : PointRates ℝ) (conc out : Array ℝ) :
    let after := (a.scatterFlux p conc out).1
    let result := (a.scatterFlux p conc out).2
    (result = .ok () ↔
        p.rates.size = net.reactions.size ∧ net.size ≤ conc.size ∧ net.size ≤ out.size) ∧
      (∀ e, result = .error e → after = out) ∧
      (result = .ok () →
        (∀ i, after[i]? = out[i]?.map (· + (net.slotFlux p conc).getD i 0)) ∧
        ∀ i, net.size ≤ i → after[i]? = out[i]?) := by
  intro after result
  have hb := Network.builtFrom_of_build hnet
  rw [← exists_addFlux_iff ha]
  cases hcheck : a.checkLengths p conc.size out.size with
  | error e =>
    have hcall : a.scatterFlux p conc out = (out, .error e) := scatterFlux_of_error hcheck
    have hafter : after = out := congrArg Prod.fst hcall
    have hresult : result = .error e := congrArg Prod.snd hcall
    have hnone : ¬∃ out', a.addFlux p conc out = .ok out' := by
      rintro ⟨out', hout⟩
      exact nomatch hcheck.symm.trans (addFlux_eq_ok_iff.mp hout).1
    rw [hresult]
    exact ⟨⟨nofun, fun h => absurd h hnone⟩, fun _ _ => hafter, nofun⟩
  | ok =>
    have hcall : a.scatterFlux p conc out = (a.termFlux p conc out, .ok ()) :=
      scatterFlux_of_ok hcheck
    have hafter : after = a.termFlux p conc out := congrArg Prod.fst hcall
    have hresult : result = .ok () := congrArg Prod.snd hcall
    rw [hresult, hafter]
    have hentries := getElem?_termFlux hb ha hcheck
    refine ⟨⟨fun _ => ⟨_, addFlux_eq_ok_iff.mpr ⟨hcheck, rfl⟩⟩, fun _ => rfl⟩, nofun,
      fun _ => ⟨hentries, fun i hi => ?_⟩⟩
    have hsize := (hb.weightedTotal_slotFlux 0 p conc).1
    rw [hentries, Array.getD_eq_getD_getElem?, Array.getElem?_eq_none (hsize.le.trans hi)]
    simp

/-- Xenon up to two with a temperature, added to an output that is not zero. -/
theorem scatterFlux_slots_xenon :
    ∃ net a, ∃ p : PointRates ℝ, (Network.build (.xenon 2)).value = .ok net ∧
      ofNetwork net (net.pattern.performAll [.enableTemperature]) = .ok a ∧
      (a.scatterFlux p #[3, 5, 900] #[7, 7, 7]).2 = .ok () ∧
      (a.scatterFlux p #[3, 5, 900] #[7, 7, 7]).1[0]? =
        some (7 + (net.slotFlux p #[3, 5, 900]).getD 0 0) ∧
      (a.scatterFlux p #[3, 5, 900] #[7, 7, 7]).1[2]? = some 7 := by
  obtain ⟨net, hnet, hsize⟩ := Network.exists_build_xenon
  obtain ⟨a, ha⟩ := (Network.builtFrom_of_build hnet).exists_assembly [.enableTemperature]
  let p : PointRates ℝ := ⟨0, 900, 0, 0, 0, #[], Array.replicate net.reactions.size ⟨2, 1⟩⟩
  obtain ⟨hiff, -, hentries⟩ := scatterFlux_slots hnet ha p #[3, 5, 900] #[7, 7, 7]
  have hok := hiff.mpr ⟨by simp [p], by simp [hsize], by simp [hsize]⟩
  obtain ⟨hadded, hkept⟩ := hentries hok
  exact ⟨net, a, p, hnet, ha, hok, hadded 0, hkept 2 hsize.le⟩

end Assembly

end ClusterDynamics
