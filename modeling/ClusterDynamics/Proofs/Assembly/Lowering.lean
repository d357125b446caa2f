import ClusterDynamics.Assembly
import ClusterDynamics.Proofs.Network.Participants
import ClusterDynamics.Proofs.Network.SparseBlock
import ClusterDynamics.Proofs.Outcome

/-! How the reactions of a network become terms, and what evaluations of the terms look up. A
network whose fill pattern lists all that reacts becomes an assembly, and an assembly refuses an
evaluation by the lengths of its data alone. -/

namespace ClusterDynamics

variable {K : Type} [Scalar K]

section Changes

theorem mem_accumulate {id : Nat} {delta : K} {changes : List (Nat × K)} {x : Nat × K}
    (h : x ∈ accumulate id delta changes) : x.1 = id ∨ ∃ y ∈ changes, y.1 = x.1 := by
  induction changes with
  | nil =>
    obtain rfl := List.mem_singleton.mp h
    exact .inl rfl
  | cons y changes ih =>
    rw [accumulate] at h
    split_ifs at h with he
    · rcases List.mem_cons.mp h with rfl | h
      · exact .inl he
      · exact .inr ⟨x, List.mem_cons_of_mem _ h, rfl⟩
    · rcases List.mem_cons.mp h with rfl | h
      · exact .inr ⟨_, List.mem_cons_self, rfl⟩
      · rcases ih h with h | ⟨z, hz, he⟩
        · exact .inl h
        · exact .inr ⟨z, List.mem_cons_of_mem _ hz, he⟩

theorem mem_foldl_accumulate {delta : K} {ids : List Nat} {changes : List (Nat × K)} {x : Nat × K}
    (h : x ∈ ids.foldl (fun st id => accumulate id delta st) changes) :
    x.1 ∈ ids ∨ ∃ y ∈ changes, y.1 = x.1 := by
  induction ids generalizing changes with
  | nil => exact .inr ⟨x, h, rfl⟩
  | cons id ids ih =>
    rcases ih h with h | ⟨y, hy, he⟩
    · exact .inl (List.mem_cons_of_mem _ h)
    · rcases mem_accumulate hy with hy | ⟨z, hz, hz'⟩
      · exact .inl (by rw [← he, hy]; exact List.mem_cons_self)
      · exact .inr ⟨z, hz, hz'.trans he⟩

theorem mem_reactants_of_mem_consumed {r : Reaction K} {x : Nat × K} (h : x ∈ r.consumed) :
    x.1 ∈ r.reactants := by
  have htaken : ∀ {ids : List Nat} {delta : K}, ids ⊆ r.reactants →
      x ∈ ids.foldl (fun st id => accumulate id delta st) [] → x.1 ∈ r.reactants := by
    intro ids delta hids hx
    rcases mem_foldl_accumulate hx with hx | ⟨z, hz, -⟩
    · exact hids hx
    · cases hz
  unfold Reaction.consumed at h
  split at h
  · exact htaken (List.Subset.refl _) h
  · exact htaken (List.take_subset _ _) h
  · exact htaken (List.take_subset _ _) h

theorem mem_participants_of_mem_netChanges {r : Reaction K} {x : Nat × K} (h : x ∈ r.netChanges) :
    x.1 ∈ r.participants := by
  rw [Reaction.participants, List.mem_append]
  rcases mem_foldl_accumulate h with h | ⟨y, hy, he⟩
  · exact .inr h
  · exact .inl (he ▸ mem_reactants_of_mem_consumed hy)

end Changes

theorem Reaction.Formed.mem_factors {r : Reaction K} {n i : Nat} (h : r.Formed n)
    (hi : i ∈ r.reactants) : i ∈ r.factors := by
  cases h with
  | production ha hb hc => exact hi
  | dissociation ha hb hc => exact hi
  | reSolution ha hb hc => exact hi
  | sink ha => exact hi
  | nucleation ha hb =>
    have hmem : i ∈ [_, _] := hi
    simpa [Reaction.factors, Reaction.nucleation, kind, reactants] using hmem

omit [Scalar K] in
theorem locate_eq_ok_iff {template : SparseBlock K} {row column slot : Nat} :
    locate template row column = .ok slot ↔ template.position? row column = some slot := by
  unfold locate
  cases template.position? row column <;> simp

/-- The places of a change are those of its row in the template. -/
structure Change.Placed (template : SparseBlock K) (temperature : Option Nat)
    (factors : List Nat) (c : Change K) : Prop where
  slots : List.Forall₂ (fun column slot => template.position? c.cluster column = some slot)
    factors c.slots
  temperature_none : temperature = none → c.temperatureSlot = none
  temperature_some : ∀ t, temperature = some t →
    ∃ slot, c.temperatureSlot = some slot ∧ template.position? c.cluster t = some slot

namespace Term

variable {template : SparseBlock K} {temperature : Option Nat} {r : Reaction K} {t : Term K}

theorem ofReaction_eq_ok (h : ofReaction template temperature r = .ok t) :
    t.coefficient = r.coefficient ∧ t.factors = r.factors ∧
      t.changes.map (fun c => (c.cluster, c.amount)) = r.netChanges := by
  obtain ⟨changes, hc, ht⟩ := bind_eq_ok_iff.mp h
  obtain rfl := Except.ok.inj ht
  refine ⟨rfl, rfl, ?_⟩
  have hf := mapM_eq_ok_iff.mp hc
  clear hc ht h
  generalize r.netChanges = net at hf ⊢
  induction hf with
  | nil => rfl
  | @cons x c xs cs hx _ ih =>
    obtain ⟨slots, -, hx⟩ := bind_eq_ok_iff.mp hx
    obtain ⟨slot, -, hx⟩ := bind_eq_ok_iff.mp hx
    obtain rfl := Except.ok.inj hx
    exact congrArg _ ih

theorem placed_of_ofReaction (h : ofReaction template temperature r = .ok t) :
    ∀ c ∈ t.changes, c.Placed template temperature t.factors := by
  obtain ⟨changes, hchanges, ht⟩ := bind_eq_ok_iff.mp h
  obtain rfl := Except.ok.inj ht
  intro c hc
  obtain ⟨x, -, hx⟩ := exists_mem_of_forall₂ (mapM_eq_ok_iff.mp hchanges).flip hc
  obtain ⟨slots, hslots, hx⟩ := bind_eq_ok_iff.mp hx
  obtain ⟨slot, hslot, hx⟩ := bind_eq_ok_iff.mp hx
  obtain rfl := Except.ok.inj hx
  refine ⟨(mapM_eq_ok_iff.mp hslots).imp fun _ _ => locate_eq_ok_iff.mp, ?_, ?_⟩
  · rintro rfl
    exact (Except.ok.inj hslot).symm
  · rintro t rfl
    rw [Option.mapM_some, Functor.map] at hslot
    cases hlocate : locate template x.1 t with
    | error e =>
      rw [hlocate] at hslot
      cases hslot
    | ok i =>
      rw [hlocate] at hslot
      exact ⟨i, (Except.ok.inj hslot).symm, locate_eq_ok_iff.mp hlocate⟩

omit [Scalar K] in
theorem mem_participants_of_mem_factors {i : Nat} (h : i ∈ r.factors) : i ∈ r.participants := by
  rw [Reaction.participants, List.mem_append]
  unfold Reaction.factors at h
  split at h
  · exact .inl h
  · exact .inl (List.mem_of_mem_take h)

theorem exists_ofReaction (h : ∀ row ∈ r.participants,
    ∀ column ∈ r.participants ++ temperature.toList,
      ∃ slot, template.position? row column = some slot) :
    ∃ t, ofReaction template temperature r = .ok t := by
  have hlocate : ∀ row ∈ r.participants, ∀ column ∈ r.participants ++ temperature.toList,
      ∃ slot, locate template row column = .ok slot := by
    intro row hrow column hcolumn
    obtain ⟨slot, hslot⟩ := h row hrow column hcolumn
    exact ⟨slot, by rw [locate, hslot]⟩
  refine exists_bind_eq_ok (exists_mapM_eq_ok_iff.mpr fun x hx => ?_) fun _ _ => ⟨_, rfl⟩
  have hrow := mem_participants_of_mem_netChanges hx
  refine exists_bind_eq_ok (exists_mapM_eq_ok_iff.mpr fun column hcolumn => ?_) fun slots _ => ?_
  · exact hlocate _ hrow column (List.mem_append_left _ (mem_participants_of_mem_factors hcolumn))
  · cases temperature with
    | none => exact ⟨_, rfl⟩
    | some t =>
      obtain ⟨slot, hslot⟩ := hlocate _ hrow t (by simp)
      exact exists_bind_eq_ok ⟨some slot, by simp [hslot]⟩ fun _ _ => ⟨_, rfl⟩

/-- What a term looks up: concentrations and rates of change of `n` clusters, and `entries` values
of a block, one for each of its factors. -/
structure InRange (t : Term K) (n entries : Nat) : Prop where
  factors : ∀ i ∈ t.factors, i < n
  clusters : ∀ c ∈ t.changes, c.cluster < n
  slots_length : ∀ c ∈ t.changes, c.slots.length = t.factors.length
  slots : ∀ c ∈ t.changes, ∀ slot ∈ c.slots, slot < entries
  temperatureSlot : ∀ c ∈ t.changes, ∀ slot ∈ c.temperatureSlot, slot < entries

omit [Scalar K] in
theorem InRange.mono {m n entries : Nat} (h : t.InRange m entries) (hmn : m ≤ n) :
    t.InRange n entries :=
  { h with
    factors := fun i hi => (h.factors i hi).trans_le hmn
    clusters := fun c hc => (h.clusters c hc).trans_le hmn }

theorem inRange_of_ofReaction {n : Nat} (htemplate : template.Partitioned)
    (h : ofReaction template temperature r = .ok t) (hr : ∀ i ∈ r.participants, i < n) :
    t.InRange n template.entryCount := by
  have hplaced := placed_of_ofReaction h
  obtain ⟨-, hfactors, hchanges⟩ := ofReaction_eq_ok h
  have hposition : ∀ {row column slot}, template.position? row column = some slot →
      slot < template.entryCount := fun h =>
    (SparseBlock.holds_of_position? h).lt_entryCount htemplate
  constructor
  · intro i hi
    rw [hfactors] at hi
    exact hr i (mem_participants_of_mem_factors hi)
  · intro c hc
    have hmem : (c.cluster, c.amount) ∈ r.netChanges := hchanges ▸ List.mem_map_of_mem hc
    exact hr _ (mem_participants_of_mem_netChanges hmem)
  · exact fun c hc => (hplaced c hc).slots.length_eq.symm
  · intro c hc slot hslot
    obtain ⟨column, -, hcolumn⟩ := exists_mem_of_forall₂ (hplaced c hc).slots.flip hslot
    exact hposition hcolumn
  · intro c hc slot hslot
    cases temperature with
    | none =>
      rw [(hplaced c hc).temperature_none rfl] at hslot
      cases hslot
    | some t =>
      obtain ⟨slot', hslot', hcolumn⟩ := (hplaced c hc).temperature_some t rfl
      obtain rfl := Option.some.inj (hslot'.symm.trans hslot)
      exact hposition hcolumn

theorem size_addFlux (t : Term K) (conc : Array K) (rate : K) (out : Array K) :
    (t.addFlux conc rate out).size = out.size := by
  unfold addFlux
  dsimp only
  induction t.changes generalizing out with
  | nil => rfl
  | cons c changes ih => rw [List.foldl_cons, ih, Array.size_modify]

theorem size_scatter (t : Term K) (place : Change K → Option Nat) (x : K) (values : Array K) :
    (t.scatter place x values).size = values.size := by
  unfold scatter
  induction t.changes generalizing values with
  | nil => rfl
  | cons c changes ih =>
    rw [List.foldl_cons, ih]
    cases place c with
    | none => rfl
    | some i => exact Array.size_modify

theorem size_addPartials (t : Term K) (conc : Array K) (rate : Thermal K) (values : Array K) :
    (t.addPartials conc rate values).size = values.size := by
  have hparts : ∀ (ps : List Nat) (values : Array K), (ps.foldl (fun values p =>
      t.scatter (fun c => c.slots[p]?)
        (t.coefficient * rate.value * concentrationProduct conc (t.factors.eraseIdx p)) values)
      values).size = values.size := by
    intro ps
    induction ps with
    | nil => exact fun _ => rfl
    | cons p ps ih => exact fun values => (ih _).trans (size_scatter ..)
  exact (size_scatter ..).trans (hparts _ values)

end Term

namespace Assembly

variable {net : Network K} {pattern : FillPattern} {a : Assembly K} {p : PointRates K}

theorem ofNetwork_eq_ok (h : ofNetwork net pattern = .ok a) : a.clusters = net.size ∧
    List.Forall₂ (fun r t => Term.ofReaction a.template pattern.temperature? r = .ok t)
      net.reactions.toList a.terms.toList := by
  obtain ⟨terms, ht, ha⟩ := bind_eq_ok_iff.mp h
  obtain rfl := Except.ok.inj ha
  exact ⟨rfl, arrayMapM_eq_ok_iff.mp ht⟩

theorem ofNetwork_template (ha : ofNetwork net pattern = .ok a) :
    a.template = .ofPattern pattern := by
  obtain ⟨terms, -, ha⟩ := bind_eq_ok_iff.mp ha
  obtain rfl := Except.ok.inj ha
  rfl

theorem exists_ofNetwork (h : ∀ r ∈ net.reactions.toList, ∀ row ∈ r.participants,
    ∀ column ∈ r.participants ++ pattern.temperature?.toList,
      ∃ slot, (SparseBlock.ofPattern pattern : SparseBlock K).position? row column = some slot) :
    ∃ a, ofNetwork net pattern = .ok a := by
  obtain ⟨terms, hterms⟩ := exists_mapM_eq_ok_iff.mpr fun r hr => Term.exists_ofReaction (h r hr)
  refine exists_bind_eq_ok ⟨terms.toArray, ?_⟩ fun _ _ => ⟨_, rfl⟩
  exact arrayMapM_eq_ok_iff.mpr (mapM_eq_ok_iff.mp hterms)

theorem inRange_of_mem_terms {spec : NetworkSpec K} (hb : net.BuiltFrom spec)
    (ha : ofNetwork net pattern = .ok a) {t : Term K} (ht : t ∈ a.terms.toList) :
    t.InRange net.size a.template.entryCount := by
  obtain ⟨-, hterms⟩ := ofNetwork_eq_ok ha
  obtain ⟨r, hr, hrt⟩ := exists_mem_of_forall₂ hterms.flip ht
  have htemplate : a.template.Partitioned :=
    ofNetwork_template ha ▸ SparseBlock.partitioned_ofPattern pattern
  exact Term.inRange_of_ofReaction htemplate hrt fun i hi => hb.lt_size_of_mem_participants hr hi

omit [Scalar K] in
theorem checkLengths_eq_ok_iff {conc out : Nat} : a.checkLengths p conc out = .ok () ↔
    p.rates.size = a.terms.size ∧ a.clusters ≤ conc ∧ a.clusters ≤ out := by
  by_cases hrates : p.rates.size = a.terms.size
  · by_cases hconc : conc < a.clusters
    · simp [checkLengths, hrates, hconc]
    · by_cases hout : out < a.clusters
      · simp [checkLengths, hrates, hconc, hout]
      · have hroom := And.intro (Nat.not_lt.mp hconc) (Nat.not_lt.mp hout)
        simpa [checkLengths, hrates, hconc, hout, pure, Except.pure] using hroom
  · simp [checkLengths, hrates]

theorem size_terms (ha : ofNetwork net pattern = .ok a) : a.terms.size = net.reactions.size := by
  obtain ⟨-, hterms⟩ := ofNetwork_eq_ok ha
  simpa using hterms.length_eq.symm

section Flux

variable {conc out out' : Array K}

theorem scatterFlux_of_error {e : EvalError K} (h : a.checkLengths p conc.size out.size = .error e) :
    a.scatterFlux p conc out = (out, .error e) := by
  rw [scatterFlux, h]

theorem scatterFlux_of_ok (h : a.checkLengths p conc.size out.size = .ok ()) :
    a.scatterFlux p conc out = (a.termFlux p conc out, .ok ()) := by
  rw [scatterFlux, h]

theorem addFlux_eq_ok_iff : a.addFlux p conc out = .ok out' ↔
    a.checkLengths p conc.size out.size = .ok () ∧ out' = a.termFlux p conc out := by
  cases hcheck : a.checkLengths p conc.size out.size with
  | error e =>
    rw [addFlux, scatterFlux_of_error hcheck]
    exact ⟨nofun, fun h => nomatch h.1⟩
  | ok =>
    rw [addFlux, scatterFlux_of_ok hcheck]
    exact ⟨fun h => ⟨rfl, (Except.ok.inj h).symm⟩, fun h => congrArg Except.ok h.2.symm⟩

theorem exists_addFlux_iff (ha : ofNetwork net pattern = .ok a) :
    (∃ out', a.addFlux p conc out = .ok out') ↔
      p.rates.size = net.reactions.size ∧ net.size ≤ conc.size ∧ net.size ≤ out.size := by
  obtain ⟨hclusters, -⟩ := ofNetwork_eq_ok ha
  rw [← hclusters, ← size_terms ha, ← checkLengths_eq_ok_iff]
  simp only [addFlux_eq_ok_iff, exists_and_left, exists_eq, and_true]

theorem size_termFlux : (a.termFlux p conc out).size = out.size := by
  unfold termFlux
  induction a.terms.toList.zip p.rates.toList generalizing out with
  | nil => rfl
  | cons x xs ih => rw [List.foldl_cons, ih, Term.size_addFlux]

theorem size_of_addFlux (h : a.addFlux p conc out = .ok out') : out'.size = out.size := by
  obtain ⟨-, rfl⟩ := addFlux_eq_ok_iff.mp h
  exact size_termFlux

end Flux

theorem checkBlock_eq_ok_iff (ha : ofNetwork net pattern = .ok a) {conc : Array K}
    {entries : Nat} : a.checkBlock p conc.size entries = .ok () ↔
      p.rates.size = net.reactions.size ∧ net.size ≤ conc.size ∧
        entries = a.template.entryCount := by
  obtain ⟨hclusters, -⟩ := ofNetwork_eq_ok ha
  rw [checkBlock, bind_unit_eq_ok_iff, checkLengths_eq_ok_iff, size_terms ha, hclusters]
  by_cases hentries : entries = a.template.entryCount
  · simp [hentries, pure, Except.pure]
  · simp [hentries]

section Scatter

variable {conc : Array K} {block : SparseBlock K}

theorem scatterPartials_of_error {e : EvalError K}
    (h : a.checkBlock p conc.size block.entryCount = .error e) :
    a.scatterPartials p conc block = (block, .error e) := by
  rw [scatterPartials, h]

theorem scatterPartials_of_ok (h : a.checkBlock p conc.size block.entryCount = .ok ()) :
    a.scatterPartials p conc block =
      ({ block with values := a.termPartials p conc block.values }, .ok ()) := by
  rw [scatterPartials, h]

theorem addPartials_eq_ok (h : a.checkBlock p conc.size block.entryCount = .ok ()) :
    a.addPartials p conc block =
      .ok { block with values := a.termPartials p conc block.values } := by
  rw [addPartials, scatterPartials_of_ok h]
  rfl

/-- A block keeps its entries where derivatives are added to it. -/
theorem eq_of_addPartials {block' : SparseBlock K} (h : a.addPartials p conc block = .ok block') :
    block' = { block with values := block'.values } ∧
      block'.values.size = block.values.size := by
  have hpass : ∀ (xs : List (Term K × Thermal K)) (values : Array K), (xs.foldl
      (fun values x => x.1.addPartials conc x.2 values) values).size = values.size := by
    intro xs
    induction xs with
    | nil => exact fun _ => rfl
    | cons x xs ih => exact fun values => (ih _).trans (Term.size_addPartials ..)
  cases hcheck : a.checkBlock p conc.size block.entryCount with
  | error e =>
    rw [addPartials, scatterPartials_of_error hcheck] at h
    cases h
  | ok =>
    obtain rfl := Except.ok.inj ((addPartials_eq_ok hcheck).symm.trans h)
    exact ⟨rfl, hpass _ _⟩

end Scatter

end Assembly

end ClusterDynamics
