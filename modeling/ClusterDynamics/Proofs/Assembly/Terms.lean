import ClusterDynamics.Proofs.Assembly.Lowering
import ClusterDynamics.Proofs.Real

/-! What the terms of an assembly add. A term changes any weighted total of the clusters by its
frequency times the weight of the products less the weight of the reactants. -/

namespace ClusterDynamics

section Changes

variable {n : Nat → ℝ}

/-- The weight of a list of net changes. -/
def changeWeight (n : Nat → ℝ) (changes : List (Nat × ℝ)) : ℝ :=
  (changes.map fun x => n x.1 * x.2).sum

theorem changeWeight_accumulate (n : Nat → ℝ) (id : Nat) (delta : ℝ) (changes : List (Nat × ℝ)) :
    changeWeight n (accumulate id delta changes) = changeWeight n changes + n id * delta := by
  unfold changeWeight
  induction changes with
  | nil => simp [accumulate]
  | cons x changes ih =>
    rw [accumulate]
    split_ifs with h
    · subst h
      simp only [List.map_cons, List.sum_cons]
      ring
    · rw [List.map_cons, List.sum_cons, ih, List.map_cons, List.sum_cons, add_assoc]

theorem changeWeight_foldl (n : Nat → ℝ) (delta : ℝ) (ids : List Nat) (changes : List (Nat × ℝ)) :
    changeWeight n (ids.foldl (fun st id => accumulate id delta st) changes) =
      changeWeight n changes + (ids.map n).sum * delta := by
  induction ids generalizing changes with
  | nil => simp
  | cons id ids ih =>
    rw [List.foldl_cons, ih, changeWeight_accumulate, List.map_cons, List.sum_cons]
    ring

/-- What is consumed weighs as much as the reactants: two of a monomer that nucleates are both of its
reactants, and a reaction that is neither a production nor a nucleation has one. -/
theorem changeWeight_consumed (n : Nat → ℝ) {r : Reaction ℝ} {m : Nat} (h : r.Formed m) :
    changeWeight n r.consumed = -(r.reactants.map n).sum := by
  have htaken : ∀ (ids : List Nat) (amount : ℝ),
      changeWeight n (ids.foldl (fun st id => accumulate id (-amount) st) []) =
        (ids.map n).sum * -amount := by
    intro ids amount
    rw [changeWeight_foldl, changeWeight, List.map_nil, List.sum_nil, zero_add]
  cases h with
  | production hi hj hk =>
    refine (htaken _ _).trans ?_
    rw [Scalar.natLit_one_real, mul_neg_one]
  | dissociation hk hi hj =>
    refine (htaken [_] _).trans ?_
    rw [Scalar.natLit_one_real, mul_neg_one]
    rfl
  | reSolution hk hi hj =>
    refine (htaken [_] _).trans ?_
    rw [Scalar.natLit_one_real, mul_neg_one]
    rfl
  | sink hi =>
    refine (htaken [_] _).trans ?_
    rw [Scalar.natLit_one_real, mul_neg_one]
    rfl
  | @nucleation i k hi hk =>
    refine (htaken [i] _).trans ?_
    change ([n i].sum : ℝ) * _ = -[n i, n i].sum
    rw [Scalar.natLit_ofNat_real, List.sum_singleton, List.sum_pair, mul_neg, mul_two]

/-- The net changes of a reaction weigh as much as its products less its reactants. -/
theorem changeWeight_netChanges (n : Nat → ℝ) {r : Reaction ℝ} {m : Nat} (h : r.Formed m) :
    changeWeight n r.netChanges = (r.products.map n).sum - (r.reactants.map n).sum := by
  rw [Reaction.netChanges, changeWeight_foldl, changeWeight_consumed n h, Scalar.natLit_one_real]
  ring

end Changes

/-- The weighted total of the first `m` entries. -/
def weightedTotal (n : Nat → ℝ) (m : Nat) (out : Array ℝ) : ℝ :=
  ∑ i ∈ Finset.range m, n i * out.getD i 0

theorem weightedTotal_single {m i : Nat} (hi : i < m) (out : Array ℝ) :
    weightedTotal (Pi.single i 1) m out = out.getD i 0 := by
  rw [weightedTotal, Finset.sum_eq_single_of_mem i (Finset.mem_range.mpr hi)]
  · rw [Pi.single_eq_same, one_mul]
  · intro j _ hj
    rw [Pi.single_eq_of_ne hj, zero_mul]

theorem weightedTotal_modify (n : Nat → ℝ) {m k : Nat} {out : Array ℝ} (hk : k < m)
    (hm : m ≤ out.size) (x : ℝ) :
    weightedTotal n m (out.modify k (· + x)) = weightedTotal n m out + n k * x := by
  have hentry : ∀ i ∈ Finset.range m, n i * (out.modify k (· + x)).getD i 0 =
      n i * out.getD i 0 + if i = k then n k * x else 0 := by
    intro i hi
    have hi' : i < out.size := by
      have := Finset.mem_range.mp hi
      omega
    rw [Array.getD_eq_getD_getElem?, Array.getElem?_modify, Array.getD_eq_getD_getElem?,
      Array.getElem?_eq_getElem hi']
    by_cases he : i = k
    · subst he
      rw [if_pos rfl, if_pos rfl, Option.map_some, Option.getD_some, Option.getD_some]
      ring
    · rw [if_neg he, if_neg (Ne.symm he), add_zero]
  rw [weightedTotal, Finset.sum_congr rfl hentry, Finset.sum_add_distrib, Finset.sum_ite_eq',
    if_pos (Finset.mem_range.mpr hk)]
  rfl

/-- If each step of a pass adds a gain to a weighted total, the pass adds all of them. -/
theorem weightedTotal_foldl {α : Type} (n : Nat → ℝ) {m : Nat} {step : Array ℝ → α → Array ℝ}
    {gain : α → ℝ} {xs : List α} (hstep : ∀ x ∈ xs, ∀ out : Array ℝ, m ≤ out.size →
      (step out x).size = out.size ∧
        weightedTotal n m (step out x) = weightedTotal n m out + gain x)
    {out : Array ℝ} (hm : m ≤ out.size) : (xs.foldl step out).size = out.size ∧
      weightedTotal n m (xs.foldl step out) = weightedTotal n m out + (xs.map gain).sum := by
  induction xs generalizing out with
  | nil => simp
  | cons x xs ih =>
    obtain ⟨hsize, htotal⟩ := hstep x List.mem_cons_self out hm
    have hroom : m ≤ (step out x).size := by rwa [hsize]
    obtain ⟨hsize', htotal'⟩ := ih (fun y hy => hstep y (List.mem_cons_of_mem _ hy)) hroom
    refine ⟨hsize'.trans hsize, ?_⟩
    rw [List.foldl_cons, htotal', htotal, List.map_cons, List.sum_cons, add_assoc]

namespace Term

theorem weightedTotal_addFlux (n : Nat → ℝ) {m : Nat} (t : Term ℝ) (conc : Array ℝ) (rate : ℝ)
    {out : Array ℝ} (ht : ∀ c ∈ t.changes, c.cluster < m) (hm : m ≤ out.size) :
    (t.addFlux conc rate out).size = out.size ∧
      weightedTotal n m (t.addFlux conc rate out) = weightedTotal n m out +
        changeWeight n (t.changes.map fun c => (c.cluster, c.amount)) * t.frequency conc rate := by
  have hgain : changeWeight n (t.changes.map fun c => (c.cluster, c.amount)) *
      t.frequency conc rate =
      (t.changes.map fun c => n c.cluster * (c.amount * t.frequency conc rate)).sum := by
    rw [changeWeight, List.map_map, ← List.sum_map_mul_right]
    simp only [Function.comp_def, mul_assoc]
  rw [hgain]
  refine weightedTotal_foldl n (fun c hc out hout => ⟨Array.size_modify, ?_⟩) hm
  exact weightedTotal_modify n (ht c hc) hout _

end Term

namespace Assembly

variable {net : Network ℝ} {pattern : FillPattern} {a : Assembly ℝ}

/-- What a reaction adds to a weighted total at a rate. -/
noncomputable def reactionFlux (n : Nat → ℝ) (conc : Array ℝ) (r : Reaction ℝ) (rate : ℝ) : ℝ :=
  changeWeight n r.netChanges * (r.coefficient * rate * concentrationProduct conc r.factors)

theorem reactionFlux_eq {template : SparseBlock ℝ} {temperature : Option Nat} {r : Reaction ℝ}
    {t : Term ℝ} (h : Term.ofReaction template temperature r = .ok t) (n : Nat → ℝ)
    (conc : Array ℝ) (rate : ℝ) : reactionFlux n conc r rate =
      changeWeight n (t.changes.map fun c => (c.cluster, c.amount)) * t.frequency conc rate := by
  obtain ⟨hcoefficient, hfactors, hchanges⟩ := Term.ofReaction_eq_ok h
  rw [hchanges, Term.frequency, hcoefficient, hfactors, reactionFlux]

theorem sum_zip_congr {R : Reaction ℝ → Term ℝ → Prop} {rs : List (Reaction ℝ)}
    {ts : List (Term ℝ)} (h : List.Forall₂ R rs ts) {f : Reaction ℝ → Thermal ℝ → ℝ}
    {g : Term ℝ → Thermal ℝ → ℝ} (hfg : ∀ r t rate, R r t → f r rate = g t rate)
    (rates : List (Thermal ℝ)) : ((ts.zip rates).map fun x => g x.1 x.2).sum =
      ((rs.zip rates).map fun x => f x.1 x.2).sum := by
  induction h generalizing rates with
  | nil => rfl
  | cons hr _ ih =>
    cases rates with
    | nil => rfl
    | cons rate rates =>
      rw [List.zip_cons_cons, List.zip_cons_cons, List.map_cons, List.map_cons, List.sum_cons,
        List.sum_cons, ih, hfg _ _ _ hr]

/-- The flux adds to a weighted total of the clusters, and of entries behind them, what the reactions
add to it, whatever the weights are. -/
theorem addFlux_eq_ok (ha : ofNetwork net pattern = .ok a)
    (hids : ∀ r ∈ net.reactions.toList, ∀ i ∈ r.participants, i < net.size) {p : PointRates ℝ}
    {conc out out' : Array ℝ} (h : a.addFlux p conc out = .ok out') (n : Nat → ℝ) {m : Nat}
    (hnet : net.size ≤ m) (hm : m ≤ out.size) :
    out'.size = out.size ∧ weightedTotal n m out' = weightedTotal n m out +
      ((net.reactions.toList.zip p.rates.toList).map fun x =>
        reactionFlux n conc x.1 x.2.value).sum := by
  obtain ⟨-, hterms⟩ := ofNetwork_eq_ok ha
  obtain ⟨-, rfl⟩ := addFlux_eq_ok_iff.mp h
  have hchanges : ∀ x ∈ a.terms.toList.zip p.rates.toList, ∀ c ∈ x.1.changes, c.cluster < m := by
    intro x hx c hc
    obtain ⟨r, hr, hrx⟩ := exists_mem_of_forall₂ hterms.flip (List.of_mem_zip hx).1
    obtain ⟨-, -, hmap⟩ := Term.ofReaction_eq_ok hrx
    have hmem : (c.cluster, c.amount) ∈ r.netChanges := hmap ▸ List.mem_map_of_mem hc
    exact (hids r hr _ (mem_participants_of_mem_netChanges hmem)).trans_le hnet
  rw [← sum_zip_congr hterms fun r t rate hr => reactionFlux_eq hr n conc rate.value]
  exact weightedTotal_foldl n
    (fun x hx out hout => x.1.weightedTotal_addFlux n conc _ (hchanges x hx) hout) hm

/-- An entry gains what the reactions add to it. -/
theorem getD_addFlux {spec : NetworkSpec ℝ} (hb : net.BuiltFrom spec)
    (ha : ofNetwork net pattern = .ok a) {p : PointRates ℝ} {conc out out' : Array ℝ} {row : Nat}
    (h : a.addFlux p conc out = .ok out') (hrow : row < out.size) :
    out'.getD row 0 = out.getD row 0 + ((net.reactions.toList.zip p.rates.toList).map fun x =>
      reactionFlux (Pi.single row 1) conc x.1 x.2.value).sum := by
  obtain ⟨-, -, hroom⟩ := (exists_addFlux_iff ha).mp ⟨out', h⟩
  obtain ⟨-, htotal⟩ := addFlux_eq_ok ha (fun r hr i hi => hb.lt_size_of_mem_participants hr hi) h
    (Pi.single row 1) hroom le_rfl
  rwa [weightedTotal_single hrow, weightedTotal_single hrow] at htotal

end Assembly

end ClusterDynamics
