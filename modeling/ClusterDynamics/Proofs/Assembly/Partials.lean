import ClusterDynamics.Proofs.Assembly.Terms
import Mathlib.Analysis.Calculus.Deriv.Mul

/-! The derivatives that an assembly adds to a block. Weights of rows and columns give each place
of a block a weight; the weighted total of what is added is the derivative, in the direction of the
columns, of the weighted total of the flux. -/

namespace ClusterDynamics

/-- The derivative of a product whose factors `v` change by `δ`. -/
noncomputable def productSlope (v δ : Nat → ℝ) (factors : List Nat) : ℝ :=
  ((List.range factors.length).map fun p =>
    δ (factors.getD p 0) * ((factors.eraseIdx p).map v).prod).sum

theorem productSlope_cons (v δ : Nat → ℝ) (c : Nat) (factors : List Nat) :
    productSlope v δ (c :: factors) =
      δ c * (factors.map v).prod + v c * productSlope v δ factors := by
  rw [productSlope, List.length_cons, List.range_succ_eq_map, List.map_cons, List.sum_cons,
    List.map_map, productSlope, ← List.sum_map_mul_left]
  simp [Function.comp_def, mul_left_comm]

theorem hasDerivAt_product {v : ℝ → Nat → ℝ} {δ : Nat → ℝ} {x : ℝ} {factors : List Nat}
    (h : ∀ c ∈ factors, HasDerivAt (fun y => v y c) (δ c) x) :
    HasDerivAt (fun y => (factors.map (v y)).prod) (productSlope (v x) δ factors) x := by
  induction factors with
  | nil => simpa [productSlope] using hasDerivAt_const x (1 : ℝ)
  | cons c factors ih =>
    have hrest := ih fun d hd => h d (List.mem_cons_of_mem _ hd)
    simp only [List.map_cons, List.prod_cons, productSlope_cons]
    exact (h c List.mem_cons_self).mul hrest

theorem concentrationProduct_real (conc : Array ℝ) (factors : List Nat) :
    concentrationProduct conc factors = (factors.map fun c => conc.getD c 0).prod := by
  rw [concentrationProduct, Scalar.product_real, Scalar.natLit_zero_real]

/-- A place weighs what its row and its column weigh together. -/
def SparseBlock.Weighs (b : SparseBlock ℝ) (w n δ : Nat → ℝ) : Prop :=
  ∀ {row column slot : Nat}, b.position? row column = some slot → w slot = n row * δ column

namespace Term

variable {template : SparseBlock ℝ} {temperature : Option Nat} {t : Term ℝ} {w n δ : Nat → ℝ}

theorem weightedTotal_scatter {m : Nat} {place : Change ℝ → Option Nat} {weight : ℝ}
    (h : ∀ c ∈ t.changes, (place c).elim 0 w = n c.cluster * weight ∧ ∀ i ∈ place c, i < m)
    (x : ℝ) {values : Array ℝ} (hm : m ≤ values.size) :
    (t.scatter place x values).size = values.size ∧
      weightedTotal w m (t.scatter place x values) = weightedTotal w m values +
        changeWeight n (t.changes.map fun c => (c.cluster, c.amount)) * (weight * x) := by
  have hgain : changeWeight n (t.changes.map fun c => (c.cluster, c.amount)) * (weight * x) =
      (t.changes.map fun c => (place c).elim 0 w * (c.amount * x)).sum := by
    rw [changeWeight, List.map_map, ← List.sum_map_mul_right]
    refine congrArg List.sum (List.map_congr_left fun c hc => ?_)
    rw [(h c hc).1, Function.comp_apply]
    ring
  rw [hgain]
  refine weightedTotal_foldl w (fun c hc out hout => ?_) hm
  cases hplace : place c with
  | none => simp
  | some i => exact ⟨Array.size_modify, weightedTotal_modify w ((h c hc).2 i hplace) hout _⟩

/-- What a term adds to the weighted total of a block. -/
theorem weightedTotal_addPartials (hw : template.Weighs w n δ) (hp : template.Partitioned)
    (ht : ∀ c ∈ t.changes, c.Placed template temperature t.factors) (conc : Array ℝ)
    (rate : Thermal ℝ) {values : Array ℝ} (hm : template.entryCount ≤ values.size) :
    (t.addPartials conc rate values).size = values.size ∧
      weightedTotal w template.entryCount (t.addPartials conc rate values) =
        weightedTotal w template.entryCount values +
          changeWeight n (t.changes.map fun c => (c.cluster, c.amount)) *
            (t.coefficient * rate.value * productSlope (fun c => conc.getD c 0) δ t.factors +
              temperature.elim 0 δ * t.frequency conc rate.slope) := by
  have hslot : ∀ {row column slot}, template.position? row column = some slot →
      slot < template.entryCount := fun h =>
    (SparseBlock.holds_of_position? h).lt_entryCount hp
  have hfactor : ∀ p ∈ List.range t.factors.length, ∀ c ∈ t.changes,
      (c.slots[p]?).elim 0 w = n c.cluster * δ (t.factors.getD p 0) ∧
        ∀ i ∈ c.slots[p]?, i < template.entryCount := by
    intro p hmem c hc
    have hp' : p < t.factors.length := List.mem_range.mp hmem
    obtain ⟨slot, hget, hposition⟩ := exists_getElem?_of_forall₂ (ht c hc).slots
      (List.getElem?_eq_getElem hp')
    rw [hget, List.getD_eq_getElem?_getD, List.getElem?_eq_getElem hp', Option.getD_some]
    refine ⟨hw hposition, fun i hi => ?_⟩
    obtain rfl := Option.some.inj hi
    exact hslot hposition
  have htemperature : ∀ c ∈ t.changes,
      c.temperatureSlot.elim 0 w = n c.cluster * temperature.elim 0 δ ∧
        ∀ i ∈ c.temperatureSlot, i < template.entryCount := by
    intro c hc
    cases htemp : temperature with
    | none =>
      rw [(ht c hc).temperature_none htemp]
      simp
    | some t =>
      obtain ⟨slot, hget, hposition⟩ := (ht c hc).temperature_some t htemp
      rw [hget]
      refine ⟨hw hposition, fun i hi => ?_⟩
      obtain rfl := Option.some.inj hi
      exact hslot hposition
  obtain ⟨hsize, htotal⟩ := weightedTotal_foldl w (fun p hp values hvalues =>
    weightedTotal_scatter (hfactor p hp) (t.coefficient * rate.value *
      concentrationProduct conc (t.factors.eraseIdx p)) hvalues) hm
  obtain ⟨hsize', htotal'⟩ := weightedTotal_scatter htemperature (t.frequency conc rate.slope)
    (hm.trans hsize.ge)
  have hparts : ∀ W : ℝ, ((List.range t.factors.length).map fun p =>
      W * (δ (t.factors.getD p 0) * (t.coefficient * rate.value *
        concentrationProduct conc (t.factors.eraseIdx p)))).sum =
      W * (t.coefficient * rate.value * productSlope (fun c => conc.getD c 0) δ t.factors) := by
    intro W
    rw [productSlope, ← List.sum_map_mul_left, ← List.sum_map_mul_left]
    refine congrArg List.sum (List.map_congr_left fun p _ => ?_)
    rw [concentrationProduct_real]
    ring
  refine ⟨hsize'.trans hsize, htotal'.trans ?_⟩
  rw [htotal, hparts]
  ring

end Term

namespace Assembly

/-- The derivative of `reactionFlux` when concentrations change by `δ`. -/
noncomputable def reactionSlope (n δ : Nat → ℝ) (conc : Array ℝ) (r : Reaction ℝ) (rate : ℝ) : ℝ :=
  changeWeight n r.netChanges *
    (r.coefficient * rate * productSlope (fun c => conc.getD c 0) δ r.factors)

theorem hasDerivAt_reactionFlux {conc : ℝ → Array ℝ} {δ : Nat → ℝ} {x : ℝ} {r : Reaction ℝ}
    (h : ∀ c ∈ r.factors, HasDerivAt (fun y => (conc y).getD c 0) (δ c) x) (n : Nat → ℝ)
    (rate : ℝ) : HasDerivAt (fun y => reactionFlux n (conc y) r rate)
      (reactionSlope n δ (conc x) r rate) x := by
  simp only [reactionFlux, concentrationProduct_real, reactionSlope]
  exact ((hasDerivAt_product h).const_mul _).const_mul _

/-- What a reaction adds to the weighted total of a block. -/
noncomputable def reactionPartials (n δ : Nat → ℝ) (temperature : Option Nat) (conc : Array ℝ)
    (r : Reaction ℝ) (rate : Thermal ℝ) : ℝ :=
  reactionSlope n δ conc r rate.value + temperature.elim 0 δ * reactionFlux n conc r rate.slope

variable {net : Network ℝ} {pattern : FillPattern} {a : Assembly ℝ} {p : PointRates ℝ}
  {conc values : Array ℝ}

theorem reactionPartials_eq {template : SparseBlock ℝ} {temperature : Option Nat} {r : Reaction ℝ}
    {t : Term ℝ} (h : Term.ofReaction template temperature r = .ok t) (n δ : Nat → ℝ)
    (conc : Array ℝ) (rate : Thermal ℝ) : reactionPartials n δ temperature conc r rate =
      changeWeight n (t.changes.map fun c => (c.cluster, c.amount)) *
        (t.coefficient * rate.value * productSlope (fun c => conc.getD c 0) δ t.factors +
          temperature.elim 0 δ * t.frequency conc rate.slope) := by
  obtain ⟨hcoefficient, hfactors, hchanges⟩ := Term.ofReaction_eq_ok h
  rw [reactionPartials, reactionFlux_eq h, reactionSlope, hchanges, hcoefficient, hfactors]
  ring

/-- The weighted total of a block gains the derivative of the flux's weighted total. -/
theorem weightedTotal_termPartials (ha : ofNetwork net pattern = .ok a) {w n δ : Nat → ℝ}
    (hw : a.template.Weighs w n δ) (hvalues : a.template.entryCount ≤ values.size)
    (p : PointRates ℝ) (conc : Array ℝ) :
    (a.termPartials p conc values).size = values.size ∧
      weightedTotal w a.template.entryCount (a.termPartials p conc values) =
        weightedTotal w a.template.entryCount values +
          ((net.reactions.toList.zip p.rates.toList).map fun x =>
            reactionPartials n δ pattern.temperature? conc x.1 x.2).sum := by
  obtain ⟨-, hterms⟩ := ofNetwork_eq_ok ha
  have hpartitioned : a.template.Partitioned :=
    ofNetwork_template ha ▸ SparseBlock.partitioned_ofPattern pattern
  rw [← sum_zip_congr hterms fun r t rate hr => reactionPartials_eq hr n δ conc rate]
  refine weightedTotal_foldl w (fun x hx values hvalues => ?_) hvalues
  obtain ⟨r, -, hr⟩ := exists_mem_of_forall₂ hterms.flip (List.of_mem_zip hx).1
  exact Term.weightedTotal_addPartials hw hpartitioned (Term.placed_of_ofReaction hr) conc x.2
    hvalues

theorem size_termPartials (ha : ofNetwork net pattern = .ok a)
    (hvalues : a.template.entryCount ≤ values.size) :
    (a.termPartials p conc values).size = values.size := by
  have hw : a.template.Weighs 0 0 0 := fun _ => (zero_mul _).symm
  exact (weightedTotal_termPartials ha hw hvalues p conc).1

end Assembly

end ClusterDynamics
