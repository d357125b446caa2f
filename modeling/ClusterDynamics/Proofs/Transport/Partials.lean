import ClusterDynamics.Proofs.Assembly.Terms
import ClusterDynamics.Proofs.Depth.Stencil
import ClusterDynamics.Transport.ThermalDrift

/-! Transport moves clusters at rates that are linear in the concentrations of a stencil. The
coefficients are the derivatives that transport lists, and temperatures enter through them alone. -/

namespace ClusterDynamics

/-- What entries come to where rows weigh `n` and places weigh `v`. -/
def entryTotal (n : Nat → ℝ) (v : Offset → Nat → ℝ) (es : List (StencilEntry ℝ)) : ℝ :=
  (es.map fun e => n e.row * (e.value * v e.offset e.column)).sum

section EntryTotal

variable (n : Nat → ℝ) (v : Offset → Nat → ℝ)

@[simp] theorem entryTotal_nil : entryTotal n v [] = 0 := rfl

@[simp] theorem entryTotal_cons (e : StencilEntry ℝ) (es : List (StencilEntry ℝ)) :
    entryTotal n v (e :: es) = n e.row * (e.value * v e.offset e.column) + entryTotal n v es := by
  rw [entryTotal, List.map_cons, List.sum_cons, entryTotal]

@[simp] theorem entryTotal_append (es fs : List (StencilEntry ℝ)) :
    entryTotal n v (es ++ fs) = entryTotal n v es + entryTotal n v fs := by
  rw [entryTotal, List.map_append, List.sum_append, entryTotal, entryTotal]

theorem entryTotal_eq_zero {es : List (StencilEntry ℝ)} (h : ∀ e ∈ es, e.value = 0) :
    entryTotal n v es = 0 := by
  refine List.sum_eq_zero fun y hy => ?_
  obtain ⟨e, he, rfl⟩ := List.mem_map.mp hy
  rw [h e he, zero_mul, mul_zero]

theorem entryTotal_flatten {α : Type} {f : α → ℝ} {xs : List α}
    {ess : List (List (StencilEntry ℝ))}
    (h : List.Forall₂ (fun x es => entryTotal n v es = f x) xs ess) :
    entryTotal n v ess.flatten = (xs.map f).sum := by
  induction h with
  | nil => rfl
  | cons hx _ ih => rw [List.flatten_cons, entryTotal_append, hx, ih, List.map_cons, List.sum_cons]

theorem entryTotal_flatMap {α : Type} (f : α → List (StencilEntry ℝ)) (xs : List α) :
    entryTotal n v (xs.flatMap f) = (xs.map fun x => entryTotal n v (f x)).sum := by
  induction xs with
  | nil => rfl
  | cons x xs ih =>
    rw [List.flatMap_cons, entryTotal_append, ih, List.map_cons, List.sum_cons]

end EntryTotal

/-- A pass that adds to one entry after the other adds to every weighted total. -/
theorem exists_foldlM_addEntry {step : Array ℝ → Nat → Except OutOfRange (Array ℝ)}
    {gain : Nat → ℝ} {ids : List Nat} {m : Nat}
    (hstep : ∀ i ∈ ids, i < m ∧ ∀ out, step out i = addEntry out i (gain i)) {out : Array ℝ}
    (hm : m ≤ out.size) : ∃ out', ids.foldlM step out = .ok out' ∧ out'.size = out.size ∧
      ∀ n, weightedTotal n m out' = weightedTotal n m out + (ids.map fun i => n i * gain i).sum := by
  induction ids generalizing out with
  | nil => exact ⟨out, rfl, rfl, by simp⟩
  | cons i ids ih =>
    obtain ⟨hi, hadd⟩ := hstep i List.mem_cons_self
    have hrange : checkRange i out.size = .ok () := checkRange_eq_ok_iff.mpr (hi.trans_le hm)
    have hroom : m ≤ (out.modify i (· + gain i)).size := by rwa [Array.size_modify]
    obtain ⟨out', hout, hsize, htotal⟩ :=
      ih (fun j hj => hstep j (List.mem_cons_of_mem _ hj)) hroom
    refine ⟨out', ?_, hsize.trans Array.size_modify, fun n => ?_⟩
    · rw [List.foldlM_cons, hadd, addEntry, hrange]
      exact hout
    · rw [htotal, weightedTotal_modify n hi hm, List.map_cons, List.sum_cons, add_assoc]

namespace Diffusion

variable {st : Stencil ℝ} {nb : Neighbours} {v : Nat → Nat → ℝ} {n i : Nat}

/-- The second difference along depth of the values at the neighbours. -/
noncomputable def along (st : Stencil ℝ) (nb : Neighbours) (v : Nat → Nat → ℝ) (i : Nat) : ℝ :=
  depthDifference st.above st.below (nb.read v .left i) (nb.read v .center i) (nb.read v .right i)

/-- The second difference across of the values at the neighbours. -/
noncomputable def across (st : Stencil ℝ) (nb : Neighbours) (v : Nat → Nat → ℝ) (i : Nat) : ℝ :=
  transverseDifference (nb.read v .center i)
    ((nb.transverse.zip st.factorList).map fun x => (v x.1.1 i, v x.1.2 i, x.2))

theorem differences_eq (h : st.Shows nb v n) (hi : i < n) :
    differences st i = .ok (along st nb v i, across st nb v i) := by
  have hall : ((nb.transverse.zip st.factorList).take st.transverse.length) =
      nb.transverse.zip st.factorList := by
    rw [List.take_of_length_le]
    rw [h.axes, List.length_zip]
    exact Nat.min_le_left _ _
  rw [differences, h.center i hi, h.leftValue hi, h.right i hi, h.transverse _ i hi, hall]
  rfl

/-- The transverse entries from axis `k` on. What they leave out is the part of the centre. -/
theorem entryTotal_axes (w : Nat → ℝ) (r : Offset → Nat → ℝ) (v : Nat → Nat → ℝ) (i : Nat)
    (d c : ℝ) {k : Nat} {pairs : List (Nat × Nat)} (factors : List ℝ)
    (hread : ∀ j x, pairs[j]? = some x →
      r (.minus (k + j)) i = v x.1 i ∧ r (.plus (k + j)) i = v x.2 i) :
    entryTotal w r (((factors.take pairs.length).zipIdx k).flatMap fun (factor, axis) =>
        [⟨i, .minus axis, i, d * factor⟩, ⟨i, .plus axis, i, d * factor⟩]) =
      w i * (d * (transverseDifference c
          ((pairs.zip factors).map fun x => (v x.1.1 i, v x.1.2 i, x.2)) +
        2 * (factors.take pairs.length).sum * c)) := by
  induction pairs generalizing k factors with
  | nil => simp [transverseDifference]
  | cons x pairs ih =>
    cases factors with
    | nil => simp [transverseDifference]
    | cons factor factors =>
      obtain ⟨hminus, hplus⟩ := hread 0 x rfl
      have hrest := ih (k := k + 1) factors fun j y hy => by
        rw [Nat.add_assoc, Nat.add_comm 1]
        exact hread (j + 1) y hy
      simp only [transverseDifference, Scalar.sum_real] at hrest ⊢
      simp only [List.length_cons, List.take_succ_cons, List.zipIdx_cons, List.flatMap_cons,
        List.cons_append, List.nil_append, entryTotal_cons, hrest, List.zip_cons_cons,
        List.map_cons, List.sum_cons]
      rw [Nat.add_zero] at hminus hplus
      rw [hminus, hplus]
      ring

/-- The rate of change of a cluster, read off the derivatives with respect to its own values. -/
theorem entryTotal_ownPartials (h : st.Shows nb v n) (w : Nat → ℝ) (i : Nat) (d : ℝ) :
    entryTotal w (nb.read v) (ownPartials st i d (st.factorList.take st.transverse.length)) =
      w i * (d * along st nb v i + d * across st nb v i) := by
  have hread : ∀ j x, nb.transverse[j]? = some x →
      nb.read v (.minus (0 + j)) i = v x.1 i ∧ nb.read v (.plus (0 + j)) i = v x.2 i := by
    intro j x hx
    simp [Neighbours.read, Neighbours.resolve, hx]
  have haxes := entryTotal_axes w (nb.read v) v i d (nb.read v .center i) st.factorList hread
  rw [ownPartials, h.axes]
  simp only [List.cons_append, entryTotal_cons, entryTotal_append, haxes, along, across,
    depthDifference, Scalar.sum_real]
  cases hst : st.left.isSome with
  | false =>
    simp only [h.read_left_eq_zero hst, Bool.false_eq_true, if_false, entryTotal_nil]
    ring
  | true =>
    simp only [if_true, entryTotal_cons, entryTotal_nil]
    ring

/-- The derivatives of all clusters with respect to their own values. -/
noncomputable def ownEntries (d : Diffusion) (p : PointRates ℝ) (st : Stencil ℝ) :
    List (StencilEntry ℝ) :=
  d.diffusing.flatMap fun i => ownPartials st i (p.diffusion.getD i .zero).value
    (st.factorList.take st.transverse.length)

variable {d : Diffusion} {p : PointRates ℝ}

theorem ownEntries_congr {st' : Stencil ℝ} (h : st.SameFrame st') :
    d.ownEntries p st = d.ownEntries p st' := by
  simp only [ownEntries, ownPartials, Stencil.factorList, h.left, h.axes, h.above, h.below,
    h.factors]

theorem entryAt_diffusion (hi : i < p.diffusion.size) :
    entryAt p.diffusion i = .ok (p.diffusion.getD i .zero) := by
  rw [entryAt_eq_ok_iff, Array.getD_eq_getD_getElem?, Array.getElem?_eq_getElem hi,
    Option.getD_some]

/-- The flux is what the derivatives come to at the values themselves. -/
theorem exists_addFlux (h : st.Shows nb v n) (hids : ∀ i ∈ d.diffusing, i < p.diffusion.size)
    (hp : p.diffusion.size ≤ n) {out : Array ℝ} (hout : n ≤ out.size) :
    ∃ out', d.addFlux p st out = .ok out' ∧ out'.size = out.size ∧
      ∀ w, weightedTotal w out.size out' = weightedTotal w out.size out +
        entryTotal w (nb.read v) (d.ownEntries p st) := by
  have hpass : ∃ out', d.addFlux p st out = .ok out' ∧ out'.size = out.size ∧
      ∀ w, weightedTotal w out.size out' = weightedTotal w out.size out +
        (d.diffusing.map fun i => w i * ((p.diffusion.getD i .zero).value * along st nb v i +
          (p.diffusion.getD i .zero).value * across st nb v i)).sum := by
    refine exists_foldlM_addEntry (fun i hi => ?_) le_rfl
    have hi' : i < n := (hids i hi).trans_le hp
    refine ⟨hi'.trans_le hout, fun out => ?_⟩
    rw [entryAt_diffusion (hids i hi), differences_eq h hi']
    rfl
  obtain ⟨out', hflux, hsize, htotal⟩ := hpass
  refine ⟨out', hflux, hsize, fun w => ?_⟩
  rw [htotal, ownEntries, entryTotal_flatMap]
  simp only [entryTotal_ownPartials h]

/-- The flux, by cluster. -/
theorem entryTotal_ownEntries_eq_sum (h : st.Shows nb v n) (w : Nat → ℝ) :
    entryTotal w (nb.read v) (d.ownEntries p st) = (d.diffusing.map fun i =>
      w i * ((p.diffusion.getD i .zero).value * (along st nb v i + across st nb v i))).sum := by
  rw [ownEntries, entryTotal_flatMap]
  simp only [entryTotal_ownPartials h, mul_add]

/-- How fast the flux grows along with the coefficients when the temperature rises. -/
noncomputable def heatingSlope (d : Diffusion) (p : PointRates ℝ) (st : Stencil ℝ)
    (nb : Neighbours) (v : Nat → Nat → ℝ) (w : Nat → ℝ) : ℝ :=
  (d.diffusing.map fun i =>
    w i * ((p.diffusion.getD i .zero).slope * (along st nb v i + across st nb v i))).sum

/-- The derivatives are those with respect to the clusters' own values and, in the column of the
temperature, those of the coefficients. -/
theorem exists_partials (h : st.Shows nb v n) (hids : ∀ i ∈ d.diffusing, i < p.diffusion.size)
    (hp : p.diffusion.size ≤ n) (haxes : nb.transverse.length ≤ 2) :
    ∃ es, d.partials p st = .ok es ∧ ∀ w r, entryTotal w r es =
      entryTotal w r (d.ownEntries p st) +
        d.temperature.elim 0 (r .center) * d.heatingSlope p st nb v w := by
  have hused : st.usedFactors = .ok (st.factorList.take st.transverse.length) :=
    if_pos (h.axes ▸ haxes)
  have hcluster : ∀ i ∈ d.diffusing, ∃ es, d.clusterPartials p st i = .ok es ∧
      ∀ w r, entryTotal w r es = entryTotal w r (ownPartials st i (p.diffusion.getD i .zero).value
          (st.factorList.take st.transverse.length)) + d.temperature.elim 0 (r .center) *
        (w i * ((p.diffusion.getD i .zero).slope * (along st nb v i + across st nb v i))) := by
    intro i hi
    rw [clusterPartials, entryAt_diffusion (hids i hi), ok_bind, hused, ok_bind]
    cases d.temperature with
    | none => exact ⟨_, rfl, fun w r => by rw [Option.elim_none, zero_mul, add_zero]⟩
    | some t =>
      dsimp only
      rw [differences_eq h ((hids i hi).trans_le hp)]
      refine ⟨_, rfl, fun w r => ?_⟩
      rw [entryTotal_append, entryTotal_cons, entryTotal_nil, Option.elim_some]
      ring
  obtain ⟨ess, hess, htotals⟩ := exists_mapM_eq_ok hcluster
  refine ⟨ess.flatten, by rw [partials, hess]; rfl, fun w r => ?_⟩
  rw [entryTotal_flatten w r (htotals.imp fun i es hes => hes w r), List.sum_map_add,
    List.sum_map_mul_left, ownEntries, entryTotal_flatMap, heatingSlope]

end Diffusion

namespace ThermalDrift

variable {st : Stencil ℝ} {nb : Neighbours} {v : Nat → Nat → ℝ} {n i : Nat}

theorem difference_eq (h : st.Shows nb v n) (hi : i < n) :
    difference st i = .ok (nb.read v .right i - nb.read v .left i) := by
  rw [difference, h.right i hi, h.leftValue hi]
  rfl

/-- The rate of change of a cluster, read off the derivatives with respect to its own values. -/
theorem entryTotal_ownPartials (h : st.Shows nb v n) (w : Nat → ℝ) (i : Nat) (d f : ℝ) :
    entryTotal w (nb.read v) (ownPartials st i d f) =
      w i * (d * f * (nb.read v .right i - nb.read v .left i) / (st.above + st.below)) := by
  rw [ownPartials]
  cases hst : st.left.isSome with
  | false =>
    simp only [h.read_left_eq_zero hst, Bool.false_eq_true, if_false, List.nil_append,
      entryTotal_cons, entryTotal_nil]
    ring
  | true =>
    simp only [if_true, List.cons_append, List.nil_append, entryTotal_cons, entryTotal_nil]
    ring

/-- The derivatives of all clusters with respect to their own values, at a temperature. -/
noncomputable def ownEntries (x : ThermalDrift ℝ) (p : PointRates ℝ) (st : Stencil ℝ) (t : ℝ) :
    List (StencilEntry ℝ) :=
  x.diffusing.flatMap fun i =>
    ownPartials st i (p.diffusion.getD i .zero).value (x.heatFactor t)

variable {x : ThermalDrift ℝ} {p : PointRates ℝ}

theorem ownEntries_congr {st' : Stencil ℝ} (h : st.SameFrame st') (t : ℝ) :
    x.ownEntries p st t = x.ownEntries p st' t := by
  simp only [ownEntries, ownPartials, h.left, h.above, h.below]

/-- The flux is what the derivatives come to at the values themselves. -/
theorem exists_addFlux (h : st.Shows nb v n) (ht : x.temperature < n)
    (hids : ∀ i ∈ x.diffusing, i < p.diffusion.size) (hp : p.diffusion.size ≤ n) {out : Array ℝ}
    (hout : n ≤ out.size) : ∃ out', x.addFlux p st out = .ok out' ∧ out'.size = out.size ∧
      ∀ w, weightedTotal w out.size out' = weightedTotal w out.size out +
        entryTotal w (nb.read v) (x.ownEntries p st (nb.read v .center x.temperature)) := by
  have hpass : ∃ out', x.addFlux p st out = .ok out' ∧ out'.size = out.size ∧
      ∀ w, weightedTotal w out.size out' = weightedTotal w out.size out +
        (x.diffusing.map fun i => w i * ((p.diffusion.getD i .zero).value *
          x.heatFactor (nb.read v .center x.temperature) *
            (nb.read v .right i - nb.read v .left i) / (st.above + st.below))).sum := by
    rw [addFlux, h.center _ ht]
    refine exists_foldlM_addEntry (fun i hi => ?_) le_rfl
    have hi' : i < n := (hids i hi).trans_le hp
    refine ⟨hi'.trans_le hout, fun out => ?_⟩
    rw [Diffusion.entryAt_diffusion (hids i hi), difference_eq h hi']
    rfl
  obtain ⟨out', hflux, hsize, htotal⟩ := hpass
  refine ⟨out', hflux, hsize, fun w => ?_⟩
  rw [htotal, ownEntries, entryTotal_flatMap]
  simp only [entryTotal_ownPartials h]

/-- The flux, by cluster. -/
theorem entryTotal_ownEntries_eq_sum (h : st.Shows nb v n) (w : Nat → ℝ) (t : ℝ) :
    entryTotal w (nb.read v) (x.ownEntries p st t) = (x.diffusing.map fun i =>
      w i * ((p.diffusion.getD i .zero).value * x.heatFactor t *
        (nb.read v .right i - nb.read v .left i) / (st.above + st.below))).sum := by
  rw [ownEntries, entryTotal_flatMap]
  simp only [entryTotal_ownPartials h]

/-- The slope of the drift's strength, which falls with the square of the temperature. -/
def heatFactorSlope {K : Type} [Scalar K] (x : ThermalDrift K) (t : K) : K :=
  -2 * x.heatFactor t / t

/-- How fast the flux grows with the temperature, by the coefficients and by the strength of the
drift. -/
noncomputable def heatingSlope (x : ThermalDrift ℝ) (p : PointRates ℝ) (st : Stencil ℝ)
    (nb : Neighbours) (v : Nat → Nat → ℝ) (t : ℝ) (w : Nat → ℝ) : ℝ :=
  (x.diffusing.map fun i => w i * (((p.diffusion.getD i .zero).slope * x.heatFactor t +
    (p.diffusion.getD i .zero).value * x.heatFactorSlope t) *
      (nb.read v .right i - nb.read v .left i) / (st.above + st.below))).sum

/-- The derivatives are those with respect to the clusters' own values and, in the column of the
temperature, those of the coefficients and of the drift's strength. -/
theorem exists_partials (h : st.Shows nb v n) (ht : x.temperature < n)
    (hids : ∀ i ∈ x.diffusing, i < p.diffusion.size) (hp : p.diffusion.size ≤ n) :
    let t := nb.read v .center x.temperature
    ∃ es, x.partials p st = .ok es ∧ ∀ w r, entryTotal w r es =
      entryTotal w r (x.ownEntries p st t) +
        r .center x.temperature * x.heatingSlope p st nb v t w := by
  intro t
  have hcluster : ∀ i ∈ x.diffusing, ∃ es, x.clusterPartials p st t i = .ok es ∧
      ∀ w r, entryTotal w r es = entryTotal w r
          (ownPartials st i (p.diffusion.getD i .zero).value (x.heatFactor t)) +
        r .center x.temperature * (w i * (((p.diffusion.getD i .zero).slope * x.heatFactor t +
          (p.diffusion.getD i .zero).value * x.heatFactorSlope t) *
            (nb.read v .right i - nb.read v .left i) / (st.above + st.below))) := by
    intro i hi
    rw [clusterPartials, Diffusion.entryAt_diffusion (hids i hi),
      difference_eq h ((hids i hi).trans_le hp)]
    refine ⟨_, rfl, fun w r => ?_⟩
    simp only [entryTotal_append, entryTotal_cons, entryTotal_nil, heatFactorSlope]
    ring
  obtain ⟨ess, hess, htotals⟩ := exists_mapM_eq_ok hcluster
  refine ⟨ess.flatten, ?_, fun w r => ?_⟩
  · rw [partials, h.center _ ht, ok_bind, hess]
    rfl
  · rw [entryTotal_flatten w r (htotals.imp fun i es hes => hes w r), List.sum_map_add,
      List.sum_map_mul_left, ownEntries, entryTotal_flatMap, heatingSlope]

end ThermalDrift

end ClusterDynamics
