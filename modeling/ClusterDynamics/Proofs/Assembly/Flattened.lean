import ClusterDynamics.Proofs.Assembly.Lowering
import ClusterDynamics.Proofs.OutOfRange
import ClusterDynamics.Transport.Diffusion

/-! Terms with the places of all their derivatives in one flat table, row by row. The place of the
derivative of change `s` with respect to factor `p` is read at `s * n + p`, where the term has `n`
factors, and every look-up is checked. For the reactions of a network the tables read back the
places of each change, so the values of a block end up the same. -/

namespace ClusterDynamics

section Definitions

variable {K : Type}

structure FlatTerm (K : Type) where
  coefficient : K
  factors : List Nat
  netChanges : List (Nat × K)
  scatter : Array Nat
  /-- One place per change, or none at all if temperature is not solved for. -/
  temperature : Array Nat

/-- Push the places of a row to both tables. -/
def pushRow (template : SparseBlock K) (temperature : Option Nat) (factors : List Nat)
    (tables : Array Nat × Array Nat) (change : Nat × K) :
    Except (SetupError K) (Array Nat × Array Nat) := do
  let scatter ← factors.foldlM (fun scatter column => do
    return scatter.push (← locate template change.1 column)) tables.1
  match temperature with
  | none => return (scatter, tables.2)
  | some t => return (scatter, tables.2.push (← locate template change.1 t))

variable [Scalar K]

def FlatTerm.ofReaction (template : SparseBlock K) (temperature : Option Nat) (r : Reaction K) :
    Except (SetupError K) (FlatTerm K) := do
  let tables ← r.netChanges.foldlM (pushRow template temperature r.factors) (#[], #[])
  return ⟨r.coefficient, r.factors, r.netChanges, tables.1, tables.2⟩

/-- The product of the concentrations of all clusters but the one at the position to skip. -/
def productSkipping (conc : Array K) (clusters : List Nat) (skip : Option Nat) :
    Except OutOfRange K := do
  let taken ← (clusters.zipIdx.filter fun x => some x.2 ≠ skip).mapM fun x => entryAt conc x.1
  return Scalar.product taken

namespace FlatTerm

/-- Add the derivatives with respect to factor `p`, each its amount times `x`. -/
def addColumn (t : FlatTerm K) (p : Nat) (x : K) (values : Array K) :
    Except OutOfRange (Array K) :=
  t.netChanges.zipIdx.foldlM (fun values change => do
    let slot ← entryAt t.scatter (change.2 * t.factors.length + p)
    addEntry values slot (change.1.2 * x)) values

def addTemperature (t : FlatTerm K) (x : K) (values : Array K) : Except OutOfRange (Array K) :=
  (t.temperature.toList.zip t.netChanges).foldlM (fun values change =>
    addEntry values change.1 (change.2.2 * x)) values

def addPartials (t : FlatTerm K) (conc : Array K) (rate : Thermal K) (values : Array K) :
    Except OutOfRange (Array K) := do
  let weight := t.coefficient * rate.value
  let values ← (List.range t.factors.length).foldlM (fun values p => do
    t.addColumn p (weight * (← productSkipping conc t.factors (some p))) values) values
  if t.temperature.isEmpty then return values
  else t.addTemperature (t.coefficient * rate.slope * (← productSkipping conc t.factors none)) values

/-- Add the derivatives of all terms, each at its rate. -/
def addAllPartials (ts : List (FlatTerm K)) (p : PointRates K) (conc values : Array K) :
    Except OutOfRange (Array K) :=
  (ts.zip p.rates.toList).foldlM (fun values x => x.1.addPartials conc x.2 values) values

end FlatTerm

end Definitions

variable {K : Type} [Scalar K] {template : SparseBlock K} {temperature : Option Nat}
  {r : Reaction K} {t : Term K} {conc values : Array K} {entries : Nat}

/-- A term with the places of its changes row by row. -/
def Term.flatten (t : Term K) : FlatTerm K where
  coefficient := t.coefficient
  factors := t.factors
  netChanges := t.changes.map fun c => (c.cluster, c.amount)
  scatter := (t.changes.flatMap Change.slots).toArray
  temperature := (t.changes.filterMap Change.temperatureSlot).toArray

section Tables

omit [Scalar K]

/-- The tables with the places of a change behind. -/
def Change.appendTo (tables : Array Nat × Array Nat) (c : Change K) : Array Nat × Array Nat :=
  (tables.1 ++ c.slots.toArray, tables.2 ++ c.temperatureSlot.toList.toArray)

theorem foldl_appendTo (changes : List (Change K)) (tables : Array Nat × Array Nat) :
    changes.foldl Change.appendTo tables = (tables.1 ++ (changes.flatMap Change.slots).toArray,
      tables.2 ++ (changes.filterMap Change.temperatureSlot).toArray) := by
  induction changes generalizing tables with
  | nil => simp
  | cons c changes ih =>
    rw [List.foldl_cons, ih]
    cases htemperature : c.temperatureSlot <;> simp [Change.appendTo, htemperature]

theorem pushRow_eq (factors : List Nat) (tables : Array Nat × Array Nat) (change : Nat × K) :
    pushRow template temperature factors tables change =
      (Change.located template temperature factors change).map (Change.appendTo tables) := by
  have hslots : factors.foldlM (fun scatter column => do
      return scatter.push (← locate template change.1 column)) tables.1 =
        (factors.mapM fun column => locate template change.1 column).map
          (List.foldl Array.push tables.1) := by
    apply foldlM_eq_map_mapM
    intro scatter column
    cases locate template change.1 column <;> rfl
  rw [pushRow, hslots, Change.located]
  cases factors.mapM fun column => locate template change.1 column with
  | error e => rfl
  | ok slots =>
    cases temperature with
    | none => simp [Except.map, Change.appendTo, pure, Except.pure]
    | some t =>
      cases hlocate : locate template change.1 t <;>
        simp [Except.map, hlocate, Change.appendTo, pure, Except.pure]

/-- Where each change has `n` places, place `p` of change `s` stands at `s * n + p`. -/
theorem getElem?_flatMap_slots {changes : List (Change K)} {n p : Nat}
    (h : ∀ c ∈ changes, c.slots.length = n) (hp : p < n) (s : Nat) :
    (changes.flatMap Change.slots)[s * n + p]? = changes[s]?.bind fun c => c.slots[p]? := by
  induction changes generalizing s with
  | nil => rfl
  | cons c changes ih =>
    have hlength : c.slots.length = n := h c List.mem_cons_self
    rw [List.flatMap_cons]
    cases s with
    | zero =>
      rw [Nat.zero_mul, Nat.zero_add, List.getElem?_append_left (by omega)]
      rfl
    | succ s =>
      rw [Nat.succ_mul, List.getElem?_append_right (by omega), List.getElem?_cons_succ,
        ← ih (fun c' hc' => h c' (List.mem_cons_of_mem _ hc')) s]
      congr 1
      omega

end Tables

theorem FlatTerm.ofReaction_eq (template : SparseBlock K) (temperature : Option Nat)
    (r : Reaction K) : FlatTerm.ofReaction template temperature r =
      (Term.ofReaction template temperature r).map Term.flatten := by
  rw [FlatTerm.ofReaction, foldlM_eq_map_mapM (pushRow_eq r.factors)]
  cases hterm : Term.ofReaction template temperature r with
  | error e =>
    rcases bind_eq_error_iff.mp hterm with hchanges | ⟨changes, -, h⟩
    · rw [hchanges]
      rfl
    · cases h
  | ok t =>
    obtain ⟨-, -, hnet⟩ := Term.ofReaction_eq_ok hterm
    obtain ⟨changes, hchanges, ht⟩ := bind_eq_ok_iff.mp hterm
    obtain rfl := Except.ok.inj ht
    rw [hchanges]
    simp [Except.map, foldl_appendTo, Term.flatten, ← hnet, pure, Except.pure]

section Products

omit [Scalar K] in
theorem map_fst_filter_zipIdx (clusters : List Nat) (n p : Nat) :
    ((clusters.zipIdx n).filter fun x => some x.2 ≠ some (n + p)).map Prod.fst =
      clusters.eraseIdx p := by
  induction clusters generalizing n p with
  | nil => rfl
  | cons c clusters ih =>
    rw [List.zipIdx_cons]
    cases p with
    | zero =>
      have hall : ∀ x ∈ clusters.zipIdx (n + 1), decide (some x.2 ≠ some (n + 0)) = true := by
        intro x hx
        have := List.le_snd_of_mem_zipIdx hx
        simp
        omega
      rw [List.filter_cons_of_neg (by simp), List.filter_eq_self.mpr hall, List.zipIdx_map_fst]
      rfl
    | succ p =>
      rw [List.filter_cons_of_pos (by simp), List.map_cons, List.eraseIdx_cons_succ, ← ih (n + 1) p]
      simp only [Nat.add_assoc, Nat.add_comm 1 p]

theorem productSkipping_eq_ok {clusters : List Nat} (h : ∀ c ∈ clusters, c < conc.size)
    (skip : Option Nat) : productSkipping conc clusters skip =
      .ok (concentrationProduct conc (skip.elim clusters clusters.eraseIdx)) := by
  have hread : ∀ x ∈ clusters.zipIdx.filter fun x => some x.2 ≠ skip,
      entryAt conc x.1 = .ok (conc.getD x.1 0) := by
    intro x hx
    have hmem := List.fst_mem_of_mem_zipIdx (List.mem_of_mem_filter hx)
    rw [entryAt_eq_ok_iff, Array.getD_eq_getD_getElem?, Array.getElem?_eq_getElem (h _ hmem)]
    rfl
  have htaken : (clusters.zipIdx.filter fun x => some x.2 ≠ skip).map Prod.fst =
      skip.elim clusters clusters.eraseIdx := by
    cases skip with
    | none => simp
    | some p => simpa using map_fst_filter_zipIdx clusters 0 p
  rw [productSkipping, mapM_eq_ok_map hread, ← htaken, concentrationProduct, List.map_map]
  rfl

end Products

/-- Where every place is found and there, checked additions are those of `Term.scatter`. -/
theorem foldlM_addEntry_eq_ok {α : Type} {xs : List α} (find : α → Except OutOfRange Nat)
    (change : α → Change K) (place : Change K → Option Nat) (h : ∀ y ∈ xs, ∃ slot < entries,
      find y = .ok slot ∧ place (change y) = some slot) (x : K) (hvalues : values.size = entries) :
    xs.foldlM (fun values y => do
      let slot ← find y
      addEntry values slot ((change y).amount * x)) values =
        .ok ((xs.map change).foldl (fun values c =>
          match place c with
          | some i => values.modify i (· + c.amount * x)
          | none => values) values) := by
  induction xs generalizing values with
  | nil => rfl
  | cons y xs ih =>
    obtain ⟨slot, hslot, hfind, hplace⟩ := h y List.mem_cons_self
    have hadd : addEntry values slot ((change y).amount * x) =
        .ok (values.modify slot (· + (change y).amount * x)) := by
      rw [addEntry, checkRange_eq_ok_iff.mpr (hvalues ▸ hslot)]
      rfl
    rw [List.foldlM_cons, hfind, ok_bind, hadd, ok_bind, List.map_cons, List.foldl_cons, hplace]
    exact ih (fun z hz => h z (List.mem_cons_of_mem _ hz)) (Array.size_modify.trans hvalues)

namespace Term

theorem addColumn_flatten {n : Nat} (h : t.InRange n entries) {p : Nat}
    (hp : p < t.factors.length) (x : K) (hvalues : values.size = entries) :
    t.flatten.addColumn p x values = .ok (t.scatter (fun c => c.slots[p]?) x values) := by
  have hfind : ∀ y ∈ t.changes.zipIdx, ∃ slot < entries,
      entryAt t.flatten.scatter (y.2 * t.factors.length + p) = .ok slot ∧
        y.1.slots[p]? = some slot := by
    intro y hy
    have hmem := List.fst_mem_of_mem_zipIdx hy
    have hp' : p < y.1.slots.length := (h.slots_length _ hmem).symm ▸ hp
    refine ⟨y.1.slots[p], h.slots _ hmem _ (List.getElem_mem hp'), ?_,
      List.getElem?_eq_getElem hp'⟩
    rw [entryAt_eq_ok_iff, flatten, List.getElem?_toArray,
      getElem?_flatMap_slots h.slots_length hp, List.mem_zipIdx_iff_getElem?.mp hy]
    exact List.getElem?_eq_getElem hp'
  have hpass := foldlM_addEntry_eq_ok _ Prod.fst (fun c => c.slots[p]?) hfind x hvalues
  rw [List.zipIdx_map_fst] at hpass
  rw [FlatTerm.addColumn, flatten, List.zipIdx_map, List.foldlM_map]
  exact hpass

theorem addTemperature_flatten (h : ∀ c ∈ t.changes, ∃ slot < entries,
    c.temperatureSlot = some slot) (x : K) (hvalues : values.size = entries) :
    t.flatten.addTemperature x values = .ok (t.scatter Change.temperatureSlot x values) := by
  have hzip : ∀ changes : List (Change K), (∀ c ∈ changes, ∃ slot < entries,
      c.temperatureSlot = some slot) → (changes.filterMap Change.temperatureSlot).zip
        (changes.map fun c => (c.cluster, c.amount)) =
          changes.map fun c => (c.temperatureSlot.getD 0, c.cluster, c.amount) := by
    intro changes h
    induction changes with
    | nil => rfl
    | cons c changes ih =>
      obtain ⟨slot, -, hc⟩ := h c List.mem_cons_self
      rw [List.filterMap_cons_some hc, List.map_cons, List.zip_cons_cons, List.map_cons,
        ih fun c' hc' => h c' (List.mem_cons_of_mem _ hc'), hc]
      rfl
  have hfind : ∀ c ∈ t.changes, ∃ slot < entries,
      (.ok (c.temperatureSlot.getD 0) : Except OutOfRange Nat) = .ok slot ∧
        c.temperatureSlot = some slot := by
    intro c hc
    obtain ⟨slot, hslot, hplace⟩ := h c hc
    exact ⟨slot, hslot, by rw [hplace]; rfl, hplace⟩
  have hpass := foldlM_addEntry_eq_ok _ id Change.temperatureSlot hfind x hvalues
  rw [List.map_id] at hpass
  rw [FlatTerm.addTemperature, flatten, hzip t.changes h, List.foldlM_map]
  exact hpass

theorem addColumns_flatten (h : t.InRange conc.size entries) (weight : K)
    (hvalues : values.size = entries) :
    let after := (List.range t.factors.length).foldl (fun values p => t.scatter
      (fun c => c.slots[p]?) (weight * concentrationProduct conc (t.factors.eraseIdx p)) values)
      values
    (List.range t.flatten.factors.length).foldlM (fun values p => do
      t.flatten.addColumn p (weight * (← productSkipping conc t.flatten.factors (some p))) values)
      values = .ok after ∧ after.size = entries := by
  refine foldlM_eq_ok_foldl (P := fun values : Array K => values.size = entries) ?_ hvalues
  intro p hp values hvalues
  have hproduct : productSkipping conc t.flatten.factors (some p) =
      .ok (concentrationProduct conc (t.factors.eraseIdx p)) := productSkipping_eq_ok h.factors _
  rw [hproduct, ok_bind]
  exact ⟨addColumn_flatten h (List.mem_range.mp hp) _ hvalues, (size_scatter ..).trans hvalues⟩

theorem scatter_temperatureSlot_of_none (h : t.changes.filterMap Change.temperatureSlot = [])
    (x : K) : t.scatter Change.temperatureSlot x values = values := by
  rw [List.filterMap_eq_nil_iff] at h
  rw [scatter]
  generalize t.changes = changes at h
  induction changes with
  | nil => rfl
  | cons c changes ih =>
    rw [List.foldl_cons, h c List.mem_cons_self]
    exact ih fun c' hc' => h c' (List.mem_cons_of_mem _ hc')

/-- The flat table gives the values that the places of the changes give. -/
theorem addPartials_flatten (hterm : Term.ofReaction template temperature r = .ok t)
    (h : t.InRange conc.size entries) (rate : Thermal K) (hvalues : values.size = entries) :
    t.flatten.addPartials conc rate values = .ok (t.addPartials conc rate values) := by
  have hplaced := placed_of_ofReaction hterm
  obtain ⟨hcolumns, hsize⟩ := addColumns_flatten h (t.coefficient * rate.value) hvalues
  have hproduct : productSkipping conc t.flatten.factors none =
      .ok (concentrationProduct conc t.factors) := productSkipping_eq_ok h.factors none
  rw [FlatTerm.addPartials, show t.flatten.coefficient = t.coefficient from rfl, hcolumns, ok_bind,
    hproduct, ok_bind]
  by_cases hempty : t.changes.filterMap Change.temperatureSlot = []
  · have hskip : t.flatten.temperature.isEmpty = true := by
      simp [flatten, hempty]
    rw [if_pos hskip, addPartials, scatter_temperatureSlot_of_none hempty]
    rfl
  · have htemperature : ∀ c ∈ t.changes, ∃ slot < entries, c.temperatureSlot = some slot := by
      intro c hc
      cases temperature with
      | none =>
        refine absurd (List.filterMap_eq_nil_iff.mpr fun c hc => ?_) hempty
        exact (hplaced c hc).temperature_none rfl
      | some i =>
        obtain ⟨slot, hslot, -⟩ := (hplaced c hc).temperature_some i rfl
        exact ⟨slot, h.temperatureSlot c hc slot hslot, hslot⟩
    have hadd : ¬ t.flatten.temperature.isEmpty = true := by
      simpa [flatten] using hempty
    rw [if_neg hadd, addTemperature_flatten htemperature _ hsize]
    rfl

end Term

namespace Assembly

variable {net : Network K} {pattern : FillPattern} {a : Assembly K} {p : PointRates K}

theorem mapM_flatTerm (ha : ofNetwork net pattern = .ok a) :
    net.reactions.toList.mapM (FlatTerm.ofReaction a.template pattern.temperature?) =
      .ok (a.terms.toList.map Term.flatten) := by
  obtain ⟨-, hterms⟩ := ofNetwork_eq_ok ha
  have hflat : FlatTerm.ofReaction a.template pattern.temperature? = fun r =>
      (Term.ofReaction a.template pattern.temperature? r).map Term.flatten :=
    funext fun r => FlatTerm.ofReaction_eq _ _ r
  rw [hflat, mapM_map, mapM_eq_ok_iff.mpr hterms]
  rfl

/-- The flat tables of a network's reactions give the derivatives of its terms. -/
theorem addAllPartials_flatten {spec : NetworkSpec K} (hb : net.BuiltFrom spec)
    (ha : ofNetwork net pattern = .ok a) (hconc : net.size ≤ conc.size)
    (hvalues : values.size = a.template.entryCount) :
    FlatTerm.addAllPartials (a.terms.toList.map Term.flatten) p conc values =
      .ok (a.termPartials p conc values) := by
  have hstep : ∀ x ∈ a.terms.toList.zip p.rates.toList, ∀ values : Array K,
      values.size = a.template.entryCount →
        x.1.flatten.addPartials conc x.2 values = .ok (x.1.addPartials conc x.2 values) ∧
          (x.1.addPartials conc x.2 values).size = a.template.entryCount := by
    intro x hx values hvalues
    have ht := (List.of_mem_zip hx).1
    obtain ⟨-, hterms⟩ := ofNetwork_eq_ok ha
    obtain ⟨r, -, hr⟩ := exists_mem_of_forall₂ hterms.flip ht
    have hrange := (inRange_of_mem_terms hb ha ht).mono hconc
    exact ⟨Term.addPartials_flatten hr hrange x.2 hvalues,
      (Term.size_addPartials ..).trans hvalues⟩
  obtain ⟨hpass, -⟩ := foldlM_eq_ok_foldl hstep hvalues
  rw [FlatTerm.addAllPartials, List.zip_map_left, List.foldlM_map]
  exact hpass

end Assembly

end ClusterDynamics
