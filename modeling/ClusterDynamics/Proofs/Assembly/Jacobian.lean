import ClusterDynamics.Proofs.Assembly.Flattened
import ClusterDynamics.Proofs.Assembly.Partials
import ClusterDynamics.Proofs.Network.Participants
import Mathlib.Tactic.IntervalCases

/-! The block of derivatives, entry by entry. One weight at one place picks an entry, and what the
entry gains is the derivative of its row's flux with respect to its column. -/

namespace ClusterDynamics

/-- The same point, with the slopes of its rates in place of the rates. -/
def PointRates.slopes (p : PointRates ℝ) : PointRates ℝ :=
  { p with rates := p.rates.map fun rate => ⟨rate.slope, 0⟩ }

namespace Assembly

variable {net : Network ℝ} {spec : NetworkSpec ℝ} {pattern : FillPattern} {a : Assembly ℝ}
  {p : PointRates ℝ} {out : Array ℝ} {row column i : Nat}

theorem weighs_single
    (h : (SparseBlock.ofPattern pattern : SparseBlock ℝ).position? row column = some i) :
    (SparseBlock.ofPattern pattern : SparseBlock ℝ).Weighs (Pi.single i 1) (Pi.single row 1)
      (Pi.single column 1) := by
  intro row' column' slot h'
  by_cases hsame : row' = row ∧ column' = column
  · obtain ⟨rfl, rfl⟩ := hsame
    obtain rfl := Option.some.inj (h'.symm.trans h)
    simp
  · have hslot : slot ≠ i := by
      rintro rfl
      have hholds := SparseBlock.holds_of_position? h
      have hholds' := SparseBlock.holds_of_position? h'
      exact hsame ⟨hholds'.row_eq (SparseBlock.partitioned_ofPattern pattern) hholds,
        hholds'.column_eq hholds⟩
    rcases not_and_or.mp hsame with hrow | hcolumn
    · rw [Pi.single_eq_of_ne hslot, Pi.single_eq_of_ne hrow, zero_mul]
    · rw [Pi.single_eq_of_ne hslot, Pi.single_eq_of_ne hcolumn, mul_zero]

theorem hasDerivAt_sum_reactionFlux (hb : net.BuiltFrom spec) {conc : ℝ → Array ℝ} {δ : Nat → ℝ}
    {x : ℝ} (hδ : ∀ c < net.size, HasDerivAt (fun y => (conc y).getD c 0) (δ c) x) (n : Nat → ℝ)
    (rates : List (Thermal ℝ)) : HasDerivAt (fun y =>
      ((net.reactions.toList.zip rates).map fun z => reactionFlux n (conc y) z.1 z.2.value).sum)
      ((net.reactions.toList.zip rates).map fun z =>
        reactionSlope n δ (conc x) z.1 z.2.value).sum x := by
  refine hasDerivAt_sum fun z hz => hasDerivAt_reactionFlux (fun c hc => hδ c ?_) _ _
  exact hb.lt_size_of_mem_participants (List.of_mem_zip hz).1
    (Term.mem_participants_of_mem_factors hc)

/-- The flux is differentiable along every differentiable path of concentrations. -/
theorem hasDerivAt_addFlux (hb : net.BuiltFrom spec) (ha : ofNetwork net pattern = .ok a)
    {conc f : ℝ → Array ℝ} {δ : Nat → ℝ} {x : ℝ} (hf : ∀ y, a.addFlux p (conc y) out = .ok (f y))
    (hδ : ∀ c < net.size, HasDerivAt (fun y => (conc y).getD c 0) (δ c) x)
    (hrow : row < out.size) : HasDerivAt (fun y => (f y).getD row 0)
      ((net.reactions.toList.zip p.rates.toList).map fun z =>
        reactionSlope (Pi.single row 1) δ (conc x) z.1 z.2.value).sum x := by
  have hflux : (fun y => (f y).getD row 0) = fun y => out.getD row 0 +
      ((net.reactions.toList.zip p.rates.toList).map fun z =>
        reactionFlux (Pi.single row 1) (conc y) z.1 z.2.value).sum :=
    funext fun y => getD_addFlux hb ha (hf y) hrow
  rw [hflux]
  exact (hasDerivAt_sum_reactionFlux hb hδ _ _).const_add _

theorem hasDerivAt_setIfInBounds (conc : Array ℝ) (column : Nat) {c : Nat}
    (hc : c = column → c < conc.size) (x : ℝ) : HasDerivAt (fun y => (conc.setIfInBounds column y).getD c 0)
      ((Pi.single column 1 : Nat → ℝ) c) x := by
  by_cases hsame : c = column
  · subst hsame
    have hread : (fun y => (conc.setIfInBounds c y).getD c 0) = fun y : ℝ => y := by
      funext y
      simp [Array.getD_eq_getD_getElem?, hc rfl]
    rw [hread, Pi.single_eq_same]
    exact hasDerivAt_id x
  · have hread : (fun y => (conc.setIfInBounds column y).getD c 0) = fun _ => conc.getD c 0 := by
      funext y
      simp [Array.getD_eq_getD_getElem?, Array.getElem?_setIfInBounds_ne (Ne.symm hsame)]
    rw [hread, Pi.single_eq_of_ne hsame]
    exact hasDerivAt_const x _

theorem setIfInBounds_getD_self (conc : Array ℝ) (column : Nat) :
    conc.setIfInBounds column (conc.getD column 0) = conc := by
  refine Array.ext_getElem? fun i => ?_
  rw [Array.getElem?_setIfInBounds]
  split_ifs with hi hc
  · subst hi
    simp [hc]
  · rw [Array.getElem?_eq_none (by omega)]
  · rfl

theorem sum_reactionPartials (n δ : Nat → ℝ) (temperature : Option Nat) (conc : Array ℝ) :
    ((net.reactions.toList.zip p.rates.toList).map fun x =>
      reactionPartials n δ temperature conc x.1 x.2).sum =
      ((net.reactions.toList.zip p.rates.toList).map fun x =>
        reactionSlope n δ conc x.1 x.2.value).sum + temperature.elim 0 δ *
          ((net.reactions.toList.zip p.rates.toList).map fun x =>
            reactionFlux n conc x.1 x.2.slope).sum := by
  rw [← List.sum_map_mul_left, ← List.sum_map_add]
  rfl

theorem getD_addFlux_slopes (hb : net.BuiltFrom spec) (ha : ofNetwork net pattern = .ok a)
    {conc out' : Array ℝ} (h : a.addFlux p.slopes conc out = .ok out') (hrow : row < out.size) :
    out'.getD row 0 - out.getD row 0 = ((net.reactions.toList.zip p.rates.toList).map fun x =>
      reactionFlux (Pi.single row 1) conc x.1 x.2.slope).sum := by
  rw [getD_addFlux hb ha h hrow, add_sub_cancel_left, PointRates.slopes, Array.toList_map,
    List.zip_map_right, List.map_map]
  rfl

theorem getElem?_termPartials (ha : ofNetwork net pattern = .ok a) {values : Array ℝ}
    (hvalues : values.size = a.template.entryCount) {conc : Array ℝ} {n δ : Nat → ℝ}
    (hw : a.template.Weighs (Pi.single i 1) n δ) : (a.termPartials p conc values)[i]? =
      values[i]?.map (· + ((net.reactions.toList.zip p.rates.toList).map fun x =>
        reactionPartials n δ pattern.temperature? conc x.1 x.2).sum) := by
  obtain ⟨hsize, htotal⟩ := weightedTotal_termPartials ha hw hvalues.ge p conc
  rcases Nat.lt_or_ge i values.size with hi | hi
  · have hi' : i < a.template.entryCount := hvalues ▸ hi
    rw [weightedTotal_single hi', weightedTotal_single hi', Array.getD_eq_getD_getElem?,
      Array.getD_eq_getD_getElem?, Array.getElem?_eq_getElem hi,
      Array.getElem?_eq_getElem (hi.trans_eq hsize.symm)] at htotal
    rw [Array.getElem?_eq_getElem hi, Array.getElem?_eq_getElem (hi.trans_eq hsize.symm)]
    exact congrArg some htotal
  · rw [Array.getElem?_eq_none hi, Array.getElem?_eq_none (hsize.le.trans hi), Option.map_none]

theorem get?_termPartials (ha : ofNetwork net pattern = .ok a) {values : Array ℝ}
    (hvalues : values.size = a.template.entryCount) (p : PointRates ℝ) (conc : Array ℝ)
    (row column : Nat) :
    let gain := ((net.reactions.toList.zip p.rates.toList).map fun x => reactionPartials
      (Pi.single row 1) (Pi.single column 1) pattern.temperature? conc x.1 x.2).sum
    ({ a.template with values := a.termPartials p conc values } : SparseBlock ℝ).get? row column =
        (({ a.template with values } : SparseBlock ℝ).get? row column).map (· + gain) ∧
      (a.template.position? row column = none → gain = 0) := by
  intro gain
  have htemplate := ofNetwork_template ha
  change (a.template.position? row column).bind (fun i => (a.termPartials p conc values)[i]?) =
    ((a.template.position? row column).bind fun i => values[i]?).map (· + gain) ∧ _
  cases hposition : a.template.position? row column with
  | none =>
    refine ⟨rfl, fun _ => ?_⟩
    -- No place weighs anything, so neither does what is added.
    have hw : a.template.Weighs 0 (Pi.single row 1) (Pi.single column 1) := by
      intro row' column' slot h
      rcases eq_or_ne row' row with rfl | hrow
      · have hcolumn : column' ≠ column := by
          rintro rfl
          rw [hposition] at h
          cases h
        rw [Pi.single_eq_of_ne hcolumn, mul_zero]
        rfl
      · rw [Pi.single_eq_of_ne hrow, zero_mul]
        rfl
    obtain ⟨-, htotal⟩ := weightedTotal_termPartials ha hw hvalues.ge p conc
    simpa [weightedTotal] using htotal.symm
  | some i =>
    refine ⟨?_, fun h => absurd h (Option.some_ne_none i)⟩
    rw [Option.bind_some, Option.bind_some]
    refine getElem?_termPartials ha hvalues ?_
    rw [htemplate] at hposition ⊢
    exact weighs_single hposition

theorem getElem?_termPartials_of_not_found (ha : ofNetwork net pattern = .ok a)
    {conc values : Array ℝ} (hvalues : values.size = a.template.entryCount)
    (hi : ∀ row column, a.template.position? row column ≠ some i) :
    (a.termPartials p conc values)[i]? = values[i]? := by
  have hw : a.template.Weighs (Pi.single i 1) (fun _ => 0) fun _ => 0 := by
    intro row column slot h
    have hslot : slot ≠ i := by
      rintro rfl
      exact hi row column h
    rw [Pi.single_eq_of_ne hslot, zero_mul]
  have hgain : ((net.reactions.toList.zip p.rates.toList).map fun x =>
      reactionPartials (fun _ => 0) (fun _ => 0) pattern.temperature? conc x.1 x.2).sum = 0 := by
    refine List.sum_eq_zero fun y hy => ?_
    obtain ⟨x, -, rfl⟩ := List.mem_map.mp hy
    simp [reactionPartials, reactionSlope, reactionFlux, changeWeight]
  rw [getElem?_termPartials ha hvalues hw, hgain]
  simp

/-- An entry gains the derivative of its row's flux with respect to its column's concentration, and
in the temperature's column the flux at the slopes of the rates. -/
theorem exists_hasDerivAt_get? (hb : net.BuiltFrom spec) (ha : ofNetwork net pattern = .ok a)
    {conc values : Array ℝ} (hrates : p.rates.size = net.reactions.size)
    (hconc : net.size ≤ conc.size) (hvalues : values.size = a.template.entryCount)
    (hout : net.size ≤ out.size) (hrow : row < out.size) (column : Nat) :
    ∃ (f : ℝ → Array ℝ) (d : ℝ) (slopes : Array ℝ),
      (∀ x, a.addFlux p (conc.setIfInBounds column x) out = .ok (f x)) ∧
      HasDerivAt (fun x => (f x).getD row 0) d (conc.getD column 0) ∧
      a.addFlux p.slopes conc out = .ok slopes ∧
      let gain := d + if pattern.temperature? = some column then
        slopes.getD row 0 - out.getD row 0 else 0
      ({ a.template with values := a.termPartials p conc values } : SparseBlock ℝ).get? row column =
          (({ a.template with values } : SparseBlock ℝ).get? row column).map (· + gain) ∧
        (a.template.position? row column = none → gain = 0) := by
  have hflux : ∀ x, ∃ out', a.addFlux p (conc.setIfInBounds column x) out = .ok out' := by
    intro x
    rw [exists_addFlux_iff ha, Array.size_setIfInBounds]
    exact ⟨hrates, hconc, hout⟩
  choose f hf using hflux
  obtain ⟨slopes, hslopes⟩ : ∃ out', a.addFlux p.slopes conc out = .ok out' := by
    rw [exists_addFlux_iff ha, PointRates.slopes, Array.size_map]
    exact ⟨hrates, hconc, hout⟩
  have hderiv := hasDerivAt_addFlux hb ha (x := conc.getD column 0) hf
    (fun c hc => hasDerivAt_setIfInBounds conc column (fun _ => hc.trans_le hconc) _) hrow
  rw [setIfInBounds_getD_self] at hderiv
  refine ⟨f, _, slopes, hf, hderiv, hslopes, ?_⟩
  have htemperature : ∀ flux : ℝ, (pattern.temperature?.elim 0 (Pi.single column 1 : Nat → ℝ)) *
      flux = if pattern.temperature? = some column then flux else 0 := by
    intro flux
    cases pattern.temperature? with
    | none => simp
    | some t => simp [Pi.single_apply]
  obtain ⟨hget, hnone⟩ := get?_termPartials ha hvalues p conc row column
  rw [sum_reactionPartials, htemperature, ← getD_addFlux_slopes hb ha hslopes hrow] at hget hnone
  exact ⟨hget, hnone⟩

/-- A block of the template gains, in exact arithmetic, the derivative of each row's flux with
respect to each column's concentration, and in the temperature's column the flux at the slopes of
the rates. Entries that are not looked up, and blocks that are refused, stay as they are. Places that
are read from one flat table per term give the same block. -/
theorem scatterPartials_hasDerivAt (hnet : (Network.build spec).value = .ok net)
    (ha : ofNetwork net pattern = .ok a) (p : PointRates ℝ) (conc values : Array ℝ) :
    let block : SparseBlock ℝ := { a.template with values }
    let after := (a.scatterPartials p conc block).1
    let result := (a.scatterPartials p conc block).2
    (result = .ok () ↔ p.rates.size = net.reactions.size ∧ net.size ≤ conc.size ∧
        values.size = a.template.entryCount) ∧
      (∀ e, result = .error e → after = block) ∧
      (∃ ts, net.reactions.toList.mapM (FlatTerm.ofReaction a.template pattern.temperature?) = .ok ts ∧
        (result = .ok () → FlatTerm.addAllPartials ts p conc values = .ok after.values)) ∧
      (result = .ok () →
        after.starts = block.starts ∧ after.columns = block.columns ∧
        after.values.size = values.size ∧
        (∀ i, (∀ row column, block.position? row column ≠ some i) →
          after.values[i]? = values[i]?) ∧
        ∀ out : Array ℝ, net.size ≤ out.size → ∀ row < out.size, ∀ column,
          ∃ (f : ℝ → Array ℝ) (d : ℝ) (slopes : Array ℝ),
            (∀ x, a.addFlux p (conc.setIfInBounds column x) out = .ok (f x)) ∧
            HasDerivAt (fun x => (f x).getD row 0) d (conc.getD column 0) ∧
            a.addFlux p.slopes conc out = .ok slopes ∧
            let gain := d + if pattern.temperature? = some column then
              slopes.getD row 0 - out.getD row 0 else 0
            after.get? row column = (block.get? row column).map (· + gain) ∧
              (block.position? row column = none → gain = 0)) := by
  intro block after result
  have hb := Network.builtFrom_of_build hnet
  have hcheck : a.checkBlock p conc.size values.size = .ok () ↔
      p.rates.size = net.reactions.size ∧ net.size ≤ conc.size ∧
        values.size = a.template.entryCount := checkBlock_eq_ok_iff ha
  have hflat : net.reactions.toList.mapM (FlatTerm.ofReaction a.template pattern.temperature?) =
      .ok (a.terms.toList.map Term.flatten) := mapM_flatTerm ha
  rw [← hcheck]
  cases hblock : a.checkBlock p conc.size values.size with
  | error e =>
    have hcall : a.scatterPartials p conc block = (block, .error e) :=
      scatterPartials_of_error hblock
    have hafter : after = block := congrArg Prod.fst hcall
    have hresult : result = .error e := congrArg Prod.snd hcall
    rw [hresult]
    exact ⟨⟨nofun, nofun⟩, fun _ _ => hafter, ⟨_, hflat, nofun⟩, nofun⟩
  | ok =>
    obtain ⟨hrates, hconc, hvalues⟩ := hcheck.mp hblock
    have hcall : a.scatterPartials p conc block =
        ({ block with values := a.termPartials p conc values }, .ok ()) :=
      scatterPartials_of_ok hblock
    have hafter : after = { block with values := a.termPartials p conc values } :=
      congrArg Prod.fst hcall
    have hresult : result = .ok () := congrArg Prod.snd hcall
    rw [hresult, hafter]
    have hvaluesAfter := addAllPartials_flatten (p := p) hb ha hconc hvalues
    refine ⟨⟨fun _ => rfl, fun _ => rfl⟩, nofun, ⟨_, hflat, fun _ => hvaluesAfter⟩,
      fun _ => ⟨rfl, rfl, ?_, fun i hi => ?_, ?_⟩⟩
    · exact size_termPartials ha hvalues.ge
    · exact getElem?_termPartials_of_not_found ha hvalues hi
    · intro out hout row hrow column
      exact exists_hasDerivAt_get? hb ha hrates hconc hvalues hout hrow column

/-- Xenon up to two, with a temperature: the entry of the monomer's row and column. -/
theorem scatterPartials_hasDerivAt_xenon :
    ∃ net a, ∃ (p : PointRates ℝ) (f : ℝ → Array ℝ) (d : ℝ), (Network.build (.xenon 2)).value = .ok net ∧
      ofNetwork net ⟨2, #[[0, 1, 2], [0, 1, 2], [2]], true⟩ = .ok a ∧
      (a.scatterPartials p #[3, 5] a.template).2 = .ok () ∧
      (∀ x, a.addFlux p #[x, 5] #[0, 0] = .ok (f x)) ∧
      HasDerivAt (fun x => (f x).getD 0 0) d 3 ∧
      (a.scatterPartials p #[3, 5] a.template).1.get? 0 0 = some d := by
  obtain ⟨net, hnet, hsize⟩ := Network.exists_build_xenon
  have hb := Network.builtFrom_of_build hnet
  have hslot : ∀ row < 2, ∀ column < 3, ∃ slot, (SparseBlock.ofPattern
      ⟨2, #[[0, 1, 2], [0, 1, 2], [2]], true⟩ : SparseBlock ℝ).position? row column =
        some slot := by
    intro row hrow column hcolumn
    interval_cases row <;> interval_cases column <;> exact ⟨_, rfl⟩
  obtain ⟨a, ha⟩ := @exists_ofNetwork ℝ _ net ⟨2, #[[0, 1, 2], [0, 1, 2], [2]], true⟩
      fun r hr row hrow column hcolumn => by
    have hids : ∀ i ∈ r.participants, i < 2 := fun i hi =>
      hsize ▸ hb.lt_size_of_mem_participants hr hi
    refine hslot row (hids row hrow) column ?_
    rcases List.mem_append.mp hcolumn with hcolumn | hcolumn
    · exact (hids column hcolumn).trans (by decide)
    · obtain rfl := List.mem_singleton.mp hcolumn
      decide
  let p : PointRates ℝ := ⟨0, 1000, 0, 0, 0, #[], Array.replicate net.reactions.size ⟨2, 1⟩⟩
  obtain ⟨hiff, -, -, hafter⟩ := scatterPartials_hasDerivAt hnet ha p #[3, 5] a.template.values
  have hok : (a.scatterPartials p #[3, 5] a.template).2 = .ok () :=
    hiff.mpr ⟨by simp [p], by simp [hsize], rfl⟩
  obtain ⟨-, -, -, -, hentries⟩ := hafter hok
  obtain ⟨f, d, slopes, hf, hd, -, hget, -⟩ :=
    hentries #[0, 0] (by simp [hsize]) 0 (by decide) 0
  refine ⟨net, a, p, f, d, hnet, ha, hok, hf, hd, hget.trans ?_⟩
  have hzero : a.template.get? 0 0 = some 0 := by
    rw [ofNetwork_template ha, ← Scalar.natLit_zero_real]
    rfl
  rw [if_neg (by decide), add_zero]
  exact (congrArg (Option.map (· + d)) hzero).trans (congrArg some (zero_add d))

end Assembly

end ClusterDynamics
