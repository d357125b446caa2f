import ClusterDynamics.Proofs.Simulation.Construction
import ClusterDynamics.Proofs.Simulation.Jacobian
import ClusterDynamics.Proofs.Transport.Places
import ClusterDynamics.Proofs.Transport.Slopes

/-! The derivatives listed in the column of a temperature. When a point is heated, its rates follow
along with its temperature in the state; the concentrations stay. The rates of change of the
clusters are then sums of the coefficients with fixed weights, and of the strength of the drift. -/

namespace ClusterDynamics

namespace Assembly

variable {n : Nat → ℝ} {conc conc' : Array ℝ} {r : Reaction ℝ} {t : ℝ}

theorem reactionFlux_congr (h : ∀ c ∈ r.factors, conc.getD c 0 = conc'.getD c 0) (rate : ℝ) :
    reactionFlux n conc r rate = reactionFlux n conc' r rate := by
  rw [reactionFlux, reactionFlux, concentrationProduct_real, concentrationProduct_real,
    List.map_congr_left h]

theorem reactionSlope_eq_zero {δ : Nat → ℝ} (h : ∀ c ∈ r.factors, δ c = 0) (rate : ℝ) :
    reactionSlope n δ conc r rate = 0 := by
  have hslope : productSlope (fun c => conc.getD c 0) δ r.factors = 0 := by
    refine List.sum_eq_zero fun y hy => ?_
    obtain ⟨k, hk, rfl⟩ := List.mem_map.mp hy
    have hk' := List.mem_range.mp hk
    rw [List.getD_eq_getElem?_getD, List.getElem?_eq_getElem hk', Option.getD_some,
      h _ (List.getElem_mem hk'), zero_mul]
  rw [reactionSlope, hslope, mul_zero, mul_zero]

/-- What a reaction adds is linear in its rate. -/
theorem hasDerivAt_reactionFlux_rate {rate : ℝ → Thermal ℝ} (h : Thermal.HasSlopeAt rate t) :
    HasDerivAt (fun t => reactionFlux n conc r (rate t).value)
      (reactionFlux n conc r (rate t).slope) t :=
  ((HasDerivAt.const_mul r.coefficient h).mul_const _).const_mul _

end Assembly

theorem PointRates.zip_ofTemperature (net : Network ℝ) (point : Nat) (t : ℝ) :
    net.reactions.toList.zip (ofTemperature net point t).rates.toList =
      net.reactions.toList.map fun r => (r, net.rateAt r t) := by
  conv_lhs =>
    rw [← List.map_id net.reactions.toList, ofTemperature, Array.toList_map, List.zip_map']
  rfl

namespace Simulation

open Assembly Thermal

variable {x : Simulation ℝ} {s s' : GridState ℝ} {p : Nat} {rates : PointRates ℝ}
  {st st' : Stencil ℝ} {nb : Neighbours} {v : Nat → Nat → ℝ}

/-- The simulation with the rates of a point brought to a temperature. -/
noncomputable def heated (x : Simulation ℝ) (p : Nat) (t : ℝ) : Simulation ℝ :=
  { x with tables := (x.tables.update x.net (x.tables.temperaturesWith p t)).1 }

/-- What transport adds to a weighted total of the clusters at a point, by the rates, where the
temperature is `t` and the concentrations are `v`. -/
noncomputable def transportFlux (x : Simulation ℝ) (rates : PointRates ℝ) (st : Stencil ℝ)
    (nb : Neighbours) (v : Nat → Nat → ℝ) (w : Nat → ℝ) (t : ℝ) : ℝ :=
  (x.diffusion.elim 0 fun d => (d.diffusing.map fun i => w i *
    ((rates.diffusion.getD i .zero).value * (Diffusion.along st nb v i +
      Diffusion.across st nb v i))).sum) +
  x.drift.elim 0 fun d => (d.diffusing.map fun i => w i *
    ((rates.diffusion.getD i .zero).value * d.heatFactor t *
      (nb.read v .right i - nb.read v .left i) / (st.above + st.below))).sum

/-- How fast a cluster changes at point `p` where the temperature is `t`. -/
noncomputable def clusterFlux (x : Simulation ℝ) (p : Nat) (st : Stencil ℝ) (v : Nat → Nat → ℝ)
    (row : Nat) (t : ℝ) : ℝ :=
  (x.net.reactions.toList.map fun r =>
    reactionFlux (Pi.single row 1) st.center r (x.net.rateAt r t).value).sum +
  x.transportFlux (PointRates.ofTemperature x.net p t) st (x.neighbours p) v (Pi.single row 1) t

theorem entryTotal_ownEntries (hst : st.Shows nb v x.dofs) (w : Nat → ℝ) (t : ℝ) :
    entryTotal w (nb.read v) (x.ownEntries rates st t) =
      x.transportFlux rates st nb v w t := by
  rw [ownEntries, entryTotal_append, transportFlux]
  cases x.diffusion <;> cases x.drift <;>
    simp [Diffusion.entryTotal_ownEntries_eq_sum hst,
      ThermalDrift.entryTotal_ownEntries_eq_sum hst]

/-- Only the concentrations of the clusters count. -/
theorem Sound.transportFlux_congr (h : x.Sound) {v' : Nat → Nat → ℝ} (hframe : st.SameFrame st')
    (hv : ∀ i < x.net.size, ∀ q, v q i = v' q i) (w : Nat → ℝ) (t : ℝ) :
    x.transportFlux rates st nb v w t = x.transportFlux rates st' nb v' w t := by
  have hdiffusion : ∀ d ∈ x.diffusion, ∀ i ∈ d.diffusing,
      Diffusion.along st nb v i + Diffusion.across st nb v i =
        Diffusion.along st' nb v' i + Diffusion.across st' nb v' i := by
    intro d hd i hi
    have hi' := h.lt_size_of_mem_diffusion hd i hi
    rw [Diffusion.along_congr hframe (hv i hi'), Diffusion.across_congr hframe (hv i hi')]
  have hdrift : ∀ d ∈ x.drift, ∀ i ∈ d.diffusing, ∀ o, nb.read v o i = nb.read v' o i := by
    intro d hd i hi o
    simp only [Neighbours.read, hv i (h.lt_size_of_mem_drift hd i hi)]
  unfold transportFlux
  rw [hframe.above, hframe.below]
  congr 1
  · cases hd : x.diffusion with
    | none => rfl
    | some d =>
      refine congrArg List.sum (List.map_congr_left fun i hi => ?_)
      rw [hdiffusion d hd i hi]
  · cases hd : x.drift with
    | none => rfl
    | some d =>
      refine congrArg List.sum (List.map_congr_left fun i hi => ?_)
      rw [hdrift d hd i hi, hdrift d hd i hi]

/-- Along the rates of a network, transport has the slope that is listed. -/
theorem Sound.hasDerivAt_transportFlux (h : x.Sound) {t : ℝ} (ht : 0 < t)
    (hread : x.temperatureOf nb v = t) (w : Nat → ℝ) :
    HasDerivAt (fun t => x.transportFlux (PointRates.ofTemperature x.net p t) st nb v w t)
      (x.transportSlope (PointRates.ofTemperature x.net p t) st nb v w) t := by
  have hslope : ∀ i < x.net.size, HasSlopeAt
      (fun t => (PointRates.ofTemperature x.net p t).diffusion.getD i .zero) t :=
    fun i hi => PointRates.hasSlopeAt_diffusion x.net p hi ht
  unfold transportFlux transportSlope
  rw [hread]
  refine HasDerivAt.fun_add ?_ ?_
  · cases hd : x.diffusion with
    | none => exact hasDerivAt_const t 0
    | some d =>
      exact Diffusion.hasDerivAt_flux
        (fun i hi => hslope i (h.lt_size_of_mem_diffusion hd i hi)) w
  · cases hd : x.drift with
    | none => exact hasDerivAt_const t 0
    | some d =>
      exact ThermalDrift.hasDerivAt_flux ht
        (fun i hi => hslope i (h.lt_size_of_mem_drift hd i hi)) w

/-- The slopes of the reactions' rates and of transport make that of a cluster's rate of change. -/
theorem Sound.hasDerivAt_clusterFlux (h : x.Sound) {t : ℝ} (ht : 0 < t)
    (hread : x.temperatureOf (x.neighbours p) v = t) (row : Nat) :
    HasDerivAt (x.clusterFlux p st v row)
      (((x.net.reactions.toList.zip (PointRates.ofTemperature x.net p t).rates.toList).map fun y =>
          reactionFlux (Pi.single row 1) st.center y.1 y.2.slope).sum +
        x.transportSlope (PointRates.ofTemperature x.net p t) st (x.neighbours p) v
          (Pi.single row 1)) t := by
  obtain ⟨spec, hb⟩ := h.network
  have hreactions : HasDerivAt (fun t => (x.net.reactions.toList.map fun r =>
      reactionFlux (Pi.single row 1) st.center r (x.net.rateAt r t).value).sum)
      (x.net.reactions.toList.map fun r => reactionFlux (Pi.single row 1) st.center r
        (x.net.rateAt r t).slope).sum t :=
    hasDerivAt_sum fun r hr => hasDerivAt_reactionFlux_rate (hb.hasSlopeAt_rateAt hr ht)
  rw [PointRates.zip_ofTemperature, List.map_map]
  exact hreactions.fun_add (h.hasDerivAt_transportFlux ht hread (Pi.single row 1))

theorem Sound.heated (h : x.Sound) (p : Nat) (t : ℝ) : (x.heated p t).Sound := by
  obtain ⟨hcoherent, hsize⟩ := h.tables.update (x.tables.temperaturesWith p t)
  exact { h with tables := hcoherent, points := hsize.trans h.points }

/-- A point can be heated to any positive temperature, and has its rates there. -/
theorem Sound.exists_checked_heated (h : x.Sound) (hp : p < x.shape.points) {t : ℝ} (ht : 0 < t) :
    (∃ n, (x.tables.update x.net (x.tables.temperaturesWith p t)).2 = .ok n) ∧
      ∃ generation, (x.heated p t).tables.checked p (x.heated p t).tables.generation =
        .ok { PointRates.ofTemperature x.net p t with generation } := by
  obtain ⟨spec, hb⟩ := h.network
  obtain ⟨updated, n, q, hupdate, hq, hchecked⟩ :=
    h.tables.exists_update_temperaturesWith Scalar.exactEquality_real
      (hp.trans_eq h.points.symm) (Scalar.isPositive_real.mpr ht)
  obtain rfl := Except.ok.inj (hq.symm.trans (hb.compute_eq_ofTemperature p ht))
  refine ⟨⟨n, congrArg Prod.snd hupdate⟩, updated.generation, ?_⟩
  have htables : (x.heated p t).tables = updated := congrArg Prod.fst hupdate
  rw [htables]
  exact hchecked

/-- After a point is heated its rates are those of the new temperature, which the state shows. The
concentrations are the old ones. -/
theorem Sound.exists_looksUp_heated (h : x.Sound) (hx : x.LooksUp s p rates st) {i : Nat}
    (hi : i ∈ x.pattern.temperature?) {t : ℝ} (ht : 0 < t) : ∃ s' st' generation,
      s.set p i t = .ok s' ∧
      (x.heated p t).LooksUp s' p { PointRates.ofTemperature x.net p t with generation } st' ∧
      s'.value p i = t ∧ ∀ c < x.net.size, ∀ q, s.value q c = s'.value q c := by
  have hlt : i < x.dofs := (h.eq_size_of_mem hi).1.trans_lt (h.eq_size_of_mem hi).2
  obtain ⟨s', hset, hfits, hvalues⟩ := hx.fits.exists_set hx.lt_points hlt t
  obtain ⟨-, generation, hchecked⟩ := h.exists_checked_heated hx.lt_points ht
  obtain ⟨st', hst'⟩ := exists_stencil hfits hx.lt_points
  obtain ⟨hdiffusion, hrates⟩ := PointRates.size_ofTemperature x.net p t
  refine ⟨s', st', generation, hset, ⟨⟨hfits.shape, hfits.dofs⟩, hx.lt_points, hx.vacuum, hchecked,
    hdiffusion, hrates, hst'⟩, ?_, fun c hc q => ?_⟩
  · rw [GridState.value, hfits.dofs, hvalues, Array.getD_eq_getD_getElem?]
    simp [hx.fits.lt_size_values hx.lt_points hlt]
  · rw [GridState.value, GridState.value, hfits.dofs, hx.fits.dofs, hvalues,
      Array.getD_eq_getD_getElem?, Array.getD_eq_getD_getElem?,
      Array.getElem?_setIfInBounds_ne (h.place_ne hc q _ hi p)]

/-- Where a point is heated, along with its temperature in the state, the clusters change by the
rates of the new temperature at the old concentrations. -/
theorem Sound.exists_flux_heated (h : x.Sound) (hx : x.LooksUp s p rates st) {i : Nat}
    (hi : i ∈ x.pattern.temperature?) {t : ℝ} (ht : 0 < t) :
    ∃ s' out, s.set p i t = .ok s' ∧ (x.heated p t).flux s' p = .ok out ∧ out.size = x.dofs ∧
      ∀ row < x.net.size, out.getD row 0 = x.clusterFlux p st s.value row t := by
  obtain ⟨spec, hb⟩ := h.network
  obtain ⟨s', st', generation, hset, hx', htemperature, hother⟩ := h.exists_looksUp_heated hx hi ht
  obtain ⟨out, hflux, hsize, hentry⟩ := (h.heated p t).exists_pointFlux hx'
  have hcenter : ∀ c < x.net.size, st'.center.getD c 0 = st.center.getD c 0 := by
    intro c hc
    have hc' := hc.trans_le h.size_le
    rw [GridState.getD_point (stencil_eq_ok hx'.stencil).1 (hc'.trans_eq hx'.fits.dofs.symm),
      GridState.getD_point (stencil_eq_ok hx.stencil).1 (hc'.trans_eq hx.fits.dofs.symm),
      hother c hc p]
  have hread : (x.heated p t).temperatureOf (x.neighbours p) s'.value = t := by
    change x.temperatureOf (x.neighbours p) s'.value = t
    rw [temperatureOf, hi, Option.elim_some]
    exact htemperature
  refine ⟨s', out, hset, (flux_eq hx'.fits).trans hflux, hsize, fun row hrow => ?_⟩
  have hreactions : ((x.net.reactions.toList.zip
      (PointRates.ofTemperature x.net p t).rates.toList).map fun y =>
        reactionFlux (Pi.single row 1) st'.center y.1 y.2.value).sum =
      (x.net.reactions.toList.map fun r =>
        reactionFlux (Pi.single row 1) st.center r (x.net.rateAt r t).value).sum := by
    rw [PointRates.zip_ofTemperature, List.map_map]
    refine congrArg List.sum (List.map_congr_left fun r hr => ?_)
    exact reactionFlux_congr (fun c hc => hcenter c (hb.lt_size_of_mem_participants hr
      (Term.mem_participants_of_mem_factors hc))) _
  have htransport : entryTotal (Pi.single row 1) ((x.neighbours p).read s'.value)
      (x.ownEntries (PointRates.ofTemperature x.net p t) st' t) =
      x.transportFlux (PointRates.ofTemperature x.net p t) st (x.neighbours p) s.value
        (Pi.single row 1) t := by
    have hshows : st'.Shows (x.neighbours p) s'.value x.dofs := hx'.shows
    rw [entryTotal_ownEntries hshows]
    exact (h.transportFlux_congr (sameFrame_of_stencil hx.stencil hx'.stencil) hother _ t).symm
  have hrow' := hentry row (hrow.trans_le h.size_le)
  have hneighbours : (x.heated p t).neighbours p = x.neighbours p := rfl
  have hgain : (x.heated p t).heatGain st' (x.neighbours p) s'.value row = 0 :=
    heatGain_of_ne hrow.ne
  rw [hneighbours, hread, hgain, add_zero] at hrow'
  exact hrow'.trans (congrArg₂ (· + ·) hreactions htransport)

/-- The derivatives of transport with respect to the clusters' own values stand in their columns. -/
theorem Sound.column_lt_of_mem_ownEntries (h : x.Sound) {t : ℝ} {e : StencilEntry ℝ}
    (he : e ∈ x.ownEntries rates st t) : e.column < x.net.size := by
  rw [ownEntries] at he
  rcases List.mem_append.mp he with he | he
  · cases hd : x.diffusion with
    | none =>
      rw [hd] at he
      cases he
    | some d =>
      rw [hd] at he
      obtain ⟨i, hi, he⟩ := List.mem_flatMap.mp he
      have hplace := List.mem_map_of_mem (f := StencilEntry.place) he
      rw [Diffusion.map_place_ownPartials] at hplace
      have hcolumn : e.column = i := (Diffusion.eq_of_mem_ownPlaces hplace).2
      exact hcolumn.trans_lt (h.lt_size_of_mem_diffusion hd i hi)
  · cases hd : x.drift with
    | none =>
      rw [hd] at he
      cases he
    | some d =>
      rw [hd] at he
      obtain ⟨i, hi, he⟩ := List.mem_flatMap.mp he
      have hcolumn : e.column = i := by
        rw [ThermalDrift.ownPartials] at he
        cases hleft : st.left.isSome <;> simp [hleft] at he
        · rw [he]
        · rcases he with rfl | rfl <;> rfl
      exact hcolumn.trans_lt (h.lt_size_of_mem_drift hd i hi)

/-- In the row of a cluster and the column of the point's own temperature, the slopes of the
reactions and those of transport are listed. -/
theorem Sound.exists_jacobian_temperature (h : x.Sound) (hx : x.LooksUp s p rates st) {i : Nat}
    (hi : i ∈ x.pattern.temperature?) : ∃ ts, x.jacobian s p = .ok ts ∧ ∀ row < x.net.size,
      totalAt ts (p * x.dofs + row) (p * x.dofs + i) =
        ((x.net.reactions.toList.zip rates.rates.toList).map fun y =>
          reactionFlux (Pi.single row 1) st.center y.1 y.2.slope).sum +
        x.transportSlope rates st (x.neighbours p) s.value (Pi.single row 1) := by
  obtain ⟨spec, hb⟩ := h.network
  obtain ⟨ts, hts, htotal⟩ := h.exists_jacobian_totals hx
  refine ⟨ts, hts, fun row hrow => ?_⟩
  let δ : Nat → Nat → ℝ := fun q c => (Pi.single (p * x.dofs + i) 1 : Nat → ℝ) (q * x.dofs + c)
  have hδ : ∀ c < x.net.size, ∀ q, δ q c = 0 := fun c hc q =>
    Pi.single_eq_of_ne (h.place_ne hc q i hi p).symm 1
  have hreactions : ((x.net.reactions.toList.zip rates.rates.toList).map fun y =>
      reactionSlope (Pi.single row 1) (δ p) st.center y.1 y.2.value).sum = 0 := by
    refine List.sum_eq_zero fun z hz => ?_
    obtain ⟨y, hy, rfl⟩ := List.mem_map.mp hz
    refine reactionSlope_eq_zero (fun c hc => hδ c ?_ p) _
    exact hb.lt_size_of_mem_participants (List.of_mem_zip hy).1
      (Term.mem_participants_of_mem_factors hc)
  have hown : entryTotal (Pi.single row 1) ((x.neighbours p).read δ)
      (x.ownEntries rates st (x.temperatureOf (x.neighbours p) s.value)) = 0 := by
    refine List.sum_eq_zero fun z hz => ?_
    obtain ⟨e, he, rfl⟩ := List.mem_map.mp hz
    have hread : (x.neighbours p).read δ e.offset e.column = 0 := by
      rw [Neighbours.read]
      cases (x.neighbours p).resolve e.offset with
      | none => rfl
      | some q => exact hδ e.column (h.column_lt_of_mem_ownEntries he) q
    rw [hread, mul_zero, mul_zero]
  have hone : x.pattern.temperature?.elim 0 (δ p) = 1 := by
    rw [hi, Option.elim_some]
    exact Pi.single_eq_same _ _
  have hcolumn : ∀ t ∈ x.pattern.temperature?, row ≠ t ∨ ∀ q, q * x.dofs + t ≠ p * x.dofs + i :=
    fun t ht => .inl ((h.eq_size_of_mem ht).1 ▸ hrow.ne)
  refine (htotal row (hrow.trans_le h.size_le) _ hcolumn).trans ?_
  rw [hreactions, hown, hone, zero_add, zero_add, one_mul]

/-- The rates at a point of a sound simulation are those of its network, at a positive
temperature. -/
theorem Sound.rates_eq (h : x.Sound)
    (hchecked : x.tables.checked p x.tables.generation = .ok rates) : 0 < rates.temperature ∧
      ∃ generation, rates =
        { PointRates.ofTemperature x.net p rates.temperature with generation } := by
  obtain ⟨spec, hb⟩ := h.network
  have hget := (RateTables.checked_eq_ok_iff.mp hchecked).1
  have hfresh := h.tables.fresh rates (Array.mem_toList_iff.mpr (Array.mem_of_getElem? hget))
  have hpositive := Scalar.isPositive_real.mp hfresh.isPositive_temperature
  obtain ⟨q', hq', hstamp⟩ := hfresh
  rw [h.tables.point_eq hget] at hq'
  obtain rfl := Except.ok.inj (hq'.symm.trans (hb.compute_eq_ofTemperature p hpositive))
  exact ⟨hpositive, _, hstamp⟩

/-- The listed slopes are the derivatives along the path on which a point is heated, at the
temperature that its rates are of. -/
theorem Sound.hasDerivAt_flux_heated (h : x.Sound) (hx : x.LooksUp s p rates st) {i : Nat}
    (hi : i ∈ x.pattern.temperature?) (hsame : rates.temperature = s.value p i) :
    ∃ f : ℝ → Array ℝ, (∀ t, 0 < t → ∃ s', s.set p i t = .ok s' ∧
        (x.heated p t).flux s' p = .ok (f t) ∧ (f t).size = x.dofs) ∧
      ∀ row < x.net.size, HasDerivAt (fun t => (f t).getD row 0)
        (((x.net.reactions.toList.zip rates.rates.toList).map fun y =>
            reactionFlux (Pi.single row 1) st.center y.1 y.2.slope).sum +
          x.transportSlope rates st (x.neighbours p) s.value (Pi.single row 1))
        (s.value p i) := by
  obtain ⟨hpositive, generation, hrates⟩ := h.rates_eq hx.checked
  rw [hsame] at hpositive hrates
  have hflux : ∀ t, ∃ out : Array ℝ, 0 < t → (∃ s', s.set p i t = .ok s' ∧
      (x.heated p t).flux s' p = .ok out ∧ out.size = x.dofs) ∧
      ∀ row < x.net.size, out.getD row 0 = x.clusterFlux p st s.value row t := by
    intro t
    rcases lt_or_ge 0 t with ht | ht
    · obtain ⟨s', out, hset, hout, hsize, hentry⟩ := h.exists_flux_heated hx hi ht
      exact ⟨out, fun _ => ⟨⟨s', hset, hout, hsize⟩, hentry⟩⟩
    · exact ⟨#[], fun ht' => absurd ht' ht.not_gt⟩
  choose f hf using hflux
  refine ⟨f, fun t ht => (hf t ht).1, fun row hrow => ?_⟩
  have hread : x.temperatureOf (x.neighbours p) s.value = s.value p i := by
    rw [temperatureOf, hi]
    rfl
  -- Only at positive temperatures are there rates, so the two agree around the one of the state.
  have hclosed : ∀ᶠ t in nhds (s.value p i), (f t).getD row 0 = x.clusterFlux p st s.value row t :=
    (eventually_gt_nhds hpositive).mono fun t ht => (hf t ht).2 row hrow
  rw [hrates]
  exact (h.hasDerivAt_clusterFlux hpositive hread row).congr_of_eventuallyEq hclosed

/-- Below the surface as well as in the vacuum. -/
theorem Sound.hasDerivAt_temperature (h : x.Sound) (hs : x.Fits s) (hp : p < x.shape.points)
    {i : Nat} (hi : i ∈ x.pattern.temperature?)
    (hcached : x.tables.points[p]?.map PointRates.temperature = some (s.value p i)) :
    ∃ ts, x.jacobian s p = .ok ts ∧ ∃ f : ℝ → Array ℝ,
      (∀ t, 0 < t → ∃ s', s.set p i t = .ok s' ∧ (x.heated p t).flux s' p = .ok (f t) ∧
        (f t).size = x.dofs) ∧
      ∀ row < x.net.size, HasDerivAt (fun t => (f t).getD row 0)
        (totalAt ts (p * x.dofs + row) (p * x.dofs + i)) (s.value p i) := by
  obtain ⟨rfl, hlt⟩ := h.eq_size_of_mem hi
  cases hvacuum : x.isVacuum p with
  | true =>
    refine ⟨[], jacobian_of_isVacuum hs hp hvacuum, fun _ => Array.replicate x.dofs 0,
      fun t _ => ?_, fun row _ => hasDerivAt_const _ _⟩
    obtain ⟨s', hset, hfits, -⟩ := hs.exists_set hp hlt t
    have hfits' : (x.heated p t).Fits s' := ⟨hfits.shape, hfits.dofs⟩
    exact ⟨s', hset, (flux_eq hfits').trans (pointFlux_of_isVacuum hfits' hp hvacuum),
      Array.size_replicate⟩
  | false =>
    obtain ⟨rates, hlook⟩ := h.exists_looksUp hp hvacuum
    obtain ⟨st, hx⟩ := hlook s hs
    have hsame : rates.temperature = s.value p x.net.size := by
      rw [(RateTables.checked_eq_ok_iff.mp hx.checked).1] at hcached
      exact Option.some.inj hcached
    obtain ⟨ts, hts, htotal⟩ := h.exists_jacobian_temperature hx hi
    obtain ⟨f, hf, hderiv⟩ := h.hasDerivAt_flux_heated hx hi hsame
    exact ⟨ts, hts, f, hf, fun row hrow => (htotal row hrow).symm ▸ hderiv row hrow⟩

/-- For a network that was built, the slopes of all coefficients and rates are the derivatives of
their values with respect to temperature. In any simulation built from it, where the state agrees
with the tables about the temperature of a point, the derivatives listed in the column of that
temperature add up to those of the rates of change of the clusters there, with the tables and the
state heated together. -/
theorem temperature_hasDerivAt {spec : NetworkSpec ℝ} {net : Network ℝ}
    (hnet : (Network.build spec).value = .ok net) :
    (∀ point, ∃ rates : ℝ → PointRates ℝ, ∀ t, 0 < t →
      PointRates.compute net point t = .ok (rates t) ∧
      (rates t).diffusion.size = net.size ∧ (rates t).rates.size = net.reactions.size ∧
      (∀ i < net.size, HasDerivAt (fun t => ((rates t).diffusion.getD i .zero).value)
        ((rates t).diffusion.getD i .zero).slope t) ∧
      ∀ n < net.reactions.size, HasDerivAt (fun t => ((rates t).rates.getD n .zero).value)
        ((rates t).rates.getD n .zero).slope t) ∧
    ∀ (grid : DepthGrid ℝ) (config : SimulationConfig ℝ) (start : Simulation ℝ),
      (build net grid config).value = .ok start → ∀ calls : List (Call ℝ),
      let x := start.performAll calls
      ∀ s : GridState ℝ, s.shape = x.shape → s.dofs = x.dofs → ∀ p < x.shape.points,
        ∀ i ∈ x.pattern.temperature?,
        x.tables.points[p]?.map PointRates.temperature = some (s.value p i) →
        ∃ ts, x.jacobian s p = .ok ts ∧ ∃ f : ℝ → Array ℝ,
          (∀ t, 0 < t →
            (∃ n, (x.tables.update net (x.tables.temperaturesWith p t)).2 = .ok n) ∧
            ∃ s', s.set p i t = .ok s' ∧ (x.heated p t).flux s' p = .ok (f t) ∧
              (f t).size = x.dofs) ∧
          ∀ row < net.size, HasDerivAt (fun t => (f t).getD row 0)
            (totalAt ts (p * x.dofs + row) (p * x.dofs + i)) (s.value p i) := by
  have hb := Network.builtFrom_of_build hnet
  constructor
  · intro point
    refine ⟨PointRates.ofTemperature net point, fun t ht => ?_⟩
    obtain ⟨hdiffusion, hrates⟩ := PointRates.size_ofTemperature net point t
    exact ⟨hb.compute_eq_ofTemperature point ht, hdiffusion, hrates,
      fun i hi => PointRates.hasSlopeAt_diffusion net point hi ht,
      fun n hn => PointRates.hasSlopeAt_rates hb point hn ht⟩
  · intro grid config start hstart calls x s hshape hdofs p hp i hi hcached
    obtain ⟨hbuilt, hstart', -⟩ := sound_of_build hnet hstart
    obtain ⟨h, hcalls, -⟩ := hbuilt.performAll calls
    obtain rfl : x.net = net := hcalls.trans hstart'
    obtain ⟨ts, hts, f, hf, hderiv⟩ := h.hasDerivAt_temperature ⟨hshape, hdofs⟩ hp hi hcached
    exact ⟨ts, hts, f, fun t ht => ⟨(h.exists_checked_heated hp ht).1, hf t ht⟩, hderiv⟩

/-- Xenon up to two in tungsten at 900 K throughout, with drift: the monomer at the middle node. -/
theorem temperature_hasDerivAt_xenon :
    ∃ net start, (Network.build (NetworkSpec.xenon 2 : NetworkSpec ℝ)).value = .ok net ∧
      (build net ⟨#[0, 1, 3], 1, 1, 1⟩ { SimulationConfig.standard with
        heat := some (.ofMaterial 1 900 "W100"), drift := ⟨true, 1, 1, 1⟩ }).value = .ok start ∧
      let s := GridState.tabulate start.shape start.dofs fun _ _ => 900
      ∃ ts, ∃ f : ℝ → Array ℝ, start.jacobian s 1 = .ok ts ∧
        (∀ t, 0 < t → ∃ s', s.set 1 2 t = .ok s' ∧ (start.heated 1 t).flux s' 1 = .ok (f t)) ∧
        HasDerivAt (fun t => (f t).getD 0 0)
          (totalAt ts (1 * start.dofs + 0) (1 * start.dofs + 2)) 900 := by
  obtain ⟨net, hnet, hsize⟩ := Network.exists_build_xenon
  have hb := Network.builtFrom_of_build hnet
  have hvalid : (⟨true, 1, 1, 1⟩ : DriftSettings ℝ).validate true = .ok () := by
    simp [DriftSettings.validate, Scalar.isFinite_real, pure, Except.pure]
  obtain ⟨start, hstart⟩ := exists_build_heated_drift hb hvalid
  refine ⟨net, start, hnet, hstart, ?_⟩
  intro s
  obtain ⟨h, rfl, hgrid, hconfig⟩ := sound_of_build hnet hstart
  have hheated : start.pattern.hasTemperature = true :=
    ((builtFrom_of_build hstart).pattern hb).2.2.1
  have htemperature := h.temperature?_eq hheated
  have hlt := h.size_lt hheated
  rw [hsize] at htemperature hlt
  have hpoints : start.shape.points = 3 := by
    rw [shape, hgrid, hconfig]
    rfl
  have hcached : start.tables.points[1]?.map PointRates.temperature = some 900 := by
    have htemperatures := congrArg (·[1]?) (builtFrom_of_build hstart).temperatures
    simpa [startTemperature, HeatSettings.ofMaterial, DepthGrid.size, SimulationConfig.standard]
      using htemperatures
  have hvalue : s.value 1 2 = 900 := GridState.value_tabulate (by omega) hlt
  have hpoint : 1 < start.shape.points := by omega
  obtain ⟨ts, hts, f, hf, hderiv⟩ := (temperature_hasDerivAt hnet).2 _ _ start hstart [] s rfl rfl 1
    hpoint 2 htemperature (hvalue.symm ▸ hcached)
  refine ⟨ts, f, hts, fun t ht => ?_, hvalue ▸ hderiv 0 (by omega)⟩
  obtain ⟨-, s', hset, hflux, -⟩ := hf t ht
  exact ⟨s', hset, hflux⟩

end Simulation

end ClusterDynamics
