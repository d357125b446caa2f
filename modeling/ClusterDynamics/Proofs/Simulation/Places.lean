import ClusterDynamics.Proofs.Simulation.Readiness
import ClusterDynamics.Proofs.Transport.Places

/-! Where the derivatives at a point stand. The list of places is fixed by the network, the settings
and the surface, so room for the derivatives can be made before any state is known. Within the
block of the point itself the places are those of the fill pattern: the derivatives with respect to
a neighbour that turns out to be the point itself, as the one below does at the bulk end, fall on
places that the pattern has already. -/

namespace ClusterDynamics

section Block

variable {K : Type} [Scalar K] {pattern : FillPattern} {base row column : Nat}

def Triplet.place (t : Triplet K) : Nat × Nat := (t.row, t.column)

/-- The places of a fill pattern's entries, counted from `base`. -/
def FillPattern.places (pattern : FillPattern) (base : Nat) : List (Nat × Nat) :=
  (List.range pattern.size).flatMap fun row =>
    (pattern.rows.getD row []).map fun column => (base + row, base + column)

theorem FillPattern.mem_places_iff {y : Nat × Nat} : y ∈ pattern.places base ↔
    ∃ row column, pattern.Has row column ∧ y = (base + row, base + column) := by
  simp only [places, List.mem_flatMap, List.mem_range, List.mem_map]
  constructor
  · rintro ⟨row, hrow, column, hcolumn, rfl⟩
    have hget := Array.getElem?_eq_getElem hrow
    rw [Array.getD_eq_getD_getElem?, hget, Option.getD_some] at hcolumn
    exact ⟨row, column, has_iff.mpr ⟨_, hget, hcolumn⟩, rfl⟩
  · rintro ⟨row, column, hhas, rfl⟩
    obtain ⟨columns, hget, hcolumn⟩ := has_iff.mp hhas
    refine ⟨row, hhas.lt_size, column, ?_, rfl⟩
    rwa [Array.getD_eq_getD_getElem?, hget, Option.getD_some]

theorem Simulation.map_place_blockTriplets (base : Nat) {values : Array K}
    (hvalues : values.size = pattern.entryCount) :
    (blockTriplets base { (SparseBlock.ofPattern pattern : SparseBlock K) with values }).map
      Triplet.place = pattern.places base := by
  have hcount : (SparseBlock.ofPattern pattern : SparseBlock K).starts.size - 1 = pattern.size := by
    simp [SparseBlock.ofPattern, size_runningTotals, FillPattern.size]
  rw [blockTriplets, SparseBlock.allRows, SparseBlock.rows, SparseBlock.rowCount,
    List.filterMap_eq_flatMap_toList, List.flatMap_assoc, List.map_flatMap, hcount,
    FillPattern.places]
  refine List.flatMap_congr fun row hrow => ?_
  have hrow' : row < pattern.rows.size := List.mem_range.mp hrow
  have hget : pattern.rows[row]? = some pattern.rows[row] := Array.getElem?_eq_getElem hrow'
  obtain ⟨vs, hread, hlength⟩ := SparseBlock.exists_row_ofPattern hget hvalues
  rw [hread, Array.getD_eq_getD_getElem?, hget]
  simp only [Except.toOption, Option.toList_some, List.flatMap_singleton, Option.getD_some]
  refine List.ext_getElem (by simp [hlength]) fun k _ _ => ?_
  simp [Triplet.place]

end Block

namespace Simulation

variable {K : Type} [Scalar K] {x : Simulation K} {s : GridState K} {p : Nat}
  {rates : PointRates K} {st : Stencil K} {row column : Nat}

def heatPlaces (x : Simulation K) : List StencilPlace :=
  match x.heat, x.pattern.temperature? with
  | some h, some t => h.offsets.map fun o => (t, o, t)
  | _, _ => []

/-- The places of what transport and heat contribute to a stencil's derivatives. -/
def stencilPlaces (x : Simulation K) (above : Bool) (axes : Nat) : List StencilPlace :=
  x.diffusion.elim [] (·.places above axes) ++ x.drift.elim [] (·.places above) ++ x.heatPlaces

/-- The places of the derivatives at a point of the material. -/
def places (x : Simulation K) (p : Nat) : List (Nat × Nat) :=
  x.pattern.places (p * x.dofs) ++
    (x.stencilPlaces (x.neighbours p).left.isSome (x.neighbours p).transverse.length).filterMap
      fun y => ((x.neighbours p).resolve y.2.1).map fun q =>
        (p * x.dofs + y.1, q * x.dofs + y.2.2)

omit [Scalar K] in
theorem map_place_stencilTriplets (base dofs : Nat) (nb : Neighbours) (es : List (StencilEntry K)) :
    (stencilTriplets base dofs nb es).map Triplet.place =
      (es.map StencilEntry.place).filterMap fun y => (nb.resolve y.2.1).map fun q =>
        (base + y.1, q * dofs + y.2.2) := by
  rw [stencilTriplets, List.map_filterMap, List.filterMap_map]
  refine List.filterMap_congr fun e _ => ?_
  rw [Option.map_map]
  rfl

theorem map_place_stencilEntries {es : List (StencilEntry K)}
    (h : x.stencilEntries rates st = .ok es) :
    es.map StencilEntry.place = x.stencilPlaces st.left.isSome st.transverse.length := by
  obtain ⟨diffusion, hdiffusion, h⟩ := bind_eq_ok_iff.mp h
  obtain ⟨drift, hdrift, h⟩ := bind_eq_ok_iff.mp h
  obtain ⟨heat, hheat, h⟩ := bind_eq_ok_iff.mp h
  obtain rfl := Except.ok.inj h
  have hdiffusion' : diffusion.map StencilEntry.place =
      x.diffusion.elim [] (·.places st.left.isSome st.transverse.length) := by
    unfold diffusionEntries at hdiffusion
    cases hd : x.diffusion with
    | none =>
      rw [hd] at hdiffusion
      obtain rfl := Except.ok.inj hdiffusion
      rfl
    | some d =>
      rw [hd] at hdiffusion
      exact Diffusion.map_place_partials (mapError_eq_ok_iff.mp hdiffusion)
  have hdrift' : drift.map StencilEntry.place = x.drift.elim [] (·.places st.left.isSome) := by
    unfold driftEntries at hdrift
    cases hd : x.drift with
    | none =>
      rw [hd] at hdrift
      obtain rfl := Except.ok.inj hdrift
      rfl
    | some d =>
      rw [hd] at hdrift
      exact ThermalDrift.map_place_partials (mapError_eq_ok_iff.mp hdrift)
  have hheat' : heat.map StencilEntry.place = x.heatPlaces := by
    unfold heatEntries at hheat
    unfold heatPlaces
    cases hy : x.heat with
    | none =>
      rw [hy] at hheat
      obtain rfl := Except.ok.inj hheat
      rfl
    | some y =>
      rw [hy] at hheat
      cases ht : x.pattern.temperature? with
      | none =>
        rw [ht] at hheat
        obtain rfl := Except.ok.inj hheat
        rfl
      | some t =>
        rw [ht] at hheat
        obtain ⟨entries, hentries, hheat⟩ := bind_eq_ok_iff.mp hheat
        obtain rfl := Except.ok.inj hheat
        dsimp only
        rw [← HeatEquation.map_fst_partials hentries, List.map_map, List.map_map]
        rfl
  rw [List.map_append, List.map_append, hdiffusion', hdrift', hheat', stencilPlaces]

theorem Sound.map_place_jacobian (h : x.Sound) (hs : x.Fits s) (hp : p < x.shape.points)
    (hvacuum : x.isVacuum p = false) :
    ∃ ts, x.jacobian s p = .ok ts ∧ ts.map Triplet.place = x.places p := by
  obtain ⟨ts, hts⟩ := h.exists_jacobian_of_fits hs hp
  refine ⟨ts, hts, ?_⟩
  obtain ⟨rates, hlook⟩ := h.exists_looksUp hp hvacuum
  obtain ⟨st, hx⟩ := hlook s hs
  rw [hx.jacobian_eq] at hts
  obtain ⟨block, hblock, hts⟩ := bind_eq_ok_iff.mp hts
  obtain ⟨es, hes, hts⟩ := bind_eq_ok_iff.mp hts
  obtain rfl := Except.ok.inj hts
  obtain ⟨hsame, hsize⟩ := Assembly.eq_of_addPartials hblock
  rw [Assembly.ofNetwork_template h.assembly] at hsame hsize
  have hvalues : block.values.size = x.pattern.entryCount := by
    simpa [SparseBlock.ofPattern] using hsize
  have hblock' := map_place_blockTriplets (p * x.dofs) hvalues
  rw [← hsame] at hblock'
  obtain ⟨habove, haxes⟩ := frame_of_stencil hx.stencil
  rw [List.map_append, hblock', map_place_stencilTriplets, map_place_stencilEntries hes, habove,
    haxes, places]

section Pattern

variable {above : Bool} {axes : Nat}

/-- Whatever transport lists is an entry of the fill pattern, at whichever point of the stencil. -/
theorem Sound.has_of_mem_stencilPlaces (h : x.Sound) {y : StencilPlace}
    (hy : y ∈ x.stencilPlaces above axes) : x.pattern.Has y.1 y.2.2 := by
  rcases List.mem_append.mp hy with hy | hy
  · rcases List.mem_append.mp hy with hy | hy
    · cases hd : x.diffusion with
      | none =>
        rw [hd] at hy
        cases hy
      | some d =>
        rw [hd] at hy
        obtain ⟨hi, hcolumn⟩ := Diffusion.mem_places hy
        have hrow : y.1 < x.dofs := (h.lt_size_of_mem_diffusion hd _ hi).trans_le h.size_le
        rcases hcolumn with hcolumn | hcolumn
        · rw [hcolumn]
          exact h.closed.diagonal _ hrow
        · rw [h.diffusion d hd] at hcolumn
          exact h.closed.temperature _ hcolumn _ hrow
    · cases hd : x.drift with
      | none =>
        rw [hd] at hy
        cases hy
      | some d =>
        rw [hd] at hy
        obtain ⟨-, htemperature, ht⟩ := h.drift d hd
        obtain ⟨hi, hcolumn⟩ := ThermalDrift.mem_places hy
        have hrow : y.1 < x.dofs := (h.lt_size_of_mem_drift hd _ hi).trans_le h.size_le
        rcases hcolumn with hcolumn | hcolumn
        · rw [hcolumn]
          exact h.closed.diagonal _ hrow
        · refine h.closed.temperature _ ?_ _ hrow
          rw [hcolumn, htemperature]
          exact h.temperature?_eq ht
  · unfold heatPlaces at hy
    split at hy
    · next t _ ht =>
      obtain ⟨o, -, rfl⟩ := List.mem_map.mp hy
      obtain ⟨rfl, hlt⟩ := h.eq_size_of_mem ht
      exact h.closed.diagonal _ hlt
    · cases hy

/-- What a list of places at a point has to be: empty in vacuum; elsewhere the point's own rows by
columns at the points of its stencil, among them the fill pattern and, where the columns are the
point's own, nothing else. -/
structure Lists (x : Simulation K) (p : Nat) (places : List (Nat × Nat)) : Prop where
  vacuum : x.isVacuum p = true → places = []
  stencil : ∀ y ∈ places, ∃ row < x.dofs, ∃ column < x.dofs, ∃ o q,
    (x.neighbours p).resolve o = some q ∧ y = (p * x.dofs + row, q * x.dofs + column)
  own : ∀ row < x.dofs, ∀ column < x.dofs,
    (p * x.dofs + row, p * x.dofs + column) ∈ places → x.pattern.Has row column
  pattern : x.isVacuum p = false → ∀ row column, x.pattern.Has row column →
    (p * x.dofs + row, p * x.dofs + column) ∈ places

theorem mem_places_of_has (h : x.pattern.Has row column) :
    (p * x.dofs + row, p * x.dofs + column) ∈ x.places p :=
  List.mem_append_left _ (FillPattern.mem_places_iff.mpr ⟨row, column, h, rfl⟩)

theorem Sound.exists_of_mem_places (h : x.Sound) {y : Nat × Nat} (hy : y ∈ x.places p) :
    ∃ row column o q, x.pattern.Has row column ∧ (x.neighbours p).resolve o = some q ∧
      y = (p * x.dofs + row, q * x.dofs + column) := by
  rcases List.mem_append.mp hy with hy | hy
  · obtain ⟨row, column, hhas, rfl⟩ := FillPattern.mem_places_iff.mp hy
    exact ⟨row, column, .center, p, hhas, rfl, rfl⟩
  · obtain ⟨⟨row, o, column⟩, hmem, hy⟩ := List.mem_filterMap.mp hy
    obtain ⟨q, hq, rfl⟩ := Option.map_eq_some_iff.mp hy
    exact ⟨row, column, o, q, h.has_of_mem_stencilPlaces hmem, hq, rfl⟩

theorem Sound.lists_places (h : x.Sound) (hvacuum : x.isVacuum p = false) :
    x.Lists p (x.places p) := by
  refine ⟨fun hno => ?_, fun y hy => ?_, fun row hrow column hcolumn hmem => ?_,
    fun _ row column hhas => mem_places_of_has hhas⟩
  · rw [hvacuum] at hno
    cases hno
  · obtain ⟨row, column, o, q, hhas, hq, rfl⟩ := h.exists_of_mem_places hy
    exact ⟨row, hhas.lt_size, column, h.closed.lt_size _ _ hhas, o, q, hq, rfl⟩
  · obtain ⟨row', column', o, q, hhas, -, hplace⟩ := h.exists_of_mem_places hmem
    obtain ⟨hsame, hsame'⟩ := Prod.mk.inj hplace
    obtain rfl : row = row' := Nat.add_left_cancel hsame
    -- Both columns are below the number of degrees of freedom, which the blocks are multiples of.
    have hlt : column' < x.dofs := h.closed.lt_size _ _ hhas
    have hmod := congrArg (· % x.dofs) hsame'
    simp only [Nat.mul_add_mod_self_right, Nat.mod_eq_of_lt hcolumn, Nat.mod_eq_of_lt hlt] at hmod
    rwa [hmod]

end Pattern

/-- For every point of a simulation that was built there is one list of places, which is that of the
derivatives for any state. -/
theorem places_after_calls {spec : NetworkSpec K} {net : Network K} {grid : DepthGrid K}
    {config : SimulationConfig K} {start : Simulation K}
    (hnet : (Network.build spec).value = .ok net)
    (hstart : (build net grid config).value = .ok start) (calls : List (Call K)) :
    let x := start.performAll calls
    ∀ p < x.shape.points, ∃ places, x.Lists p places ∧
      ∀ s, x.Fits s → ∃ ts, x.jacobian s p = .ok ts ∧ ts.map Triplet.place = places := by
  intro x p hp
  obtain ⟨h, -⟩ := sound_after_calls hnet hstart calls
  cases hvacuum : x.isVacuum p with
  | true =>
    refine ⟨[], ⟨fun _ => rfl, nofun, nofun, ?_⟩, fun s hs => ?_⟩
    · intro hno
      rw [hvacuum] at hno
      cases hno
    · exact ⟨[], jacobian_of_isVacuum hs hp hvacuum, rfl⟩
  | false =>
    exact ⟨x.places p, h.lists_places hvacuum, fun s hs => h.map_place_jacobian hs hp hvacuum⟩

/-- Xenon up to two on three nodes, with the surface moved to the middle one: the first node is
vacuum, and at the last one the monomer depends on itself. -/
theorem places_after_calls_xenon :
    ∃ net start, (Network.build (NetworkSpec.xenon 2 : NetworkSpec ℝ)).value = .ok net ∧
      (build net ⟨#[0, 1, 3], 1, 1, 1⟩ SimulationConfig.standard).value = .ok start ∧
      let x := start.performAll [.setSurface 0 0 1]
      let s := GridState.zeros x.shape x.dofs
      x.jacobian s 0 = .ok [] ∧ ∃ ts, x.jacobian s 2 = .ok ts ∧
        (2 * x.dofs + 0, 2 * x.dofs + 0) ∈ ts.map Triplet.place := by
  obtain ⟨net, hnet, hsize⟩ := Network.exists_build_xenon
  obtain ⟨start, hstart⟩ := exists_build_standard (Network.builtFrom_of_build hnet)
  refine ⟨net, start, hnet, hstart, ?_⟩
  intro x s
  obtain ⟨h, hnet', -⟩ := sound_after_calls hnet hstart [.setSurface 0 0 1]
  obtain ⟨hshape, hvacuum⟩ : x.shape = _ ∧ _ :=
    isVacuum_of_setSurface hnet hstart rfl rfl (show 1 < 3 by decide)
  have hpoints : ∀ p < 3, p < x.shape.points := by
    rw [hshape]
    exact fun p hp => hp
  have hplaces := places_after_calls hnet hstart [.setSurface 0 0 1]
  constructor
  · obtain ⟨places, hlists, hall⟩ := hplaces 0 (hpoints 0 (by omega))
    obtain ⟨ts, hts, hmap⟩ := hall s ⟨rfl, rfl⟩
    rw [hlists.vacuum (hvacuum 0 (by decide)), List.map_eq_nil_iff] at hmap
    rw [hts, hmap]
  · obtain ⟨places, hlists, hall⟩ := hplaces 2 (hpoints 2 (by omega))
    obtain ⟨ts, hts, hmap⟩ := hall s ⟨rfl, rfl⟩
    have hpositive : 0 < x.pattern.size := by
      have hle := h.size_le
      rw [hnet', hsize] at hle
      exact Nat.zero_lt_of_lt hle
    refine ⟨ts, hts, ?_⟩
    rw [hmap]
    exact hlists.pattern (hvacuum 2 (by decide)) 0 0 (h.closed.diagonal 0 hpositive)

end Simulation

end ClusterDynamics
