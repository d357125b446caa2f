import ClusterDynamics.Heat.Equation
import ClusterDynamics.Proofs.Outcome
import ClusterDynamics.Transport.ThermalDrift

/-! Where the derivatives of transport and of the heat equation stand. The places are told by the
settings, by whether there is a point above, and by the number of transverse axes in use. No value
of the stencil and no rate enters, so an entry that happens to be zero is listed as well. -/

namespace ClusterDynamics

variable {K : Type} [Scalar K] {st : Stencil K} {p : PointRates K} {i : Nat}

/-- A row, and the value of the stencil that it depends on. -/
abbrev StencilPlace := Nat × Offset × Nat

def StencilEntry.place (e : StencilEntry K) : StencilPlace := (e.row, e.offset, e.column)

omit [Scalar K] in
/-- A pass whose steps list their entries at known places lists all its entries at known places. -/
theorem map_place_flatten {α : Type} {f : α → Except OutOfRange (List (StencilEntry K))}
    {places : α → List StencilPlace} {xs : List α} {ess : List (List (StencilEntry K))}
    (hf : ∀ x ∈ xs, ∀ es, f x = .ok es → es.map StencilEntry.place = places x)
    (h : xs.mapM f = .ok ess) : ess.flatten.map StencilEntry.place = xs.flatMap places := by
  have hpass := mapM_eq_ok_iff.mp h
  clear h
  induction hpass with
  | nil => rfl
  | @cons x es xs _ hx _ ih =>
    have hhead := hf x List.mem_cons_self es hx
    have htail := ih fun y hy => hf y (List.mem_cons_of_mem _ hy)
    rw [List.flatten_cons, List.map_append, hhead, htail, List.flatMap_cons]

namespace Diffusion

variable {d : Diffusion}

/-- The places of cluster `i`'s derivatives with respect to its own values. -/
def ownPlaces (above : Bool) (axes i : Nat) : List StencilPlace :=
  (i, .center, i) :: (if above then [(i, .left, i)] else []) ++ (i, .right, i) ::
    (List.range axes).flatMap fun axis => [(i, .minus axis, i), (i, .plus axis, i)]

/-- The places of the derivatives of what diffusion adds. -/
def places (d : Diffusion) (above : Bool) (axes : Nat) : List StencilPlace :=
  d.diffusing.flatMap fun i =>
    ownPlaces above axes i ++ d.temperature.toList.map fun t => (i, .center, t)

theorem eq_of_mem_ownPlaces {above : Bool} {axes : Nat} {y : StencilPlace}
    (hy : y ∈ ownPlaces above axes i) : y.1 = i ∧ y.2.2 = i := by
  simp only [ownPlaces, List.cons_append, List.mem_cons, List.mem_append, List.mem_flatMap] at hy
  rcases hy with rfl | hy | rfl | ⟨axis, -, hy⟩
  · exact ⟨rfl, rfl⟩
  · split_ifs at hy
    · obtain rfl := List.mem_singleton.mp hy
      exact ⟨rfl, rfl⟩
    · cases hy
  · exact ⟨rfl, rfl⟩
  · rcases hy with rfl | rfl | hy
    · exact ⟨rfl, rfl⟩
    · exact ⟨rfl, rfl⟩
    · cases hy

theorem mem_places {d : Diffusion} {above : Bool} {axes : Nat} {y : StencilPlace}
    (hy : y ∈ d.places above axes) : y.1 ∈ d.diffusing ∧ (y.2.2 = y.1 ∨ y.2.2 ∈ d.temperature) := by
  obtain ⟨i, hi, hy⟩ := List.mem_flatMap.mp hy
  rcases List.mem_append.mp hy with hy | hy
  · obtain ⟨hrow, hcolumn⟩ := eq_of_mem_ownPlaces hy
    exact ⟨hrow ▸ hi, .inl (hcolumn.trans hrow.symm)⟩
  · obtain ⟨t, ht, rfl⟩ := List.mem_map.mp hy
    exact ⟨hi, .inr (Option.mem_toList.mp ht)⟩

theorem map_place_ownPartials (st : Stencil K) (i : Nat) (c : K) (factors : List K) :
    (ownPartials st i c factors).map StencilEntry.place =
      ownPlaces st.left.isSome factors.length i := by
  have haxes : (factors.zipIdx.flatMap fun x =>
      [(⟨i, .minus x.2, i, c * x.1⟩ : StencilEntry K), ⟨i, .plus x.2, i, c * x.1⟩]).map
        StencilEntry.place =
      (List.range factors.length).flatMap fun axis => [(i, .minus axis, i), (i, .plus axis, i)] := by
    rw [List.range_eq_range', ← List.zipIdx_map_snd 0 factors, List.flatMap_map, List.map_flatMap]
    rfl
  rw [ownPartials, ownPlaces, List.map_append, List.map_cons, List.map_cons, haxes]
  cases st.left.isSome <;> rfl

theorem map_place_partials {es : List (StencilEntry K)} (h : d.partials p st = .ok es) :
    es.map StencilEntry.place = d.places st.left.isSome st.transverse.length := by
  obtain ⟨ess, hess, h⟩ := bind_eq_ok_iff.mp h
  obtain rfl := Except.ok.inj h
  refine map_place_flatten (fun i _ es hes => ?_) hess
  obtain ⟨rate, -, hes⟩ := bind_eq_ok_iff.mp hes
  obtain ⟨factors, hfactors, hes⟩ := bind_eq_ok_iff.mp hes
  have hlength : factors.length = st.transverse.length := by
    unfold Stencil.usedFactors at hfactors
    split_ifs at hfactors with haxes
    obtain rfl := Except.ok.inj hfactors
    simp [Stencil.factorList, haxes]
  have hown := map_place_ownPartials st i rate.value factors
  rw [hlength] at hown
  cases ht : d.temperature with
  | none =>
    rw [ht] at hes
    obtain rfl := Except.ok.inj hes
    simpa using hown
  | some t =>
    rw [ht] at hes
    obtain ⟨x, -, hes⟩ := bind_eq_ok_iff.mp hes
    obtain rfl := Except.ok.inj hes
    rw [List.map_append, hown]
    rfl

end Diffusion

namespace ThermalDrift

variable {x : ThermalDrift K}

/-- The places of the derivatives of what the drift adds. -/
def places (x : ThermalDrift K) (above : Bool) : List StencilPlace :=
  x.diffusing.flatMap fun i =>
    (if above then [(i, .left, i)] else []) ++ [(i, .right, i), (i, .center, x.temperature)]

omit [Scalar K] in
theorem mem_places {above : Bool} {y : StencilPlace} (hy : y ∈ x.places above) :
    y.1 ∈ x.diffusing ∧ (y.2.2 = y.1 ∨ y.2.2 = x.temperature) := by
  obtain ⟨i, hi, hy⟩ := List.mem_flatMap.mp hy
  rcases List.mem_append.mp hy with hy | hy
  · split_ifs at hy
    · obtain rfl := List.mem_singleton.mp hy
      exact ⟨hi, .inl rfl⟩
    · cases hy
  · rcases List.mem_pair.mp hy with rfl | rfl
    · exact ⟨hi, .inl rfl⟩
    · exact ⟨hi, .inr rfl⟩

theorem map_place_partials {es : List (StencilEntry K)} (h : x.partials p st = .ok es) :
    es.map StencilEntry.place = x.places st.left.isSome := by
  obtain ⟨t, -, h⟩ := bind_eq_ok_iff.mp h
  obtain ⟨ess, hess, h⟩ := bind_eq_ok_iff.mp h
  obtain rfl := Except.ok.inj h
  refine map_place_flatten (fun i _ es hes => ?_) hess
  obtain ⟨rate, -, hes⟩ := bind_eq_ok_iff.mp hes
  obtain ⟨gradient, -, hes⟩ := bind_eq_ok_iff.mp hes
  obtain rfl := Except.ok.inj hes
  rw [ownPartials]
  cases st.left.isSome <;> rfl

end ThermalDrift

namespace HeatEquation

variable {h : HeatEquation K}

/-- The points of the stencil whose temperatures are listed. Axes that are not in use are among
them. -/
def offsets (h : HeatEquation K) : List Offset :=
  if h.isZeroFlux then [] else [.center, .left, .right, .minus 0, .plus 0, .minus 1, .plus 1]

theorem map_fst_partials {es : Option (List (Offset × K))} (hes : h.partials st = .ok es) :
    (es.getD []).map Prod.fst = h.offsets := by
  obtain ⟨⟨⟩, -, hes⟩ := bind_eq_ok_iff.mp hes
  unfold offsets
  cases hzero : h.isZeroFlux with
  | true =>
    rw [hzero] at hes
    obtain rfl := Except.ok.inj hes
    rfl
  | false =>
    rw [hzero] at hes
    obtain ⟨x, -, hes⟩ := bind_eq_ok_iff.mp hes
    obtain rfl := Except.ok.inj hes
    rfl

end HeatEquation

end ClusterDynamics
