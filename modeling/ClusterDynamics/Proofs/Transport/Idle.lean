import ClusterDynamics.Proofs.Transport.Partials

/-! A drift that nothing drives. It still lists its derivatives, but all of them are zero. -/

namespace ClusterDynamics

/-- Without heat flux, without conductivity or without strength, nothing drives the drift. -/
def DriftSettings.Idle (w : DriftSettings ℝ) : Prop :=
  w.heatFlux = 0 ∨ w.conductivity = 0 ∨ w.beta = 0

namespace ThermalDrift

variable {d : ThermalDrift ℝ} {w : DriftSettings ℝ} {st : Stencil ℝ} {p : PointRates ℝ}

/-- The drift has the strength that settings tell. -/
def DrivenBy {K : Type} (d : ThermalDrift K) (w : DriftSettings K) : Prop :=
  d.beta = w.beta ∧ d.heatFlux = w.heatFlux ∧ d.conductivity = w.conductivity

theorem heatFactor_of_idle (h : d.DrivenBy w) (hw : w.Idle) (t : ℝ) : d.heatFactor t = 0 := by
  obtain ⟨hbeta, hflux, hconductivity⟩ := h
  unfold heatFactor
  rw [hbeta, hflux, hconductivity]
  rcases hw with hw | hw | hw <;> simp [hw]

theorem value_of_mem_ownPartials {i : Nat} {c : ℝ} {e : StencilEntry ℝ}
    (h : e ∈ ownPartials st i c 0) : e.value = 0 := by
  unfold ownPartials at h
  cases hleft : st.left.isSome with
  | false =>
    obtain rfl : e = _ := by simpa [hleft] using h
    simp
  | true =>
    obtain rfl | rfl : e = _ ∨ e = _ := by simpa [hleft] using h
    · simp
    · simp

theorem value_of_mem_ownEntries (h : d.DrivenBy w) (hw : w.Idle) (t : ℝ) :
    ∀ e ∈ d.ownEntries p st t, e.value = 0 := by
  intro e he
  obtain ⟨i, -, he⟩ := List.mem_flatMap.mp he
  rw [heatFactor_of_idle h hw] at he
  exact value_of_mem_ownPartials he

theorem value_of_mem_partials (h : d.DrivenBy w) (hw : w.Idle) {es : List (StencilEntry ℝ)}
    (hes : d.partials p st = .ok es) : ∀ e ∈ es, e.value = 0 := by
  obtain ⟨t, -, hes⟩ := bind_eq_ok_iff.mp hes
  obtain ⟨ess, hess, hes⟩ := bind_eq_ok_iff.mp hes
  obtain rfl := Except.ok.inj hes
  intro e he
  obtain ⟨es, hmem, he⟩ := List.mem_flatten.mp he
  obtain ⟨i, -, hi⟩ := exists_mem_of_forall₂ (mapM_eq_ok_iff.mp hess).flip hmem
  obtain ⟨c, -, hi⟩ := bind_eq_ok_iff.mp hi
  obtain ⟨gradient, -, hi⟩ := bind_eq_ok_iff.mp hi
  obtain rfl := Except.ok.inj hi
  rw [heatFactor_of_idle h hw] at he
  rcases List.mem_append.mp he with he | he
  · exact value_of_mem_ownPartials he
  · obtain rfl := List.mem_singleton.mp he
    simp

end ThermalDrift

end ClusterDynamics
