import ClusterDynamics.Proofs.Lattice.Partition

/-! Regions stem from one cut of each axis. So on every axis the interval that begins earlier of two
regions stops before the other begins, however the regions were cut off since. -/

namespace ClusterDynamics

namespace Paving

/-- All regions have the axes of the paving, and on each axis intervals that begin at different
counts share none. -/
structure Aligned (p : Paving) : Prop where
  length_eq : ∀ r ∈ p.regions, r.axes.length = p.dimension
  stop_le_first : ∀ r ∈ p.regions, ∀ s ∈ p.regions, ∀ (axis : Nat) (a b : Interval),
    r.axes[axis]? = some a → s.axes[axis]? = some b → a.first < b.first → a.stop ≤ b.first

/-- Cutting off keeps regions aligned: it moves no origin. -/
theorem Aligned.of_within {p q : Paving} (hp : p.Aligned) (hs : q.species = p.species)
    (h : List.Forall₂ Region.Within q.regions p.regions) : q.Aligned := by
  have hmem : ∀ r ∈ q.regions, ∃ r' ∈ p.regions, r.Within r' := fun r hr =>
    exists_mem_of_forall₂ h hr
  constructor
  · intro r hr
    obtain ⟨r', hr', hw⟩ := hmem r hr
    rw [dimension, hs, hw.length_eq]
    exact hp.length_eq r' hr'
  · intro r hr s hs axis a b ha hb hlt
    obtain ⟨r', hr', hwr⟩ := hmem r hr
    obtain ⟨s', hs', hws⟩ := hmem s hs
    obtain ⟨a', ha', haa⟩ := hwr.exists_axis ha
    obtain ⟨b', hb', hbb⟩ := hws.exists_axis hb
    have hstop := hp.stop_le_first r' hr' s' hs' axis a' b' ha' hb' (by omega)
    omega

theorem Aligned.tile {p : Paving} (hp : p.Aligned) (axis limit : Nat) :
    (p.tile axis limit).1.Aligned :=
  hp.of_within (p.tile_species axis limit) (p.tile_within axis limit)

variable {axes : List Axis} {p : Paving}

/-- Each region is a product of intervals of the axes, or what cutting off has left of one. -/
theorem exists_within_of_ofAxes (h : ofAxes axes = .ok p) : ∃ cuts all,
    List.Forall₂ (fun a cut => a.intervals = .ok cut) axes cuts ∧
      (∀ r ∈ all, List.Forall₂ (· ∈ ·) r.axes cuts) ∧ List.Forall₂ Region.Within p.regions all := by
  obtain ⟨cuts, hc, all, hall, -, ht⟩ := ofAxes_eq_ok_iff.mp h
  refine ⟨cuts, _, (cutsOf_eq_ok_iff.mp hc).2.2, fun r hr => ?_, (tileAxes_within ht).1⟩
  rw [← mem_boxes_iff, ← map_axes_of_mapM hall]
  exact List.mem_map_of_mem (List.mem_of_mem_filter hr)

theorem Aligned.of_ofAxes (h : ofAxes axes = .ok p) : p.Aligned := by
  obtain ⟨cuts, all, hcuts, hbox, hw⟩ := exists_within_of_ofAxes h
  refine Aligned.of_within (p := ⟨all, axes.map Axis.species, axes.map Axis.max⟩) ?_
    (species_of_ofAxes h) hw
  constructor
  · intro r hr
    rw [(hbox r hr).length_eq, ← hcuts.length_eq, dimension, List.length_map]
  · intro r hr s hs axis a b ha hb hlt
    obtain ⟨cut, hcut, hac⟩ := exists_getElem?_of_forall₂ (hbox r hr) ha
    obtain ⟨cut', hcut', hbc⟩ := exists_getElem?_of_forall₂ (hbox s hs) hb
    obtain rfl := Option.some.inj (hcut.symm.trans hcut')
    obtain ⟨x, -, hx⟩ := exists_getElem?_of_forall₂ hcuts.flip hcut
    exact Axis.stop_le_first_of_intervals hx hac hbc hlt

/-- An interval that is cut off and keeps a count is still one count or part of a run. -/
theorem holds_of_ofAxes (h : ofAxes axes = .ok p) {r : Region} (hr : r ∈ p.regions) {axis : Nat}
    {i : Interval} (hi : r.axes[axis]? = some i) : ∃ a, axes[axis]? = some a ∧ a.Holds i := by
  obtain ⟨cuts, all, hcuts, hbox, hw⟩ := exists_within_of_ofAxes h
  obtain ⟨r', hr', hwithin⟩ := exists_mem_of_forall₂ hw hr
  obtain ⟨i', hi', hfirst, hstop⟩ := hwithin.exists_axis hi
  obtain ⟨cut, hcut, hmem⟩ := exists_getElem?_of_forall₂ (hbox r' hr') hi'
  obtain ⟨a, ha, hintervals⟩ := exists_getElem?_of_forall₂ hcuts.flip hcut
  refine ⟨a, ha, ?_⟩
  have hlt := i.first_lt_stop
  rcases Axis.holds_of_intervals hintervals i' hmem with hone | ⟨hmin, hwidth⟩
  · exact .inl (by omega)
  · exact .inr ⟨by omega, by omega⟩

theorem regions_ne_nil_of_ofAxes (h : ofAxes axes = .ok p) : p.regions ≠ [] := by
  obtain ⟨cuts, -, all, -, hregions, ht⟩ := ofAxes_eq_ok_iff.mp h
  obtain ⟨hw, -, -⟩ := tileAxes_within ht
  intro hnil
  rw [hnil, List.forall₂_nil_left_iff] at hw
  exact hregions hw

end Paving

end ClusterDynamics
