import ClusterDynamics.Heat.Equation
import ClusterDynamics.Proofs.Depth.Reads
import ClusterDynamics.Transport.ThermalDrift

/-! Transport and the heat equation fail only where a look-up does, so they do not fail on a stencil
that is wide enough. -/

namespace ClusterDynamics

variable {K : Type} [Scalar K] {st : Stencil K} {p : PointRates K} {n i : Nat} {out : Array K}

theorem exists_addEntry (hi : i < out.size) (x : K) :
    ∃ out', addEntry out i x = .ok out' ∧ out'.size = out.size :=
  ⟨_, by rw [addEntry, checkRange_eq_ok_iff.mpr hi]; rfl, Array.size_modify⟩

namespace Diffusion

variable {d : Diffusion}

theorem exists_differences (h : st.Wide n) (hi : i < n) : ∃ x, differences st i = .ok x := by
  obtain ⟨c, hc⟩ := h.exists_center hi
  obtain ⟨l, hl⟩ := h.exists_left hi
  obtain ⟨r, hr⟩ := h.exists_right hi
  obtain ⟨xs, hxs⟩ := h.exists_transverse hi st.transverse.length
  exact ⟨_, by rw [differences, hc, hl, hr, hxs]; rfl⟩

theorem exists_addFlux_of_wide (h : st.Wide n) (hids : ∀ i ∈ d.diffusing, i < p.diffusion.size)
    (hp : p.diffusion.size ≤ n) (hout : out.size = n) :
    ∃ out', d.addFlux p st out = .ok out' ∧ out'.size = n := by
  refine exists_foldlM_eq_ok (fun i hi out hout => ?_) hout
  have hi' : i < n := (hids i hi).trans_le hp
  obtain ⟨rate, hrate⟩ := exists_entryAt_iff.mpr (hids i hi)
  obtain ⟨x, hx⟩ := exists_differences h hi'
  obtain ⟨out', hadd, hsize⟩ := exists_addEntry (hi'.trans_eq hout.symm)
    (rate.value * x.1 + rate.value * x.2)
  exact ⟨out', by rw [hrate, ok_bind, hx]; exact hadd, hsize.trans hout⟩

theorem exists_partials_of_wide (h : st.Wide n) (hids : ∀ i ∈ d.diffusing, i < p.diffusion.size)
    (hp : p.diffusion.size ≤ n) : ∃ es, d.partials p st = .ok es := by
  refine exists_bind_eq_ok (exists_mapM_eq_ok_iff.mpr fun i hi => ?_) fun _ _ => ⟨_, rfl⟩
  obtain ⟨rate, hrate⟩ := exists_entryAt_iff.mpr (hids i hi)
  obtain ⟨x, hx⟩ := exists_differences h ((hids i hi).trans_le hp)
  rw [clusterPartials, hrate, ok_bind, h.usedFactors_eq, ok_bind]
  cases d.temperature with
  | none => exact ⟨_, rfl⟩
  | some t =>
    dsimp only
    rw [hx]
    exact ⟨_, rfl⟩

end Diffusion

namespace ThermalDrift

variable {x : ThermalDrift K}

theorem exists_difference (h : st.Wide n) (hi : i < n) : ∃ a, difference st i = .ok a := by
  obtain ⟨r, hr⟩ := h.exists_right hi
  obtain ⟨l, hl⟩ := h.exists_left hi
  exact ⟨r - l, by rw [difference, hr, hl]; rfl⟩

theorem exists_addFlux_of_wide (h : st.Wide n) (ht : x.temperature < n)
    (hids : ∀ i ∈ x.diffusing, i < p.diffusion.size) (hp : p.diffusion.size ≤ n)
    (hout : out.size = n) : ∃ out', x.addFlux p st out = .ok out' ∧ out'.size = n := by
  obtain ⟨t, htemperature⟩ := h.exists_center ht
  rw [addFlux, htemperature, ok_bind]
  refine exists_foldlM_eq_ok (fun i hi out hout => ?_) hout
  have hi' : i < n := (hids i hi).trans_le hp
  obtain ⟨rate, hrate⟩ := exists_entryAt_iff.mpr (hids i hi)
  obtain ⟨a, ha⟩ := exists_difference h hi'
  obtain ⟨out', hadd, hsize⟩ := exists_addEntry (hi'.trans_eq hout.symm)
    (rate.value * x.heatFactor t * a / (st.above + st.below))
  exact ⟨out', by rw [hrate, ok_bind, ha]; exact hadd, hsize.trans hout⟩

theorem exists_partials_of_wide (h : st.Wide n) (ht : x.temperature < n)
    (hids : ∀ i ∈ x.diffusing, i < p.diffusion.size) (hp : p.diffusion.size ≤ n) :
    ∃ es, x.partials p st = .ok es := by
  obtain ⟨t, htemperature⟩ := h.exists_center ht
  rw [partials, htemperature, ok_bind]
  refine exists_bind_eq_ok (exists_mapM_eq_ok_iff.mpr fun i hi => ?_) fun _ _ => ⟨_, rfl⟩
  obtain ⟨rate, hrate⟩ := exists_entryAt_iff.mpr (hids i hi)
  obtain ⟨a, ha⟩ := exists_difference h ((hids i hi).trans_le hp)
  exact ⟨_, by rw [clusterPartials, hrate, ok_bind, ha]; rfl⟩

end ThermalDrift

namespace HeatEquation

variable {h : HeatEquation K}

omit [Scalar K] in
theorem checkReady_eq (hready : h.stage = .evaluating) : h.checkReady = .ok () := if_pos hready

omit [Scalar K] in
theorem exists_pointOf (hs : st.Wide n) (hdof : h.dof < n) : ∃ x, h.pointOf st = .ok x := by
  obtain ⟨center, hcenter⟩ := hs.exists_center hdof
  obtain ⟨right, hright⟩ := hs.exists_right hdof
  obtain ⟨left, hleft⟩ := hs.exists_mapM_left hdof
  exact ⟨_, by rw [pointOf, hcenter, hright, ok_bind, ok_bind, hleft]; rfl⟩

theorem exists_addFlux_of_wide (hs : st.Wide n) (hdof : h.dof < n) (hready : h.stage = .evaluating)
    (out : K) : ∃ out', h.addFlux st out = .ok out' := by
  rw [addFlux, checkReady_eq hready, ok_bind]
  cases hzero : h.isZeroFlux with
  | true => exact ⟨out, rfl⟩
  | false =>
    obtain ⟨x, hx⟩ := exists_pointOf hs hdof
    obtain ⟨across, hacross⟩ := hs.exists_transverse hdof (h.dimension - 1)
    rw [hx, hacross]
    exact ⟨_, rfl⟩

theorem exists_partials_of_wide (hs : st.Wide n) (hdof : h.dof < n)
    (hready : h.stage = .evaluating) : ∃ es, h.partials st = .ok es := by
  rw [partials, checkReady_eq hready, ok_bind]
  cases hzero : h.isZeroFlux with
  | true => exact ⟨none, rfl⟩
  | false =>
    obtain ⟨x, hx⟩ := exists_pointOf hs hdof
    rw [hx]
    exact ⟨_, rfl⟩

end HeatEquation

end ClusterDynamics
