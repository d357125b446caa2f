import ClusterDynamics.Heat.Equation
import ClusterDynamics.Proofs.Outcome
import ClusterDynamics.Transport.ThermalDrift

/-! Which values across matter. Diffusion reads those of the clusters that diffuse, and the heat
equation those of the temperature; the derivatives of diffusion need them only where the temperature
is solved for, and no other part of transport needs any. -/

namespace ClusterDynamics

variable {K : Type} [Scalar K] {st : Stencil K} {pairs : List (Array K × Array K)} {i : Nat}
  {p : PointRates K}

/-- Pairs of neighbours across that have the same values of a degree of freedom. -/
def Alike (i : Nat) : List (Array K × Array K) → List (Array K × Array K) → Prop :=
  List.Forall₂ fun y z => entryAt y.1 i = entryAt z.1 i ∧ entryAt y.2 i = entryAt z.2 i

omit [Scalar K] in
theorem Stencil.transverseValues_of_alike (h : Alike i pairs st.transverse) (k : Nat) :
    ({ st with transverse := pairs } : Stencil K).transverseValues k i =
      st.transverseValues k i := by
  change (((pairs.zip st.factorList).take k).mapM _ : Except OutOfRange (List (K × K × K))) =
    ((st.transverse.zip st.factorList).take k).mapM _
  generalize st.factorList = factors
  generalize st.transverse = pairs' at h
  -- Along the pairs, with one factor less and one axis less at each step.
  induction h generalizing factors k with
  | nil => rfl
  | cons hpair _ ih =>
    cases factors with
    | nil => rfl
    | cons factor factors =>
      cases k with
      | zero => rfl
      | succ k =>
        simp only [List.zip_cons_cons, List.take_succ_cons, List.mapM_cons, hpair.1, hpair.2, ih]

namespace Diffusion

variable {d : Diffusion}

theorem differences_of_alike (h : Alike i pairs st.transverse) :
    differences { st with transverse := pairs } i = differences st i := by
  unfold differences
  rw [Stencil.transverseValues_of_alike h, h.length_eq]
  rfl

theorem addFlux_of_alike (h : ∀ i ∈ d.diffusing, Alike i pairs st.transverse) (out : Array K) :
    d.addFlux p { st with transverse := pairs } out = d.addFlux p st out :=
  foldlM_congr (fun i hi out => by rw [differences_of_alike (h i hi)]) out

theorem partials_of_alike (hlength : pairs.length = st.transverse.length)
    (h : d.temperature = none ∨ ∀ i ∈ d.diffusing, Alike i pairs st.transverse) :
    d.partials p { st with transverse := pairs } = d.partials p st := by
  have hown : ∀ i c factors, ownPartials { st with transverse := pairs } i c factors =
      ownPartials st i c factors := fun _ _ _ => rfl
  have hused : ({ st with transverse := pairs } : Stencil K).usedFactors = st.usedFactors := by
    unfold Stencil.usedFactors
    rw [hlength]
    rfl
  have hcluster : ∀ i ∈ d.diffusing, d.clusterPartials p { st with transverse := pairs } i =
      d.clusterPartials p st i := by
    intro i hi
    unfold clusterPartials
    simp only [hown, hused]
    rcases h with hnone | h
    · rw [hnone]
    · rw [differences_of_alike (h i hi)]
  rw [partials, partials, mapM_congr hcluster]

end Diffusion

namespace HeatEquation

variable {y : HeatEquation K}

theorem addFlux_of_alike (h : y.isZeroFlux = true ∨ Alike y.dof pairs st.transverse) (out : K) :
    y.addFlux { st with transverse := pairs } out = y.addFlux st out := by
  unfold addFlux
  rcases h with hzero | h
  · rw [hzero]
    rfl
  · rw [Stencil.transverseValues_of_alike h]
    rfl

theorem partials_of_length (hlength : pairs.length = st.transverse.length) :
    y.partials { st with transverse := pairs } = y.partials st := by
  unfold partials
  rw [hlength]
  rfl

end HeatEquation

end ClusterDynamics
