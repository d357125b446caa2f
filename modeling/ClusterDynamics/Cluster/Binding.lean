import ClusterDynamics.Constants
import ClusterDynamics.UnknownName

/-! Binding energies. Each family of clusters has a fit of the capillary law: the energy to take
one monomer off a cluster of size `n` is `a + b (n ^ p - (n - 1) ^ p)`, and never below a floor. -/

namespace ClusterDynamics

inductive BindingFamily where
  /-- Vacancy clusters and gas bubbles. -/
  | vacancy
  /-- Clusters in which interstitials dominate. -/
  | interstitial
  /-- Gas at a vacancy-type defect. -/
  | trapped
  /-- Clusters at dislocation junctions. -/
  | junction
  /-- Mixed complexes. -/
  | complex
  deriving DecidableEq, Repr

namespace BindingFamily

def all : List BindingFamily := [vacancy, interstitial, trapped, junction, complex]

def name : BindingFamily → String
  | vacancy => "Vacancy"
  | interstitial => "Interstitial"
  | trapped => "Trapped"
  | junction => "Junction"
  | complex => "Complex"

/-- The family with the given name, in letters of either case. -/
def ofName (text : String) : Except UnknownName BindingFamily :=
  lookupName .bindingFamily all (fun f t => sameLetters f.name t) text

end BindingFamily

structure BindingFit (K : Type) where
  a : K
  b : K
  p : K
  deriving Repr

variable {K : Type} [Scalar K]

/-- The energy to take one monomer off a cluster of size `n` (eV). -/
def BindingFit.energy (fit : BindingFit K) (n : K) : K :=
  let n := Scalar.max n 1
  Scalar.max (fit.a + fit.b * (Scalar.pow n fit.p - Scalar.pow (n - 1) fit.p)) minBindingEnergy

structure BindingFits (K : Type) where
  vacancy : BindingFit K
  interstitial : BindingFit K
  trapped : BindingFit K
  junction : BindingFit K
  complex : BindingFit K
  deriving Repr

namespace BindingFits

/-- The fits in use where none are given: surface-energy laws with exponent 2/3. -/
def standard : BindingFits K :=
  { vacancy := ⟨3.6, -3.9, 2 / 3⟩
    interstitial := ⟨9.96, -8.5, 2 / 3⟩
    trapped := ⟨4, -3, 2 / 3⟩
    junction := ⟨2, -1, 2 / 3⟩
    complex := ⟨1.5, -1, 2 / 3⟩ }

def get (fits : BindingFits K) : BindingFamily → BindingFit K
  | .vacancy => fits.vacancy
  | .interstitial => fits.interstitial
  | .trapped => fits.trapped
  | .junction => fits.junction
  | .complex => fits.complex

def set (fits : BindingFits K) (family : BindingFamily) (fit : BindingFit K) : BindingFits K :=
  match family with
  | .vacancy => { fits with vacancy := fit }
  | .interstitial => { fits with interstitial := fit }
  | .trapped => { fits with trapped := fit }
  | .junction => { fits with junction := fit }
  | .complex => { fits with complex := fit }

/-- The energy to take one monomer off a cluster of a family. -/
def energy (fits : BindingFits K) (family : BindingFamily) (n : K) : K := (fits.get family).energy n

end BindingFits

end ClusterDynamics
