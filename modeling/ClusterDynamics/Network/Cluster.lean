import ClusterDynamics.Network.Spec

/-! The properties of a cluster that do not depend on temperature. Each follows from the cluster's
region, the network's description and the lengths of its lattice. -/

namespace ClusterDynamics

/-- One cluster of a network. Energies are in eV and lengths in nm. -/
structure Cluster (K : Type) where
  region : Region
  geometry : Geometry
  /-- The family whose fit gives `bindingEnergy`. -/
  family : BindingFamily
  /-- The species with the largest mean count, the first of equals. -/
  dominant : Species
  /-- The size that the laws for radius and binding energy take. -/
  size : K
  primarySize : K
  /-- The species of a cluster that is a single monomer. -/
  monomer : Option Species
  /-- Prefactor of the diffusion coefficient (nm²/s), zero for a cluster that stays in place. -/
  diffusionFactor : K
  migrationEnergy : K
  reactionRadius : K
  bindingEnergy : K
  /-- The energy to emit one monomer of each species that the cluster holds. -/
  emission : List (Species × K)
  deriving Repr

namespace Region

/-- The axis with the largest mean count, the first of equals. -/
def dominantAxis (r : Region) : Nat :=
  let weights := r.axes.map Interval.weight
  weights.idxOf (weights.foldl max 0)

/-- The species of a region that holds exactly one count on one axis and no other composition. -/
def monomer? (species : List Species) (r : Region) : Option Species :=
  if r.isSimplex then
    match r.origin.zipIdx.filter fun x => x.1 != 0 with
    | [(1, axis)] => species[axis]?
    | _ => none
  else none

end Region

namespace Profile

variable {K : Type} [Scalar K]

/-- The interval of a species, if it has an axis. -/
def interval? (p : Profile) (r : Region) (s : Species) : Option Interval :=
  (p.axisOf? s).bind fun axis => r.axes[axis]?

/-- The mean count of a species; zero without an axis. -/
def meanCount (p : Profile) (r : Region) (s : Species) : K :=
  ((p.interval? r s).map Interval.center).getD 0

/-- Whether some composition of the region holds the species. -/
def holds (p : Profile) (r : Region) (s : Species) : Bool :=
  (p.interval? r s).any fun a => a.weight != 0

def dominant (p : Profile) (r : Region) : Species := p.species.getD r.dominantAxis p.primary

/-- The defect that sets a region's volume: vacancies if there are any, else interstitials. -/
def sizeDefect? (p : Profile) (r : Region) : Option Species :=
  [.vacancy, .interstitial].find? (p.holds r)

/-- The mean count of the defect that sets the volume, and the mean total without one. -/
def size (p : Profile) (r : Region) : K :=
  match p.sizeDefect? r with
  | some s => p.meanCount r s
  | none => Scalar.sum r.center

end Profile

/-- The family of a geometry; for compact clusters, loops and free gas the dominant species
decides. -/
def Geometry.family (g : Geometry) (dominant : Species) : BindingFamily :=
  match g with
  | .trap => .trapped
  | .junction => .junction
  | .complex => .complex
  | .sphere | .loop | .free => if dominant = .interstitial then .interstitial else .vacancy

/-- The family whose fit gives the energy to emit a monomer of a species from a cluster. Defects
leave with the fit of their own kind, except from junctions and complexes. -/
def Geometry.emissionFamily (g : Geometry) (family : BindingFamily) (emitted : Species) :
    BindingFamily :=
  match g, emitted with
  | .junction, _ | .complex, _ => family
  | _, .vacancy => .vacancy
  | _, .interstitial => .interstitial
  | .trap, _ => .trapped
  | _, _ => family

variable {K : Type} [Scalar K]

/-- Radius of a single monomer (nm): the configured one for the primary impurity, that of the
isolated atom for other impurities, and a quarter of the cell's diagonal for defects. -/
def monomerRadius (p : Profile) (lengths : Lengths K) (s : Species) : K :=
  if s = p.primary ∧ s.isImpurity then lengths.impurityRadius
  else s.radius?.getD (lengths.lattice * Scalar.sqrt 3 / 4)

/-- Radius of a disc of `size` host atoms, one Burgers vector high (nm). -/
def loopRadius (lengths : Lengths K) (size : K) : K :=
  Scalar.sqrt (size * lengths.atomicVolume / (Scalar.pi * lengths.burgersVector))

/-- Radius of a compact cluster (nm): it starts at `first` and grows with the cube root of the
size. -/
def sphereRadius (lengths : Lengths K) (first size : K) : K :=
  if size ≤ 1 then first
  else
    let scale := Scalar.cbrt (3 * lengths.atomicVolume / (4 * Scalar.pi))
    first + scale * (Scalar.cbrt size - 1)

/-- Radius at which the cluster of a region reacts (nm). -/
def Profile.reactionRadius (p : Profile) (lengths : Lengths K) (g : Geometry) (r : Region) : K :=
  match r.monomer? p.species with
  | some s => monomerRadius p lengths s
  | none =>
    match g with
    | .loop => loopRadius lengths (p.size r)
    | _ => sphereRadius lengths (monomerRadius p lengths ((p.sizeDefect? r).getD (p.dominant r)))
        (p.size r)

namespace Cluster

/-- The mobility of a region: that of its composition if it holds only one and the composition is
listed, and none otherwise. -/
def mobilityOf (mobility : List (Mobility K)) (r : Region) : K × K :=
  match if r.isSimplex then mobility.find? (·.composition == r.origin) else none with
  | some m => (m.factor, m.energy)
  | none => (0, 0)

def ofRegion (spec : NetworkSpec K) (lengths : Lengths K) (r : Region) : Cluster K :=
  let p := spec.profile
  let geometry := (p.classify? r).getD p.defaultGeometry
  let family := geometry.family (p.dominant r)
  let size := p.size r
  let (diffusionFactor, migrationEnergy) := mobilityOf spec.mobility r
  { region := r
    geometry
    family
    dominant := p.dominant r
    size
    primarySize := p.meanCount r p.primary
    monomer := r.monomer? p.species
    diffusionFactor
    migrationEnergy
    reactionRadius := p.reactionRadius lengths geometry r
    bindingEnergy := spec.binding.energy family size
    emission := (p.monomerAxes.filter (p.holds r)).map fun s =>
      (s, spec.binding.energy (geometry.emissionFamily family s) (p.meanCount r s)) }

def isMobile (c : Cluster K) : Bool := decide (0 < c.diffusionFactor)

def isInterstitial (c : Cluster K) : Bool := c.dominant == .interstitial

/-- The energy to emit one monomer of a species; for a species that the cluster does not hold, its
binding energy. -/
def emissionEnergy (c : Cluster K) (s : Species) : K := (c.emission.lookup s).getD c.bindingEnergy

/-- The energy at which `parent` breaks into `a` and `b`: that of the monomer among the two, the
lower one of two monomers, and the parent's binding energy if neither is a monomer. -/
def splitEnergy (parent a b : Cluster K) : K :=
  match a.monomer, b.monomer with
  | some s, some t => Scalar.min (parent.emissionEnergy s) (parent.emissionEnergy t)
  | some s, none | none, some s => parent.emissionEnergy s
  | none, none => parent.bindingEnergy

end Cluster

end ClusterDynamics
