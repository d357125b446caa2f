import ClusterDynamics.Cluster.Binding
import ClusterDynamics.Network.Error
import ClusterDynamics.Report

/-! The description from which a reaction network is built: a profile, the cut of its axes, the
host material, mobilities, fits, and the channels that are open. -/

namespace ClusterDynamics

/-- How one composition diffuses: `D(T) = factor * exp(-energy / kT)`. -/
structure Mobility (K : Type) where
  composition : Composition
  /-- Prefactor (nm²/s). -/
  factor : K
  /-- Migration energy (eV). -/
  energy : K
  deriving Repr

/-- Additional capture distances of unordered pairs of dominant species, in the order in which the
pairs were first named. -/
structure CoreRadii (K : Type) where
  entries : List ((Species × Species) × K) := []
  deriving Repr

namespace CoreRadii

variable {K : Type}

/-- The name of an unordered pair: its members in canonical order. -/
def pairOf (a b : Species) : Species × Species := if a.rank ≤ b.rank then (a, b) else (b, a)

/-- Set the radius of a pair (nm). -/
def insert (radii : CoreRadii K) (a b : Species) (radius : K) : CoreRadii K :=
  let pair := pairOf a b
  if radii.entries.any fun e => e.1 == pair then
    ⟨radii.entries.map fun e => if e.1 == pair then (pair, radius) else e⟩
  else ⟨radii.entries ++ [(pair, radius)]⟩

/-- The radius of a pair (nm); zero unless it was set. -/
def get [Scalar K] (radii : CoreRadii K) (a b : Species) : K :=
  (radii.entries.lookup (pairOf a b)).getD 0

end CoreRadii

variable {K : Type} [Scalar K]

structure SinkSettings (K : Type) where
  /-- Strength (1/nm²). -/
  strength : K
  /-- Factor on clusters in which interstitials dominate, at least one. -/
  bias : K
  deriving Repr

def SinkSettings.standard : SinkSettings K := ⟨1e-3, 1.2⟩

/-- Return of gas from bubbles to the lattice under irradiation. -/
structure ReSolutionSettings (K : Type) where
  minSize : Nat
  fit : K
  deriving Repr

def ReSolutionSettings.standard : ReSolutionSettings K := ⟨10, 1e-2⟩

/-- Everything a reaction network is built from. A channel with settings of its own is closed when
they are absent. -/
structure NetworkSpec (K : Type) where
  profile : Profile
  /-- The cut of each axis, in the profile's order. -/
  axes : List Axis
  material : Material
  /-- Lattice parameter (nm); unless positive, the material's constant is used. -/
  latticeParameter : K
  /-- Radius of the primary impurity (nm); unless positive, that of the isolated atom is used. -/
  impurityRadius : K
  mobility : List (Mobility K)
  binding : BindingFits K
  coreRadii : CoreRadii K
  sinks : Option (SinkSettings K)
  reSolution : Option (ReSolutionSettings K)
  /-- Rate of heterogeneous nucleation (1/s). -/
  nucleation : Option K
  /-- Fission rate density (1/(s nm³)). -/
  fissionRate : K
  fissionYield : K
  /-- Alignment angles over which captures at loops are averaged. -/
  loopAngles : Nat
  deriving Repr

/-- The lengths of the host lattice after fallbacks. -/
structure Lengths (K : Type) where
  /-- Lattice parameter (nm). -/
  lattice : K
  /-- Radius of the primary impurity (nm). -/
  impurityRadius : K
  /-- Volume per host atom (nm³). -/
  atomicVolume : K
  /-- Length of the Burgers vector (nm). -/
  burgersVector : K
  deriving Repr

namespace NetworkSpec

/-- The profile with every axis cut exactly up to `max`, in tungsten, with no mobile cluster and no
channel open beyond production and dissociation. -/
def ofProfile (profile : Profile) (max : Nat) : NetworkSpec K :=
  { profile
    axes := profile.species.map fun s => Axis.exact s max
    material := .tungsten100
    latticeParameter := 0
    impurityRadius := 0
    mobility := []
    binding := BindingFits.standard
    coreRadii := {}
    sinks := none
    reSolution := none
    nucleation := none
    fissionRate := 0
    fissionYield := 0.25
    loopAngles := 4 }

/-- Replace the first axis of the same species, if there is one. -/
def withAxis (spec : NetworkSpec K) (a : Axis) : NetworkSpec K :=
  match spec.axes.findIdx? fun b => b.species == a.species with
  | some i => { spec with axes := spec.axes.set i a }
  | none => spec

/-- Cut the axis of a species exactly up to `max`. -/
def withMax (spec : NetworkSpec K) (s : Species) (max : Nat) : NetworkSpec K :=
  spec.withAxis (Axis.exact s max)

def withMobility (spec : NetworkSpec K) (composition : Composition) (factor energy : K) :
    NetworkSpec K :=
  { spec with mobility := spec.mobility ++ [⟨composition, factor, energy⟩] }

/-- A quantity must be finite and at least `bound`. -/
def checkQuantity (quantity : Quantity) (bound value : K) : Except (NetworkError K) Unit :=
  if Scalar.isAtLeast bound value then .ok () else .error (.badQuantity quantity value)

/-- One count per axis in each entry, sound numbers, and no composition twice. -/
def checkMobility (dimension : Nat) (seen : List Composition) :
    List (Mobility K) → Except (NetworkError K) Unit
  | [] => .ok ()
  | m :: rest => do
    if m.composition.length ≠ dimension then throw (.mobilityDimension m.composition dimension)
    checkQuantity .diffusionFactor 0 m.factor
    if !Scalar.isFinite m.energy then throw (.badQuantity .migrationEnergy m.energy)
    if seen.contains m.composition then throw (.duplicateMobility m.composition)
    checkMobility dimension (m.composition :: seen) rest

/-- Check the description; the first fault found is reported. -/
def validate (spec : NetworkSpec K) : Except (NetworkError K) Unit := do
  spec.profile.validate.mapError .profile
  let cut := spec.axes.map Axis.species
  if cut ≠ spec.profile.species then throw (.axesMismatch cut spec.profile.species)
  spec.axes.forM fun a => a.validate.mapError .lattice
  checkMobility cut.length [] spec.mobility
  spec.coreRadii.entries.forM fun e => checkQuantity .coreRadius 0 e.2
  if let some s := spec.sinks then
    checkQuantity .sinkStrength 0 s.strength
    checkQuantity .interstitialBias 1 s.bias
  if let some r := spec.reSolution then checkQuantity .reSolutionFit 0 r.fit
  if let some rate := spec.nucleation then checkQuantity .nucleationRate 0 rate
  checkQuantity .fissionRate 0 spec.fissionRate
  checkQuantity .fissionYield 0 spec.fissionYield
  if spec.loopAngles = 0 then throw .noLoopAngles

/-- A length, or its fallback if it is not positive. The fallback is reported. -/
def orFallback {ε : Type} (length : FallbackLength) (given used : K) : Reported K ε K := do
  if 0 < given then return given
  Reported.event (.fallback length given used)
  return used

/-- Radius of the impurity that the network is about: the primary species, or for a defect the
material's usual impurity (nm). -/
def isolatedRadius (spec : NetworkSpec K) : K :=
  (spec.profile.primary.radius?.or spec.material.defaultImpurity.radius?).getD heliumRadius

def resolve (spec : NetworkSpec K) : Reported K (NetworkError K) (Lengths K) := do
  Reported.ofExcept spec.validate
  let lattice ← orFallback .latticeParameter spec.latticeParameter spec.material.latticeConstant
  let impurityRadius ← orFallback .impurityRadius spec.impurityRadius spec.isolatedRadius
  return { lattice, impurityRadius
           atomicVolume := lattice * lattice * lattice / spec.material.atomsPerCell
           burgersVector := spec.material.burgersVector lattice }

end NetworkSpec

end ClusterDynamics
