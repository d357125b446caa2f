import ClusterDynamics.Cluster.Profile
import ClusterDynamics.Decimal.Shortest
import ClusterDynamics.Scalar

/-! What can be wrong with the description of a reaction network. -/

namespace ClusterDynamics

/-- A setting that must be finite and must not lie below its bound. -/
inductive Quantity where
  | diffusionFactor
  | migrationEnergy
  | coreRadius
  | sinkStrength
  | interstitialBias
  | reSolutionFit
  | nucleationRate
  | fissionRate
  | fissionYield
  deriving DecidableEq, Repr

def Quantity.title : Quantity → String
  | .diffusionFactor => "diffusion factor"
  | .migrationEnergy => "migration energy"
  | .coreRadius => "core radius"
  | .sinkStrength => "sink strength"
  | .interstitialBias => "interstitial bias"
  | .reSolutionFit => "re-solution fit"
  | .nucleationRate => "nucleation rate"
  | .fissionRate => "fission rate"
  | .fissionYield => "fission yield"

inductive NetworkError (K : Type) where
  | lattice (e : LatticeError)
  | profile (e : ProfileError)
  /-- The axes that are cut are not those of the profile, in its order. -/
  | axesMismatch (cut wanted : List Species)
  /-- A mobile composition with the wrong number of axes. -/
  | mobilityDimension (composition : Composition) (expected : Nat)
  | badQuantity (quantity : Quantity) (value : K)
  /-- Two mobilities of one composition. -/
  | duplicateMobility (composition : Composition)
  | noLoopAngles
  deriving Repr

def NetworkError.message : NetworkError Float → String
  | .lattice e => s!"composition space: {e.message}"
  | .profile e => e.message
  | .axesMismatch cut wanted =>
    s!"invalid network config: partition axes {Species.listText cut} do not match profile axes " ++
      Species.listText wanted
  | .mobilityDimension c expected =>
    s!"invalid network config: mobility entry {countsText c} has {c.length} axes, " ++
      s!"expected {expected}"
  | .badQuantity q value =>
    s!"invalid network config: {q.title} must be finite and non-negative, got " ++
      Decimal.shortestText value
  | .duplicateMobility c => s!"duplicate mobility entry for {countsText c}"
  | .noLoopAngles => "invalid network config: loop_angles must be at least 1"

/-- The message of the underlying cause, if there is one. -/
def NetworkError.cause? {K : Type} : NetworkError K → Option String
  | .lattice e => some e.message
  | _ => none

end ClusterDynamics
