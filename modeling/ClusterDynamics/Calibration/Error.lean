import ClusterDynamics.Decimal.Shortest
import ClusterDynamics.OutOfRange
import ClusterDynamics.UnknownName

/-! What can go wrong in a calibration. -/

namespace ClusterDynamics

inductive CalibrationList where
  | priors
  | chainIndex
  | modelParameters
  /-- A model parameter that an entry of the chain feeds. -/
  | chainSlot
  | observationInputs
  | chainState
  | multiIndex
  deriving DecidableEq, Repr

def CalibrationList.title : CalibrationList → String
  | .priors => "priors"
  | .chainIndex => "chain index"
  | .modelParameters => "model parameters"
  | .chainSlot => "chain index slot"
  | .observationInputs => "observation inputs"
  | .chainState => "chain state"
  | .multiIndex => "multi-index"

inductive CalibrationError (K : Type) where
  | unknownPrior (e : UnknownName)
  | unknownNoise (e : UnknownName)
  /-- Bounds with nothing between them. -/
  | emptyBounds (lower upper : K)
  | badDeviation (value : K)
  | wrongLength (list : CalibrationList) (expected found : Nat)
  /-- A degree that a table of polynomials does not reach. -/
  | outOfRange (e : OutOfRange)
  deriving Repr

def CalibrationError.message : CalibrationError Float → String
  | .unknownPrior e | .unknownNoise e => e.message
  | .emptyBounds lower upper =>
    s!"uniform prior bounds [{Decimal.shortestText lower}, {Decimal.shortestText upper}] are empty"
  | .badDeviation v => s!"standard deviation must be positive, got {Decimal.shortestText v}"
  | .wrongLength list expected found =>
    s!"{list.title}: expected {expected} values, found {found}"
  | .outOfRange e => s!"no entry {e.index} among {e.size}"

/-- The message of the underlying cause, if there is one. -/
def CalibrationError.cause? {K : Type} : CalibrationError K → Option String
  | .unknownPrior e | .unknownNoise e => some e.message
  | _ => none

end ClusterDynamics
