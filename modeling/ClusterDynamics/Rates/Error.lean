import ClusterDynamics.Network.Reaction
import ClusterDynamics.OutOfRange

/-! What can go wrong when rates, fluxes or derivatives are evaluated. -/

namespace ClusterDynamics

/-- The data whose lengths are checked before an evaluation. -/
inductive Buffer where
  | temperatures
  | state
  | rates
  | concentrations
  | fluxOutput
  | jacobianBlock
  | gridPoints
  | dofsPerPoint
  deriving DecidableEq, Repr

def Buffer.title : Buffer → String
  | .temperatures => "temperatures"
  | .state => "state"
  | .rates => "rates"
  | .concentrations => "concentrations"
  | .fluxOutput => "flux output"
  | .jacobianBlock => "jacobian block"
  | .gridPoints => "grid points"
  | .dofsPerPoint => "degrees of freedom per point"

inductive EvalError (K : Type) where
  /-- A temperature that is not finite and positive. -/
  | badTemperature (point : Nat) (value : K)
  | wrongLength (buffer : Buffer) (expected found : Nat)
  | noSuchPoint (point points : Nat)
  /-- Rates of another generation than the current one. -/
  | staleRates (expected found : Nat)
  /-- The heat equation was evaluated before its set-up was finished. -/
  | heatNotReady
  /-- A reaction with numbers of participants that do not fit its kind. -/
  | malformedReaction (kind : ReactionKind) (reactants products : Nat)
  /-- A degree of freedom or a cluster that the data at hand do not have. -/
  | outOfRange (e : OutOfRange)
  deriving Repr

def EvalError.message : EvalError Float → String
  | .badTemperature point value =>
    s!"temperature at grid point {point} must be finite and positive, got " ++
      Decimal.shortestText value
  | .wrongLength buffer expected found =>
    s!"{buffer.title} has length {found}, expected {expected}"
  | .noSuchPoint point points => s!"grid index {point} out of range for {points} points"
  | .staleRates expected found =>
    s!"rate data is from generation {found}, expected generation {expected}"
  | .heatNotReady => "heat equation handler evaluated before setup finished"
  | .malformedReaction kind reactants products =>
    s!"{kind.name} reaction with {reactants} reactants and {products} products has no rate law"
  | .outOfRange e => s!"no entry {e.index} among {e.size}"

end ClusterDynamics
