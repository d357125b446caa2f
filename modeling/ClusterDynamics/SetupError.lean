import ClusterDynamics.Depth.Grid
import ClusterDynamics.Heat.Settings
import ClusterDynamics.Network.Error
import ClusterDynamics.Rates.Error
import ClusterDynamics.Transport.DriftSettings

/-! What can go wrong when a simulation is set up. -/

namespace ClusterDynamics

inductive SetupError (K : Type) where
  | network (e : NetworkError K)
  | grid (e : GridError K)
  /-- The rates at the initial temperatures could not be computed. -/
  | rates (e : EvalError K)
  /-- A host material by a name that there is none of. -/
  | unknownMaterial (e : UnknownName)
  | heat (e : HeatFault K)
  | drift (e : DriftFault K)
  /-- A reaction needs an entry of the Jacobian that the fill pattern lacks. -/
  | missingEntry (row column : Nat)
  /-- The heat equation is not at the stage that a step of its set-up needs. -/
  | heatStage (stage : HeatStage)
  | badTemperature (value : K)
  deriving Repr

def SetupError.message : SetupError Float → String
  | .network e => s!"network: {e.message}"
  | .grid e => s!"grid: {e.message}"
  | .rates e => s!"rates: {e.message}"
  | .unknownMaterial e => s!"{e.message}: no heat parameters defined for it"
  | .heat e => s!"invalid heat config: {e.message}"
  | .drift e => s!"invalid Soret config: {e.message}"
  | .missingEntry row column => s!"connectivity map has no entry ({row}, {column})"
  | .heatStage stage => s!"heat equation handler is {stage.name}"
  | .badTemperature v => s!"temperature must be finite and positive, got {Decimal.shortestText v}"

/-- The message of the underlying cause, if there is one. -/
def SetupError.cause? : SetupError Float → Option String
  | .network e => some e.message
  | .grid e => some e.message
  | .rates e => some e.message
  | .unknownMaterial e => some e.message
  | _ => none

end ClusterDynamics
