import ClusterDynamics.Decimal.Shortest
import ClusterDynamics.Scalar

/-! Settings of the drift of clusters along a gradient of temperature. -/

namespace ClusterDynamics

structure DriftSettings (K : Type) where
  enabled : Bool
  beta : K
  /-- Heat flux (W/nm²). -/
  heatFlux : K
  conductivity : K
  deriving Repr

def DriftSettings.off {K : Type} [Scalar K] : DriftSettings K := ⟨false, 0, 0, 0⟩

/-- A number among the settings of the thermal drift. -/
inductive DriftNumber where
  | beta
  | heatFlux
  | conductivity
  deriving DecidableEq, Repr

def DriftNumber.name : DriftNumber → String
  | .beta => "beta"
  | .heatFlux => "heat_flux"
  | .conductivity => "conductivity"

/-- What can be wrong with settings of the thermal drift. -/
inductive DriftFault (K : Type) where
  /-- There is no temperature to drift along. -/
  | noHeatEquation
  | notFinite (number : DriftNumber) (value : K)
  | negativeConductivity (value : K)
  deriving Repr

def DriftFault.message : DriftFault Float → String
  | .noHeatEquation => "Soret coupling needs the heat equation"
  | .notFinite number v => s!"{number.name} must be finite, got {Decimal.shortestText v}"
  | .negativeConductivity v => s!"conductivity must be non-negative, got {Decimal.shortestText v}"

variable {K : Type} [Scalar K]

/-- The settings of the drift, looked at only where it is enabled. -/
def DriftSettings.validate (x : DriftSettings K) (hasHeat : Bool) :
    Except (DriftFault K) Unit := do
  if !x.enabled then return
  if !hasHeat then throw .noHeatEquation
  if !Scalar.isFinite x.beta then throw (.notFinite .beta x.beta)
  if !Scalar.isFinite x.heatFlux then throw (.notFinite .heatFlux x.heatFlux)
  if !Scalar.isFinite x.conductivity then throw (.notFinite .conductivity x.conductivity)
  if x.conductivity < 0 then throw (.negativeConductivity x.conductivity)

end ClusterDynamics
