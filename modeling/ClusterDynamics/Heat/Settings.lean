import ClusterDynamics.Decimal.Shortest
import ClusterDynamics.Material

/-! Settings of the heat equation. The conductivity of a material follows a fit in the logarithm of
the temperature. -/

namespace ClusterDynamics

/-- The fit `(a ln²T + b ln T + c) · 1e-9` of a conductivity (W/(nm K)). -/
structure ConductivityFit (K : Type) where
  a : K
  b : K
  c : K
  deriving Repr

structure HeatParameters (K : Type) where
  /-- One over density times heat capacity (nm³ K/J). -/
  coefficient : K
  conductivity : ConductivityFit K
  deriving Repr

/-- How far the heat equation has been set up. -/
inductive HeatStage where
  /-- There are no parameters yet. -/
  | uninitialized
  | configured
  | evaluating
  deriving DecidableEq, Repr

def HeatStage.name : HeatStage → String
  | .uninitialized => "Uninitialized"
  | .configured => "Configured"
  | .evaluating => "Evaluating"

/-- What can be wrong with settings of the heat equation. -/
inductive HeatFault (K : Type) where
  | flux (value : K)
  | bulkTemperature (value : K)
  | interface
  | coefficient (value : K)
  | conductivityFit
  deriving Repr

def HeatFault.message : HeatFault Float → String
  | .flux v => s!"flux must be finite, got {Decimal.shortestText v}"
  | .bulkTemperature v =>
    s!"bulk temperature must be finite and positive, got {Decimal.shortestText v}"
  | .interface => "interface location must be finite"
  | .coefficient v =>
    s!"heat coefficient must be finite and non-negative, got {Decimal.shortestText v}"
  | .conductivityFit => "conductivity fit must be finite"

variable {K : Type} [Scalar K]

namespace HeatParameters

def ofMaterial : Material → HeatParameters K
  | .uraniumDioxide => ⟨3.88e20, ⟨0.45, -8.7, 44.8⟩⟩
  | .iron => ⟨2.83e20, ⟨5, -100, 487⟩⟩
  | _ => ⟨3.88e20, ⟨10.63, -180.3, 856.3⟩⟩

/-- All numbers must be finite, and the coefficient not negative. -/
def validate (p : HeatParameters K) : Except (HeatFault K) Unit := do
  if !Scalar.isAtLeast 0 p.coefficient then throw (.coefficient p.coefficient)
  let fit := p.conductivity
  unless [fit.a, fit.b, fit.c].all Scalar.isFinite do throw .conductivityFit

end HeatParameters

structure HeatSettings (K : Type) where
  /-- Heat flux through the surface (W/nm²); without it the temperature stays as it is. -/
  flux : K
  /-- Temperature of the bulk (K). -/
  bulkTemperature : K
  /-- Name of the host material. -/
  material : String
  /-- Depth of the interface below the surface (nm). -/
  interface : K
  /-- Parameters to take in place of the material's. -/
  parameters : Option (HeatParameters K)
  deriving Repr

namespace HeatSettings

/-- An interface at the surface, and the material's own parameters. -/
def ofMaterial (flux bulkTemperature : K) (material : String) : HeatSettings K :=
  { flux, bulkTemperature, material, interface := 0, parameters := none }

/-- The numbers must make sense; the material's name is not looked at. -/
def validate (x : HeatSettings K) : Except (HeatFault K) Unit := do
  if !Scalar.isFinite x.flux then throw (.flux x.flux)
  if !Scalar.isPositive x.bulkTemperature then throw (.bulkTemperature x.bulkTemperature)
  if !Scalar.isFinite x.interface then throw .interface
  if let some p := x.parameters then p.validate

end HeatSettings

end ClusterDynamics
