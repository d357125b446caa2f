import ClusterDynamics.SetupError

/-! Settings of a simulation beside its network and its grid. -/

namespace ClusterDynamics

/-- What is simulated, at which temperature and over how many columns. -/
structure SimulationConfig (K : Type) where
  diffusion : Bool
  drift : DriftSettings K
  /-- Without it the temperature is constant and no degree of freedom. -/
  heat : Option (HeatSettings K)
  /-- The temperature in use without the heat equation (K). -/
  temperature : K
  /-- The surface node of every column at the start. -/
  initialSurface : Nat
  /-- Columns along `y`. -/
  ny : Nat
  /-- Columns along `z`. -/
  nz : Nat
  deriving Repr

variable {K : Type} [Scalar K]

namespace SimulationConfig

/-- Diffusion alone, in one column at 1000 K. -/
def standard : SimulationConfig K :=
  { diffusion := true, drift := DriftSettings.off, heat := none, temperature := 1000
    initialSurface := 0, ny := 1, nz := 1 }

/-- Whether the temperature is a degree of freedom. -/
def hasTemperature (c : SimulationConfig K) : Bool := c.heat.isSome

/-- Check the settings; the first fault found is reported. -/
def validate (c : SimulationConfig K) : Except (SetupError K) Unit := do
  if !Scalar.isPositive c.temperature then throw (.badTemperature c.temperature)
  if let some h := c.heat then h.validate.mapError .heat
  (c.drift.validate c.hasTemperature).mapError .drift
  if c.ny = 0 ∨ c.nz = 0 then throw (.grid (.noColumns c.ny c.nz))

end SimulationConfig

end ClusterDynamics
