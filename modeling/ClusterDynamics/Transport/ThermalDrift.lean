import ClusterDynamics.Report
import ClusterDynamics.Transport.Diffusion
import ClusterDynamics.Transport.DriftSettings

/-! Drift of the mobile clusters along a gradient of temperature. -/

namespace ClusterDynamics

/-- The clusters that drift, the strength of the drift, and the degree of freedom of the
temperature. -/
structure ThermalDrift (K : Type) where
  diffusing : List Nat
  beta : K
  heatFlux : K
  conductivity : K
  temperature : Nat
  deriving Repr

namespace ThermalDrift

variable {K : Type} [Scalar K]

def ofSettings (x : DriftSettings K) : ThermalDrift K :=
  { diffusing := [], beta := x.beta, heatFlux := x.heatFlux, conductivity := x.conductivity
    temperature := 0 }

/-- Take up the mobile clusters of a network, and couple each with the temperature. -/
def attach {ε : Type} (x : ThermalDrift K) (net : Network K) (pattern : FillPattern) :
    Reported K ε (ThermalDrift K × FillPattern) := do
  let diffusing := net.table.diffusing
  let pattern := (pattern.couple diffusing).1
  Reported.event (.driftInitialized diffusing.length)
  return ({ x with diffusing, temperature := pattern.clusters }, pattern)

/-- The strength of the drift at a temperature, exactly zero without heat flux or conductivity. -/
def heatFactor (x : ThermalDrift K) (temperature : K) : K :=
  if x.heatFlux == 0 || x.conductivity == 0 then 0
  else x.beta * x.heatFlux / x.conductivity / (temperature * temperature)

/-- The difference of a cluster's concentrations below and above. -/
def difference (s : Stencil K) (i : Nat) : Except OutOfRange K := do
  return (← s.rightValue i) - (← s.leftValue i)

/-- Add the rate of change of every drifting cluster. -/
def addFlux (x : ThermalDrift K) (p : PointRates K) (s : Stencil K) (out : Array K) :
    Except OutOfRange (Array K) := do
  let h := x.heatFactor (← s.centerValue x.temperature)
  let span := s.above + s.below
  x.diffusing.foldlM (fun out i => do
    let d := (← entryAt p.diffusion i).value
    addEntry out i (d * h * (← difference s i) / span)) out

/-- The derivatives for cluster `i` with coefficient `d` with respect to its own values, at the
strength `h`. -/
def ownPartials (s : Stencil K) (i : Nat) (d h : K) : List (StencilEntry K) :=
  let span := s.above + s.below
  let left := if s.left.isSome then [⟨i, .left, i, -d * h / span⟩] else []
  left ++ [⟨i, .right, i, d * h / span⟩]

/-- The derivatives of what `addFlux` adds for cluster `i` at a temperature. -/
def clusterPartials (x : ThermalDrift K) (p : PointRates K) (s : Stencil K) (t : K) (i : Nat) :
    Except OutOfRange (List (StencilEntry K)) := do
  let h := x.heatFactor t
  let dh := -2 * h / t
  let d ← entryAt p.diffusion i
  let gradient ← difference s i
  return ownPartials s i d.value h ++
    [⟨i, .center, x.temperature, (d.slope * h + d.value * dh) * gradient / (s.above + s.below)⟩]

/-- The derivatives of what `addFlux` adds. They are listed even where they are zero, so that their
places never depend on the heat flux. -/
def partials (x : ThermalDrift K) (p : PointRates K) (s : Stencil K) :
    Except OutOfRange (List (StencilEntry K)) := do
  let t ← s.centerValue x.temperature
  return (← x.diffusing.mapM (x.clusterPartials p s t)).flatten

end ThermalDrift

end ClusterDynamics
