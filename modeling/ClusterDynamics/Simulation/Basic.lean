import ClusterDynamics.Assembly
import ClusterDynamics.Depth.Surface
import ClusterDynamics.Heat.Equation
import ClusterDynamics.Rates.Tables
import ClusterDynamics.Simulation.Config
import ClusterDynamics.Transport.ThermalDrift

/-! A network on a grid: the rate of change of every value at every grid point, its derivatives,
and the rates that both are computed from. Points above the surface of their column are vacuum,
where nothing changes. -/

namespace ClusterDynamics

structure Simulation (K : Type) where
  net : Network K
  config : SimulationConfig K
  grid : DepthGrid K
  surface : SurfaceMap
  pattern : FillPattern
  assembly : Assembly K
  diffusion : Option Diffusion
  drift : Option (ThermalDrift K)
  heat : Option (HeatEquation K)
  tables : RateTables K
  /-- How many points the last change of temperatures computed anew. -/
  recomputed : Nat
  /-- How many derivatives the last evaluation of the whole grid gave. -/
  derivatives : Nat

/-- A derivative of one value of the state by another, both by position in the whole state.
Entries at the same place add up. -/
structure Triplet (K : Type) where
  row : Nat
  column : Nat
  value : K
  deriving Repr

namespace Simulation

variable {K : Type} [Scalar K]

/-- More than one column needs the grid to have the axis. -/
def checkColumns (config : SimulationConfig K) (grid : DepthGrid K) :
    Except (SetupError K) Unit :=
  if (1 < config.ny ∧ grid.dimension < 2) ∨ (1 < config.nz ∧ grid.dimension < 3) then
    .error (.grid (.missingTransverseAxis config.ny config.nz))
  else .ok ()

/-- The heat equation of the settings, ready for evaluation. -/
def buildHeat (config : SimulationConfig K) (dimension dof : Nat) :
    Reported K (SetupError K) (Option (HeatEquation K)) := do
  match config.heat with
  | none => return none
  | some x =>
    let h ← (HeatEquation.ofFlux x.flux x.bulkTemperature dimension).configure x dof
    return some (← Reported.ofExcept h.begin)

/-- The thermal drift of the settings, and the fill pattern that it needs. -/
def buildDrift (config : SimulationConfig K) (net : Network K) (pattern : FillPattern) :
    Reported K (SetupError K) (Option (ThermalDrift K) × FillPattern) := do
  if config.drift.enabled then
    let (drift, pattern) ← (ThermalDrift.ofSettings config.drift).attach net pattern
    return (some drift, pattern)
  else return (none, pattern)

/-- The temperature of every point at the start. -/
def startTemperature (config : SimulationConfig K) : K :=
  match config.heat with
  | some x => x.bulkTemperature
  | none => config.temperature

def build (net : Network K) (grid : DepthGrid K) (config : SimulationConfig K) :
    Reported K (SetupError K) (Simulation K) := do
  Reported.ofExcept config.validate
  Reported.ofExcept (checkColumns config grid)
  let surface ← Reported.ofExcept
    ((SurfaceMap.flat config.ny config.nz config.initialSurface grid).mapError .grid)
  let heated := if config.hasTemperature then net.pattern.enableTemperature else net.pattern
  let heat ← buildHeat config grid.dimension net.size
  let (drift, pattern) ← buildDrift config net heated
  let diffusion :=
    if config.diffusion then some (Diffusion.ofNetwork net pattern.temperature?) else none
  let assembly ← Assembly.build net pattern
  let _ ← Reported.ofExcept ((extentProduct [grid.size, config.ny, config.nz]).mapError
    fun e => .grid (.outOfRange e))
  let points := grid.size * config.ny * config.nz
  let tables ← (RateTables.build net (List.replicate points (startTemperature config))).mapError
    .rates
  Reported.debug (s!"evaluator: {points} grid points, {pattern.size} dofs per point, " ++
    s!"{pattern.entryCount} non-zeros per block")
  return { net, config, grid, surface, pattern, assembly, diffusion, drift, heat, tables
           recomputed := 0, derivatives := 0 }

def dofs (x : Simulation K) : Nat := x.pattern.size

def shape (x : Simulation K) : GridShape := ⟨x.grid.size, x.config.ny, x.config.nz⟩

/-- A state of zeros, at the bulk temperature where temperature is solved for. -/
def newState (x : Simulation K) : GridState K :=
  let zeros := GridState.zeros x.shape x.dofs
  match x.pattern.temperature?, x.heat with
  | some t, some h => (zeros.fill t h.bulkTemperature).toOption.getD zeros
  | _, _ => zeros

/-- Move the surface of column `(j, k)`. -/
def setSurface (x : Simulation K) (j k node : Nat) : Except (SetupError K) (Simulation K) := do
  return { x with surface := ← (x.surface.move j k node).mapError .grid }

/-- Change the heat flux that the drift is driven by, where there is drift. -/
def setHeatFlux (x : Simulation K) (heatFlux : K) : Simulation K :=
  { x with drift := x.drift.map fun d => { d with heatFlux } }

/-- Change the conductivity that the drift is divided by, where there is drift. -/
def setConductivity (x : Simulation K) (conductivity : K) : Simulation K :=
  { x with drift := x.drift.map fun d => { d with conductivity } }

/-- A state must have the shape of the grid and the right number of values per point. -/
def checkState (x : Simulation K) (s : GridState K) : Except (EvalError K) Unit := do
  if s.shape ≠ x.shape then throw (.wrongLength .gridPoints x.shape.points s.points)
  if s.dofs ≠ x.dofs then throw (.wrongLength .dofsPerPoint x.dofs s.dofs)

/-- The surface node of the column of a point. -/
def surfaceAt (x : Simulation K) (p : Nat) : Nat :=
  let (_, iy, iz) := x.shape.coords p
  x.surface.node iy iz

def nodeOf (x : Simulation K) (p : Nat) : Nat := (x.shape.coords p).1

/-- Whether a point lies above the surface of its column. -/
def isVacuum (x : Simulation K) (p : Nat) : Bool := decide (x.nodeOf p < x.surfaceAt p)

def neighbours (x : Simulation K) (p : Nat) : Neighbours := x.shape.neighbours p (x.surfaceAt p)

/-- The factors of the transverse axes in use, the first one first. -/
def stencilFactors (x : Simulation K) : K × K :=
  let (fy, fz) := x.grid.transverseFactors
  match decide (1 < x.config.ny), decide (1 < x.config.nz) with
  | true, true => (fy, fz)
  | true, false => (fy, 0)
  | false, true => (fz, 0)
  | false, false => (0, 0)

def stencil (x : Simulation K) (s : GridState K) (p : Nat) : Except OutOfRange (Stencil K) := do
  let nb := x.neighbours p
  let node := x.nodeOf p
  return {
    center := ← s.point p
    left := ← nb.left.mapM s.point
    right := ← s.point nb.right
    transverse := ← nb.transverse.mapM fun (minus, plus) => do
      return (← s.point minus, ← s.point plus)
    above := x.grid.spacingAbove node
    below := x.grid.spacingBelow node
    factors := x.stencilFactors
    depth := x.grid.depth node (x.surfaceAt p) }

/-- Add what diffusion contributes, where there is diffusion. -/
def addDiffusion (x : Simulation K) (rates : PointRates K) (s : Stencil K) (out : Array K) :
    Except (EvalError K) (Array K) :=
  match x.diffusion with
  | some d => (d.addFlux rates s out).mapError .outOfRange
  | none => .ok out

/-- Add what the drift contributes, where there is drift. -/
def addDrift (x : Simulation K) (rates : PointRates K) (s : Stencil K) (out : Array K) :
    Except (EvalError K) (Array K) :=
  match x.drift with
  | some d => (d.addFlux rates s out).mapError .outOfRange
  | none => .ok out

/-- Add what the heat equation contributes, where temperature is solved for. -/
def addHeat (x : Simulation K) (s : Stencil K) (out : Array K) :
    Except (EvalError K) (Array K) := do
  match x.heat, x.pattern.temperature? with
  | some h, some t => return out.setIfInBounds t (← h.addFlux s (out.getD t 0))
  | _, _ => return out

/-- The rates of change at a point of a state of the right shape, in place of the values of `out`. -/
def fluxInto (x : Simulation K) (s : GridState K) (p : Nat) (out : Array K) :
    Except (EvalError K) (Array K) := do
  let out := Array.replicate out.size 0
  s.checkPoint p
  if x.isVacuum p then return out
  let rates ← x.tables.checked p x.tables.generation
  let stencil ← (x.stencil s p).mapError .outOfRange
  let out ← x.assembly.addFlux rates stencil.center out
  let out ← x.addDiffusion rates stencil out
  let out ← x.addDrift rates stencil out
  x.addHeat stencil out

def pointFlux (x : Simulation K) (s : GridState K) (p : Nat) : Except (EvalError K) (Array K) :=
  x.fluxInto s p (Array.replicate x.dofs 0)

/-- The rates of change of all values at a point. -/
def flux (x : Simulation K) (s : GridState K) (p : Nat) : Except (EvalError K) (Array K) := do
  x.checkState s
  x.pointFlux s p

/-- The derivatives that reactions contribute at a point. -/
def blockTriplets (base : Nat) (block : SparseBlock K) : List (Triplet K) :=
  block.allRows.flatMap fun r =>
    List.zipWith (fun column value => ⟨base + r.row, base + column, value⟩) r.columns r.values

def diffusionEntries (x : Simulation K) (rates : PointRates K) (s : Stencil K) :
    Except (EvalError K) (List (StencilEntry K)) :=
  match x.diffusion with
  | some d => (d.partials rates s).mapError .outOfRange
  | none => .ok []

def driftEntries (x : Simulation K) (rates : PointRates K) (s : Stencil K) :
    Except (EvalError K) (List (StencilEntry K)) :=
  match x.drift with
  | some d => (d.partials rates s).mapError .outOfRange
  | none => .ok []

def heatEntries (x : Simulation K) (s : Stencil K) :
    Except (EvalError K) (List (StencilEntry K)) := do
  match x.heat, x.pattern.temperature? with
  | some h, some t =>
    let entries ← h.partials s
    return (entries.getD []).map fun (offset, value) => ⟨t, offset, t, value⟩
  | _, _ => return []

/-- The derivatives that transport contributes at a point. -/
def stencilEntries (x : Simulation K) (rates : PointRates K) (s : Stencil K) :
    Except (EvalError K) (List (StencilEntry K)) := do
  return (← x.diffusionEntries rates s) ++ (← x.driftEntries rates s) ++ (← x.heatEntries s)

/-- Derivatives of a stencil in their places, for `dofs` values per point. Those with respect to
values that the stencil does not have are left out. -/
def stencilTriplets (base dofs : Nat) (nb : Neighbours) (entries : List (StencilEntry K)) :
    List (Triplet K) :=
  entries.filterMap fun e => (nb.resolve e.offset).map fun q =>
    ⟨base + e.row, q * dofs + e.column, e.value⟩

/-- The derivatives of all rates of change at a point. Which places are listed depends on the
network, the settings and the surface, and never on concentrations. -/
def jacobian (x : Simulation K) (s : GridState K) (p : Nat) :
    Except (EvalError K) (List (Triplet K)) := do
  x.checkState s
  s.checkPoint p
  if x.isVacuum p then return []
  let rates ← x.tables.checked p x.tables.generation
  let stencil ← (x.stencil s p).mapError .outOfRange
  let base := p * x.dofs
  let block ← x.assembly.addPartials rates stencil.center x.assembly.template
  let entries ← x.stencilEntries rates stencil
  return blockTriplets base block ++ stencilTriplets base x.dofs (x.neighbours p) entries

/-- The rates of change at all points, in place of the values of `out`, where those of a point stand
together. A point without values cannot be told from the next. -/
def allFluxInto (x : Simulation K) (s : GridState K) (out : Array K) :
    Except (EvalError K) (Array K) := do
  x.checkState s
  if out.size ≠ s.values.size then
    throw (.wrongLength .fluxOutput s.values.size out.size)
  (checkRange 0 x.dofs).mapError .outOfRange
  let parts ← (List.range s.points).mapM fun p =>
    x.fluxInto s p (out.extract (p * x.dofs) (p * x.dofs + x.dofs))
  return parts.foldl (· ++ ·) #[]

/-- `allFluxInto`, for an output of zeros of the given length. -/
def allFlux (x : Simulation K) (s : GridState K) (outputLength : Nat) :
    Except (EvalError K) (Array K) :=
  x.allFluxInto s (Array.replicate outputLength 0)

/-- The derivatives at all points, which are also counted. -/
def allJacobian (x : Simulation K) (s : GridState K) :
    Except (EvalError K) (Simulation K × List (Triplet K)) := do
  x.checkState s
  let parts ← (List.range s.points).mapM (x.jacobian s)
  let triplets := parts.flatten
  return ({ x with derivatives := triplets.length }, triplets)

/-- The temperature that a point takes at a time. Vacuum keeps the one that it has. -/
def nextTemperature (x : Simulation K) (s : GridState K) (time : K) (p : Nat) :
    Except (EvalError K) K := do
  if x.isVacuum p then return (← x.tables.get p).temperature
  match x.pattern.temperature?, x.heat with
  | some t, some h =>
    let values ← (s.point p).mapError .outOfRange
    return h.temperatureAt time (← (entryAt values t).mapError .outOfRange)
  | _, _ => return x.config.temperature

/-- Bring the rates up to the temperatures of a state at a time. The number of points computed anew
is returned along with the simulation. -/
def updateTemperatures (x : Simulation K) (s : GridState K) (time : K) :
    Reported K (EvalError K) (Simulation K × Nat) := do
  Reported.ofExcept (x.checkState s)
  let temperatures ← Reported.ofExcept ((List.range s.points).mapM (x.nextTemperature s time))
  let (tables, recomputed) ← x.tables.setTemperatures x.net temperatures
  return ({ x with tables, recomputed }, recomputed)

end Simulation

end ClusterDynamics
