import ClusterDynamics.Depth.Stencil
import ClusterDynamics.Rates.Point

/-! Diffusion of the mobile clusters: the second difference of the concentration, on a depth axis
with any spacing and on uniform transverse axes. -/

namespace ClusterDynamics

variable {K : Type} [Scalar K]

/-- The second difference along depth of the values `l`, `c`, `r` with spacings `above` and
`below`. -/
def depthDifference (above below l c r : K) : K :=
  2 / (above + below) * (l / above + r / below - (1 / above + 1 / below) * c)

/-- The second differences along the transverse axes around the value `c`. Each axis gives its two
neighbours and its factor. -/
def transverseDifference (c : K) (axes : List (K × K × K)) : K :=
  Scalar.sum (axes.map fun (minus, plus, factor) => factor * (minus + plus - 2 * c))

def addEntry (out : Array K) (i : Nat) (x : K) : Except OutOfRange (Array K) := do
  checkRange i out.size
  return out.modify i (· + x)

/-- The clusters that diffuse, and the degree of freedom of the temperature. -/
structure Diffusion where
  diffusing : List Nat
  temperature : Option Nat
  deriving DecidableEq, Repr

namespace Diffusion

def ofNetwork (net : Network K) (temperature : Option Nat) : Diffusion :=
  { diffusing := net.table.diffusing, temperature }

/-- The two second differences of a cluster's concentration, along depth and across. -/
def differences (s : Stencil K) (i : Nat) : Except OutOfRange (K × K) := do
  let c ← s.centerValue i
  let l ← s.leftValue i
  let r ← s.rightValue i
  return (depthDifference s.above s.below l c r,
    transverseDifference c (← s.transverseValues s.transverse.length i))

/-- Add the rate of change of every diffusing cluster. -/
def addFlux (d : Diffusion) (p : PointRates K) (s : Stencil K) (out : Array K) :
    Except OutOfRange (Array K) :=
  d.diffusing.foldlM (fun out i => do
    let coefficient := (← entryAt p.diffusion i).value
    let (along, across) ← differences s i
    addEntry out i (coefficient * along + coefficient * across)) out

/-- The derivatives for cluster `i` with coefficient `d` with respect to its own values. -/
def ownPartials (s : Stencil K) (i : Nat) (d : K) (factors : List K) : List (StencilEntry K) :=
  let half := 2 / (s.above + s.below)
  let center := -d * half * (1 / s.above + 1 / s.below) - 2 * d * Scalar.sum factors
  let left := if s.left.isSome then [⟨i, .left, i, d * half / s.above⟩] else []
  ⟨i, .center, i, center⟩ :: left ++ ⟨i, .right, i, d * half / s.below⟩ ::
    factors.zipIdx.flatMap fun (factor, axis) =>
      [⟨i, .minus axis, i, d * factor⟩, ⟨i, .plus axis, i, d * factor⟩]

/-- The derivatives of what `addFlux` adds for cluster `i`. -/
def clusterPartials (d : Diffusion) (p : PointRates K) (s : Stencil K) (i : Nat) :
    Except OutOfRange (List (StencilEntry K)) := do
  let coefficient ← entryAt p.diffusion i
  let own := ownPartials s i coefficient.value (← s.usedFactors)
  match d.temperature with
  | none => return own
  | some t =>
    let (along, across) ← differences s i
    return own ++ [⟨i, .center, t, coefficient.slope * (along + across)⟩]

/-- The derivatives of what `addFlux` adds. -/
def partials (d : Diffusion) (p : PointRates K) (s : Stencil K) :
    Except OutOfRange (List (StencilEntry K)) := do
  return (← d.diffusing.mapM (d.clusterPartials p s)).flatten

end Diffusion

end ClusterDynamics
