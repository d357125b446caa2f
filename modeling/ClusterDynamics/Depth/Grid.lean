import ClusterDynamics.Decimal.Shortest
import ClusterDynamics.OutOfRange
import ClusterDynamics.Scalar

/-! The spatial grid. Nodes run into the material along the depth axis at positions of any
spacing; up to two transverse axes are uniform and periodic. The spacing beyond either end of the
depth axis repeats the one inside, as a reflecting boundary needs it. -/

namespace ClusterDynamics

inductive Transverse where
  | y
  | z
  deriving DecidableEq, Repr

/-- Causes of failure of a spatial grid or of a surface on it. -/
inductive GridError (K : Type) where
  | tooFewNodes (found : Nat)
  | badDimension (found : Nat)
  /-- The node does not lie below the one before it. -/
  | notIncreasing (node : Nat)
  | badSpacing (axis : Transverse) (value : K)
  /-- The common spacing of a uniform grid. -/
  | badUniformSpacing (value : K)
  /-- A surface map without columns. -/
  | noSurfaceColumns (ny nz : Nat)
  /-- A simulation without columns. -/
  | noColumns (ny nz : Nat)
  /-- More columns than the grid has transverse axes for. -/
  | missingTransverseAxis (ny nz : Nat)
  | surfaceOutOfRange (node nodes : Nat)
  | columnOutOfRange (j k : Nat)
  /-- More nodes or columns than there is room for. -/
  | outOfRange (e : OutOfRange)
  deriving Repr

/-- The fewest depth nodes of a grid. -/
def minNodes : Nat := 3

def GridError.message : GridError Float → String
  | .tooFewNodes n => s!"invalid grid: need at least {minNodes} nodes, got {n}"
  | .badDimension d => s!"invalid grid: dimension must be 1, 2 or 3, got {d}"
  | .notIncreasing node => s!"invalid grid: node positions not strictly increasing at node {node}"
  | .badSpacing axis h =>
    let name := match axis with
      | .y => "hy"
      | .z => "hz"
    s!"invalid grid: {name} must be positive, got {Decimal.shortestText h}"
  | .badUniformSpacing h => s!"invalid grid: spacing must be positive, got {Decimal.shortestText h}"
  | .noSurfaceColumns ny nz =>
    s!"invalid grid: surface map needs at least one column, got {ny}x{nz}"
  | .noColumns ny nz => s!"invalid grid: need at least one column, got {ny}x{nz}"
  | .missingTransverseAxis ny nz =>
    s!"invalid grid: {ny}x{nz} transverse columns need a {if nz > 1 then 3 else 2}-D grid"
  | .surfaceOutOfRange node nodes => s!"surface position {node} outside grid of {nodes} nodes"
  | .columnOutOfRange j k => s!"column ({j}, {k}) out of range"
  | .outOfRange e => s!"no entry {e.index} among {e.size}"

/-- Node positions along the depth axis, and the spacings across it. -/
structure DepthGrid (K : Type) where
  nodes : Array K
  dimension : Nat
  spacingY : K
  spacingZ : K
  deriving Repr

variable {K : Type} [Scalar K]

/-- The first element of a list, counted from `i`, that does not exceed the one before it. -/
def firstDescent (i : Nat) : List K → Option Nat
  | a :: b :: rest => if a < b then firstDescent (i + 1) (b :: rest) else some (i + 1)
  | _ => none

namespace DepthGrid

/-- The grid with the given node positions, which must increase. The spacing across an axis that
the dimension leaves out is not looked at. -/
def ofNodes (nodes : List K) (dimension : Nat) (hy hz : K) :
    Except (GridError K) (DepthGrid K) := do
  if nodes.length < minNodes then throw (.tooFewNodes nodes.length)
  if dimension < 1 ∨ 3 < dimension then throw (.badDimension dimension)
  if let some node := firstDescent 0 nodes then throw (.notIncreasing node)
  if 2 ≤ dimension ∧ !Scalar.isPositive hy then throw (.badSpacing .y hy)
  if 3 ≤ dimension ∧ !Scalar.isPositive hz then throw (.badSpacing .z hz)
  return ⟨nodes.toArray, dimension, hy, hz⟩

/-- A grid of `n` nodes from zero on with the same spacing along every axis. -/
def uniform (n : Nat) (h : K) (dimension : Nat) : Except (GridError K) (DepthGrid K) := do
  if !Scalar.isPositive h then throw (.badUniformSpacing h)
  (checkRoom n 1).mapError .outOfRange
  ofNodes ((List.range n).map fun i => Scalar.ofNat i * h) dimension h h

def size (g : DepthGrid K) : Nat := g.nodes.size

def node (g : DepthGrid K) (i : Nat) : K := g.nodes.getD i 0

/-- The spacing between a node and the one above it. -/
def spacingAbove (g : DepthGrid K) (i : Nat) : K :=
  if i = 0 then g.node 1 - g.node 0 else g.node i - g.node (i - 1)

/-- The spacing between a node and the one below it. -/
def spacingBelow (g : DepthGrid K) (i : Nat) : K :=
  let last := g.size - 1
  if last ≤ i then g.node last - g.node (last - 1) else g.node (i + 1) - g.node i

/-- How far node `i` lies below the surface node. -/
def depth (g : DepthGrid K) (i surface : Nat) : K := g.node i - g.node surface

/-- `depth` of every node, if there is such a surface node. -/
def depths? (g : DepthGrid K) (surface : Nat) : Option (List K) :=
  if surface < g.size then some ((List.range g.size).map fun i => g.depth i surface) else none

/-- The stencil factors `1 / h²` of the transverse axes; zero for an axis that is left out. -/
def transverseFactors (g : DepthGrid K) : K × K :=
  (if 2 ≤ g.dimension then 1 / (g.spacingY * g.spacingY) else 0,
   if 3 ≤ g.dimension then 1 / (g.spacingZ * g.spacingZ) else 0)

/-- The depth that stands for each node's cell: the midpoint to the node below, and the last
node's own position. -/
def cellDepths (g : DepthGrid K) (surface : Nat) : Except (GridError K) (List K) :=
  if g.size ≤ surface then .error (.surfaceOutOfRange surface g.size)
  else
    let last := g.size - 1
    let origin := g.node surface
    .ok ((List.range g.size).map fun i =>
      if i = last then g.node i - origin else 0.5 * (g.node i + g.node (i + 1)) - origin)

end DepthGrid

end ClusterDynamics
