import ClusterDynamics.Lattice.Axis
import ClusterDynamics.Lattice.Region
import ClusterDynamics.Report

/-! The regions that become clusters. The axes' intervals are multiplied out with the last axis
varying fastest, the empty cluster is left out, and every axis is cut off behind its largest
count. Cluster `n` is the `n`-th region. -/

namespace ClusterDynamics

/-- Regions with the species and the largest count of each axis. -/
structure Paving where
  regions : List Region
  species : List Species
  max : List Nat
  deriving DecidableEq, Repr

/-- All ways to choose one interval per axis, the last axis varying fastest. -/
def boxes : List (List Interval) → List (List Interval)
  | [] => [[]]
  | choices :: rest =>
    let tails := boxes rest
    choices.flatMap fun a => tails.map (a :: ·)

/-- Cut one axis of each region off at `limit`, in order. The first region with nothing left ends
the pass: the regions before it are cut, the others are as they were. -/
def clipRegions (axis limit : Nat) : List Region → List Region × Except LatticeError Unit
  | [] => ([], .ok ())
  | r :: rest =>
    let keep := fun r' => let (rs, result) := clipRegions axis limit rest; (r' :: rs, result)
    match r.axes[axis]? with
    | none => keep r
    | some a =>
      if limit < a.stop then
        match a.clip limit with
        | .error e => (r :: rest, .error e)
        | .ok b => keep (r.setAxis axis b)
      else keep r

namespace Paving

def size (p : Paving) : Nat := p.regions.length

def dimension (p : Paving) : Nat := p.species.length

/-- The axis of a species, if it has one. -/
def axisOf? (p : Paving) (s : Species) : Option Nat := p.species.findIdx? (· == s)

/-- Cut every region off at `limit` on one axis. The paving after the pass is returned along with
its outcome. -/
def tile (p : Paving) (axis limit : Nat) : Paving × Except LatticeError Unit :=
  if p.dimension ≤ axis then (p, .error (.noAxis p.dimension axis))
  else
    let (regions, result) := clipRegions axis limit p.regions
    ({ p with regions }, result)

/-- Cut every axis off behind its largest count. -/
def tileAxes : List Axis → Nat → Paving → Except LatticeError Paving
  | [], _, p => .ok p
  | a :: rest, axis, p =>
    match p.tile axis (boundedAdd a.max 1) with
    | (q, .ok ()) => tileAxes rest (axis + 1) q
    | (_, .error e) => .error e

/-- The intervals of the axes, of which there must be one and no two of the same species. -/
def cutsOf (axes : List Axis) : Except LatticeError (List (List Interval)) := do
  if axes.isEmpty then throw .emptyPaving
  if let some s := Species.firstRepeated [] (axes.map Axis.species) then throw (.repeatedSpecies s)
  axes.mapM Axis.intervals

/-- There must be room for the regions of the axes. A region takes up six words. -/
def checkRoom (axes : List Axis) : Except LatticeError Unit := do
  let cuts ← cutsOf axes
  let regions ← (extentProduct (cuts.map List.length)).mapError .outOfRange
  (ClusterDynamics.checkRoom regions 6).mapError .outOfRange

/-- The paving of the box of compositions that the axes span, without the empty cluster. -/
def ofAxes (axes : List Axis) : Except LatticeError Paving := do
  let cuts ← cutsOf axes
  let all ← (boxes cuts).mapM Region.ofAxes
  let regions := all.filter fun r => !r.isNull
  if regions.isEmpty then throw .emptyPaving
  tileAxes axes 0 { regions, species := axes.map Axis.species, max := axes.map Axis.max }

/-- `ofAxes`, for axes of any size. -/
def ofAxes? (axes : List Axis) : Except LatticeError Paving := do
  checkRoom axes
  ofAxes axes

/-- `ofAxes?`, with a log record of the result. -/
def build {K : Type} (axes : List Axis) : Reported K LatticeError Paving := do
  let p ← Reported.ofExcept (ofAxes? axes)
  Reported.debug s!"subpaving built: {p.size} regions over {p.dimension} axes"
  return p

end Paving

end ClusterDynamics
