import ClusterDynamics.Lattice.Interval

/-! How one species axis is cut. Counts below `groupMin` stand alone; from there on they are
taken in runs of `groupWidth`. Counts are bounded by `countLimit`, and arithmetic on bounds stops
there. -/

namespace ClusterDynamics

def countLimit : Nat := 4294967295

/-- Addition of bounds, which stops at the largest count. -/
def boundedAdd (a b : Nat) : Nat := min (a + b) countLimit

structure Axis where
  species : Species
  max : Nat
  /-- The first count that belongs to a run. -/
  groupMin : Nat
  groupWidth : Nat
  deriving DecidableEq, Repr

namespace Axis

/-- An axis on which every count up to `max` stands alone. -/
def exact (species : Species) (max : Nat) : Axis := ⟨species, max, boundedAdd max 1, 1⟩

/-- Runs must be of some width, and the zero count must stand alone. -/
def validate (a : Axis) : Except LatticeError Unit :=
  if a.groupWidth = 0 then .error (.zeroGroupWidth a.species)
  else if a.groupMin = 0 then .error (.zeroGroupMin a.species)
  else .ok ()

/-- An axis on which counts from `groupMin` on are taken in runs of `groupWidth`. -/
def grouped (species : Species) (max groupMin groupWidth : Nat) : Except LatticeError Axis := do
  let a : Axis := ⟨species, max, groupMin, groupWidth⟩
  a.validate
  return a

/-- Runs of `width` counts from `first` on, until `max` is covered; the last may reach past it.
Each run is longer than nothing, so the distance from its start to `max` shrinks. -/
def runs (max width first : Nat) : Except LatticeError (List Interval) :=
  if first ≤ max then
    let stop := boundedAdd first width
    if h : first < stop then do
      let rest ← runs max width stop
      return ⟨first, stop, h⟩ :: rest
    else .error (.degenerateInterval first stop)
  else .ok []
termination_by max + 1 - first
decreasing_by omega

/-- The intervals of the axis in increasing order, the last one not yet cut off at `max`. -/
def intervals (a : Axis) : Except LatticeError (List Interval) := do
  a.validate
  let exactStop := min a.groupMin (boundedAdd a.max 1)
  let groups ← runs a.max a.groupWidth a.groupMin
  return (List.range exactStop).map Interval.singleton ++ groups

end Axis

end ClusterDynamics
