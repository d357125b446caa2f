import ClusterDynamics.OutOfRange
import ClusterDynamics.Species

/-! What can go wrong when compositions are cut into regions. -/

namespace ClusterDynamics

/-- Causes of failure on the lattice of compositions. -/
inductive LatticeError where
  /-- An interval with no counts between its bounds. -/
  | degenerateInterval (first stop : Nat)
  /-- A region with no axes. -/
  | emptyRegion
  /-- A number of axes other than the one in use. -/
  | axisMismatch (expected found : Nat)
  | zeroGroupWidth (species : Species)
  | zeroGroupMin (species : Species)
  | repeatedSpecies (species : Species)
  /-- Axes that leave nothing but the empty cluster. -/
  | emptyPaving
  /-- A number of axes or of regions beyond all bounds. -/
  | outOfRange (e : OutOfRange)
  deriving DecidableEq, Repr

def LatticeError.message : LatticeError → String
  | .degenerateInterval first stop => s!"degenerate interval [{first}, {stop})"
  | .emptyRegion => "region must have at least one axis"
  | .axisMismatch expected found => s!"expected {expected} composition axes, found {found}"
  | .zeroGroupWidth s => s!"invalid partition: group_width for {s.symbol} must be at least 1"
  | .zeroGroupMin s => s!"invalid partition: group_min for {s.symbol} must be at least 1"
  | .repeatedSpecies s => s!"invalid partition: species {s.symbol} appears on more than one axis"
  | .emptyPaving => "partition produced no clusters"
  | .outOfRange e => s!"no entry {e.index} among {e.size}"

/-- There is no axis of the given number. Messages count axes from one. -/
def LatticeError.noAxis (dimension axis : Nat) : LatticeError :=
  if axis + 1 < wordLimit then .axisMismatch dimension (axis + 1) else .outOfRange ⟨axis, dimension⟩

end ClusterDynamics
