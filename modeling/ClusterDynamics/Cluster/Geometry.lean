import ClusterDynamics.UnknownName

/-! The shapes of clusters as capture sees them. The shape decides the radius formula of a cluster
and the rate law of its encounters. -/

namespace ClusterDynamics

inductive Geometry where
  /-- A compact cluster or bubble. -/
  | sphere
  /-- Impurities pinned at a vacancy-type trap. -/
  | trap
  /-- A planar dislocation loop. -/
  | loop
  /-- A freely migrating gas cluster without a lattice defect. -/
  | free
  /-- A cluster bound at a dislocation junction. -/
  | junction
  /-- A mixed complex of impurities and defects. -/
  | complex
  deriving DecidableEq, Repr

namespace Geometry

def all : List Geometry := [sphere, trap, loop, free, junction, complex]

def name : Geometry → String
  | sphere => "Sphere"
  | trap => "Trap"
  | loop => "Loop"
  | free => "Free"
  | junction => "Junction"
  | complex => "Complex"

/-- The geometry with the given name, in letters of either case. -/
def ofName (text : String) : Except UnknownName Geometry :=
  lookupName .geometry all (fun g t => sameLetters g.name t) text

end Geometry

end ClusterDynamics
