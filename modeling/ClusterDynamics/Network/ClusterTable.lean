import ClusterDynamics.Lattice.Paving
import ClusterDynamics.Network.Cluster
import ClusterDynamics.OutOfRange

/-! All clusters of a network, in the order of their regions. -/

namespace ClusterDynamics

/-- The clusters of a network; a cluster is named by its position. -/
structure ClusterTable (K : Type) where
  clusters : Array (Cluster K)
  /-- The monomer of the primary species, if the network has it. -/
  primaryMonomer : Option Nat
  deriving Repr

/-- Take the entry of a composition off the list. The last entry moves to its place. -/
def takeMobility {K : Type} (pending : List (Mobility K)) (c : Composition) : List (Mobility K) :=
  match pending.findIdx? (·.composition == c), pending.getLast? with
  | some i, some last => (pending.set i last).dropLast
  | _, _ => pending

/-- The mobilities that belong to no region of a single composition. -/
def unmatchedMobility {K : Type} (mobility : List (Mobility K)) (regions : List Region) :
    List (Mobility K) :=
  ((regions.filter Region.isSimplex).map Region.origin).foldl takeMobility mobility

namespace ClusterTable

variable {K : Type} [Scalar K]

/-- The clusters of the regions of a paving. -/
def ofPaving (spec : NetworkSpec K) (lengths : Lengths K) (paving : Paving) : ClusterTable K :=
  let clusters := paving.regions.map (Cluster.ofRegion spec lengths)
  { clusters := clusters.toArray
    primaryMonomer := clusters.findIdx? fun c => c.monomer == some spec.profile.primary }

/-- `ofPaving`, with a warning for each mobility that has no cluster. -/
def build {ε : Type} (spec : NetworkSpec K) (lengths : Lengths K) (paving : Paving) :
    Reported K ε (ClusterTable K) := do
  for m in unmatchedMobility spec.mobility paving.regions do
    Reported.log ⟨.warn,
      s!"mobility entry {countsText m.composition} matches no exact cluster and is ignored"⟩
  return ofPaving spec lengths paving

def size (t : ClusterTable K) : Nat := t.clusters.size

def cluster (t : ClusterTable K) (id : Nat) : Except OutOfRange (Cluster K) := entryAt t.clusters id

def diffusing (t : ClusterTable K) : List Nat :=
  (List.range t.size).filter fun id => (t.clusters[id]?).any Cluster.isMobile

/-- The energy at which cluster `k` breaks into `i` and `j` (eV). -/
def splitEnergy (t : ClusterTable K) (k i j : Nat) : Except OutOfRange K := do
  return (← t.cluster k).splitEnergy (← t.cluster i) (← t.cluster j)

end ClusterTable

end ClusterDynamics
