import ClusterDynamics.Network.FillPattern
import ClusterDynamics.Network.ReactionList

/-! Reaction networks: clusters, their reactions, and the fill pattern of the Jacobian. -/

namespace ClusterDynamics

structure Network (K : Type) where
  /-- What it was built from. -/
  spec : NetworkSpec K
  lengths : Lengths K
  paving : Paving
  index : OverlapIndex
  table : ClusterTable K
  /-- In the order of their keys. -/
  reactions : Array (Reaction K)
  pattern : FillPattern

def NetworkSpec.channels {K : Type} (spec : NetworkSpec K) : Channels :=
  { nucleation := spec.nucleation.isSome
    reSolutionFrom := spec.reSolution.map ReSolutionSettings.minSize
    sinks := spec.sinks.isSome
    monomerAxes := spec.profile.monomerAxes
    primary := some spec.profile.primary }

namespace Network

variable {K : Type} [Scalar K]

def build (spec : NetworkSpec K) (o : Overflow := .checked) :
    Reported K (NetworkError K) (Network K) := do
  let lengths ← spec.resolve
  let paving ← (Paving.build spec.axes).mapError .lattice
  let axis ← Reported.ofExcept (spec.profile.primaryAxis.mapError .profile)
  let index ← Reported.ofExcept ((OverlapIndex.ofPaving paving axis).mapError .lattice)
  let table ← ClusterTable.build spec lengths paving
  let reactions ← (buildReactions index table spec.channels o).mapError .lattice
  let pattern := FillPattern.ofReactions paving.size reactions
  Reported.event (.networkBuilt paving.size reactions.length pattern.entryCount)
  return { spec, lengths, paving, index, table, reactions := reactions.toArray, pattern }

def size (net : Network K) : Nat := net.table.size

def cluster (net : Network K) (id : Nat) : Except OutOfRange (Cluster K) := net.table.cluster id

def find? (net : Network K) (c : Composition) : Option Nat := net.index.find? c

/-- Rate of heterogeneous nucleation, zero when it is off (1/s). -/
def nucleationRate (net : Network K) : K := net.spec.nucleation.getD 0

end Network

end ClusterDynamics
