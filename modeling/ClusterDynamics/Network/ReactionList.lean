import ClusterDynamics.Lattice.OverlapIndex
import ClusterDynamics.Lattice.Overflow
import ClusterDynamics.Network.ClusterTable
import ClusterDynamics.Network.Reaction

/-! The reactions of a network. Each unordered pair of clusters is merged into every cluster that
one of the sums of their compositions falls into, and each merger brings its reverses along where
the channels are open. -/

namespace ClusterDynamics

structure Channels where
  nucleation : Bool := false
  /-- The smallest primary size that loses monomers by re-solution; none does without it. -/
  reSolutionFrom : Option Nat := none
  sinks : Bool := false
  /-- The species of which clusters emit single monomers. -/
  monomerAxes : List Species := []
  primary : Option Species := none
  deriving DecidableEq, Repr

namespace Channels

variable {K : Type}

/-- Whether a cluster is a monomer that others can emit. -/
def emits (ch : Channels) (c : Cluster K) : Bool := c.monomer.any ch.monomerAxes.contains

/-- Whether a cluster is the monomer of the primary species. -/
def isPrimaryMonomer (ch : Channels) (c : Cluster K) : Bool :=
  ch.primary.isSome && c.monomer == ch.primary

variable [Scalar K]

/-- Whether re-solution takes a monomer from a cluster. -/
def reSolves (ch : Channels) (c : Cluster K) : Bool :=
  ch.reSolutionFrom.any fun min => decide (Scalar.ofNat min ≤ c.primarySize)

/-- The reactions of one merger `a + b → c` of weight `w`, where `a`, `b`, `c` are the clusters `i`,
`j`, `k`: the merger itself and its reverses. -/
def reactionsOf (ch : Channels) (i j k : Nat) (a b c : Cluster K) (w : K) : List (Reaction K) :=
  let merger :=
    if ch.nucleation && ch.isPrimaryMonomer a && ch.isPrimaryMonomer b then .nucleation i k
    else .production i j k w
  let emission := if ch.emits a || ch.emits b then [.dissociation k i j w] else []
  let knockOut :=
    if (ch.isPrimaryMonomer a || ch.isPrimaryMonomer b) && ch.reSolves c then
      [.reSolution k i j w]
    else []
  merger :: emission ++ knockOut

end Channels

variable {K : Type} [Scalar K]

/-- The reactions of the merger of a pair of clusters into the cluster `k`, if there is one. -/
def mergerReactions (table : ClusterTable K) (ch : Channels) (i j : Nat) (a b : Cluster K)
    (k : Nat) : List (Reaction K) :=
  match table.clusters[k]? with
  | none => []
  | some c =>
    let w : K := a.region.sumFraction b.region c.region
    if w ≤ 0 then [] else ch.reactionsOf i j k a b c w

/-- The reactions of the mergers of one pair of clusters. -/
def pairReactions (o : Overflow) (index : OverlapIndex) (table : ClusterTable K) (ch : Channels)
    (i j : Nat) (a b : Cluster K) : Except LatticeError (List (Reaction K)) := do
  let (lo, hi) ← (sumBox o a.region b.region).mapError .outOfRange
  let hits ← index.query lo hi
  return hits.flatMap (mergerReactions table ch i j a b)

/-- The reactions of the pairs of a cluster with itself and with those behind it. -/
def rowReactions (o : Overflow) (index : OverlapIndex) (table : ClusterTable K) (ch : Channels)
    (i : Nat) (a : Cluster K) : Except LatticeError (List (List (Reaction K))) :=
  (table.clusters.toList.zipIdx.drop i).mapM fun (b, j) => pairReactions o index table ch i j a b

/-- The reactions of the mergers of all pairs `i ≤ j`, in the order of the pairs. -/
def mergers (o : Overflow) (index : OverlapIndex) (table : ClusterTable K) (ch : Channels) :
    Except LatticeError (List (Reaction K)) := do
  let rows ← table.clusters.toList.zipIdx.mapM fun (a, i) => rowReactions o index table ch i a
  return rows.flatten.flatten

def sinkReactions (table : ClusterTable K) : List (Reaction K) := table.diffusing.map Reaction.sink

/-- Put a reaction in front of a list; it replaces the first one there if that has the same key. -/
def putFirst {K : Type} (r : Reaction K) : List (Reaction K) → List (Reaction K)
  | [] => [r]
  | s :: others => if s.key = r.key then r :: others else r :: s :: others

/-- Of neighbours with equal keys, keep the first. -/
def keepFirst {K : Type} (rs : List (Reaction K)) : List (Reaction K) := rs.foldr putFirst []

/-- Sort by key; of reactions with equal keys the first of the list stays. -/
def sortReactions {K : Type} (rs : List (Reaction K)) : List (Reaction K) :=
  keepFirst (rs.mergeSort fun r s => r.key.precedes s.key)

/-- The reactions of a network in the order of their keys, each key once. -/
def reactionList (index : OverlapIndex) (table : ClusterTable K) (ch : Channels)
    (o : Overflow := .checked) : Except LatticeError (List (Reaction K)) := do
  let merged ← mergers o index table ch
  return sortReactions (merged ++ if ch.sinks then sinkReactions table else [])

/-- `reactionList`, with a log record of the result. -/
def buildReactions (index : OverlapIndex) (table : ClusterTable K) (ch : Channels) (o : Overflow) :
    Reported K LatticeError (List (Reaction K)) := do
  let rs ← Reported.ofExcept (reactionList index table ch o)
  Reported.debug s!"generated {rs.length} reactions over {table.size} clusters"
  return rs

end ClusterDynamics
