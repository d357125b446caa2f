import ClusterDynamics.Lattice.Paving
import ClusterDynamics.TurningPoint

/-! Finding the regions that meet a box. The regions are told apart by their interval on one axis,
the primary one, then by that on the next axis, and so on. A box behind all regions on some axis
meets none. Any other query passes over the primary intervals that end before the box and stops at
the first that begins behind it; of the intervals of each further axis it follows those that meet
the box. -/

namespace ClusterDynamics

/-- Put an entry in front of groups: into the first of them if it has the same interval. -/
def addToGroups {α : Type} (entry : Interval × α) :
    List (Interval × List α) → List (Interval × List α)
  | [] => [(entry.1, [entry.2])]
  | (a, members) :: groups =>
    if a = entry.1 then (a, entry.2 :: members) :: groups
    else (entry.1, [entry.2]) :: (a, members) :: groups

/-- The entries with the same interval, for each interval that occurs, in the order of the
intervals. -/
def groupByInterval {α : Type} (entries : List (Interval × α)) : List (Interval × List α) :=
  (entries.mergeSort fun x y => x.1.precedes y.1).foldr addToGroups []

/-- Regions, by position, under their intervals on a number of axes: under that on the first axis,
there under that on the second, and so on. -/
def Shelf : Nat → Type
  | 0 => List Nat
  | axes + 1 => List (Interval × Shelf axes)

namespace Shelf

/-- A region under its interval on the first of some axes. -/
def underFirst : List Interval × Nat → Option (Interval × List Interval × Nat)
  | ([], _) => none
  | (a :: others, id) => some (a, others, id)

/-- The shelf of regions with the given intervals. -/
def ofRegions : (axes : Nat) → List (List Interval × Nat) → Shelf axes
  | 0, regions => regions.map Prod.snd
  | axes + 1, regions =>
    (groupByInterval (regions.filterMap underFirst)).map fun (a, members) =>
      (a, ofRegions axes members)

/-- The regions that meet the box with corners `lo` and `hi`, both included. -/
def query : (axes : Nat) → Shelf axes → Composition → Composition → List Nat
  | 0, ids, _, _ => ids
  | axes + 1, parts, l :: lo, h :: hi =>
    let parts : List (Interval × Shelf axes) := parts
    parts.flatMap fun (a, shelf) => if a.meets l h then query axes shelf lo hi else []
  | _ + 1, _, _, _ => []

end Shelf

/-- Where the last of some regions stops on each axis. -/
def lastStops (dimension : Nat) (regions : List Region) : Composition :=
  regions.foldr (fun r stops => List.zipWith max r.upperLimit stops) (List.replicate dimension 0)

/-- Whether a composition reaches one of the given stops. -/
def reachesStop : Composition → Composition → Bool
  | n :: ns, stop :: stops => decide (stop ≤ n) || reachesStop ns stops
  | _, _ => false

/-- The axes of a region with the primary one in front. -/
def primaryFirst (primary : Nat) (axes : List Interval) : List Interval :=
  axes[primary]?.toList ++ axes.eraseIdx primary

/-- The regions of a paving, under their intervals on the primary axis. -/
structure OverlapIndex where
  primary : Nat
  /-- The number of axes beside the primary one. -/
  others : Nat
  buckets : Array (Interval × Shelf others)
  /-- Where the last region stops on each axis. -/
  stops : Composition

namespace OverlapIndex

def ofPaving (p : Paving) (primary : Nat) : Except LatticeError OverlapIndex :=
  if p.dimension ≤ primary then .error (.noAxis p.dimension primary)
  else
    let others := p.dimension - 1
    let regions := p.regions.zipIdx.map fun (r, id) => (primaryFirst primary r.axes, id)
    let buckets : List (Interval × Shelf others) := Shelf.ofRegions (others + 1) regions
    .ok { primary, others, buckets := buckets.toArray, stops := lastStops p.dimension p.regions }

def dimension (x : OverlapIndex) : Nat := x.others + 1

/-- The number of distinct intervals on the primary axis. -/
def bucketCount (x : OverlapIndex) : Nat := x.buckets.size

/-- Whether the bucket at a position ends before a count. -/
def endsBefore (x : OverlapIndex) (n i : Nat) : Bool :=
  (x.buckets[i]?).any fun (a, _) => decide (a.last < n)

/-- Whether the bucket at a position begins at a count or before it. -/
def beginsBy (x : OverlapIndex) (n i : Nat) : Bool :=
  (x.buckets[i]?).any fun (a, _) => decide (a.first ≤ n)

/-- The buckets that the primary interval `lo … hi` can meet. -/
def reached (x : OverlapIndex) (lo hi : Nat) : List (Interval × Shelf x.others) :=
  let first := turningPoint (x.endsBefore lo) 0 x.buckets.size
  let stop := turningPoint (x.beginsBy hi) first (x.buckets.size - first)
  (x.buckets.extract first stop).toList

/-- The regions that meet the box with corners `lo` and `hi`, both included, in ascending order. -/
def query (x : OverlapIndex) (lo hi : Composition) : Except LatticeError (List Nat) :=
  if lo.length ≠ x.dimension then .error (.axisMismatch x.dimension lo.length)
  else if hi.length ≠ x.dimension then .error (.axisMismatch x.dimension hi.length)
  else if reachesStop lo x.stops then .ok []
  else
    let ids := (x.reached (lo.getD x.primary 0) (hi.getD x.primary 0)).flatMap fun (_, shelf) =>
      shelf.query x.others (lo.eraseIdx x.primary) (hi.eraseIdx x.primary)
    .ok (ids.mergeSort fun a b => decide (a ≤ b))

/-- The region that holds a composition, if there is one. -/
def find? (x : OverlapIndex) (c : Composition) : Option Nat :=
  match x.query c c with
  | .ok (id :: _) => some id
  | _ => none

end OverlapIndex

end ClusterDynamics
