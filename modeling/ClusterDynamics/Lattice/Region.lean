import ClusterDynamics.Lattice.Interval

/-! Boxes of compositions: one interval of counts per species axis. -/

namespace ClusterDynamics

abbrev Composition := List Nat

/-- A box of compositions with at least one axis. -/
structure Region where
  axes : List Interval
  axes_ne_nil : axes ≠ []
  deriving DecidableEq, Repr

/-- Whether every count of a composition lies in the interval of its axis. -/
def boxContains : List Interval → Composition → Bool
  | [], [] => true
  | a :: as, n :: ns => a.contains n && boxContains as ns
  | _, _ => false

/-- Whether a box meets the box with corners `lo` and `hi`, both included. -/
def boxMeets : List Interval → Composition → Composition → Bool
  | [], [], [] => true
  | a :: as, l :: ls, h :: hs => a.meets l h && boxMeets as ls hs
  | _, _, _ => false

namespace Region

/-- The region with the given axes, of which there must be one. -/
def ofAxes (axes : List Interval) : Except LatticeError Region :=
  if h : axes = [] then .error .emptyRegion else .ok ⟨axes, h⟩

def point (c : Composition) : Except LatticeError Region := ofAxes (c.map Interval.singleton)

def dimension (r : Region) : Nat := r.axes.length

def origin (r : Region) : Composition := r.axes.map Interval.first

def upperLimit (r : Region) : Composition := r.axes.map Interval.stop

def isSimplex (r : Region) : Bool := r.axes.all Interval.isSingleton

/-- The number of compositions, which must be a word. -/
def volume? (r : Region) : Except OutOfRange Nat := extentProduct (r.axes.map Interval.width)

def contains (r : Region) (c : Composition) : Bool := boxContains r.axes c

/-- Whether the region meets the box with corners `lo` and `hi`, both included. -/
def meets (r : Region) (lo hi : Composition) : Bool := boxMeets r.axes lo hi

/-- Whether two regions of equal dimension share a composition. -/
def overlaps (r s : Region) : Bool :=
  r.axes.length == s.axes.length && (r.axes.zip s.axes).all fun (a, b) => a.intersects b

/-- Whether the region is the empty cluster: all counts are zero. -/
def isNull (r : Region) : Bool := r.axes.all fun a => a.first == 0 && a.stop == 1

def setAxis (r : Region) (axis : Nat) (a : Interval) : Region :=
  ⟨r.axes.set axis a, by
    intro h
    exact r.axes_ne_nil (List.length_eq_zero_iff.1 (by simpa using congrArg List.length h))⟩

/-- As in `[0, 1)x[2, 5)`. -/
def text (r : Region) : String := "x".intercalate (r.axes.map Interval.text)

def center {K : Type} [Scalar K] (r : Region) : List K := r.axes.map Interval.center

/-- The fraction of pairs of a composition of `r` and one of `s` whose sum lies in `target`: the
product over the axes of the fractions of pairs of counts. -/
def sumFraction {K : Type} [Scalar K] (r s target : Region) : K :=
  Scalar.product (List.zipWith (fun t (a, b) => a.sumFraction b t) target.axes
    (r.axes.zip s.axes))

end Region

end ClusterDynamics
