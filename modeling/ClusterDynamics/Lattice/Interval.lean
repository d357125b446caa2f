import ClusterDynamics.Lattice.Error

/-! Half-open intervals of counts along one species axis. An interval is never empty, so its first
and last counts always exist. -/

namespace ClusterDynamics

/-- The counts `n` with `first ≤ n < stop`. -/
structure Interval where
  first : Nat
  stop : Nat
  first_lt_stop : first < stop := by omega
  deriving DecidableEq, Repr

/-- The triangular number `1 + 2 + … + n`: so many pairs of numbers have a sum below `n`. -/
def triangle (n : Nat) : Nat := n * (n + 1) / 2

/-- How many pairs of a number below `v` and a number below `w` have a sum below `n`. Of all pairs
with such a sum, those with a first number from `v` on and those with a second one from `w` on are
taken off, and those with both have been taken off twice. -/
def pairsBelow (v w n : Nat) : Nat :=
  triangle n + triangle (n - v - w) - (triangle (n - v) + triangle (n - w))

namespace Interval

/-- The interval with the given bounds, which must leave a count between them. -/
def ofBounds (first stop : Nat) : Except LatticeError Interval :=
  if h : first < stop then .ok ⟨first, stop, h⟩ else .error (.degenerateInterval first stop)

def singleton (n : Nat) : Interval := ⟨n, n + 1, by omega⟩

def last (a : Interval) : Nat := a.stop - 1

def width (a : Interval) : Nat := a.stop - a.first

def isSingleton (a : Interval) : Bool := a.width == 1

def contains (a : Interval) (n : Nat) : Bool := decide (a.first ≤ n) && decide (n < a.stop)

/-- Whether some count lies in `a` and between `lo` and `hi`, both included. -/
def meets (a : Interval) (lo hi : Nat) : Bool := decide (a.first ≤ hi) && decide (lo ≤ a.last)

def intersects (a b : Interval) : Bool := decide (a.first < b.stop) && decide (b.first < a.stop)

/-- Keep the counts below `limit`, of which there must be one. -/
def clip (a : Interval) (limit : Nat) : Except LatticeError Interval :=
  ofBounds a.first (min a.stop limit)

/-- Order by first count, then by the bound behind the last. -/
def precedes (a b : Interval) : Bool :=
  decide (a.first < b.first) || (a.first == b.first && decide (a.stop ≤ b.stop))

/-- For how many pairs of a count of `a` and a count of `b` the sum lies in `target`: those with a
sum below its bound, without those with a sum below its first count. -/
def sumHits (a b target : Interval) : Nat :=
  let least := a.first + b.first
  pairsBelow a.width b.width (target.stop - least) -
    pairsBelow a.width b.width (target.first - least)

/-- Twice the mean count: an exact measure of which of two intervals lies higher. -/
def weight (a : Interval) : Nat := a.first + a.last

/-- As in `[2, 5)`. -/
def text (a : Interval) : String := s!"[{a.first}, {a.stop})"

variable {K : Type} [Scalar K]

def center (a : Interval) : K := (Scalar.ofNat a.first + Scalar.ofNat a.last) / 2

/-- The fraction of pairs of a count of `a` and a count of `b` whose sum lies in `target`. -/
def sumFraction (a b target : Interval) : K :=
  Scalar.ofNat (a.sumHits b target) / (Scalar.ofNat a.width * Scalar.ofNat b.width)

end Interval

end ClusterDynamics
