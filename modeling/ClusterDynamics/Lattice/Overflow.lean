import ClusterDynamics.Lattice.Axis
import ClusterDynamics.Lattice.Region

/-! Arithmetic on counts whose exact result is no count. Bounds of intervals are counts too, so the
bounds of a box of sums can leave the range even where the sums in it do not. -/

namespace ClusterDynamics

/-- What arithmetic does with a result that is no count: it stops, or it keeps what is left of the
result beyond `countLimit`. -/
inductive Overflow where
  | checked
  | wrapping
  deriving DecidableEq, Repr

namespace Overflow

def add (o : Overflow) (m n : Nat) : Except OutOfRange Nat :=
  if m + n ≤ countLimit then .ok (m + n)
  else match o with
    | checked => .error ⟨m + n, countLimit + 1⟩
    | wrapping => .ok ((m + n) % (countLimit + 1))

/-- The difference of two counts, which runs below zero where the second is larger. -/
def sub (o : Overflow) (m n : Nat) : Except OutOfRange Nat :=
  if n ≤ m then .ok (m - n)
  else match o with
    | checked => .error ⟨n - m, 0⟩
    | wrapping => .ok (m + (countLimit + 1) - n)

end Overflow

/-- The largest sum of two counts below the given bounds. -/
def lastSum (o : Overflow) (stop stop' : Nat) : Except OutOfRange Nat := do
  o.sub (← o.add stop stop') 2

/-- The smallest and the largest sum of a composition of `r` and one of `s`. -/
def sumBox (o : Overflow) (r s : Region) : Except OutOfRange (Composition × Composition) := do
  let lo ← (r.origin.zip s.origin).mapM fun (a, b) => o.add a b
  let hi ← (r.upperLimit.zip s.upperLimit).mapM fun (a, b) => lastSum o a b
  return (lo, hi)

end ClusterDynamics
