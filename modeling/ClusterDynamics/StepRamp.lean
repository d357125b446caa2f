import ClusterDynamics.OutOfRange
import ClusterDynamics.Scalar

/-! Time steps that grow by a constant factor up to a limit. -/

namespace ClusterDynamics

/-- A ramp of time steps, and where it stands. -/
structure StepRamp (K : Type) where
  first : K
  limit : K
  growth : K
  firstCount : Nat
  current : K
  count : Nat
  deriving Repr

namespace StepRamp

variable {K : Type}

/-- A ramp that stands at its first step, which has the number `count`. -/
def startingAt (first limit growth : K) (count : Nat) : StepRamp K :=
  { first, limit, growth, firstCount := count, current := first, count }

def restart (s : StepRamp K) : StepRamp K := { s with current := s.first, count := s.firstCount }

/-- The size of the step after one of size `x`. -/
def grown [Scalar K] (s : StepRamp K) (x : K) : K := Scalar.min (x * s.growth) s.limit

/-- Go on by a number of steps. A step whose number would be no word is taken but not counted, and
the walk ends with it. -/
def advance [Scalar K] (s : StepRamp K) (times : Nat) : StepRamp K × Except OutOfRange Unit :=
  let room := wordLimit - 1 - s.count
  if times ≤ room then
    ({ s with current := Nat.repeat s.grown times s.current, count := s.count + times }, .ok ())
  else
    ({ s with current := Nat.repeat s.grown (room + 1) s.current, count := s.count + room },
     .error ⟨wordLimit, wordLimit⟩)

end StepRamp

end ClusterDynamics
