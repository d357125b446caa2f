import ClusterDynamics.Calibration.Error
import ClusterDynamics.Scalar

/-! What is known of a parameter before any observation, and how observations scatter. -/

namespace ClusterDynamics

variable {K : Type} [Scalar K]

/-- Stands for the logarithm of a density of zero. It is finite, so that differences of
log-densities are never undefined. -/
def outOfSupport : K := -1e180

inductive Prior (K : Type) where
  /-- Flat between two bounds, which do not belong to it. -/
  | uniform (lower upper : K)
  | normal (mean deviation : K)
  deriving Repr

/-- A standard deviation must be finite and positive. -/
def checkDeviation (x : K) : Except (CalibrationError K) Unit :=
  if Scalar.isPositive x then .ok () else .error (.badDeviation x)

namespace Prior

/-- There must be numbers between the bounds, and the deviation must be finite and positive. -/
def validate : Prior K → Except (CalibrationError K) Unit
  | uniform lower upper => if lower < upper then .ok () else .error (.emptyBounds lower upper)
  | normal _ deviation => checkDeviation deviation

/-- The prior with the given name and parameters, which are not checked. -/
def named (name : String) (a b : K) : Except (CalibrationError K) (Prior K) :=
  match name with
  | "uniform" => .ok (uniform a b)
  | "normal" => .ok (normal a b)
  | _ => .error (.unknownPrior ⟨.prior, name⟩)

/-- The prior with the given name and parameters. -/
def ofName (name : String) (a b : K) : Except (CalibrationError K) (Prior K) := do
  let prior ← named name a b
  prior.validate
  return prior

def logDensity? (x : K) : Prior K → Option K
  | uniform lower upper =>
    if lower < x ∧ x < upper then some (-Scalar.log (upper - lower)) else none
  | normal mean deviation =>
    let z := (x - mean) / deviation
    some (-0.5 * Scalar.log (2 * Scalar.pi * deviation * deviation) - 0.5 * z * z)

def logDensity (p : Prior K) (x : K) : K := (p.logDensity? x).getD outOfSupport

end Prior

/-- How the standard deviation of observations is found. -/
inductive Noise (K : Type) where
  /-- A fixed ratio of the model's value. -/
  | ratio (ratio : K)
  | deviation (deviation : K)
  /-- Its logarithm is the last entry of the chain. -/
  | inferred
  deriving Repr

namespace Noise

/-- A ratio or a deviation must be finite and positive. -/
def validate : Noise K → Except (CalibrationError K) Unit
  | ratio x | deviation x => checkDeviation x
  | inferred => .ok ()

/-- The noise with the given name and parameter, which is not checked and which only fixed noise
has a use for. -/
def named (name : String) (x : K) : Except (CalibrationError K) (Noise K) :=
  match name with
  | "const_stn" => .ok (ratio x)
  | "const_stdev" => .ok (deviation x)
  | "infer_stdev" => .ok inferred
  | _ => .error (.unknownNoise ⟨.noiseModel, name⟩)

/-- The noise with the given name and parameter. -/
def ofName (name : String) (x : K) : Except (CalibrationError K) (Noise K) := do
  let noise ← named name x
  noise.validate
  return noise

def isInferred : Noise K → Bool
  | inferred => true
  | _ => false

/-- The standard deviation of an observation where the model gives `y`. -/
def sigma (y logDeviation : K) : Noise K → K
  | ratio x => x * Scalar.abs y
  | deviation x => x
  | inferred => Scalar.exp logDeviation

end Noise

end ClusterDynamics
