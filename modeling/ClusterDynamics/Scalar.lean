/-! The arithmetic in which rates, lengths and concentrations are computed. Every formula of the
library is written once, over this class: `Float` is the scalar that runs, and the real numbers
are the scalar in which conservation laws, derivatives and bounds are stated. -/

namespace ClusterDynamics

/-- Numbers with the field operations, comparisons and elementary functions that the formulas use.
Comparisons may all fail on one value (as they do on a NaN), so a test and its negation are
written as they are meant and never exchanged. -/
class Scalar (K : Type) extends Add K, Sub K, Mul K, Div K, Neg K, LT K, LE K, BEq K,
    OfScientific K where
  /-- The natural number `n` as a scalar. -/
  ofNat : Nat → K
  decLt : DecidableLT K
  decLe : DecidableLE K
  isFinite : K → Bool
  pi : K
  abs : K → K
  sqrt : K → K
  cbrt : K → K
  exp : K → K
  log : K → K
  sin : K → K
  cos : K → K
  /-- `pow x y` is `x` to the real power `y`. -/
  pow : K → K → K

attribute [reducible, instance] Scalar.decLt Scalar.decLe

-- A type with a division and decimals of its own, such as the reals, is read with those.
attribute [instance (low)] Scalar.toDiv Scalar.toOfScientific

namespace Scalar

variable {K : Type} [Scalar K]

/-- Numerals of a scalar type are its natural numbers, where it has no others. -/
instance (priority := 50) natLit (n : Nat) : OfNat K n := ⟨Scalar.ofNat n⟩

instance (priority := low) : Inhabited K := ⟨0⟩

/-- The larger of two scalars; an operand that differs from itself is passed over. -/
@[inline] def max (a b : K) : K := if a < b then b else if a == a then a else b

/-- The smaller of two scalars; an operand that differs from itself is passed over. -/
@[inline] def min (a b : K) : K := if b < a then b else if a == a then a else b

/-- The sum of a list, added from the left. -/
@[specialize] def sum (xs : List K) : K := xs.foldl (· + ·) 0

/-- The product of a list, multiplied from the left. -/
@[specialize] def product (xs : List K) : K := xs.foldl (· * ·) 1

/-- Finite and positive, the condition on spacings, temperatures and widths. -/
def isPositive (x : K) : Bool := decide (0 < x) && isFinite x

/-- Finite and at least `bound`, the condition on prefactors, strengths and rates. -/
def isAtLeast (bound x : K) : Bool := decide (bound ≤ x) && isFinite x

instance : Scalar Float where
  ofNat := Float.ofNat
  decLt := inferInstance
  decLe := inferInstance
  isFinite := Float.isFinite
  pi := 3.14159265358979323846
  abs := Float.abs
  sqrt := Float.sqrt
  cbrt := Float.cbrt
  exp := Float.exp
  log := Float.log
  sin := Float.sin
  cos := Float.cos
  pow := Float.pow

end Scalar

end ClusterDynamics
