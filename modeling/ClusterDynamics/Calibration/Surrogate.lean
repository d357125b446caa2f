import ClusterDynamics.Calibration.Error
import ClusterDynamics.Scalar

/-! A polynomial expansion that stands in for a model. Each coefficient multiplies a product of
orthogonal polynomials, one per input coordinate, whose degrees a multi-index gives. -/

namespace ClusterDynamics

inductive Basis where
  /-- Orthogonal on the interval from -1 to 1. -/
  | legendre
  /-- Orthogonal under the standard normal distribution. -/
  | hermite
  deriving DecidableEq, Repr

namespace Basis

def name : Basis → String
  | legendre => "Legendre"
  | hermite => "Hermite"

variable {K : Type} [Scalar K]

/-- The polynomial of degree `n + 1` at `x`, from those of the degrees `n` and `n - 1`. -/
def next (b : Basis) (x : K) (n : Nat) (before last : K) : K :=
  let d : K := Scalar.ofNat n
  match b with
  | legendre => ((2 * d + 1) * x * last - d * before) / (d + 1)
  | hermite => x * last - d * before

/-- The polynomials of the degrees `n` and `n + 1` at `x`. -/
def neighbours (b : Basis) (x : K) : Nat → K × K
  | 0 => (1, x)
  | n + 1 =>
    let (before, last) := b.neighbours x n
    (last, b.next x (n + 1) before last)

/-- The polynomial of degree `n` at `x`. -/
def value (b : Basis) (x : K) (n : Nat) : K := (b.neighbours x n).1

/-- Add the polynomials of `count` more degrees to those of the degrees below `n`; the next two are
`before` and `last`. -/
def tableFrom (b : Basis) (x : K) : Nat → Nat → K → K → Array K → Array K
  | 0, _, _, _, table => table
  | count + 1, n, before, last, table =>
    tableFrom b x count (n + 1) last (b.next x (n + 1) before last) (table.push before)

def table (b : Basis) (x : K) (degree : Nat) : Array K := b.tableFrom x (degree + 1) 0 1 x #[]

end Basis

/-- All ways to write a total as an ordered sum of `parts` numbers, those with the larger first
number first. -/
def sumsOf : (parts total : Nat) → List (List Nat)
  | 0, total => if total = 0 then [[]] else []
  | 1, total => [[total]]
  | parts + 2, total =>
    (List.range (total + 1)).reverse.flatMap fun first =>
      (sumsOf (parts + 1) (total - first)).map (first :: ·)

/-- A polynomial expansion in `inputs` coordinates. -/
structure Surrogate where
  basis : Basis
  inputs : Nat
  multiIndices : List (List Nat)
  /-- The degree up to which polynomials are tabulated. -/
  maxDegree : Nat
  deriving DecidableEq, Repr

namespace Surrogate

variable {K : Type} [Scalar K]

/-- The expansion with the given terms, each of which must have a degree per coordinate. -/
def ofIndices (basis : Basis) (inputs : Nat) (multiIndices : List (List Nat)) :
    Except (CalibrationError K) Surrogate :=
  match multiIndices.find? fun m => m.length != inputs with
  | some m => .error (.wrongLength .multiIndex inputs m.length)
  | none => .ok { basis, inputs, multiIndices, maxDegree := multiIndices.flatten.foldl max 0 }

/-- The expansion with all terms up to a total degree, by increasing degree. Without coordinates
there are only constants. -/
def ofTotalDegree (basis : Basis) (inputs degree : Nat) : Surrogate :=
  let maxDegree := if inputs = 0 then 0 else degree
  { basis, inputs, maxDegree
    multiIndices := (List.range (maxDegree + 1)).flatMap (sumsOf inputs) }

/-- `ofTotalDegree`, for any number of coordinates. -/
def ofTotalDegree? (basis : Basis) (inputs degree : Nat) : Except OutOfRange Surrogate := do
  ClusterDynamics.checkRoom inputs 1
  return ofTotalDegree basis inputs degree

def parameters (s : Surrogate) : Nat := s.multiIndices.length

/-- The product of the polynomials of one term. -/
def term (tables : List (Array K)) (degrees : List Nat) : Except OutOfRange K := do
  return Scalar.product (← (degrees.zip tables).mapM fun (n, table) => entryAt table n)

/-- The value of the expansion with the given coefficients. Coefficients and coordinates are taken
as far as both sides have them. -/
def evaluate (s : Surrogate) (coefficients x : List K) : Except OutOfRange K := do
  let tables := x.map fun x => s.basis.table x s.maxDegree
  return Scalar.sum (← (s.multiIndices.zip coefficients).mapM fun (degrees, c) => do
    return c * (← term tables degrees))

/-- There must be room for a table of the polynomials. -/
def checkRoom (s : Surrogate) : Except OutOfRange Unit :=
  ClusterDynamics.checkRoom (s.maxDegree + 1) 1

/-- `evaluate`, for terms of any degree. -/
def evaluate? (s : Surrogate) (coefficients x : List K) : Except OutOfRange K := do
  s.checkRoom
  s.evaluate coefficients x

end Surrogate

end ClusterDynamics
