import ClusterDynamics.Depth.State

/-! The points around a grid point that its rate of change depends on: one above and one below it
along depth, and two along each transverse axis in use. -/

namespace ClusterDynamics

/-- A point of a stencil. Transverse axes in use are counted from zero. -/
inductive Offset where
  | center
  /-- The point above. -/
  | left
  /-- The point below. -/
  | right
  | minus (axis : Nat)
  | plus (axis : Nat)
  deriving DecidableEq, Repr

def Offset.label : Offset → String
  | .center => "C"
  | .left => "L"
  | .right => "R"
  | .minus axis => "M" ++ toString axis
  | .plus axis => "P" ++ toString axis

structure Neighbours where
  center : Nat
  /-- Absent at the surface. -/
  left : Option Nat
  /-- The point itself at the bulk end. -/
  right : Nat
  /-- The two neighbours along each transverse axis in use, the lower one first. -/
  transverse : List (Nat × Nat)
  deriving DecidableEq, Repr

/-- The position of a stencil's point, if it has one. -/
def Neighbours.resolve (nb : Neighbours) : Offset → Option Nat
  | .center => some nb.center
  | .left => nb.left
  | .right => some nb.right
  | .minus axis => nb.transverse[axis]?.map Prod.fst
  | .plus axis => nb.transverse[axis]?.map Prod.snd

/-- The neighbours of a point in a column with the given surface node. Transverse axes of more than
one point are in use, and they are periodic. -/
def GridShape.neighbours (s : GridShape) (p surface : Nat) : Neighbours :=
  let (ix, iy, iz) := s.coords p
  let alongY :=
    if 1 < s.ny then
      [(s.linear ix ((iy + s.ny - 1) % s.ny) iz, s.linear ix ((iy + 1) % s.ny) iz)]
    else []
  let alongZ :=
    if 1 < s.nz then
      [(s.linear ix iy ((iz + s.nz - 1) % s.nz), s.linear ix iy ((iz + 1) % s.nz))]
    else []
  { center := p
    left := if surface < ix then some (s.linear (ix - 1) iy iz) else none
    right := s.linear (min (ix + 1) (s.nx - 1)) iy iz
    transverse := alongY ++ alongZ }

/-- The values at a stencil's points, and its spacings. -/
structure Stencil (K : Type) where
  center : Array K
  /-- Absent at the surface, above which there is nothing. -/
  left : Option (Array K)
  right : Array K
  /-- The two neighbours along each transverse axis in use. -/
  transverse : List (Array K × Array K)
  /-- Spacing to the point above (nm). -/
  above : K
  /-- Spacing to the point below (nm). -/
  below : K
  /-- The factors `1 / h²` of the first and the second transverse axis in use. -/
  factors : K × K
  /-- Depth below the surface (nm). -/
  depth : K
  deriving Repr

namespace Stencil

variable {K : Type}

/-- The factors of two transverse axes, in order. -/
def factorList (s : Stencil K) : List K := [s.factors.1, s.factors.2]

/-- The factors of the transverse axes in use, of which there can be two. -/
def usedFactors (s : Stencil K) : Except OutOfRange (List K) :=
  if s.transverse.length ≤ 2 then .ok (s.factorList.take s.transverse.length)
  else .error ⟨s.transverse.length, 2⟩

/-- The value of a degree of freedom at the point itself. -/
def centerValue (s : Stencil K) (dof : Nat) : Except OutOfRange K := entryAt s.center dof

def rightValue (s : Stencil K) (dof : Nat) : Except OutOfRange K := entryAt s.right dof

/-- The value above, zero at the surface. -/
def leftValue [Scalar K] (s : Stencil K) (dof : Nat) : Except OutOfRange K :=
  match s.left with
  | none => .ok 0
  | some left => entryAt left dof

/-- The values along at most `axes` transverse axes, each pair with its factor. -/
def transverseValues (s : Stencil K) (axes dof : Nat) : Except OutOfRange (List (K × K × K)) :=
  ((s.transverse.zip s.factorList).take axes).mapM fun ((minus, plus), factor) => do
    return (← entryAt minus dof, ← entryAt plus dof, factor)

end Stencil

/-- A derivative with respect to a value at some point of the stencil. -/
structure StencilEntry (K : Type) where
  row : Nat
  offset : Offset
  column : Nat
  value : K
  deriving Repr

end ClusterDynamics
