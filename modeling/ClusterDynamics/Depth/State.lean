import ClusterDynamics.OutOfRange
import ClusterDynamics.Rates.Error

/-! Values at all grid points: the concentration of every cluster and, where it is solved for, the
temperature behind them. -/

namespace ClusterDynamics

/-- The numbers of grid points along depth and across. -/
structure GridShape where
  nx : Nat
  ny : Nat
  nz : Nat
  deriving DecidableEq, Repr

namespace GridShape

def points (s : GridShape) : Nat := s.nx * s.ny * s.nz

/-- The position of a point, counted along depth first, then along `y`, then along `z`. -/
def linear (s : GridShape) (ix iy iz : Nat) : Nat := ix + s.nx * (iy + s.ny * iz)

/-- `linear`, for coordinates that need not be those of a point; the position must be a word. -/
def linear? (s : GridShape) (ix iy iz : Nat) : Except OutOfRange Nat := do
  let _ ← word (iy + s.ny * iz)
  word (s.linear ix iy iz)

def coords (s : GridShape) (p : Nat) : Nat × Nat × Nat :=
  (p % s.nx, p / s.nx % s.ny, p / (s.nx * s.ny))

/-- `coords`, which a shape without points along depth or `y` does not have. -/
def coords? (s : GridShape) (p : Nat) : Except OutOfRange (Nat × Nat × Nat) :=
  if s.nx = 0 ∨ s.ny = 0 then .error ⟨p, 0⟩ else .ok (s.coords p)

end GridShape

/-- As many values as there are degrees of freedom at each point of a grid. The values of a point
stand together. -/
structure GridState (K : Type) where
  shape : GridShape
  dofs : Nat
  values : Array K
  size_values : values.size = shape.points * dofs

namespace GridState

variable {K : Type}

def zeros [Scalar K] (shape : GridShape) (dofs : Nat) : GridState K :=
  ⟨shape, dofs, Array.replicate (shape.points * dofs) 0, by simp⟩

/-- The number of values of a shape, which must be a word. -/
def valueCount (shape : GridShape) (dofs : Nat) : Except OutOfRange Nat :=
  extentProduct [shape.nx, shape.ny, shape.nz, dofs]

/-- `zeros`, for a shape of any size. -/
def zeros? [Scalar K] (shape : GridShape) (dofs : Nat) : Except OutOfRange (GridState K) := do
  checkRoom (← valueCount shape dofs) 1
  return zeros shape dofs

/-- A state with the given values, of which there must be the right number. -/
def ofValues (shape : GridShape) (dofs : Nat) (values : Array K) :
    Except (EvalError K) (GridState K) := do
  let _ ← (valueCount shape dofs).mapError .outOfRange
  if h : values.size = shape.points * dofs then return ⟨shape, dofs, values, h⟩
  else throw (.wrongLength .state (shape.points * dofs) values.size)

def points (s : GridState K) : Nat := s.shape.points

def point (s : GridState K) (p : Nat) : Except OutOfRange (Array K) :=
  if p * s.dofs + s.dofs ≤ s.values.size then
    .ok (s.values.extract (p * s.dofs) (p * s.dofs + s.dofs))
  else .error ⟨p, s.points⟩

/-- Replace the value at a position of the whole array. -/
def write (s : GridState K) (i : Nat) (x : K) : Except OutOfRange (GridState K) :=
  if i < s.values.size then
    .ok { s with values := s.values.setIfInBounds i x, size_values := by simp [s.size_values] }
  else .error ⟨i, s.values.size⟩

/-- Replace all values by as many others. Where the numbers differ, the first position that only one
of the two has is out of range. -/
def overwrite (s : GridState K) (values : Array K) : Except OutOfRange (GridState K) :=
  if h : values.size = s.values.size then
    .ok { s with values, size_values := h.trans s.size_values }
  else if values.size < s.values.size then .error ⟨values.size, values.size⟩
  else .error ⟨s.values.size, s.values.size⟩

def set (s : GridState K) (p dof : Nat) (x : K) : Except OutOfRange (GridState K) :=
  if dof < s.dofs then s.write (p * s.dofs + dof) x else .error ⟨dof, s.dofs⟩

def fill (s : GridState K) (dof : Nat) (x : K) : Except OutOfRange (GridState K) :=
  if s.dofs ≠ 0 ∧ (dof < s.dofs ∨ s.values.isEmpty) then
    .ok { s with
      values := s.values.mapIdx fun i v => if i % s.dofs = dof then x else v
      size_values := by simp [s.size_values] }
  else .error ⟨dof, s.dofs⟩

/-- A point must be one of the grid's. -/
def checkPoint (s : GridState K) (p : Nat) : Except (EvalError K) Unit :=
  if p < s.points then .ok () else .error (.noSuchPoint p s.points)

end GridState

end ClusterDynamics
