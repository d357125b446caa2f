import ClusterDynamics.Depth.Grid

/-! The surface of the material: one depth node per transverse column. It moves as material is
eroded or deposited. -/

namespace ClusterDynamics

/-- The surface node of each of the `ny * nz` columns, column `(j, k)` at `k * ny + j`. -/
structure SurfaceMap where
  ny : Nat
  nz : Nat
  /-- The number of depth nodes that a surface can be at. -/
  nodes : Nat
  positions : Array Nat
  deriving DecidableEq, Repr

namespace SurfaceMap

variable {K : Type} [Scalar K]

/-- Every column with its surface at node `initial`. -/
def flat (ny nz initial : Nat) (g : DepthGrid K) : Except (GridError K) SurfaceMap := do
  if ny = 0 ∨ nz = 0 then throw (.noSurfaceColumns ny nz)
  if g.size ≤ initial then throw (.surfaceOutOfRange initial g.size)
  let columns ← (extentProduct [ny, nz]).mapError .outOfRange
  (checkRoom columns 1).mapError .outOfRange
  return ⟨ny, nz, g.size, Array.replicate (ny * nz) initial⟩

/-- The surface node of column `(j, k)`. -/
def node (s : SurfaceMap) (j k : Nat) : Nat := s.positions.getD (k * s.ny + j) 0

/-- The surface node of column `(j, k)`, if there is such a column. -/
def node? (s : SurfaceMap) (j k : Nat) : Except (GridError K) Nat :=
  if j < s.ny ∧ k < s.nz then .ok (s.node j k) else .error (.columnOutOfRange j k)

/-- Move the surface of column `(j, k)`. The node is checked before the column. -/
def move (s : SurfaceMap) (j k node : Nat) : Except (GridError K) SurfaceMap :=
  if s.nodes ≤ node then .error (.surfaceOutOfRange node s.nodes)
  else if j < s.ny ∧ k < s.nz then
    .ok { s with positions := s.positions.setIfInBounds (k * s.ny + j) node }
  else .error (.columnOutOfRange j k)

/-- All surface nodes, a list over `j` for each `k`. -/
def rows (s : SurfaceMap) : List (List Nat) :=
  (List.range s.nz).map fun k => (List.range s.ny).map fun j => s.node j k

end SurfaceMap

end ClusterDynamics
