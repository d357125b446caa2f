import ClusterDynamics.Network.FillPattern
import ClusterDynamics.TurningPoint

/-! The Jacobian at one grid point, with one value for each entry of a fill pattern. The entries
stand row by row, and those of a row by increasing column. -/

namespace ClusterDynamics

/-- The columns and the values of the entries. -/
structure SparseBlock (K : Type) where
  /-- Where each row begins and, at the end, where the last one stops. -/
  starts : Array Nat
  columns : Array Nat
  values : Array K
  deriving Repr

structure BlockRow (K : Type) where
  row : Nat
  columns : List Nat
  values : List K
  deriving Repr

/-- The sums of the first zero, one, two and more numbers of a list, up to all of them. -/
def runningTotals (ns : List Nat) : Array Nat :=
  (ns.foldl (fun (totals, sum) n => (totals.push (sum + n), sum + n)) (#[0], 0)).1

namespace SparseBlock

variable {K : Type}

def ofPattern [Scalar K] (p : FillPattern) : SparseBlock K :=
  { starts := runningTotals (p.rows.toList.map List.length)
    columns := p.rows.toList.flatten.toArray
    values := Array.replicate p.entryCount 0 }

def rowCount (b : SparseBlock K) : Nat := b.starts.size - 1

def entryCount (b : SparseBlock K) : Nat := b.values.size

/-- Whether the entry at a position stands in a column before the given one. -/
def standsBefore (b : SparseBlock K) (column i : Nat) : Bool :=
  (b.columns[i]?).any fun c => decide (c < column)

def position? (b : SparseBlock K) (row column : Nat) : Option Nat := do
  let first ← b.starts[row]?
  let stop ← b.starts[row + 1]?
  let i := turningPoint (b.standsBefore column) first (stop - first)
  if i < stop ∧ b.columns[i]? = some column then some i else none

/-- The value of an entry, if there is one. -/
def get? (b : SparseBlock K) (row column : Nat) : Option K :=
  (b.position? row column).bind fun i => b.values[i]?

def row (b : SparseBlock K) (row : Nat) : Except OutOfRange (BlockRow K) := do
  let first ← entryAt b.starts row
  let stop ← entryAt b.starts (row + 1)
  return {
    row
    columns := (b.columns.extract first stop).toList
    values := (b.values.extract first stop).toList }

/-- The rows asked for that are there, in the order given. -/
def rows (b : SparseBlock K) (wanted : List Nat) : List (BlockRow K) :=
  wanted.filterMap fun r => (b.row r).toOption

def allRows (b : SparseBlock K) : List (BlockRow K) := b.rows (List.range b.rowCount)

def clear [Scalar K] (b : SparseBlock K) : SparseBlock K :=
  { b with values := Array.replicate b.values.size 0 }

end SparseBlock

end ClusterDynamics
