import ClusterDynamics.Network.Reaction
import ClusterDynamics.OutOfRange

/-! Which entries of the Jacobian at one grid point can differ from zero. Degrees of freedom are the
clusters and, behind them, the temperature where it is solved for. -/

namespace ClusterDynamics

/-- Insert a number into an ascending list that does not hold it yet. -/
def insertSorted (n : Nat) : List Nat → List Nat
  | [] => [n]
  | m :: rest =>
    if n < m then n :: m :: rest else if n = m then m :: rest else m :: insertSorted n rest

/-- Put a number in front of an ascending list, unless the list begins with it. -/
def putNew (n : Nat) : List Nat → List Nat
  | [] => [n]
  | m :: rest => if m = n then m :: rest else n :: m :: rest

/-- The numbers of a list in ascending order, each once. -/
def ascending (ns : List Nat) : List Nat := (ns.mergeSort fun m n => decide (m ≤ n)).foldr putNew []

/-- For each degree of freedom the ascending list of those that its rate of change depends on. -/
structure FillPattern where
  clusters : Nat
  rows : Array (List Nat)
  hasTemperature : Bool
  deriving DecidableEq, Repr

namespace FillPattern

variable {K : Type}

/-- Add the participants of a reaction to the row of each of them. -/
def collect (rows : Array (List Nat)) (r : Reaction K) : Array (List Nat) :=
  r.participants.foldl (fun rows a => rows.modify a (r.participants ++ ·)) rows

/-- The pattern of `n` clusters and reactions among them, without a temperature: a cluster depends
on itself and on all that take part in a reaction with it. -/
def ofReactions (n : Nat) (rs : List (Reaction K)) : FillPattern :=
  { clusters := n
    rows := (rs.foldl collect ((Array.range n).map fun a => [a])).map ascending
    hasTemperature := false }

/-- `ofReactions`, for reactions that may name clusters which are not there and for any number of
clusters. A row takes up three words. -/
def ofReactions? (n : Nat) (rs : List (Reaction K)) : Except OutOfRange FillPattern := do
  checkRoom n 3
  rs.forM fun r => r.participants.forM fun a => checkRange a n
  return ofReactions n rs

def size (p : FillPattern) : Nat := p.rows.size

def entryCount (p : FillPattern) : Nat := p.rows.toList.foldr (fun row n => row.length + n) 0

def temperature? (p : FillPattern) : Option Nat :=
  if p.hasTemperature then some p.clusters else none

/-- Add the temperature, on which every cluster then depends. -/
def enableTemperature (p : FillPattern) : FillPattern :=
  if p.hasTemperature then p
  else
    { p with
      rows := (p.rows.map fun row => row ++ [p.clusters]).push [p.clusters]
      hasTemperature := true }

def link (p : FillPattern) (row column : Nat) : FillPattern :=
  { p with rows := p.rows.modify row (insertSorted column) }

/-- Let clusters depend on the temperature and the temperature on them, in the order given. The
first one that is no degree of freedom ends the pass, and the pattern is returned as it is then. -/
def linkTemperature (p : FillPattern) : List Nat → FillPattern × Except OutOfRange Unit
  | [] => (p, .ok ())
  | id :: rest =>
    match checkRange id p.size with
    | .ok () => linkTemperature ((p.link id p.clusters).link p.clusters id) rest
    | .error e => (p, .error e)

/-- Add the temperature and couple clusters with it in both directions. -/
def couple (p : FillPattern) (ids : List Nat) : FillPattern × Except OutOfRange Unit :=
  p.enableTemperature.linkTemperature ids

/-- The degrees of freedom that `dof` depends on. -/
def row (p : FillPattern) (dof : Nat) : Except OutOfRange (List Nat) := entryAt p.rows dof

end FillPattern

end ClusterDynamics
