import ClusterDynamics.Network.SparseBlock
import ClusterDynamics.Rates.Point
import ClusterDynamics.Report
import ClusterDynamics.SetupError

/-! The reaction part of rates of change and of their derivatives at one grid point. Each reaction
becomes a term once: the concentrations that its frequency multiplies, the net change of each
cluster that takes part, and the places of its derivatives in the Jacobian. -/

namespace ClusterDynamics

variable {K : Type} [Scalar K]

/-- The net change of one cluster in a reaction. -/
structure Change (K : Type) where
  cluster : Nat
  amount : K
  /-- Where the derivatives with respect to the term's factors stand, one place per factor. -/
  slots : List Nat
  /-- Where the derivative with respect to temperature stands, if temperature is solved for. -/
  temperatureSlot : Option Nat
  deriving Repr

/-- A reaction of frequency `coefficient * rate * product of the factors' concentrations`. -/
structure Term (K : Type) where
  coefficient : K
  /-- Clusters, repeated where the frequency takes a concentration twice. -/
  factors : List Nat
  changes : List (Change K)
  deriving Repr

/-- Add to the net change of a cluster. -/
def accumulate (id : Nat) (delta : K) : List (Nat × K) → List (Nat × K)
  | [] => [(id, delta)]
  | (c, v) :: rest =>
    if c = id then (c, v + delta) :: rest else (c, v) :: accumulate id delta rest

namespace Reaction

/-- What is taken from each cluster: one per reactant of a production, two at once of the monomer that
nucleates, and one of the first reactant of any other reaction. -/
def consumed (r : Reaction K) : List (Nat × K) :=
  let take := fun (ids : List Nat) (amount : K) =>
    ids.foldl (fun st id => accumulate id (-amount) st) []
  match r.kind with
  | .production => take r.reactants 1
  | .nucleation => take (r.reactants.take 1) 2
  | _ => take (r.reactants.take 1) 1

/-- The net change of each cluster that takes part: what is consumed, and one more per product. -/
def netChanges (r : Reaction K) : List (Nat × K) :=
  r.products.foldl (fun st id => accumulate id 1 st) r.consumed

/-- The clusters whose concentrations the frequency multiplies. Nucleation has a fixed frequency
per monomer, so it takes the concentration once. -/
def factors (r : Reaction K) : List Nat :=
  match r.kind with
  | .production => r.reactants
  | _ => r.reactants.take 1

end Reaction

def concentrationProduct (conc : Array K) (clusters : List Nat) : K :=
  Scalar.product (clusters.map fun c => conc.getD c 0)

/-- The place of an entry of a block, which must have it. -/
def locate (template : SparseBlock K) (row column : Nat) : Except (SetupError K) Nat :=
  match template.position? row column with
  | some slot => .ok slot
  | none => .error (.missingEntry row column)

/-- A net change with the places of its derivatives in a block. -/
def Change.located (template : SparseBlock K) (temperature : Option Nat) (factors : List Nat)
    (change : Nat × K) : Except (SetupError K) (Change K) := do
  let slots ← factors.mapM fun column => locate template change.1 column
  let temperatureSlot ← temperature.mapM fun t => locate template change.1 t
  return { cluster := change.1, amount := change.2, slots, temperatureSlot }

/-- A reaction as a term of a block with the given entries. -/
def Term.ofReaction (template : SparseBlock K) (temperature : Option Nat) (r : Reaction K) :
    Except (SetupError K) (Term K) := do
  let changes ← r.netChanges.mapM (Change.located template temperature r.factors)
  return { coefficient := r.coefficient, factors := r.factors, changes }

/-- How often a term happens at a rate. -/
def Term.frequency (t : Term K) (conc : Array K) (rate : K) : K :=
  t.coefficient * rate * concentrationProduct conc t.factors

/-- Add a term's changes to the rates of change, at a rate. -/
def Term.addFlux (t : Term K) (conc : Array K) (rate : K) (out : Array K) : Array K :=
  let f := t.frequency conc rate
  t.changes.foldl (fun out c => out.modify c.cluster (· + c.amount * f)) out

/-- Add a term's changes, each times `x`, to values of a block at the places that they have. -/
def Term.scatter (t : Term K) (place : Change K → Option Nat) (x : K) (values : Array K) :
    Array K :=
  t.changes.foldl (fun values c =>
    match place c with
    | some i => values.modify i (· + c.amount * x)
    | none => values) values

/-- Add a term's derivatives to the values of a block: by the product rule one part per factor, and
with respect to temperature through the rate. -/
def Term.addPartials (t : Term K) (conc : Array K) (rate : Thermal K) (values : Array K) :
    Array K :=
  let weight := t.coefficient * rate.value
  let values := (List.range t.factors.length).foldl (fun values p =>
    t.scatter (fun c => c.slots[p]?) (weight * concentrationProduct conc (t.factors.eraseIdx p))
      values) values
  t.scatter Change.temperatureSlot (t.frequency conc rate.slope) values

/-- The terms of a network's reactions, and the block that their derivatives go to. -/
structure Assembly (K : Type) where
  terms : Array (Term K)
  clusters : Nat
  template : SparseBlock K
  deriving Repr

namespace Assembly

/-- The terms of a network for a fill pattern. -/
def ofNetwork (net : Network K) (pattern : FillPattern) : Except (SetupError K) (Assembly K) := do
  let template := SparseBlock.ofPattern pattern
  let terms ← net.reactions.mapM (Term.ofReaction template pattern.temperature?)
  return { terms, clusters := net.size, template }

/-- `ofNetwork`, with a log record of the result. -/
def build (net : Network K) (pattern : FillPattern) :
    Reported K (SetupError K) (Assembly K) := do
  let a ← Reported.ofExcept (ofNetwork net pattern)
  Reported.debug (s!"assembler: {a.terms.size} reaction terms over " ++
    s!"{a.template.entryCount} non-zeros")
  return a

/-- There must be a rate for every term, and a concentration and an output for every cluster. -/
def checkLengths (a : Assembly K) (p : PointRates K) (conc out : Nat) :
    Except (EvalError K) Unit := do
  if p.rates.size ≠ a.terms.size then
    throw (.wrongLength .rates a.terms.size p.rates.size)
  if conc < a.clusters then throw (.wrongLength .concentrations a.clusters conc)
  if out < a.clusters then throw (.wrongLength .fluxOutput a.clusters out)

/-- Add the changes of all terms to rates of change. -/
def termFlux (a : Assembly K) (p : PointRates K) (conc out : Array K) : Array K :=
  (a.terms.toList.zip p.rates.toList).foldl
    (fun out (t, rate) => t.addFlux conc rate.value out) out

/-- Add the reactions' rates of change in place. The output after the call is returned along with its
outcome; all lengths are looked at before any entry is written. -/
def scatterFlux (a : Assembly K) (p : PointRates K) (conc out : Array K) :
    Array K × Except (EvalError K) Unit :=
  match a.checkLengths p conc.size out.size with
  | .error e => (out, .error e)
  | .ok () => (a.termFlux p conc out, .ok ())

/-- The output after `scatterFlux`, where that succeeds. Entries behind the clusters are left
alone. -/
def addFlux (a : Assembly K) (p : PointRates K) (conc out : Array K) :
    Except (EvalError K) (Array K) := do
  let (out, result) := a.scatterFlux p conc out
  result
  return out

/-- The lengths that `addFlux` needs, and as many entries of the block as of the template. -/
def checkBlock (a : Assembly K) (p : PointRates K) (conc entries : Nat) :
    Except (EvalError K) Unit := do
  a.checkLengths p conc a.clusters
  if entries ≠ a.template.entryCount then
    throw (.wrongLength .jacobianBlock a.template.entryCount entries)

/-- Add the derivatives of all terms to the values of a block. -/
def termPartials (a : Assembly K) (p : PointRates K) (conc values : Array K) : Array K :=
  (a.terms.toList.zip p.rates.toList).foldl
    (fun values (t, rate) => t.addPartials conc rate values) values

/-- Add the derivatives of what `addFlux` adds to a block with the entries of the template, in place.
The block after the call is returned along with its outcome; all lengths are looked at before any
entry is written. -/
def scatterPartials (a : Assembly K) (p : PointRates K) (conc : Array K) (block : SparseBlock K) :
    SparseBlock K × Except (EvalError K) Unit :=
  match a.checkBlock p conc.size block.entryCount with
  | .error e => (block, .error e)
  | .ok () => ({ block with values := a.termPartials p conc block.values }, .ok ())

/-- The block after `scatterPartials`, where that succeeds. -/
def addPartials (a : Assembly K) (p : PointRates K) (conc : Array K) (block : SparseBlock K) :
    Except (EvalError K) (SparseBlock K) := do
  let (block, result) := a.scatterPartials p conc block
  result
  return block

end Assembly

end ClusterDynamics
