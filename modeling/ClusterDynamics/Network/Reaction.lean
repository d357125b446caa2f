import ClusterDynamics.Decimal.Shortest
import ClusterDynamics.Scalar

/-! Reactions between clusters, which are named by position. -/

namespace ClusterDynamics

/-- The kinds of reactions, in the order in which a network lists them. -/
inductive ReactionKind where
  /-- Two clusters merge. -/
  | production
  /-- A cluster emits a monomer. -/
  | dissociation
  /-- Irradiation knocks a primary monomer out of a cluster. -/
  | reSolution
  /-- A cluster is absorbed at an extended defect. -/
  | sink
  /-- Two primary monomers merge at a fixed rate. -/
  | nucleation
  deriving DecidableEq, Repr

namespace ReactionKind

def all : List ReactionKind := [production, dissociation, reSolution, sink, nucleation]

/-- Place in the order of kinds. -/
def rank : ReactionKind → Nat
  | production => 0
  | dissociation => 1
  | reSolution => 2
  | sink => 3
  | nucleation => 4

def name : ReactionKind → String
  | production => "production"
  | dissociation => "dissociation"
  | reSolution => "re-solution"
  | sink => "sink"
  | nucleation => "nucleation"

def ofName? (name : String) : Option ReactionKind := all.find? (·.name == name)

end ReactionKind

/-- The order of lists by their first difference; of two lists the one that runs out first comes
first. -/
def lexLe : List Nat → List Nat → Bool
  | [], _ => true
  | _ :: _, [] => false
  | a :: as, b :: bs => decide (a < b) || (a == b && lexLe as bs)

/-- What identifies a reaction: its kind and the clusters that it consumes and produces. -/
structure ReactionKey where
  kind : ReactionKind
  reactants : List Nat
  products : List Nat
  deriving DecidableEq, Repr

namespace ReactionKey

def precedes (x y : ReactionKey) : Bool :=
  if x.kind ≠ y.kind then decide (x.kind.rank < y.kind.rank)
  else if x.reactants ≠ y.reactants then lexLe x.reactants y.reactants
  else lexLe x.products y.products

end ReactionKey

/-- A reaction. The coefficient is the fraction of pairs of compositions of the two merging clusters
whose sum lies in the region of the merged one. -/
structure Reaction (K : Type) where
  key : ReactionKey
  coefficient : K
  deriving Repr

namespace Reaction

variable {K : Type}

/-- A pair in ascending order, so that `i + j` and `j + i` are one channel. -/
def pair (i j : Nat) : List Nat := if i ≤ j then [i, j] else [j, i]

/-- `i + j → k`. -/
def production (i j k : Nat) (w : K) : Reaction K := ⟨⟨.production, pair i j, [k]⟩, w⟩

/-- `k → i + j` by emission. -/
def dissociation (k i j : Nat) (w : K) : Reaction K := ⟨⟨.dissociation, [k], pair i j⟩, w⟩

/-- `k → i + j` by re-solution. -/
def reSolution (k i j : Nat) (w : K) : Reaction K := ⟨⟨.reSolution, [k], pair i j⟩, w⟩

variable [Scalar K]

/-- Absorption of `i`. -/
def sink (i : Nat) : Reaction K := ⟨⟨.sink, [i], []⟩, 1⟩

def nucleation (monomer dimer : Nat) : Reaction K :=
  ⟨⟨.nucleation, [monomer, monomer], [dimer]⟩, 1⟩

omit [Scalar K]

def kind (r : Reaction K) : ReactionKind := r.key.kind

def reactants (r : Reaction K) : List Nat := r.key.reactants

def products (r : Reaction K) : List Nat := r.key.products

/-- The clusters consumed, then those produced, with repetitions. -/
def participants (r : Reaction K) : List Nat := r.reactants ++ r.products

/-- The parent and the two parts of a reaction that breaks one cluster into two. -/
def split? (r : Reaction K) : Option (Nat × Nat × Nat) :=
  match r.reactants, r.products with
  | [k], [i, j] => some (k, i, j)
  | _, _ => none

/-- As in `production: 0 + 1 -> 2 (w = 0.5)`. -/
def text (r : Reaction Float) : String :=
  let join := fun ids : List Nat => " + ".intercalate (ids.map toString)
  let products := if r.products.isEmpty then "∅" else join r.products
  s!"{r.kind.name}: {join r.reactants} -> {products} (w = {Decimal.shortestText r.coefficient})"

end Reaction

end ClusterDynamics
