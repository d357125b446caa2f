import ClusterDynamics.Species

/-! Host materials and their lattices. -/

namespace ClusterDynamics

inductive Material where
  | tungsten100
  | tungsten110
  | tungsten111
  | tungsten211
  /-- Tungsten under an implantation profile from a binary-collision calculation. -/
  | tungstenImplanted
  | uraniumDioxide
  | iron
  deriving DecidableEq, Repr

namespace Material

def all : List Material :=
  [tungsten100, tungsten110, tungsten111, tungsten211, tungstenImplanted, uraniumDioxide, iron]

def name : Material → String
  | tungsten100 => "W100"
  | tungsten110 => "W110"
  | tungsten111 => "W111"
  | tungsten211 => "W211"
  | tungstenImplanted => "TRIDYN"
  | uraniumDioxide => "Fuel"
  | iron => "Fe"

/-- The material with the given name. -/
def ofName (text : String) : Except UnknownName Material :=
  lookupName .material all (fun m t => m.name == t) text

def isTungsten : Material → Bool
  | uraniumDioxide | iron => false
  | _ => true

/-- The impurity the material is usually simulated with. -/
def defaultImpurity : Material → Species
  | uraniumDioxide => .xenon
  | _ => .helium

variable {K : Type} [Scalar K]

/-- Lattice constant (nm). -/
def latticeConstant : Material → K
  | uraniumDioxide => uraniumDioxideLattice
  | iron => ironLattice
  | _ => tungstenLattice

/-- Host atoms per conventional cell; in the oxide only the metal sites count. -/
def atomsPerCell : Material → K
  | uraniumDioxide => 4
  | _ => 2

/-- Length of the Burgers vector for the lattice parameter `a` (nm). -/
def burgersVector (m : Material) (a : K) : K :=
  match m with
  | uraniumDioxide => a / Scalar.sqrt 2
  | _ => a * Scalar.sqrt 3 / 2

end Material

end ClusterDynamics
