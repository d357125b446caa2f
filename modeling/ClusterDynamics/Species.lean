import ClusterDynamics.Constants
import ClusterDynamics.UnknownName

/-! The species whose counts make up a composition. -/

namespace ClusterDynamics

/-- A chemical or defect species, in canonical order. -/
inductive Species where
  | helium
  | deuterium
  | tritium
  | xenon
  | vacancy
  | interstitial
  deriving DecidableEq, Repr

namespace Species

/-- Every species, in canonical order. -/
def all : List Species := [helium, deuterium, tritium, xenon, vacancy, interstitial]

/-- Place in the canonical order. -/
def rank : Species → Nat
  | helium => 0
  | deuterium => 1
  | tritium => 2
  | xenon => 3
  | vacancy => 4
  | interstitial => 5

def symbol : Species → String
  | helium => "He"
  | deuterium => "D"
  | tritium => "T"
  | xenon => "Xe"
  | vacancy => "V"
  | interstitial => "I"

def ofSymbol (text : String) : Except UnknownName Species :=
  lookupName .species all (fun s t => s.symbol == t) text

def isHydrogen : Species → Bool
  | deuterium | tritium => true
  | _ => false

/-- Whether the species is a foreign atom rather than a lattice defect. -/
def isImpurity : Species → Bool
  | vacancy | interstitial => false
  | _ => true

/-- Radius of an isolated impurity atom (nm). A lattice defect has none of its own. -/
def radius? {K : Type} [Scalar K] : Species → Option K
  | helium => some heliumRadius
  | xenon => some xenonRadius
  | deuterium | tritium => some hydrogenRadius
  | vacancy | interstitial => none

/-- The first species of a list that was seen before. -/
def firstRepeated (seen : List Species) : List Species → Option Species
  | [] => none
  | s :: rest => if seen.contains s then some s else firstRepeated (s :: seen) rest

/-- A list of species as messages show it: `[He, V]`. -/
def listText (xs : List Species) : String := "[" ++ ", ".intercalate (xs.map symbol) ++ "]"

end Species

/-- A composition as messages show it: `[1, 0, 2]`. -/
def countsText (xs : List Nat) : String := "[" ++ ", ".intercalate (xs.map toString) ++ "]"

end ClusterDynamics
