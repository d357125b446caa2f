/-! Names in input text. Every closed list of names (species, materials, shapes, ...) is read by
looking its entries up, and a name that is not on the list is reported with the list's title. -/

namespace ClusterDynamics

/-- The lists of names that input text can refer to. -/
inductive NameList where
  | species
  | material
  | geometry
  | bindingFamily
  | prior
  | noiseModel
  deriving DecidableEq, Repr

def NameList.title : NameList → String
  | .species => "species"
  | .material => "material"
  | .geometry => "geometry"
  | .bindingFamily => "binding family"
  | .prior => "prior"
  | .noiseModel => "noise model"

/-- A text that is not a name of the given list. -/
structure UnknownName where
  list : NameList
  text : String
  deriving DecidableEq, Repr

namespace UnknownName

def message (e : UnknownName) : String := s!"unknown {e.list.title} '{e.text}'"

end UnknownName

/-- Equality of names up to the case of ASCII letters. -/
def sameLetters (a b : String) : Bool :=
  a.toList.map Char.toLower == b.toList.map Char.toLower

/-- The first entry whose name `agrees` with the text. -/
def lookupName {α : Type} (list : NameList) (entries : List α) (agrees : α → String → Bool)
    (text : String) : Except UnknownName α :=
  match entries.find? (agrees · text) with
  | some a => .ok a
  | none => .error ⟨list, text⟩

end ClusterDynamics
