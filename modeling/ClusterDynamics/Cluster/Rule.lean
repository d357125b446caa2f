import ClusterDynamics.Cluster.Geometry
import ClusterDynamics.Lattice.Axis
import ClusterDynamics.Lattice.Region
import ClusterDynamics.Text.Blank

/-! Rules that assign a geometry to regions. A rule is written as a geometry, a colon and
conditions: `Trap: He>0 V>0`. Conditions on counts look at a region's smallest composition; the
condition `^I` compares mean counts. -/

namespace ClusterDynamics

/-- A condition on a region. A species without an axis counts as absent. -/
inductive Condition where
  /-- The species is absent. -/
  | zero (s : Species)
  /-- The species is present. -/
  | positive (s : Species)
  /-- There are at least `n` of the species. -/
  | atLeast (s : Species) (n : Nat)
  /-- No species has a larger mean count. -/
  | dominant (s : Species)
  deriving DecidableEq, Repr

inductive RuleError where
  | unknownGeometry (e : UnknownName)
  | unknownSpecies (e : UnknownName)
  | badCount (condition : String)
  | unrecognised (condition : String)
  deriving DecidableEq, Repr

def RuleError.message : RuleError → String
  | .unknownGeometry e | .unknownSpecies e => e.message
  | .badCount c => s!"invalid network config: bad count in condition '{c}'"
  | .unrecognised c => s!"invalid network config: unrecognised condition '{c}'"

/-- The message of the underlying cause, if there is one. -/
def RuleError.cause? : RuleError → Option String
  | .unknownGeometry e | .unknownSpecies e => some e.message
  | _ => none

namespace Condition

def readSpecies (symbol : List Char) : Except RuleError Species :=
  (Species.ofSymbol (String.ofList (Text.trim symbol))).mapError .unknownSpecies

/-- Read `^I`, `I>=2`, `He>0` or `He=0`; the marks are looked for in this order. -/
def read (text : List Char) : Except RuleError Condition :=
  let s := Text.trim text
  match s with
  | '^' :: symbol => return .dominant (← readSpecies symbol)
  | _ =>
    match Text.splitOnce ['>', '='] s with
    | some (symbol, count) =>
      match Text.readNat countLimit (Text.trim count) with
      | some n => return .atLeast (← readSpecies symbol) n
      | none => .error (.badCount (String.ofList s))
    | none =>
      match ['>', '0'].isSuffixOf? s with
      | some symbol => return .positive (← readSpecies symbol)
      | none =>
        match ['=', '0'].isSuffixOf? s with
        | some symbol => return .zero (← readSpecies symbol)
        | none => .error (.unrecognised (String.ofList s))

variable (axes : List Species) (r : Region)

/-- The smallest count of a species in a region whose axes belong to the given species; `none` if
the region lacks the axis. -/
def count? (s : Species) : Option Nat :=
  match axes.findIdx? (· == s) with
  | none => some 0
  | some axis => (r.axes[axis]?).map Interval.first

/-- Whether the condition holds; `none` if it needs an axis that the region lacks. -/
def holds? : Condition → Option Bool
  | zero s => (count? axes r s).map (· == 0)
  | positive s => (count? axes r s).map (decide <| 0 < ·)
  | atLeast s n => (count? axes r s).map (decide <| n ≤ ·)
  | dominant s =>
    match axes.findIdx? (· == s) with
    | none => some false
    | some axis => (r.axes[axis]?).map fun a =>
      decide (0 < a.weight) && r.axes.all fun b => decide (b.weight ≤ a.weight)

end Condition

/-- A geometry for the regions that meet all conditions. -/
structure ShapeRule where
  geometry : Geometry
  conditions : List Condition
  deriving DecidableEq, Repr

namespace ShapeRule

/-- Read a rule. Without a colon, or with nothing behind it, there are no conditions. -/
def read (text : String) : Except RuleError ShapeRule := do
  let s := text.toList
  let (name, rest) := (Text.splitOnce [':'] s).getD (s, [])
  let geometry ← (Geometry.ofName (String.ofList (Text.trim name))).mapError .unknownGeometry
  let conditions ← (Text.words rest).mapM Condition.read
  return { geometry, conditions }

/-- Whether all conditions hold, tested in order up to the first that fails; `none` if a tested
condition needs an axis that the region lacks. -/
def matches? (axes : List Species) (r : Region) (rule : ShapeRule) : Option Bool :=
  go rule.conditions
where
  go : List Condition → Option Bool
    | [] => some true
    | c :: rest => do if ← c.holds? axes r then go rest else some false

end ShapeRule

end ClusterDynamics
