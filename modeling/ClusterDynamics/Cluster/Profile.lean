import ClusterDynamics.Cluster.Rule

/-! Profiles: what distinguishes one family of reaction networks from another, as plain data. -/

namespace ClusterDynamics

/-- The axes of a family of networks and the geometry of its clusters. -/
structure Profile where
  /-- A name for messages. -/
  name : String
  species : List Species
  /-- The species that regions are indexed by, that nucleates and that is re-solved. -/
  primary : Species
  /-- The species of which clusters emit single monomers. -/
  monomerAxes : List Species
  /-- The first rule that matches decides the geometry. -/
  rules : List ShapeRule
  /-- The geometry of clusters that no rule matches. -/
  defaultGeometry : Geometry
  deriving DecidableEq, Repr

inductive ProfileError where
  | noAxes (profile : String)
  | repeatedAxis (species : Species) (profile : String)
  | primaryNotAxis (species : Species)
  | monomerNotAxis (species : Species) (profile : String)
  deriving DecidableEq, Repr

def ProfileError.message : ProfileError → String
  | .noAxes p => s!"invalid network config: profile {p} has no species axes"
  | .repeatedAxis s p => s!"invalid network config: species {s.symbol} appears twice in profile {p}"
  | .primaryNotAxis s => s!"primary species {s.symbol} is not a network axis"
  | .monomerNotAxis s p =>
    s!"invalid network config: monomer species {s.symbol} is not an axis of profile {p}"

namespace Profile

/-- A profile whose primary species is its only monomer, with spheres for clusters. -/
def basic (name : String) (species : List Species) (primary : Species) : Profile :=
  { name, species, primary, monomerAxes := [primary], rules := [], defaultGeometry := .sphere }

def fissionGas : Profile := basic "NE" [.xenon] .xenon

/-- Plasma-facing tungsten: helium, hydrogen isotopes, vacancies and interstitials. -/
def plasmaFacing : Profile :=
  { basic "PSI" [.helium, .deuterium, .tritium, .vacancy, .interstitial] .helium with
    monomerAxes := [.helium, .deuterium, .tritium, .vacancy, .interstitial]
    rules := [⟨.free, [.zero .vacancy, .zero .interstitial]⟩] }

def iron : Profile :=
  { basic "Fe" [.helium, .vacancy, .interstitial] .helium with
    monomerAxes := [.helium, .vacancy, .interstitial]
    rules :=
      [⟨.loop, [.atLeast .interstitial 2, .zero .helium, .zero .vacancy]⟩,
       ⟨.trap, [.positive .helium, .positive .vacancy]⟩] }

/-- The axis of a species, if it has one. -/
def axisOf? (p : Profile) (s : Species) : Option Nat := p.species.findIdx? (· == s)

def primaryAxis (p : Profile) : Except ProfileError Nat :=
  match p.axisOf? p.primary with
  | some axis => .ok axis
  | none => .error (.primaryNotAxis p.primary)

/-- There must be axes, no species may have two, and the primary species and the monomers must
each have one. -/
def validate (p : Profile) : Except ProfileError Unit := do
  if p.species.isEmpty then throw (.noAxes p.name)
  if let some s := Species.firstRepeated [] p.species then throw (.repeatedAxis s p.name)
  let _ ← p.primaryAxis
  if let some s := p.monomerAxes.find? fun s => (p.axisOf? s).isNone then
    throw (.monomerNotAxis s p.name)

/-- The geometry of a region; `none` if a tested condition needs an axis that the region lacks. -/
def classify? (p : Profile) (r : Region) : Option Geometry := go p.rules
where
  go : List ShapeRule → Option Geometry
    | [] => some p.defaultGeometry
    | rule :: rest => do if ← rule.matches? p.species r then some rule.geometry else go rest

end Profile

end ClusterDynamics
