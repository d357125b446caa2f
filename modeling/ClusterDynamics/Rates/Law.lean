import ClusterDynamics.Network.Basic
import ClusterDynamics.Rates.CrossSection
import ClusterDynamics.Rates.Error

/-! Rate laws. Every law gives a rate along with its derivative with respect to temperature. -/

namespace ClusterDynamics

/-- A quantity that depends on temperature, with its derivative. -/
structure Thermal (K : Type) where
  value : K
  slope : K
  deriving Repr

variable {K : Type} [Scalar K]

def Thermal.zero : Thermal K := ⟨0, 0⟩

/-- Diffusion coefficient `factor * exp(-energy / kT)`; zero for a factor of zero. -/
def diffusionCoefficient (factor energy temperature : K) : Thermal K :=
  if factor == 0 then Thermal.zero
  else
    let d := factor * Scalar.exp (-energy / (boltzmann * temperature))
    ⟨d, d * energy / (boltzmann * temperature * temperature)⟩

namespace Network

/-- The geometric factor of an encounter. The geometries are looked at in the order loop, trap, all
others. -/
def captureFactor (net : Network K) (a b : Cluster K) : K :=
  let lattice := net.lengths.lattice
  let r := a.reactionRadius
  let s := b.reactionRadius
  let n := net.spec.loopAngles
  let overLoops := fun area : K => area * net.lengths.burgersVector / (lattice * lattice)
  match a.geometry, b.geometry with
  | .loop, .loop => overLoops (loopLoopCrossSection r s n)
  | .loop, _ => overLoops (loopSphereCrossSection r s n)
  | _, .loop => overLoops (loopSphereCrossSection s r n)
  | .trap, _ => trapCrossSection r s / lattice
  | _, .trap => trapCrossSection s r / lattice
  | _, _ => sphereFactor r s (net.spec.coreRadii.get a.dominant b.dominant)

/-- Rate of encounters of two clusters that diffuse with `da` and `db`. -/
def captureRate (net : Network K) (a b : Cluster K) (da db : Thermal K) : Thermal K :=
  let factor := net.captureFactor a b
  ⟨factor * (da.value + db.value), factor * (da.slope + db.slope)⟩

/-- Factor on the absorption of a cluster: the bias if interstitials dominate. -/
def sinkBias (s : SinkSettings K) (c : Cluster K) : K := if c.isInterstitial then s.bias else 1

/-- Rate of absorption of a cluster that diffuses with `d`. -/
def sinkRate (s : SinkSettings K) (c : Cluster K) (d : Thermal K) : Thermal K :=
  ⟨s.strength * sinkBias s c * d.value, s.strength * sinkBias s c * d.slope⟩

/-- Radius of the primary monomer (nm): that of its cluster where the network has it. -/
def primaryRadius (net : Network K) : K :=
  match net.table.primaryMonomer.bind fun id => net.table.clusters[id]? with
  | some c => c.reactionRadius
  | none => net.lengths.impurityRadius

/-- Rate of re-solution from a cluster, which grows with its surface. -/
def reSolutionRate (net : Network K) (s : ReSolutionSettings K) (c : Cluster K) : Thermal K :=
  let ratio := c.reactionRadius / net.primaryRadius
  ⟨net.spec.fissionRate * net.spec.fissionYield * s.fit * ratio * ratio, 0⟩

end Network

/-- Rate of a break-up with energy `energy`, from the rate of the merger that it reverses. -/
def dissociationRate (temperature energy : K) (forward : Thermal K) : Thermal K :=
  let kt := boltzmann * temperature
  let boltzmannFactor := Scalar.exp (-energy / kt)
  let value := forward.value * boltzmannFactor
  ⟨value, forward.slope * boltzmannFactor + value * energy / (kt * temperature)⟩

/-- What the rates at one temperature are computed from. -/
structure RateContext (K : Type) where
  net : Network K
  temperature : K
  diffusion : Array (Thermal K)

namespace RateContext

def ofTemperature (net : Network K) (temperature : K) : RateContext K :=
  { net, temperature
    diffusion := net.table.clusters.map fun c =>
      diffusionCoefficient c.diffusionFactor c.migrationEnergy temperature }

/-- Rate of encounters of the clusters `i` and `j`. -/
def capture (x : RateContext K) (i j : Nat) : Except OutOfRange (Thermal K) := do
  return x.net.captureRate (← x.net.cluster i) (← x.net.cluster j)
    (← entryAt x.diffusion i) (← entryAt x.diffusion j)

/-- Rate at which cluster `k` breaks into `i` and `j`. -/
def dissociation (x : RateContext K) (k i j : Nat) : Except OutOfRange (Thermal K) := do
  let forward ← x.capture i j
  return dissociationRate x.temperature (← x.net.table.splitEnergy k i j) forward

/-- Rate of absorption of cluster `i`; zero without sinks. -/
def sink (x : RateContext K) (i : Nat) : Except OutOfRange (Thermal K) :=
  match x.net.spec.sinks with
  | none => .ok Thermal.zero
  | some s => return Network.sinkRate s (← x.net.cluster i) (← entryAt x.diffusion i)

/-- Rate of re-solution from cluster `k`; zero where it is off. -/
def reSolution (x : RateContext K) (k : Nat) : Except OutOfRange (Thermal K) :=
  match x.net.spec.reSolution with
  | none => .ok Thermal.zero
  | some s => return x.net.reSolutionRate s (← x.net.cluster k)

def nucleation (x : RateContext K) : Thermal K := ⟨x.net.nucleationRate, 0⟩

/-- Rate of a reaction, whose participants must be as its kind has them. -/
def rate (x : RateContext K) (r : Reaction K) : Except (EvalError K) (Thermal K) :=
  match r.kind, r.reactants, r.products with
  | .production, [i, j], [_] => (x.capture i j).mapError .outOfRange
  | .dissociation, [k], [i, j] => (x.dissociation k i j).mapError .outOfRange
  | .reSolution, [k], [_, _] => (x.reSolution k).mapError .outOfRange
  | .sink, [i], [] => (x.sink i).mapError .outOfRange
  | .nucleation, [m, n], [_] =>
    if m = n then .ok x.nucleation else .error (.malformedReaction .nucleation 2 1)
  | kind, reactants, products =>
    .error (.malformedReaction kind reactants.length products.length)

end RateContext

end ClusterDynamics
