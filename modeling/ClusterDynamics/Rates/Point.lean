import ClusterDynamics.Rates.Law

/-! Rates and diffusion coefficients at one grid point. -/

namespace ClusterDynamics

/-- Everything that depends on temperature, at the temperature of one grid point. -/
structure PointRates (K : Type) where
  point : Nat
  temperature : K
  /-- The generation of the tables that these rates belong to. -/
  generation : Nat
  /-- Lattice parameter of the host (nm). -/
  lattice : K
  /-- Volume per host atom (nm³). -/
  atomicVolume : K
  /-- By cluster. -/
  diffusion : Array (Thermal K)
  /-- By reaction. -/
  rates : Array (Thermal K)
  deriving Repr

namespace PointRates

variable {K : Type} [Scalar K]

/-- The rates of a network at a temperature, of generation zero. -/
def compute (net : Network K) (point : Nat) (temperature : K) :
    Except (EvalError K) (PointRates K) := do
  if !Scalar.isPositive temperature then throw (.badTemperature point temperature)
  let x := RateContext.ofTemperature net temperature
  let rates ← net.reactions.mapM x.rate
  return { point, temperature, generation := 0, lattice := net.lengths.lattice
           atomicVolume := net.lengths.atomicVolume, diffusion := x.diffusion, rates }

/-- The context of these rates in their network. -/
def context (p : PointRates K) (net : Network K) : RateContext K :=
  { net, temperature := p.temperature, diffusion := p.diffusion }

def rate (p : PointRates K) (id : Nat) : Except OutOfRange K :=
  (entryAt p.rates id).map Thermal.value

end PointRates

end ClusterDynamics
