import ClusterDynamics.Calibration.Prior
import ClusterDynamics.Calibration.Surrogate
import ClusterDynamics.Report

/-! How probable parameters of a model are in the light of observations. A chain holds the
parameters that are sought; each of its entries has a prior and, unless it is the noise, a slot
among the parameters of the model. All other parameters are fixed. The model can be of any kind; an
expansion is one. -/

namespace ClusterDynamics

/-- Models that can be calibrated. A model is run on as many parameters and inputs as it has. -/
class ForwardModel (K M : Type) where
  parameters : M → Nat
  inputs : M → Nat
  run : M → List K → List K → Except OutOfRange K

variable {K M : Type} [Scalar K]

instance : ForwardModel K Surrogate where
  parameters := Surrogate.parameters
  inputs := Surrogate.inputs
  run := Surrogate.evaluate?

/-- An observed value and the inputs that it belongs to. -/
structure Observation (K : Type) where
  inputs : List K
  value : K
  deriving Repr

structure Posterior (K : Type) (M : Type := Surrogate) where
  model : M
  data : List (Observation K)
  /-- One per entry of the chain. -/
  priors : List (Prior K)
  noise : Noise K
  /-- The slot of each entry, but for the noise. -/
  chainIndex : List Nat
  /-- The model's parameters; those with a slot are replaced from the chain. -/
  fixed : Array K
  deriving Repr

/-- The first number of a list that is not below `bound` or that was seen before. -/
def firstBadSlot (bound : Nat) (seen : List Nat) : List Nat → Option Nat
  | [] => none
  | slot :: rest =>
    if slot < bound ∧ !seen.contains slot then firstBadSlot bound (slot :: seen) rest
    else some slot

namespace Posterior

/-- Entries of the chain that have a slot. -/
def slotCount (x : Posterior K M) : Nat := x.priors.length - if x.noise.isInferred then 1 else 0

section Model

variable [ForwardModel K M]

/-- The number of the model's parameters. -/
def parameterCount (x : Posterior K M) : Nat := ForwardModel.parameters K x.model

/-- The number of inputs that the model takes. -/
def inputCount (x : Posterior K M) : Nat := ForwardModel.inputs K x.model

/-- Check the parts against each other; the first fault found is reported. -/
def validate (x : Posterior K M) : Except (CalibrationError K) Unit := do
  x.priors.forM Prior.validate
  x.noise.validate
  if x.noise.isInferred ∧ x.priors.isEmpty then throw (.wrongLength .priors 1 0)
  if x.chainIndex.length ≠ x.slotCount then
    throw (.wrongLength .chainIndex x.slotCount x.chainIndex.length)
  if x.fixed.size ≠ x.parameterCount then
    throw (.wrongLength .modelParameters x.parameterCount x.fixed.size)
  if let some slot := firstBadSlot x.fixed.size [] x.chainIndex then
    throw (.wrongLength .chainSlot x.fixed.size slot)
  if let some o := x.data.find? fun o => o.inputs.length != x.inputCount then
    throw (.wrongLength .observationInputs x.inputCount o.inputs.length)

def build (x : Posterior K M) : Reported K (CalibrationError K) (Posterior K M) := do
  Reported.ofExcept x.validate
  Reported.debug (s!"posterior: {x.priors.length} chain parameters, " ++
    s!"{x.data.length} observations")
  return x

end Model

def dimension (x : Posterior K M) : Nat := x.priors.length

/-- A state of the chain must have an entry per prior. -/
def checkState (x : Posterior K M) (m : List K) : Except (CalibrationError K) Unit :=
  if m.length = x.priors.length then .ok ()
  else .error (.wrongLength .chainState x.priors.length m.length)

/-- Where the model is run on states of the chain, there must be room for its tables. It is run for
each observation in each state of the right length. -/
def checkRoom (x : Posterior K) (states : List (List K)) : Except OutOfRange Unit :=
  if x.data.isEmpty || states.all fun m => m.length != x.priors.length then .ok ()
  else x.model.checkRoom

/-- The sum of the logarithms of the priors' densities, unless an entry leaves its support. -/
def logPriorSum (x : Posterior K M) (m : List K) : K :=
  match (x.priors.zip m).mapM fun (p, v) => p.logDensity? v with
  | some densities => Scalar.sum densities
  | none => outOfSupport

/-- Logarithm of the prior density of a state. -/
def logPrior (x : Posterior K M) (m : List K) : Except (CalibrationError K) K := do
  x.checkState m
  return x.logPriorSum m

def modelParameters (x : Posterior K M) (m : List K) : List K :=
  ((x.chainIndex.zip m).foldl (fun ps (slot, v) => ps.setIfInBounds slot v) x.fixed).toList

/-- Logarithm of the density of one observation around the model's value `y`. -/
def logDensityAround (y sigma observed : K) : K :=
  let variance := sigma * sigma
  let error := observed - y
  (-0.5) * Scalar.log (2 * Scalar.pi) - 0.5 * Scalar.log variance - error * error / (2 * variance)

section Model

variable [ForwardModel K M]

/-- Logarithm of the density of the observations in a state. -/
def logLikelihood (x : Posterior K M) (m : List K) : Except (CalibrationError K) K := do
  x.checkState m
  let parameters := x.modelParameters m
  let logDeviation := m.getLast?.getD 0
  let terms ← x.data.mapM fun o => do
    let y ← (ForwardModel.run x.model parameters o.inputs).mapError .outOfRange
    return logDensityAround y (x.noise.sigma y logDeviation) o.value
  return Scalar.sum terms

/-- Logarithm of the posterior density, up to a constant. Outside the support of the priors the
model is not run. -/
def logPosterior (x : Posterior K M) (m : List K) : Except (CalibrationError K) K := do
  let prior ← x.logPrior m
  if prior == outOfSupport then return outOfSupport
  return prior + (← x.logLikelihood m)

end Model

end Posterior

end ClusterDynamics
