import ClusterDynamics.Depth.Stencil
import ClusterDynamics.Report
import ClusterDynamics.SetupError

/-! The heat equation with a conductivity `κ(x, T) = α(x) β(T)` that depends on depth and
temperature. At the surface node the imposed flux enters; below it the second difference of the
temperature does. Both are corrected for the variation of the conductivity. -/

namespace ClusterDynamics

variable {K : Type} [Scalar K]

/-- The temperature as one more degree of freedom per grid point. Set-up goes through the stages
`uninitialized`, `configured` and `evaluating`, and only the last of them can evaluate. -/
structure HeatEquation (K : Type) where
  stage : HeatStage
  flux : K
  bulkTemperature : K
  localTemperature : K
  /-- From one to three. -/
  dimension : Nat
  material : Option Material
  parameters : HeatParameters K
  interface : K
  dof : Nat
  deriving Repr

/-- What a node's conductivity and its variation come to: `α`, `β`, `κ`, the derivatives of `α` in
depth and of `β` in temperature, and the heat coefficient times `κ`. -/
structure LocalConductivity (K : Type) where
  alpha : K
  beta : K
  alphaSlope : K
  betaSlope : K
  betaCurve : K
  kappa : K
  diffusivity : K
  deriving Repr

/-- The rate of change at the surface node: `m (2 / above) (flux / κ + ΔT / below)`. -/
def surfaceFlux (diffusivity above below flux conductivity delta : K) : K :=
  diffusivity * (2 / above) * (flux / conductivity + delta / below)

/-- The temperatures that a node's rate of change depends on, and its spacings. -/
structure HeatPoint (K : Type) where
  center : K
  /-- Absent at the surface. -/
  left : Option K
  right : K
  above : K
  below : K
  deriving Repr

namespace HeatEquation

def ofFlux (flux bulkTemperature : K) (dimension : Nat) : HeatEquation K :=
  { stage := .uninitialized
    flux, bulkTemperature
    localTemperature := bulkTemperature
    dimension := max 1 (min dimension 3)
    material := none
    parameters := ⟨0, ⟨0, 0, 0⟩⟩
    interface := 0
    dof := 0 }

/-- Take the settings over; `dof` is the degree of freedom of the temperature. The stage is looked
at first, then the material's name, then the parameters. -/
def configure (h : HeatEquation K) (x : HeatSettings K) (dof : Nat) :
    Reported K (SetupError K) (HeatEquation K) := do
  if h.stage = .evaluating then throw (.heatStage h.stage)
  let material ← Reported.ofExcept ((Material.ofName x.material).mapError .unknownMaterial)
  let parameters := x.parameters.getD (HeatParameters.ofMaterial material)
  Reported.ofExcept (parameters.validate.mapError .heat)
  Reported.event (.heatConfigured material h.flux h.bulkTemperature)
  return { h with
    material := some material, parameters, interface := x.interface, dof, stage := .configured }

def begin (h : HeatEquation K) : Except (SetupError K) (HeatEquation K) :=
  match h.stage with
  | .uninitialized => .error (.heatStage h.stage)
  | .configured | .evaluating => .ok { h with stage := .evaluating }

/-- Without flux the temperature does not change. -/
def isZeroFlux (h : HeatEquation K) : Bool := h.flux == 0

/-- The temperature of a point whose own one is `own`: the bulk temperature without flux or at time
zero. -/
def temperatureAt (h : HeatEquation K) (time own : K) : K :=
  if h.isZeroFlux || time == 0 then h.bulkTemperature else own

/-- The depth factor of the conductivity, a smooth step at the interface. -/
def alpha (h : HeatEquation K) (depth : K) : K := 0.2 + 0.8 / (1 + Scalar.exp (h.interface - depth))

def beta (h : HeatEquation K) (temperature : K) : K :=
  let fit := h.parameters.conductivity
  let l := Scalar.log temperature
  (fit.a * l * l + fit.b * l + fit.c) * 1e-9

/-- The conductivity at a depth and a temperature (W/(nm K)). -/
def conductivity (h : HeatEquation K) (depth temperature : K) : K :=
  h.beta temperature * h.alpha depth

/-- The derivative of `alpha` in depth. Far above the interface it vanishes, and the quotient that
gives it elsewhere would have no value. -/
def alphaSlope (h : HeatEquation K) (depth : K) : K :=
  let u := h.interface - depth
  if 500 < u then 0
  else
    let e := Scalar.exp u
    0.8 * e / ((1 + e) * (1 + e))

/-- The derivative of `beta` in temperature. -/
def betaSlope (h : HeatEquation K) (temperature : K) : K :=
  let fit := h.parameters.conductivity
  (fit.b + 2 * fit.a * Scalar.log temperature) * 1e-9 / temperature

/-- The second derivative of `beta` in temperature. -/
def betaCurve (h : HeatEquation K) (temperature : K) : K :=
  let fit := h.parameters.conductivity
  (-fit.b + 2 * fit.a * (1 - Scalar.log temperature)) * 1e-9 / (temperature * temperature)

/-- The conductivity and its variation at a depth and a temperature. -/
def localAt (h : HeatEquation K) (depth temperature : K) : LocalConductivity K :=
  let alpha := h.alpha depth
  let beta := h.beta temperature
  let kappa := alpha * beta
  { alpha, beta, kappa
    alphaSlope := h.alphaSlope depth
    betaSlope := h.betaSlope temperature
    betaCurve := h.betaCurve temperature
    diffusivity := h.parameters.coefficient * kappa }

/-- The two parts of the rate of change along depth: the flow of heat, and the correction for the
variation of the conductivity. -/
def depthTerms (flux : K) (l : LocalConductivity K) (x : HeatPoint K) : K × K :=
  let m := l.diffusivity
  let k := l.kappa
  match x.left with
  | none =>
    (surfaceFlux m x.above x.below flux k (x.right - x.center),
     -m * flux * l.beta * l.alphaSlope / (k * k) +
       m * flux * flux * l.alpha * l.betaSlope / (k * k * k))
  | some left =>
    let span := x.above + x.below
    let ratio := x.above / x.below
    let step := x.right - left
    (m * (2 / x.above) * (left + ratio * x.right - (1 + ratio) * x.center) / span,
     m * step * l.beta * l.alphaSlope / (k * span) +
       m * l.alpha * l.betaSlope * step * step / (k * span * span))

/-- The derivatives of the sum of `depthTerms` in the temperatures at the centre, above and
below. -/
def depthPartials (flux : K) (l : LocalConductivity K) (x : HeatPoint K) : K × K × K :=
  let m := l.diffusivity
  let k := l.kappa
  match x.left with
  | none =>
    (-2 * m / (x.above * x.below) +
        2 * m * l.alpha * l.betaSlope * (x.right - x.center) / (k * x.above * x.below) +
        flux * flux * m * l.alpha * l.betaCurve / (k * k * k) -
        2 * flux * flux * m * l.alpha * l.alpha * l.betaSlope * l.betaSlope / (k * k * k * k) +
        m * flux * l.beta * l.alpha * l.alphaSlope * l.betaSlope / (k * k * k) -
        m * flux * l.betaSlope * l.alphaSlope / (k * k),
     0,
     2 * m / (x.above * x.below))
  | some left =>
    let span := x.above + x.below
    let ratio := x.above / x.below
    let step := x.right - left
    (-2 * m / (x.above * x.below) +
        m * l.alpha * l.betaCurve * step * step / (k * span * span) +
        m * (2 / x.above) * l.alpha * l.betaSlope *
          (left + ratio * x.right - (1 + ratio) * x.center) / (span * k) +
        m * l.betaSlope * l.alphaSlope * step / (span * k),
     2 * m / (x.above * span) - m * l.beta * l.alphaSlope / (k * span) +
        2 * m * (left - x.right) * l.alpha * l.betaSlope / (k * span * span),
     2 * m / (x.below * span) + m * l.beta * l.alphaSlope / (k * span) +
        2 * m * step * l.alpha * l.betaSlope / (k * span * span))

/-- The temperatures along depth that a stencil has. -/
def pointOf (h : HeatEquation K) (s : Stencil K) : Except OutOfRange (HeatPoint K) := do
  let center ← s.centerValue h.dof
  let right ← s.rightValue h.dof
  let left ← s.left.mapM fun values => entryAt values h.dof
  return { center, left, right, above := s.above, below := s.below }

def checkReady (h : HeatEquation K) : Except (EvalError K) Unit :=
  if h.stage = .evaluating then .ok () else .error .heatNotReady

/-- Add the rate of change of the temperature at a node to `out`. -/
def addFlux (h : HeatEquation K) (s : Stencil K) (out : K) : Except (EvalError K) K := do
  h.checkReady
  if h.isZeroFlux then return out
  let x ← (h.pointOf s).mapError .outOfRange
  let l := h.localAt s.depth x.center
  let (flow, correction) := depthTerms h.flux l x
  let across ← (s.transverseValues (h.dimension - 1) h.dof).mapError .outOfRange
  return across.foldl (fun out (minus, plus, factor) =>
    out + l.diffusivity * factor * (minus + plus - 2 * x.center)) (out + flow + correction)

/-- The derivatives of what `addFlux` adds, in the order centre, above, below, and the two
neighbours along the first and the second transverse axis; zero for an axis that is not in use.
There are none without flux. -/
def partials (h : HeatEquation K) (s : Stencil K) :
    Except (EvalError K) (Option (List (Offset × K))) := do
  h.checkReady
  if h.isZeroFlux then return none
  let x ← (h.pointOf s).mapError .outOfRange
  let l := h.localAt s.depth x.center
  let m := l.diffusivity
  let (center, left, right) := depthPartials h.flux l x
  let factors := s.factorList.take (min s.transverse.length (h.dimension - 1))
  let across := fun axis => match factors[axis]? with
    | some factor => m * factor
    | none => 0
  return some
    [(.center, factors.foldl (fun out factor => out - 2 * m * factor) center),
     (.left, left), (.right, right),
     (.minus 0, across 0), (.plus 0, across 0), (.minus 1, across 1), (.plus 1, across 1)]

end HeatEquation

end ClusterDynamics
