import ClusterDynamics.Scalar

/-! The geometric factors of encounter rates. They depend on radii alone; the factor of a pair times
the sum of its diffusion coefficients is its rate. -/

namespace ClusterDynamics

variable {K : Type} [Scalar K]

/-- Two spheres with radii `r` and `s` that react at a distance `core` beyond contact. -/
def sphereFactor (r s core : K) : K := 4 * Scalar.pi * (r + s + core)

/-- A trap catches a partner that is no larger with the full disc of their radii, and a larger one
with a reduced cross-section. -/
def trapCrossSection (trap partner : K) : K :=
  if partner ≤ trap then Scalar.pi * (trap + partner) * (trap + partner)
  else 4 * Scalar.pi * trap * partner

/-- The midpoint angle of part `k` of a right angle in `n` equal parts. -/
@[specialize] def alignmentAngle (n k : Nat) : K :=
  (Scalar.ofNat k + 0.5) * (Scalar.pi / 2) / Scalar.ofNat n

/-- The mean area of an ellipse whose semi-axes depend on the alignment angle, where the angle
`θ` has the weight `sin θ`. It is taken over `n` angles, and over one if `n` is zero. -/
@[specialize] def averagedEllipse (n : Nat) (semiAxes : K → K × K) : K :=
  let n := max n 1
  let (area, weight) : K × K := n.fold (fun k _ (area, weight) =>
    let t : K := alignmentAngle n k
    let w := Scalar.sin t
    let (a, b) := semiAxes t
    (area + w * Scalar.pi * a * b, weight + w)) (0, 0)
  area / weight

/-- A loop that meets a sphere, averaged over `n` alignment angles. -/
@[specialize] def loopSphereCrossSection (loop sphere : K) (n : Nat) : K :=
  averagedEllipse n fun t => (loop + sphere, loop * Scalar.abs (Scalar.cos t) + sphere)

/-- Two loops that meet, averaged over `n` alignment angles. -/
@[specialize] def loopLoopCrossSection (r s : K) (n : Nat) : K :=
  averagedEllipse n fun t =>
    (r + s, r * Scalar.abs (Scalar.cos t) + s * Scalar.abs (Scalar.sin t))

end ClusterDynamics
