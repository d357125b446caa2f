import ClusterDynamics.Rates.Point
import ClusterDynamics.Report

/-! The rates at all grid points. Each change of temperatures opens a new generation, with which
every point is stamped, and computes anew only the points whose temperature is another one. -/

namespace ClusterDynamics

/-- Rates by grid point, and the generation that they are of. -/
structure RateTables (K : Type) where
  points : Array (PointRates K)
  generation : Nat
  deriving Repr

namespace RateTables

variable {K : Type} [Scalar K]

/-- The rates of a network at the given temperatures. -/
def ofTemperatures (net : Network K) (temperatures : List K) :
    Except (EvalError K) (RateTables K) := do
  let points ← temperatures.zipIdx.mapM fun (t, i) => PointRates.compute net i t
  return { points := points.toArray, generation := 0 }

/-- `ofTemperatures`, with a log record of the result. -/
def build (net : Network K) (temperatures : List K) : Reported K (EvalError K) (RateTables K) := do
  let tables ← Reported.ofExcept (ofTemperatures net temperatures)
  Reported.debug (s!"rate cache: {tables.points.size} grid points, " ++
    s!"{net.reactions.size} reactions each")
  return tables

/-- There must be one temperature per point, each finite and positive. -/
def checkTemperatures (tables : RateTables K) (temperatures : List K) :
    Except (EvalError K) Unit := do
  if temperatures.length ≠ tables.points.size then
    throw (.wrongLength .temperatures tables.points.size temperatures.length)
  if let some (t, i) := temperatures.zipIdx.find? fun (t, _) => !Scalar.isPositive t then
    throw (.badTemperature i t)

/-- A point at a new temperature, stamped with a generation; only a change of temperature calls for
new rates. -/
def refresh (net : Network K) (generation : Nat) (p : PointRates K) (t : K) :
    Except (EvalError K) (PointRates K) := do
  let q ← if p.temperature == t then .ok p else PointRates.compute net p.point t
  return { q with generation }

/-- Bring points to new temperatures in place, one after the other. The first that has no rates at its
new temperature ends the pass: the points before it are refreshed, the others are as they were. The
number of points computed anew is returned along with the points. -/
def refreshAll (net : Network K) (generation : Nat) :
    List (PointRates K) → List K → List (PointRates K) × Except (EvalError K) Nat
  | p :: ps, t :: ts =>
    match refresh net generation p t with
    | .error e => (p :: ps, .error e)
    | .ok q =>
      let (qs, result) := refreshAll net generation ps ts
      (q :: qs, result.map fun changed => if p.temperature == t then changed else changed + 1)
  | ps, _ => (ps, .ok 0)

/-- Set the temperatures of all points in place. The tables after the call are returned along with its
outcome, which is the number of points computed anew. Every temperature is looked at before any
point is written; the generation is advanced when all points are. -/
def update (tables : RateTables K) (net : Network K) (temperatures : List K) :
    RateTables K × Except (EvalError K) Nat :=
  match tables.checkTemperatures temperatures with
  | .error e => (tables, .error e)
  | .ok () =>
    let generation := tables.generation + 1
    match refreshAll net generation tables.points.toList temperatures with
    | (points, .ok changed) => ({ points := points.toArray, generation }, .ok changed)
    | (points, .error e) => ({ tables with points := points.toArray }, .error e)

/-- `update`, with an event. On failure there are no new tables, and the old ones stay in use. -/
def setTemperatures (tables : RateTables K) (net : Network K) (temperatures : List K) :
    Reported K (EvalError K) (RateTables K × Nat) := do
  let (updated, result) := tables.update net temperatures
  let changed ← Reported.ofExcept result
  Reported.event (.ratesRecomputed updated.generation changed)
  return (updated, changed)

def get (tables : RateTables K) (point : Nat) : Except (EvalError K) (PointRates K) :=
  match tables.points[point]? with
  | some p => .ok p
  | none => .error (.noSuchPoint point tables.points.size)

/-- The rates at a point, which must be of the generation that the caller expects. -/
def checked (tables : RateTables K) (point expected : Nat) :
    Except (EvalError K) (PointRates K) := do
  let p ← tables.get point
  if p.generation ≠ expected then throw (.staleRates expected p.generation)
  return p

end RateTables

end ClusterDynamics
