import ClusterDynamics.Decimal.Shortest
import ClusterDynamics.Material

/-! What set-up and rate updates report: notable events, and log records. Both are values that an
operation returns along with its result, in the order in which they arose. -/

namespace ClusterDynamics

/-- A length that has a fallback for values that make no physical sense. -/
inductive FallbackLength where
  | latticeParameter
  | impurityRadius
  deriving DecidableEq, Repr

def FallbackLength.name : FallbackLength → String
  | .latticeParameter => "lattice_parameter"
  | .impurityRadius => "impurity_radius"

def FallbackLength.ofName? (name : String) : Option FallbackLength :=
  [latticeParameter, impurityRadius].find? (·.name == name)

/-- A notable event of set-up or of a rate update. -/
inductive Event (K : Type) where
  /-- A reaction network is complete. -/
  | networkBuilt (clusters reactions entries : Nat)
  /-- A length was replaced by its documented default. -/
  | fallback (length : FallbackLength) (given used : K)
  /-- Rate tables were computed anew after a change of temperature. -/
  | ratesRecomputed (generation points : Nat)
  /-- The heat equation received its material parameters. -/
  | heatConfigured (material : Material) (flux bulk : K)
  /-- The thermal drift registered its diffusing clusters. -/
  | driftInitialized (diffusing : Nat)
  deriving Repr

inductive LogLevel where
  | debug
  | info
  | warn
  deriving DecidableEq, Repr

def LogLevel.name : LogLevel → String
  | .debug => "DEBUG"
  | .info => "INFO"
  | .warn => "WARN"

structure LogRecord where
  level : LogLevel
  text : String
  deriving DecidableEq, Repr

/-- The log record that tells of an event. -/
def Event.logRecord : Event Float → LogRecord
  | .networkBuilt clusters reactions entries =>
    ⟨.info, s!"reaction network built: {clusters} clusters, {reactions} reactions, " ++
      s!"{entries} non-zeros"⟩
  | .fallback length given used =>
    ⟨.warn, s!"non-physical {length.name} = {Decimal.shortestText given}, falling back to " ++
      Decimal.shortestText used⟩
  | .ratesRecomputed generation points =>
    ⟨.debug, s!"rates recomputed at {points} grid points (generation {generation})"⟩
  | .heatConfigured material flux bulk =>
    ⟨.info, s!"heat equation on {material.name}: flux {Decimal.shortestText flux} W nm-2, " ++
      s!"bulk temperature {Decimal.shortestText bulk} K"⟩
  | .driftInitialized diffusing =>
    ⟨.info, s!"Soret coupling active for {diffusing} diffusing clusters"⟩

structure Journal (K : Type) where
  events : List (Event K) := []
  log : List LogRecord := []

/-- A computation that may fail with `ε` and reports along the way; reports made before a failure
stay. -/
abbrev Reported (K ε : Type) := ExceptT ε (StateM (Journal K))

namespace Reported

variable {K ε α : Type}

def event (e : Event K) : Reported K ε Unit :=
  modify fun j => { j with events := j.events ++ [e] }

def log (r : LogRecord) : Reported K ε Unit :=
  modify fun j => { j with log := j.log ++ [r] }

/-- Write a log record of level `debug`. -/
def debug (text : String) : Reported K ε Unit := log ⟨.debug, text⟩

def ofExcept (x : Except ε α) : Reported K ε α := MonadExcept.ofExcept x

/-- The result and the journal, starting from an empty one. -/
def report (x : Reported K ε α) : Except ε α × Journal K := x.run {}

def value (x : Reported K ε α) : Except ε α := x.report.1

/-- Continue with a computation whose failures are of another kind. -/
def mapError {ε' : Type} (f : ε → ε') (x : Reported K ε α) : Reported K ε' α :=
  ExceptT.mk do return (← x.run).mapError f

end Reported

end ClusterDynamics
