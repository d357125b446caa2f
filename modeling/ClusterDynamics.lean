import ClusterDynamics.Assembly
import ClusterDynamics.Calibration.Error
import ClusterDynamics.Calibration.Posterior
import ClusterDynamics.Calibration.Prior
import ClusterDynamics.Calibration.Surrogate
import ClusterDynamics.Cluster.Binding
import ClusterDynamics.Cluster.Geometry
import ClusterDynamics.Cluster.Profile
import ClusterDynamics.Cluster.Rule
import ClusterDynamics.Constants
import ClusterDynamics.Decimal.Basic
import ClusterDynamics.Decimal.Binary64
import ClusterDynamics.Decimal.Rounded
import ClusterDynamics.Decimal.Shortest
import ClusterDynamics.Depth.Grid
import ClusterDynamics.Depth.State
import ClusterDynamics.Depth.Stencil
import ClusterDynamics.Depth.Surface
import ClusterDynamics.Heat.Equation
import ClusterDynamics.Heat.Settings
import ClusterDynamics.Lattice.Axis
import ClusterDynamics.Lattice.Error
import ClusterDynamics.Lattice.Interval
import ClusterDynamics.Lattice.Overflow
import ClusterDynamics.Lattice.OverlapIndex
import ClusterDynamics.Lattice.Paving
import ClusterDynamics.Lattice.Region
import ClusterDynamics.Material
import ClusterDynamics.Network.Basic
import ClusterDynamics.Network.Cluster
import ClusterDynamics.Network.ClusterTable
import ClusterDynamics.Network.Error
import ClusterDynamics.Network.FillPattern
import ClusterDynamics.Network.Reaction
import ClusterDynamics.Network.ReactionList
import ClusterDynamics.Network.Samples
import ClusterDynamics.Network.SparseBlock
import ClusterDynamics.Network.Spec
import ClusterDynamics.OutOfRange
import ClusterDynamics.Proofs.Assembly.Conservation
import ClusterDynamics.Proofs.Assembly.Flattened
import ClusterDynamics.Proofs.Assembly.Jacobian
import ClusterDynamics.Proofs.Assembly.Lowering
import ClusterDynamics.Proofs.Assembly.Numbering
import ClusterDynamics.Proofs.Assembly.Partials
import ClusterDynamics.Proofs.Assembly.Slots
import ClusterDynamics.Proofs.Assembly.Terms
import ClusterDynamics.Proofs.Calibration.Chain
import ClusterDynamics.Proofs.Calibration.Densities
import ClusterDynamics.Proofs.Calibration.Expansion
import ClusterDynamics.Proofs.Calibration.Polynomials
import ClusterDynamics.Proofs.Calibration.Slots
import ClusterDynamics.Proofs.Calibration.TotalDegree
import ClusterDynamics.Proofs.Cluster.RuleText
import ClusterDynamics.Proofs.Depth.Adjacency
import ClusterDynamics.Proofs.Depth.Grid
import ClusterDynamics.Proofs.Depth.Neighbours
import ClusterDynamics.Proofs.Depth.Reads
import ClusterDynamics.Proofs.Depth.Replacement
import ClusterDynamics.Proofs.Depth.Spacings
import ClusterDynamics.Proofs.Depth.Stencil
import ClusterDynamics.Proofs.Depth.Sums
import ClusterDynamics.Proofs.Heat.Derivatives
import ClusterDynamics.Proofs.Heat.Evaluation
import ClusterDynamics.Proofs.Heat.Lifecycle
import ClusterDynamics.Proofs.Heat.Slopes
import ClusterDynamics.Proofs.Lattice.Alignment
import ClusterDynamics.Proofs.Lattice.Buckets
import ClusterDynamics.Proofs.Lattice.Clipping
import ClusterDynamics.Proofs.Lattice.Construction
import ClusterDynamics.Proofs.Lattice.Counting
import ClusterDynamics.Proofs.Lattice.Cuts
import ClusterDynamics.Proofs.Lattice.Cutting
import ClusterDynamics.Proofs.Lattice.Odometer
import ClusterDynamics.Proofs.Lattice.Ordering
import ClusterDynamics.Proofs.Lattice.Overflow
import ClusterDynamics.Proofs.Lattice.Partition
import ClusterDynamics.Proofs.Lattice.Passes
import ClusterDynamics.Proofs.Lattice.Query
import ClusterDynamics.Proofs.Lattice.RowCount
import ClusterDynamics.Proofs.Lattice.Shelf
import ClusterDynamics.Proofs.Lattice.Tiling
import ClusterDynamics.Proofs.Network.Build
import ClusterDynamics.Proofs.Network.Classification
import ClusterDynamics.Proofs.Network.Cluster
import ClusterDynamics.Proofs.Network.Construction
import ClusterDynamics.Proofs.Network.Coupling
import ClusterDynamics.Proofs.Network.FillPattern
import ClusterDynamics.Proofs.Network.Generation
import ClusterDynamics.Proofs.Network.MergerBalance
import ClusterDynamics.Proofs.Network.Mergers
import ClusterDynamics.Proofs.Network.Mobility
import ClusterDynamics.Proofs.Network.Monomer
import ClusterDynamics.Proofs.Network.Ordering
import ClusterDynamics.Proofs.Network.Participants
import ClusterDynamics.Proofs.Network.Scan
import ClusterDynamics.Proofs.Network.SparseBlock
import ClusterDynamics.Proofs.Network.Validity
import ClusterDynamics.Proofs.OutOfRange
import ClusterDynamics.Proofs.Outcome
import ClusterDynamics.Proofs.Rates.Capture
import ClusterDynamics.Proofs.Rates.CrossSection
import ClusterDynamics.Proofs.Rates.DetailedBalance
import ClusterDynamics.Proofs.Rates.Evaluation
import ClusterDynamics.Proofs.Rates.Monotonicity
import ClusterDynamics.Proofs.Rates.Orientation
import ClusterDynamics.Proofs.Rates.Positivity
import ClusterDynamics.Proofs.Rates.Slopes
import ClusterDynamics.Proofs.Rates.Tables
import ClusterDynamics.Proofs.Real
import ClusterDynamics.Proofs.Reported
import ClusterDynamics.Proofs.Simulation.Construction
import ClusterDynamics.Proofs.Simulation.Evaluation
import ClusterDynamics.Proofs.Simulation.Heating
import ClusterDynamics.Proofs.Simulation.IdleDrift
import ClusterDynamics.Proofs.Simulation.Jacobian
import ClusterDynamics.Proofs.Simulation.LookUps
import ClusterDynamics.Proofs.Simulation.Outflow
import ClusterDynamics.Proofs.Simulation.Places
import ClusterDynamics.Proofs.Simulation.QuasiPositivity
import ClusterDynamics.Proofs.Simulation.Readiness
import ClusterDynamics.Proofs.Simulation.Soundness
import ClusterDynamics.Proofs.Simulation.Triplets
import ClusterDynamics.Proofs.Simulation.Update
import ClusterDynamics.Proofs.Simulation.Vacuum
import ClusterDynamics.Proofs.Text.Words
import ClusterDynamics.Proofs.Transport.Across
import ClusterDynamics.Proofs.Transport.Partials
import ClusterDynamics.Proofs.Transport.Places
import ClusterDynamics.Proofs.Transport.Reads
import ClusterDynamics.Proofs.Transport.Slopes
import ClusterDynamics.Proofs.TurningPoint
import ClusterDynamics.Rates.CrossSection
import ClusterDynamics.Rates.Error
import ClusterDynamics.Rates.Law
import ClusterDynamics.Rates.Point
import ClusterDynamics.Rates.Tables
import ClusterDynamics.Report
import ClusterDynamics.Scalar
import ClusterDynamics.SetupError
import ClusterDynamics.Simulation.Basic
import ClusterDynamics.Simulation.Config
import ClusterDynamics.Species
import ClusterDynamics.StepRamp
import ClusterDynamics.Text.Blank
import ClusterDynamics.Transport.Diffusion
import ClusterDynamics.Transport.DriftSettings
import ClusterDynamics.Transport.ThermalDrift
import ClusterDynamics.TurningPoint
import ClusterDynamics.UnknownName
