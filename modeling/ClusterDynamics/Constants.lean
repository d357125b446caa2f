import ClusterDynamics.Scalar

/-! Physical constants. Lengths are in nanometres, energies in electron-volts, temperatures in
kelvin. -/

namespace ClusterDynamics

variable {K : Type} [Scalar K]

/-- Boltzmann constant (eV/K). -/
def boltzmann : K := 8.617333262e-5

/-- Lattice constant of tungsten (nm). -/
def tungstenLattice : K := 0.31652

/-- Lattice constant of uranium dioxide (nm). -/
def uraniumDioxideLattice : K := 0.547

/-- Lattice constant of alpha iron (nm). -/
def ironLattice : K := 0.287

/-- Radius of an isolated helium atom (nm). -/
def heliumRadius : K := 0.3

/-- Radius of an isolated xenon atom (nm). -/
def xenonRadius : K := 0.3

/-- Radius of an isolated hydrogen-isotope atom (nm). -/
def hydrogenRadius : K := 0.1

/-- No binding energy is taken below this floor (eV). -/
def minBindingEnergy : K := 0.1

end ClusterDynamics
