import ClusterDynamics.Network.Basic

/-! Small networks for trying things out: xenon in exact steps or with grouped sizes, and helium,
vacancies and interstitials in iron. -/

namespace ClusterDynamics.NetworkSpec

variable {K : Type} [Scalar K]

/-- Xenon clusters up to `max` atoms with a mobile monomer. -/
def xenon (max : Nat) : NetworkSpec K :=
  ((ofProfile .fissionGas 1).withMax .xenon max).withMobility [1] 1e11 1

/-- Xenon clusters up to `max` atoms, from five atoms on in pairs of sizes. -/
def groupedXenon (max : Nat) : NetworkSpec K :=
  ((ofProfile .fissionGas 1).withAxis ⟨.xenon, max, 5, 2⟩).withMobility [1] 1e11 1

/-- Helium, vacancies and interstitials in iron, with mobile monomers. -/
def iron (helium vacancies interstitials : Nat) : NetworkSpec K :=
  let axes := (((ofProfile .iron 1).withMax .helium helium).withMax .vacancy vacancies).withMax
    .interstitial interstitials
  ((axes.withMobility [1, 0, 0] 2.9e11 0.13).withMobility [0, 1, 0] 1.8e12 1.30).withMobility
    [0, 0, 1] 8.8e10 0.01

end ClusterDynamics.NetworkSpec
