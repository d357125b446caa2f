import ClusterDynamics.Proofs.Network.Participants
import ClusterDynamics.Rates.Point

/-! When reactions have rates. Their laws look clusters up and fail only where one is missing, so
a network that has rates at one temperature has them at every other one. -/

namespace ClusterDynamics

variable {K : Type} [Scalar K] {net : Network K} {t u : K}

namespace Network

/-- Rate of encounters of two clusters at a temperature. -/
def encounterRate (net : Network K) (a b : Cluster K) (t : K) : Thermal K :=
  net.captureRate a b (diffusionCoefficient a.diffusionFactor a.migrationEnergy t)
    (diffusionCoefficient b.diffusionFactor b.migrationEnergy t)

/-- The rates of the reactions that a network can have, as functions of the temperature. -/
inductive RateLaw (net : Network K) : (K → Thermal K) → Prop
  | capture {i j : Nat} {a b : Cluster K} (ha : net.cluster i = .ok a) (hb : net.cluster j = .ok b) :
      RateLaw net (net.encounterRate a b)
  | dissociation {k i j : Nat} {parent a b : Cluster K} (hk : net.cluster k = .ok parent)
      (ha : net.cluster i = .ok a) (hb : net.cluster j = .ok b) :
      RateLaw net fun t => dissociationRate t (parent.splitEnergy a b) (net.encounterRate a b t)
  | sink {i : Nat} {c : Cluster K} {s : SinkSettings K} (hs : net.spec.sinks = some s)
      (hc : net.cluster i = .ok c) :
      RateLaw net fun t => sinkRate s c (diffusionCoefficient c.diffusionFactor c.migrationEnergy t)
  | reSolution {k : Nat} {c : Cluster K} {s : ReSolutionSettings K}
      (hs : net.spec.reSolution = some s) (hc : net.cluster k = .ok c) :
      RateLaw net fun _ => net.reSolutionRate s c
  | nucleation : RateLaw net fun _ => ⟨net.nucleationRate, 0⟩
  /-- A channel that is closed. -/
  | closed : RateLaw net fun _ => .zero

end Network

namespace RateContext

variable {i j k : Nat} {a b c parent : Cluster K} {r : Reaction K} {rate : Thermal K}

theorem size_diffusion : (ofTemperature net t).diffusion.size = net.size := by
  simp [ofTemperature, Network.size, ClusterTable.size]

omit [Scalar K] in
theorem exists_cluster_iff : (∃ c, net.cluster i = .ok c) ↔ i < net.size := exists_entryAt_iff

theorem entryAt_diffusion (hc : net.cluster i = .ok c) (t : K) :
    entryAt (ofTemperature net t).diffusion i =
      .ok (diffusionCoefficient c.diffusionFactor c.migrationEnergy t) := by
  rw [Network.cluster, ClusterTable.cluster, entryAt_eq_ok_iff] at hc
  rw [entryAt_eq_ok_iff, ofTemperature, Array.getElem?_map, hc]
  rfl

section Laws

theorem capture_eq_ok {x : RateContext K} {da db : Thermal K} (ha : x.net.cluster i = .ok a)
    (hb : x.net.cluster j = .ok b) (hda : entryAt x.diffusion i = .ok da)
    (hdb : entryAt x.diffusion j = .ok db) :
    x.capture i j = .ok (x.net.captureRate a b da db) := by
  rw [capture, ha, hb, hda, hdb]
  rfl

theorem capture_ofTemperature (ha : net.cluster i = .ok a) (hb : net.cluster j = .ok b) (t : K) :
    (ofTemperature net t).capture i j = .ok (net.encounterRate a b t) :=
  capture_eq_ok ha hb (entryAt_diffusion ha t) (entryAt_diffusion hb t)

theorem dissociation_ofTemperature (hk : net.cluster k = .ok parent) (ha : net.cluster i = .ok a)
    (hb : net.cluster j = .ok b) (t : K) : (ofTemperature net t).dissociation k i j =
      .ok (dissociationRate t (parent.splitEnergy a b) (net.encounterRate a b t)) := by
  have hnet : (ofTemperature net t).net = net := rfl
  have hsplit : net.table.splitEnergy k i j = .ok (parent.splitEnergy a b) := by
    unfold Network.cluster at hk ha hb
    rw [ClusterTable.splitEnergy, hk, ha, hb]
    rfl
  rw [dissociation, capture_ofTemperature ha hb, ok_bind, hnet, hsplit]
  rfl

theorem exists_sink_law (h : net.spec.sinks = none ∨ i < net.size) :
    ∃ f, net.RateLaw f ∧ ∀ t, (ofTemperature net t).sink i = .ok (f t) := by
  have hnet : ∀ t, (ofTemperature net t).net = net := fun _ => rfl
  cases hs : net.spec.sinks with
  | none => exact ⟨_, .closed, fun t => by rw [sink, hnet, hs]⟩
  | some s =>
    obtain ⟨c, hc⟩ := exists_cluster_iff.mpr (h.resolve_left (by simp [hs]))
    refine ⟨_, .sink hs hc, fun t => ?_⟩
    rw [sink, hnet, hs]
    dsimp only
    rw [hc, entryAt_diffusion hc]
    rfl

theorem exists_reSolution_law (h : net.spec.reSolution = none ∨ k < net.size) :
    ∃ f, net.RateLaw f ∧ ∀ t, (ofTemperature net t).reSolution k = .ok (f t) := by
  have hnet : ∀ t, (ofTemperature net t).net = net := fun _ => rfl
  cases hs : net.spec.reSolution with
  | none => exact ⟨_, .closed, fun t => by rw [reSolution, hnet, hs]⟩
  | some s =>
    obtain ⟨c, hc⟩ := exists_cluster_iff.mpr (h.resolve_left (by simp [hs]))
    refine ⟨_, .reSolution hs hc, fun t => ?_⟩
    rw [reSolution, hnet, hs]
    dsimp only
    rw [hc]
    rfl

theorem exists_clusters_of_capture (h : (ofTemperature net t).capture i j = .ok rate) :
    ∃ a b, net.cluster i = .ok a ∧ net.cluster j = .ok b := by
  obtain ⟨a, ha, h⟩ := bind_eq_ok_iff.mp h
  obtain ⟨b, hb, -⟩ := bind_eq_ok_iff.mp h
  exact ⟨a, b, ha, hb⟩

theorem lt_size_of_sink (h : (ofTemperature net t).sink i = .ok rate) :
    net.spec.sinks = none ∨ i < net.size := by
  have hnet : (ofTemperature net t).net = net := rfl
  cases hs : net.spec.sinks with
  | none => exact .inl rfl
  | some s =>
    rw [sink, hnet, hs] at h
    obtain ⟨c, hc, -⟩ := bind_eq_ok_iff.mp h
    exact .inr (exists_cluster_iff.mp ⟨c, hc⟩)

theorem lt_size_of_reSolution (h : (ofTemperature net t).reSolution k = .ok rate) :
    net.spec.reSolution = none ∨ k < net.size := by
  have hnet : (ofTemperature net t).net = net := rfl
  cases hs : net.spec.reSolution with
  | none => exact .inl rfl
  | some s =>
    rw [reSolution, hnet, hs] at h
    obtain ⟨c, hc, -⟩ := bind_eq_ok_iff.mp h
    exact .inr (exists_cluster_iff.mp ⟨c, hc⟩)

/-- A reaction with a rate at one temperature has one at every other, and the temperature enters by
one of the laws. -/
theorem exists_law (h : (ofTemperature net t).rate r = .ok rate) :
    ∃ f, net.RateLaw f ∧ ∀ u, (ofTemperature net u).rate r = .ok (f u) := by
  have hwrap : ∀ {law : K → Except OutOfRange (Thermal K)},
      (∃ f, net.RateLaw f ∧ ∀ u, law u = .ok (f u)) →
        ∃ f, net.RateLaw f ∧ ∀ u, (law u).mapError (EvalError.outOfRange (K := K)) = .ok (f u) := by
    rintro law ⟨f, hf, hlaw⟩
    exact ⟨f, hf, fun u => mapError_eq_ok_iff.mpr (hlaw u)⟩
  unfold RateContext.rate at h ⊢
  split at h
  · obtain ⟨a, b, ha, hb⟩ := exists_clusters_of_capture (mapError_eq_ok_iff.mp h)
    exact hwrap ⟨_, .capture ha hb, capture_ofTemperature ha hb⟩
  · obtain ⟨forward, hforward, h⟩ := bind_eq_ok_iff.mp (mapError_eq_ok_iff.mp h)
    obtain ⟨energy, henergy, -⟩ := bind_eq_ok_iff.mp h
    obtain ⟨parent, hk, -⟩ := bind_eq_ok_iff.mp henergy
    obtain ⟨a, b, ha, hb⟩ := exists_clusters_of_capture hforward
    exact hwrap ⟨_, .dissociation hk ha hb, dissociation_ofTemperature hk ha hb⟩
  · exact hwrap (exists_reSolution_law (lt_size_of_reSolution (mapError_eq_ok_iff.mp h)))
  · exact hwrap (exists_sink_law (lt_size_of_sink (mapError_eq_ok_iff.mp h)))
  · split_ifs at h with hmono
    exact ⟨_, .nucleation, fun u => if_pos hmono⟩
  · cases h

end Laws

end RateContext

namespace PointRates

variable {point : Nat} {p : PointRates K}

theorem compute_eq_ok_iff : compute net point t = .ok p ↔ Scalar.isPositive t = true ∧
    ∃ rates, net.reactions.mapM (RateContext.ofTemperature net t).rate = .ok rates ∧
      p = { point, temperature := t, generation := 0, lattice := net.lengths.lattice
            atomicVolume := net.lengths.atomicVolume
            diffusion := (RateContext.ofTemperature net t).diffusion, rates } := by
  unfold compute
  cases hpos : Scalar.isPositive t
  · simp
  · simp [bind_eq_ok_iff, pure, Except.pure, @eq_comm _ p]

/-- There is a coefficient for each cluster and a rate for each reaction. -/
theorem sizes_of_compute (h : compute net point t = .ok p) :
    p.diffusion.size = net.size ∧ p.rates.size = net.reactions.size := by
  obtain ⟨-, rates, hrates, rfl⟩ := compute_eq_ok_iff.mp h
  refine ⟨RateContext.size_diffusion, ?_⟩
  simpa using (arrayMapM_eq_ok_iff.mp hrates).length_eq.symm

theorem exists_compute_iff : (∃ p, compute net point t = .ok p) ↔ Scalar.isPositive t = true ∧
    ∀ r ∈ net.reactions.toList, ∃ rate, (RateContext.ofTemperature net t).rate r = .ok rate := by
  rw [← exists_mapM_eq_ok_iff]
  constructor
  · rintro ⟨p, hp⟩
    obtain ⟨hpos, rates, hrates, -⟩ := compute_eq_ok_iff.mp hp
    exact ⟨hpos, rates.toList, mapM_eq_ok_iff.mpr (arrayMapM_eq_ok_iff.mp hrates)⟩
  · rintro ⟨hpos, rates, hrates⟩
    have harray : net.reactions.mapM (RateContext.ofTemperature net t).rate =
        .ok rates.toArray := arrayMapM_eq_ok_iff.mpr (mapM_eq_ok_iff.mp hrates)
    exact ⟨_, compute_eq_ok_iff.mpr ⟨hpos, _, harray, rfl⟩⟩

/-- Once a network has rates somewhere, it has them at every point and positive temperature. -/
theorem exists_compute_of_compute (h : compute net point t = .ok p) (point' : Nat)
    (hu : Scalar.isPositive u = true) : ∃ p', compute net point' u = .ok p' := by
  obtain ⟨-, hrates⟩ := exists_compute_iff.mp ⟨p, h⟩
  rw [exists_compute_iff]
  refine ⟨hu, fun r hr => ?_⟩
  obtain ⟨rate, hrate⟩ := hrates r hr
  obtain ⟨f, -, hlaw⟩ := RateContext.exists_law hrate
  exact ⟨f u, hlaw u⟩

end PointRates

namespace Network.BuiltFrom

variable {spec : NetworkSpec K} {x : Reaction K}

/-- Every reaction of a built network has the participants that the law of its kind takes. -/
theorem exists_rate (h : net.BuiltFrom spec) (hx : x ∈ net.reactions.toList) (t : K) :
    ∃ rate, (RateContext.ofTemperature net t).rate x = .ok rate := by
  have hpair : ∀ i j, Reaction.pair i j = [i, j] ∨ Reaction.pair i j = [j, i] := fun i j =>
    ite_eq_or_eq _ _ _
  have hcluster : ∀ i, i < net.size → ∃ c, net.cluster i = .ok c := fun i =>
    RateContext.exists_cluster_iff.mpr
  cases h.formed hx with
  | @production i j k w hi hj hk =>
    obtain ⟨a, ha⟩ := hcluster i hi
    obtain ⟨b, hb⟩ := hcluster j hj
    rw [Reaction.production]
    rcases hpair i j with hij | hij <;> rw [hij]
    · exact ⟨_, mapError_eq_ok_iff.mpr (RateContext.capture_ofTemperature ha hb t)⟩
    · exact ⟨_, mapError_eq_ok_iff.mpr (RateContext.capture_ofTemperature hb ha t)⟩
  | @dissociation k i j w hk hi hj =>
    obtain ⟨parent, hparent⟩ := hcluster k hk
    obtain ⟨a, ha⟩ := hcluster i hi
    obtain ⟨b, hb⟩ := hcluster j hj
    rw [Reaction.dissociation]
    rcases hpair i j with hij | hij <;> rw [hij]
    · exact ⟨_, mapError_eq_ok_iff.mpr (RateContext.dissociation_ofTemperature hparent ha hb t)⟩
    · exact ⟨_, mapError_eq_ok_iff.mpr (RateContext.dissociation_ofTemperature hparent hb ha t)⟩
  | @reSolution k i j w hk hi hj =>
    obtain ⟨f, -, hlaw⟩ := RateContext.exists_reSolution_law (.inr hk)
    rw [Reaction.reSolution]
    rcases hpair i j with hij | hij <;> rw [hij] <;>
      exact ⟨_, mapError_eq_ok_iff.mpr (hlaw t)⟩
  | sink hi =>
    obtain ⟨f, -, hlaw⟩ := RateContext.exists_sink_law (.inr hi)
    exact ⟨_, mapError_eq_ok_iff.mpr (hlaw t)⟩
  | nucleation hi hk => exact ⟨_, if_pos rfl⟩

/-- A built network has rates at every positive temperature. -/
theorem exists_compute (h : net.BuiltFrom spec) (point : Nat) (ht : Scalar.isPositive t = true) :
    ∃ p, PointRates.compute net point t = .ok p := by
  rw [PointRates.exists_compute_iff]
  exact ⟨ht, fun x hx => h.exists_rate hx t⟩

end Network.BuiltFrom

end ClusterDynamics
