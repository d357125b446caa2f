import ClusterDynamics.Network.Basic
import ClusterDynamics.Proofs.Network.Generation
import ClusterDynamics.Proofs.Network.Validity
import ClusterDynamics.Proofs.OutOfRange
import ClusterDynamics.Proofs.Reported

/-! Construction of a network: what a network that was built consists of, and that every valid
description whose regions have room can be built. -/

namespace ClusterDynamics

open Reported

theorem Paving.returns_build_iff {K : Type} {axes : List Axis} {p : Paving} {j : Journal K} :
    (∃ j', (Paving.build axes).Returns j p j') ↔ Paving.ofAxes? axes = .ok p :=
  exists_returns_logged_iff

variable {K : Type} [Scalar K]

theorem ClusterTable.returns_build_iff {ε : Type} {spec : NetworkSpec K} {lengths : Lengths K}
    {p : Paving} {t : ClusterTable K} {j : Journal K} :
    (∃ j', (ClusterTable.build spec lengths p : Reported K ε (ClusterTable K)).Returns j t j') ↔
      t = .ofPaving spec lengths p := by
  unfold ClusterTable.build
  constructor
  · rintro ⟨j', h⟩
    obtain ⟨-, i, -, h⟩ := returns_bind_iff.mp h
    exact (returns_pure_iff.mp h).1
  · rintro rfl
    exact ⟨_, returns_bind_iff.mpr ⟨_, _,
      returns_forIn_log _ (unmatchedMobility spec.mobility p.regions) j,
      returns_pure_iff.mpr ⟨rfl, rfl⟩⟩⟩

theorem returns_buildReactions_iff {o : Overflow} {index : OverlapIndex} {table : ClusterTable K}
    {ch : Channels} {rs : List (Reaction K)} {j : Journal K} :
    (∃ j', (buildReactions index table ch o).Returns j rs j') ↔
      reactionList index table ch o = .ok rs :=
  exists_returns_logged_iff

namespace NetworkSpec

variable {spec : NetworkSpec K}

/-- The lengths that are replaced, in the order in which this is reported. -/
def fallbacks (spec : NetworkSpec K) : List (Event K) :=
  let lattice := spec.material.latticeConstant
  (if 0 < spec.latticeParameter then []
    else [.fallback .latticeParameter spec.latticeParameter lattice]) ++
  if 0 < spec.impurityRadius then []
    else [.fallback .impurityRadius spec.impurityRadius spec.isolatedRadius]

theorem run_orFallback {ε : Type} (length : FallbackLength) (given used : K) (j : Journal K) :
    (orFallback length given used : Reported K ε K).run j =
      (.ok (if 0 < given then given else used),
        { j with events := j.events ++
          if 0 < given then [] else [.fallback length given used] }) := by
  unfold orFallback
  split_ifs
  · rw [List.append_nil]
    rfl
  · rfl

theorem exists_returns_resolve (h : spec.validate = .ok ()) (j : Journal K) :
    ∃ lengths, spec.resolve.Returns j lengths { j with events := j.events ++ spec.fallbacks } := by
  unfold resolve fallbacks
  rw [← List.append_assoc]
  exact ⟨_, returns_bind_iff.mpr ⟨(), j, returns_ofExcept_iff.mpr ⟨h, rfl⟩,
    returns_bind_iff.mpr ⟨_, _, run_orFallback .latticeParameter _ _ _,
    returns_bind_iff.mpr ⟨_, _, run_orFallback .impurityRadius _ _ _,
    returns_pure_iff.mpr ⟨rfl, rfl⟩⟩⟩⟩⟩

theorem exists_returns_resolve_iff {j : Journal K} :
    (∃ lengths j', spec.resolve.Returns j lengths j') ↔ spec.validate = .ok () := by
  constructor
  · rintro ⟨lengths, j', h⟩
    unfold resolve at h
    obtain ⟨⟨⟩, i, hv, -⟩ := returns_bind_iff.mp h
    exact (returns_ofExcept_iff.mp hv).1
  · intro h
    obtain ⟨lengths, hl⟩ := exists_returns_resolve h j
    exact ⟨lengths, _, hl⟩

end NetworkSpec

namespace Network

/-- What a network consists of that was built from a description, and from exact sums of counts. -/
structure BuiltFrom (net : Network K) (spec : NetworkSpec K) : Prop where
  spec_eq : net.spec = spec
  valid : spec.validate = .ok ()
  paving : Paving.ofAxes? spec.axes = .ok net.paving
  index : ∃ axis, spec.profile.primaryAxis = .ok axis ∧
    OverlapIndex.ofPaving net.paving axis = .ok net.index
  table : net.table = .ofPaving spec net.lengths net.paving
  reactions : ∃ o : Overflow, o.ExactOn net.paving ∧
    reactionList net.index net.table spec.channels o = .ok net.reactions.toList
  pattern : net.pattern = .ofReactions net.paving.size net.reactions.toList

/-- What the construction of a network leaves behind, whatever becomes of sums of counts. -/
structure BuiltWith (net : Network K) (spec : NetworkSpec K) (o : Overflow) : Prop where
  spec_eq : net.spec = spec
  lengths : ∃ j, spec.resolve.Returns {} net.lengths j
  paving : Paving.ofAxes? spec.axes = .ok net.paving
  index : ∃ axis, spec.profile.primaryAxis = .ok axis ∧
    OverlapIndex.ofPaving net.paving axis = .ok net.index
  table : net.table = .ofPaving spec net.lengths net.paving
  reactions : reactionList net.index net.table spec.channels o = .ok net.reactions.toList
  pattern : net.pattern = .ofReactions net.paving.size net.reactions.toList

theorem builtWith_of_build {spec : NetworkSpec K} {net : Network K} {o : Overflow}
    (h : (build spec o).value = .ok net) : net.BuiltWith spec o := by
  obtain ⟨j, h⟩ := value_eq_ok_iff.mp h
  unfold build at h
  obtain ⟨lengths, j₁, hl, h⟩ := returns_bind_iff.mp h
  obtain ⟨paving, j₂, hp, h⟩ := returns_bind_iff.mp h
  obtain ⟨axis, j₃, ha, h⟩ := returns_bind_iff.mp h
  obtain ⟨index, j₄, hi, h⟩ := returns_bind_iff.mp h
  obtain ⟨table, j₅, ht, h⟩ := returns_bind_iff.mp h
  obtain ⟨reactions, j₆, hr, h⟩ := returns_bind_iff.mp h
  obtain ⟨⟨⟩, j₇, -, h⟩ := returns_bind_iff.mp h
  obtain ⟨rfl, -⟩ := returns_pure_iff.mp h
  rw [returns_ofExcept_iff, mapError_eq_ok_iff] at ha hi
  refine ⟨rfl, ⟨_, hl⟩, Paving.returns_build_iff.mp ⟨_, returns_mapError_iff.mp hp⟩,
    ⟨axis, ha.1, hi.1⟩, ClusterTable.returns_build_iff.mp ⟨_, ht⟩, ?_, ?_⟩
  · simpa using returns_buildReactions_iff.mp ⟨_, returns_mapError_iff.mp hr⟩
  · simp

namespace BuiltWith

variable {spec : NetworkSpec K} {net : Network K} {o : Overflow}

theorem valid (h : net.BuiltWith spec o) : spec.validate = .ok () := by
  obtain ⟨j, hl⟩ := h.lengths
  exact NetworkSpec.exists_returns_resolve_iff.mp ⟨_, _, hl⟩

theorem builtFrom (h : net.BuiltWith spec o) (ho : o.ExactOn net.paving) : net.BuiltFrom spec :=
  ⟨h.spec_eq, h.valid, h.paving, h.index, h.table, ⟨o, ho, h.reactions⟩, h.pattern⟩

theorem completeOn (h : net.BuiltWith spec o) : o.CompleteOn net.paving := by
  obtain ⟨axis, -, hindex⟩ := h.index
  have hreactions := h.reactions
  rw [h.table] at hreactions
  exact (exists_reactionList_iff (.of_ofAxes (Paving.ofAxes_of_ofAxes? h.paving)) hindex spec
    net.lengths spec.channels).mp ⟨_, hreactions⟩

/-- A network is built with the lengths of its description. -/
theorem returns_resolve (h : net.BuiltWith spec o) :
    spec.resolve.Returns {} net.lengths { events := spec.fallbacks } := by
  obtain ⟨lengths', hl'⟩ := spec.exists_returns_resolve h.valid {}
  obtain ⟨j, hl⟩ := h.lengths
  obtain ⟨hlengths, -⟩ := Prod.mk.inj (hl.symm.trans hl')
  rw [Except.ok.inj hlengths]
  simpa using hl'

end BuiltWith

/-- With checks, no sum of counts has left the range in the construction of a network. -/
theorem builtFrom_of_build {spec : NetworkSpec K} {net : Network K}
    (h : (build spec).value = .ok net) : net.BuiltFrom spec :=
  (builtWith_of_build h).builtFrom (builtWith_of_build h).completeOn.exactOn

theorem BuiltFrom.size_eq {spec : NetworkSpec K} {net : Network K} (h : net.BuiltFrom spec) :
    net.size = net.paving.regions.length := by
  rw [size, h.table]
  simp [ClusterTable.size, ClusterTable.ofPaving]

theorem BuiltFrom.size_pos {spec : NetworkSpec K} {net : Network K} (h : net.BuiltFrom spec) :
    0 < net.size := by
  rw [h.size_eq]
  exact List.length_pos_iff.mpr
    (Paving.regions_ne_nil_of_ofAxes (Paving.ofAxes_of_ofAxes? h.paving))

theorem BuiltFrom.cluster_eq_ok_iff {spec : NetworkSpec K} {net : Network K}
    (h : net.BuiltFrom spec) {i : Nat} {c : Cluster K} : net.cluster i = .ok c ↔
      ∃ r, net.paving.regions[i]? = some r ∧ c = .ofRegion spec net.lengths r := by
  unfold cluster ClusterTable.cluster
  rw [entryAt_eq_ok_iff, h.table]
  simp [ClusterTable.ofPaving, eq_comm]

/-- A description that passes the checks can be built if there is room for the regions of its axes
and their sums come out. -/
theorem exists_build_of_validate {spec : NetworkSpec K} {p : Paving} {o : Overflow}
    (hv : spec.validate = .ok ()) (hp : Paving.ofAxes? spec.axes = .ok p)
    (hsums : o.CompleteOn p) :
    ∃ net, (build spec o).value = .ok net ∧ net.paving = p := by
  obtain ⟨hprofile, haxes, -⟩ := NetworkSpec.lattice_of_validate hv
  have hp' := Paving.ofAxes_of_ofAxes? hp
  obtain ⟨axis, haxis, hlt⟩ := hprofile.exists_primaryAxis haxes hp'
  have hindex := OverlapIndex.ofPaving_eq_ok_iff.mpr ⟨hlt, rfl⟩
  obtain ⟨lengths, j₁, hl⟩ := NetworkSpec.exists_returns_resolve_iff.mpr hv
  obtain ⟨j₂, hpaving⟩ := (Paving.returns_build_iff (K := K) (j := j₁)).mpr hp
  obtain ⟨j₃, htable⟩ := (ClusterTable.returns_build_iff (ε := NetworkError K) (j := j₂)).mpr
    (Eq.refl (ClusterTable.ofPaving spec lengths p))
  obtain ⟨rs, hrs⟩ :=
    (exists_reactionList_iff (.of_ofAxes hp') hindex spec lengths spec.channels).mpr hsums
  obtain ⟨j₄, hreactions⟩ := (returns_buildReactions_iff (j := j₃)).mpr hrs
  let net : Network K :=
    { spec, lengths, paving := p, index := .onAxis p axis, table := .ofPaving spec lengths p
      reactions := rs.toArray, pattern := .ofReactions p.size rs }
  refine ⟨net, value_eq_ok_iff.mpr ?_, rfl⟩
  exact ⟨_, returns_bind_iff.mpr ⟨lengths, j₁, hl,
    returns_bind_iff.mpr ⟨p, j₂, returns_mapError_iff.mpr hpaving,
    returns_bind_iff.mpr ⟨axis, j₂, returns_ofExcept_iff.mpr ⟨mapError_eq_ok_iff.mpr haxis, rfl⟩,
    returns_bind_iff.mpr ⟨_, j₂, returns_ofExcept_iff.mpr ⟨mapError_eq_ok_iff.mpr hindex, rfl⟩,
    returns_bind_iff.mpr ⟨_, j₃, htable,
    returns_bind_iff.mpr ⟨rs, j₄, returns_mapError_iff.mpr hreactions,
    returns_bind_iff.mpr ⟨(), _, returns_event _ _, returns_pure_iff.mpr ⟨rfl, rfl⟩⟩⟩⟩⟩⟩⟩⟩⟩

variable {spec : NetworkSpec ℝ} {net : Network ℝ} {p : Paving}

theorem BuiltFrom.validated (h : net.BuiltFrom spec) : spec.Valid :=
  NetworkSpec.validate_eq_ok_iff.mp h.valid

theorem BuiltFrom.valid_spec (h : net.BuiltFrom spec) : net.spec.Valid := by
  rw [h.spec_eq]
  exact h.validated

/-- A valid description can be built if there is room for the regions of its axes and sums of its
counts are exact. -/
theorem exists_build (hv : spec.Valid) (hfits : ∀ a ∈ spec.axes, Overflow.checked.Fits a.max)
    (hp : Paving.ofAxes? spec.axes = .ok p) :
    ∃ net, (build spec).value = .ok net ∧ net.paving = p := by
  have hs : ∀ a ∈ spec.axes, a.Sound := by
    intro a ha
    obtain ⟨hwidth, hmin⟩ := Axis.validate_eq_ok_iff.mp (hv.cuts a ha)
    have hmax : 2 * (a.max + 1) ≤ countLimit := hfits a ha
    exact ⟨hwidth, hmin, by omega⟩
  have hsums := Paving.exactOn_of_fits hs (Paving.ofAxes_of_ofAxes? hp) hfits
  exact exists_build_of_validate (NetworkSpec.validate_eq_ok_iff.mpr hv) hp hsums.completeOn

namespace BuiltFrom

theorem mem_reactions_iff (h : net.BuiltFrom spec) {x : Reaction ℝ} :
    x ∈ net.reactions.toList ↔ Listed spec spec.channels net.paving x := by
  obtain ⟨axis, -, hindex⟩ := h.index
  obtain ⟨o, ho, hreactions⟩ := h.reactions
  rw [h.table] at hreactions
  exact mem_reactionList_iff (.of_ofAxes (Paving.ofAxes_of_ofAxes? h.paving)) hindex ho hreactions

theorem ascending (h : net.BuiltFrom spec) : Ascending net.reactions.toList := by
  obtain ⟨o, -, hreactions⟩ := h.reactions
  exact ascending_of_reactionList hreactions

end BuiltFrom

theorem exists_build_xenon_regions :
    ∃ net, (build (NetworkSpec.xenon 2 : NetworkSpec ℝ)).value = .ok net ∧ net.paving.regions =
      [⟨[.singleton 1], List.cons_ne_nil _ _⟩, ⟨[.singleton 2], List.cons_ne_nil _ _⟩] := by
  have hp : Paving.ofAxes? (NetworkSpec.xenon 2 : NetworkSpec ℝ).axes =
      .ok ⟨[⟨[.singleton 1], List.cons_ne_nil _ _⟩, ⟨[.singleton 2], List.cons_ne_nil _ _⟩],
        [.xenon], [2]⟩ := by
    decide +kernel
  obtain ⟨net, hnet, hpaving⟩ := exists_build (NetworkSpec.xenon_valid 2) (by decide) hp
  exact ⟨net, hnet, congrArg Paving.regions hpaving⟩

theorem exists_build_xenon :
    ∃ net, (build (NetworkSpec.xenon 2 : NetworkSpec ℝ)).value = .ok net ∧ net.size = 2 := by
  obtain ⟨net, hnet, hregions⟩ := exists_build_xenon_regions
  refine ⟨net, hnet, ?_⟩
  rw [(builtFrom_of_build hnet).size_eq, hregions]
  rfl

end Network

end ClusterDynamics
