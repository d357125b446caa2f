import ClusterDynamics.Proofs.Lattice.Construction
import ClusterDynamics.Proofs.Network.Build

/-! What becomes of any description of a network: which ones can be built, how the others fail, and
which events are reported on the way. Behind the checks of a description only its lattice can
fail. -/

namespace ClusterDynamics

open Reported

variable {K : Type} [Scalar K]

/-- Whether an event tells of a network that is complete. -/
def Event.isNetworkBuilt {K : Type} : Event K → Bool
  | .networkBuilt .. => true
  | _ => false

/-- The warning about a mobility without a cluster. -/
def Mobility.warning {K : Type} (m : Mobility K) : LogRecord :=
  ⟨.warn, s!"mobility entry {countsText m.composition} matches no exact cluster and is ignored"⟩

namespace NetworkSpec

theorem countP_fallbacks (spec : NetworkSpec K) :
    spec.fallbacks.countP Event.isNetworkBuilt = 0 := by
  unfold fallbacks
  split_ifs <;> rfl

theorem fails_resolve {spec : NetworkSpec K} {e : NetworkError K} (h : spec.validate = .error e)
    (j : Journal K) : spec.resolve.Fails j e j :=
  (fails_ofExcept h j).bind

end NetworkSpec

namespace Network

variable {spec : NetworkSpec K} {o : Overflow}

theorem silent_table {ε : Type} (spec : NetworkSpec K) (lengths : Lengths K) (p : Paving) :
    (ClusterTable.build spec lengths p : Reported K ε (ClusterTable K)).Silent :=
  (silent_forIn (fun _ => silent_log _) _).bind fun _ => tells_pure rfl

/-- What a complete network is announced with. -/
def announcement (net : Network K) : Event K :=
  .networkBuilt net.paving.size net.reactions.size net.pattern.entryCount

/-- What is reported while a network is built: replaced lengths, the regions, the mobilities without
a cluster, the reactions, and the network. -/
def journal (net : Network K) : Journal K where
  events := net.spec.fallbacks ++ [net.announcement]
  log := [⟨.debug, s!"subpaving built: {net.paving.size} regions over {net.paving.dimension} axes"⟩] ++
    (unmatchedMobility net.spec.mobility net.paving.regions).map Mobility.warning ++
    [⟨.debug, s!"generated {net.reactions.size} reactions over {net.table.size} clusters"⟩]

theorem BuiltWith.returns_build {net : Network K} (h : net.BuiltWith spec o) :
    (build spec o).Returns {} net net.journal := by
  have hl := h.returns_resolve
  obtain ⟨axis, haxis, hindex⟩ := h.index
  obtain rfl := h.spec_eq
  unfold build
  refine returns_bind_iff.mpr ⟨_, _, hl, ?_⟩
  refine returns_bind_iff.mpr ⟨_, _, returns_mapError_iff.mpr (returns_logged h.paving _), ?_⟩
  refine returns_bind_iff.mpr ⟨axis, _,
    returns_ofExcept_iff.mpr ⟨mapError_eq_ok_iff.mpr haxis, rfl⟩, ?_⟩
  refine returns_bind_iff.mpr ⟨_, _,
    returns_ofExcept_iff.mpr ⟨mapError_eq_ok_iff.mpr hindex, rfl⟩, ?_⟩
  refine returns_bind_iff.mpr ⟨_, _, returns_bind_iff.mpr ⟨_, _,
    returns_forIn_log Mobility.warning _ _, returns_pure_iff.mpr ⟨h.table, rfl⟩⟩, ?_⟩
  refine returns_bind_iff.mpr ⟨_, _, returns_mapError_iff.mpr (returns_logged h.reactions _), ?_⟩
  refine returns_bind_iff.mpr ⟨(), _, returns_event _ _, returns_pure_iff.mpr ⟨?_, ?_⟩⟩
  · rw [← h.pattern]
  · rw [journal, announcement, h.pattern]
    simp

theorem report_build {net : Network K} (h : (build spec o).value = .ok net) :
    (build spec o).report = (.ok net, net.journal) :=
  (builtWith_of_build h).returns_build

/-- The events of a construction behind its checks. -/
theorem events_build (h : spec.validate = .ok ()) : (build spec o).report.2.events =
    spec.fallbacks ++ eventsOf (fun net => [net.announcement]) (build spec o).value := by
  obtain ⟨lengths, hl⟩ := spec.exists_returns_resolve h {}
  unfold build value report
  refine hl.bind_tells ?_
  refine (silent_logged _ _).mapError.bind fun p => ?_
  refine (silent_ofExcept _).bind fun axis => ?_
  refine (silent_ofExcept _).bind fun index => ?_
  refine (silent_table spec lengths p).bind fun table => ?_
  refine (silent_logged _ _).mapError.bind fun reactions => ?_
  exact tells_event (by simp [announcement])

/-- Where there is no paving, there is no network. -/
theorem build_of_ofAxes?_error (h : spec.validate = .ok ()) {e : LatticeError}
    (hp : Paving.ofAxes? spec.axes = .error e) : (build spec o).value = .error (.lattice e) := by
  obtain ⟨lengths, hl⟩ := spec.exists_returns_resolve h {}
  have hpaving : ∀ j : Journal K,
      ((Paving.build spec.axes).mapError (@NetworkError.lattice K)).Fails j (.lattice e) j :=
    fun j => (fails_ofExcept hp j).bind.mapError
  have hbuild : (build spec o).Fails {} (.lattice e) _ := hl.bind_fails (hpaving _).bind
  exact congrArg Prod.fst hbuild

/-- A description with a paving fails by a sum of counts past the range alone. -/
theorem exists_outOfRange_of_build (h : spec.validate = .ok ()) {p : Paving}
    (hp : Paving.ofAxes? spec.axes = .ok p) (hnone : ∀ net, (build spec o).value ≠ .ok net) :
    ∃ e, (build spec o).value = .error (.lattice (.outOfRange e)) := by
  obtain ⟨hprofile, haxes, -⟩ := NetworkSpec.lattice_of_validate h
  have hp' := Paving.ofAxes_of_ofAxes? hp
  obtain ⟨axis, haxis, hlt⟩ := hprofile.exists_primaryAxis haxes hp'
  have hindex := OverlapIndex.ofPaving_eq_ok_iff.mpr ⟨hlt, rfl⟩
  obtain ⟨lengths, hl⟩ := spec.exists_returns_resolve h {}
  obtain ⟨j₂, hpaving⟩ := (Paving.returns_build_iff (K := K)).mpr hp
  obtain ⟨j₃, htable⟩ := (ClusterTable.returns_build_iff (ε := NetworkError K) (j := j₂)).mpr
    (Eq.refl (ClusterTable.ofPaving spec lengths p))
  cases hlist : reactionList (.onAxis p axis) (.ofPaving spec lengths p) spec.channels o with
  | ok rs =>
    have hsums := (exists_reactionList_iff (.of_ofAxes hp') hindex spec lengths spec.channels).mp
      ⟨rs, hlist⟩
    obtain ⟨net, hnet, -⟩ := exists_build_of_validate h hp hsums
    exact absurd hnet (hnone net)
  | error e =>
    obtain ⟨e', rfl⟩ := exists_outOfRange_of_reactionList (.of_ofAxes hp') hindex hlist
    have hreactions : ∀ j : Journal K,
        ((buildReactions (.onAxis p axis) (.ofPaving spec lengths p) spec.channels o).mapError
          (@NetworkError.lattice K)).Fails j (.lattice (.outOfRange e')) j :=
      fun j => (fails_ofExcept hlist j).bind.mapError
    have hbuild : (build spec o).Fails {} (.lattice (.outOfRange e')) j₃ :=
      hl.bind_fails (Returns.bind_fails (returns_mapError_iff.mpr hpaving)
        (Returns.bind_fails (returns_ofExcept_iff.mpr ⟨mapError_eq_ok_iff.mpr haxis, rfl⟩)
        (Returns.bind_fails (returns_ofExcept_iff.mpr ⟨mapError_eq_ok_iff.mpr hindex, rfl⟩)
        (Returns.bind_fails htable (hreactions j₃).bind))))
    exact ⟨e', congrArg Prod.fst hbuild⟩

/-- What becomes of a description, and which events are reported on the way. -/
structure Settled (o : Overflow) (spec : NetworkSpec K)
    (outcome : Except (NetworkError K) (Network K)) (journal : Journal K) : Prop where
  ok_iff : (∃ net, outcome = .ok net) ↔ spec.validate = .ok () ∧ (∃ a ∈ spec.axes, 1 ≤ a.max) ∧
    Paving.cellCount spec.axes * 6 ≤ tableLimit ∧ ∀ a ∈ spec.axes, o.Fits a.max
  invalid : ∀ e, spec.validate = .error e → outcome = .error e ∧ journal = {}
  empty : spec.validate = .ok () → (∀ a ∈ spec.axes, a.max = 0) →
    outcome = .error (.lattice .emptyPaving)
  without_room : spec.validate = .ok () → (∃ a ∈ spec.axes, 1 ≤ a.max) →
    tableLimit < Paving.cellCount spec.axes * 6 → ∃ e, outcome = .error (.lattice (.outOfRange e))
  without_sums : spec.validate = .ok () → (∃ a ∈ spec.axes, 1 ≤ a.max) →
    Paving.cellCount spec.axes * 6 ≤ tableLimit → (∃ a ∈ spec.axes, ¬o.Fits a.max) →
    ∃ e, outcome = .error (.lattice (.outOfRange e))
  announced : ∀ net, outcome = .ok net → ∃ earlier, journal.events = earlier ++ [net.announcement] ∧
    earlier.countP Event.isNetworkBuilt = 0
  unannounced : ∀ e, outcome = .error e → journal.events.countP Event.isNetworkBuilt = 0

section Settled

/-- The axes of a description that passes the checks are sound, if sums of its counts are counts. -/
theorem sound_axes (h : spec.validate = .ok ())
    (hcounts : ∀ a ∈ spec.axes, 2 * a.max + a.groupWidth ≤ countLimit) :
    ∀ a ∈ spec.axes, a.Sound := by
  intro a ha
  obtain ⟨hwidth, hmin⟩ := Axis.validate_eq_ok_iff.mp ((NetworkSpec.lattice_of_validate h).2.2 a ha)
  have hcount := hcounts a ha
  exact ⟨hwidth, hmin, by omega⟩

theorem species_of_validate (h : spec.validate = .ok ()) :
    spec.axes ≠ [] ∧ (spec.axes.map Axis.species).Nodup := by
  obtain ⟨hprofile, haxes, -⟩ := NetworkSpec.lattice_of_validate h
  refine ⟨?_, haxes ▸ hprofile.nodup⟩
  rintro hnil
  exact hprofile.species_ne_nil (by rw [← haxes, hnil, List.map_nil])

/-- Whatever the sums of counts, a description that passes the checks, has a count beside zero and
leaves room for its regions has a paving, and no other has a network. -/
theorem exists_paving_iff (hcounts : ∀ a ∈ spec.axes, 2 * a.max + a.groupWidth ≤ countLimit)
    (hv : spec.validate = .ok ()) : (∃ p, Paving.ofAxes? spec.axes = .ok p) ↔
      (∃ a ∈ spec.axes, 1 ≤ a.max) ∧ Paving.cellCount spec.axes * 6 ≤ tableLimit := by
  have hs := sound_axes hv hcounts
  obtain ⟨hne, hspecies⟩ := species_of_validate hv
  constructor
  · rintro ⟨p, hp⟩
    have hpos : ∃ a ∈ spec.axes, 1 ≤ a.max := by
      by_contra hnone
      have hzero : ∀ a ∈ spec.axes, a.max = 0 := fun a ha =>
        Nat.eq_zero_of_not_pos fun hmax => hnone ⟨a, ha, hmax⟩
      exact nomatch hp.symm.trans (Paving.ofAxes?_of_max_eq_zero hne hspecies hs hzero)
    obtain ⟨q, hq⟩ := Paving.exists_ofAxes hspecies hs hpos
    exact ⟨hpos, ((Paving.ofAxes?_eq_ok_iff hs hq).mp hp).2⟩
  · rintro ⟨hpos, hroom⟩
    obtain ⟨q, hq⟩ := Paving.exists_ofAxes hspecies hs hpos
    exact ⟨q, (Paving.ofAxes?_eq_ok_iff hs hq).mpr ⟨rfl, hroom⟩⟩

/-- The sums of the regions come out if and only if sums of counts are exact. -/
theorem completeOn_iff (hcounts : ∀ a ∈ spec.axes, 2 * a.max + a.groupWidth ≤ countLimit)
    (hv : spec.validate = .ok ()) {p : Paving} (hp : Paving.ofAxes? spec.axes = .ok p)
    (hpos : ∃ a ∈ spec.axes, 1 ≤ a.max) :
    o.CompleteOn p ↔ ∀ a ∈ spec.axes, o.Fits a.max := by
  have hs := sound_axes hv hcounts
  have hp' := Paving.ofAxes_of_ofAxes? hp
  refine ⟨fun hsums => ?_, fun hfits => (Paving.exactOn_of_fits hs hp' hfits).completeOn⟩
  cases o with
  | checked => exact Paving.fits_of_completeOn hs hp' hpos hsums
  | wrapping => exact fun a ha => (Nat.le_add_right _ _).trans (hcounts a ha)

theorem exists_build_iff (hcounts : ∀ a ∈ spec.axes, 2 * a.max + a.groupWidth ≤ countLimit) :
    (∃ net, (build spec o).value = .ok net) ↔ spec.validate = .ok () ∧
      (∃ a ∈ spec.axes, 1 ≤ a.max) ∧ Paving.cellCount spec.axes * 6 ≤ tableLimit ∧
        ∀ a ∈ spec.axes, o.Fits a.max := by
  constructor
  · rintro ⟨net, hnet⟩
    have h := builtWith_of_build hnet
    have hv := h.valid
    obtain ⟨hpos, hroom⟩ := (exists_paving_iff hcounts hv).mp ⟨_, h.paving⟩
    exact ⟨hv, hpos, hroom, (completeOn_iff hcounts hv h.paving hpos).mp h.completeOn⟩
  · rintro ⟨hv, hpos, hroom, hfits⟩
    obtain ⟨p, hp⟩ := (exists_paving_iff hcounts hv).mpr ⟨hpos, hroom⟩
    obtain ⟨net, hnet, -⟩ :=
      exists_build_of_validate hv hp ((completeOn_iff hcounts hv hp hpos).mpr hfits)
    exact ⟨net, hnet⟩

theorem report_of_invalid {e : NetworkError K} (h : spec.validate = .error e) :
    (build spec o).report = (.error e, {}) :=
  (NetworkSpec.fails_resolve h {}).bind

/-- A description whose sums of counts are counts gives a network if and only if it passes the
checks, has a count beside zero, leaves room for its regions, and the program adds its counts
exactly, which only checks at a largest count of `2147483647` prevent. A network is announced once,
last of all events, and nothing else is ever announced. -/
theorem build_settled (o : Overflow)
    (hcounts : ∀ a ∈ spec.axes, 2 * a.max + a.groupWidth ≤ countLimit) :
    Settled o spec (build spec o).value (build spec o).report.2 := by
  constructor
  case ok_iff => exact exists_build_iff hcounts
  case invalid =>
    intro e he
    have hreport := report_of_invalid (o := o) he
    exact ⟨congrArg Prod.fst hreport, congrArg Prod.snd hreport⟩
  case empty =>
    intro hv hzero
    obtain ⟨hne, hspecies⟩ := species_of_validate hv
    exact build_of_ofAxes?_error hv
      (Paving.ofAxes?_of_max_eq_zero hne hspecies (sound_axes hv hcounts) hzero)
  case without_room =>
    intro hv _ hroom
    have hs := sound_axes hv hcounts
    obtain ⟨hne, hspecies⟩ := species_of_validate hv
    obtain ⟨cuts, hcuts⟩ := Paving.exists_cutsOf hne hspecies hs
    obtain ⟨e, he⟩ := Paving.exists_outOfRange_of_ofAxes? hs hcuts hroom
    exact ⟨e, build_of_ofAxes?_error hv he⟩
  case without_sums =>
    intro hv hpos hroom hsums
    obtain ⟨p, hp⟩ := (exists_paving_iff hcounts hv).mpr ⟨hpos, hroom⟩
    refine exists_outOfRange_of_build hv hp fun net hnet => ?_
    obtain ⟨-, -, -, hfits⟩ := (exists_build_iff hcounts).mp ⟨net, hnet⟩
    obtain ⟨a, ha, hnot⟩ := hsums
    exact hnot (hfits a ha)
  case announced =>
    intro net hnet
    have hevents := events_build (o := o) (builtWith_of_build hnet).valid
    rw [hnet] at hevents
    exact ⟨spec.fallbacks, hevents, spec.countP_fallbacks⟩
  case unannounced =>
    intro e he
    cases hv : spec.validate with
    | error e' =>
      rw [report_of_invalid (o := o) hv]
      rfl
    | ok =>
      have hevents := events_build (o := o) hv
      rw [he] at hevents
      rw [hevents, List.countP_append, spec.countP_fallbacks]
      rfl

/-- Xenon clusters of two sizes. -/
theorem build_settled_xenon : ∃ net, (build (NetworkSpec.xenon 2 : NetworkSpec ℝ)).value = .ok net ∧
    ∃ earlier, (build (NetworkSpec.xenon 2 : NetworkSpec ℝ)).report.2.events =
      earlier ++ [net.announcement] := by
  have hcounts : ∀ a ∈ (NetworkSpec.xenon 2 : NetworkSpec ℝ).axes,
      2 * a.max + a.groupWidth ≤ countLimit := by decide
  have hsettled := build_settled .checked hcounts
  have hvalid := NetworkSpec.validate_eq_ok_iff.mpr (NetworkSpec.xenon_valid 2)
  obtain ⟨net, hnet⟩ := hsettled.ok_iff.mpr ⟨hvalid, by decide, by decide, by decide⟩
  obtain ⟨earlier, hevents, -⟩ := hsettled.announced net hnet
  exact ⟨net, hnet, earlier, hevents⟩

/-- Helium, vacancies and interstitials up to `2 ^ 21 - 1` each pass the checks, and leave no room
for their regions. -/
theorem build_without_room :
    let spec : NetworkSpec ℝ := .ofProfile .iron 2097151
    (∀ a ∈ spec.axes, 2 * a.max + a.groupWidth ≤ countLimit) ∧ spec.validate = .ok () ∧
      (∃ a ∈ spec.axes, 1 ≤ a.max) ∧ ∀ net, (build spec).value ≠ .ok net := by
  intro spec
  have hcounts : ∀ a ∈ spec.axes, 2 * a.max + a.groupWidth ≤ countLimit := by decide
  have hprofile : Profile.iron.Valid := Profile.validate_eq_ok_iff.mp (by decide)
  have hvalid := NetworkSpec.validate_eq_ok_iff.mpr (NetworkSpec.ofProfile_valid hprofile 2097151)
  refine ⟨hcounts, hvalid, by decide, fun net hnet => ?_⟩
  obtain ⟨-, -, hroom, -⟩ := (exists_build_iff hcounts).mp ⟨net, hnet⟩
  exact absurd hroom (by decide)

end Settled

end Network

end ClusterDynamics
