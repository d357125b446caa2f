import ClusterDynamics.Proofs.Lattice.Ordering
import ClusterDynamics.Proofs.Network.Cluster
import ClusterDynamics.Proofs.Network.Construction
import ClusterDynamics.Proofs.Network.Monomer

/-! Which cluster gets which mobility. The mobilities are taken off their list while the regions are
passed through, and the one at the end of the list moves to the place of the one taken. So the order
of the rest changes during the pass. It has no effect, because no composition is listed twice and no
two regions begin at the same composition. -/

namespace ClusterDynamics

open Reported

namespace Mobility

variable {K : Type} {pending rest : List (Mobility K)} {m : Mobility K} {c : Composition}

/-- No composition is listed twice. -/
def Distinct (mobility : List (Mobility K)) : Prop := (mobility.map composition).Nodup

namespace Distinct

theorem filter (h : Distinct pending) (p : Mobility K → Bool) : Distinct (pending.filter p) :=
  List.Nodup.sublist (List.filter_sublist.map _) h

theorem perm (h : Distinct pending) (hp : rest.Perm pending) : Distinct rest :=
  (hp.map composition).nodup_iff.mpr h

theorem find?_eq_some_iff (h : Distinct pending) :
    pending.find? (·.composition == c) = some m ↔ m ∈ pending ∧ m.composition = c := by
  constructor
  · intro hm
    exact ⟨List.mem_of_find?_eq_some hm, by simpa using List.find?_some hm⟩
  · rintro ⟨hm, rfl⟩
    cases hfind : pending.find? (·.composition == m.composition) with
    | none => simpa using List.find?_eq_none.mp hfind m hm
    | some m' =>
      have he : m'.composition = m.composition := by simpa using List.find?_some hfind
      rw [List.inj_on_of_nodup_map h (List.mem_of_find?_eq_some hfind) hm he]

/-- What is found does not depend on the order of the list, nor on the entries of other
compositions. -/
theorem find?_congr (h : Distinct pending) (h' : Distinct rest)
    (hmem : ∀ m, m.composition = c → (m ∈ pending ↔ m ∈ rest)) :
    pending.find? (·.composition == c) = rest.find? (·.composition == c) := by
  ext m
  rw [h.find?_eq_some_iff, h'.find?_eq_some_iff]
  exact and_congr_left fun hm => hmem m hm

end Distinct

/-- Moving the last entry to a place takes the entry there off a list. -/
theorem perm_cons_dropLast_set {α : Type} {xs : List α} {i : Nat} {last : α} (hi : i < xs.length)
    (hlast : xs.getLast? = some last) : (xs[i] :: (xs.set i last).dropLast).Perm xs := by
  have hmoved : (xs.set i last).getLast? = some last := by
    rw [List.getLast?_eq_getElem?, List.length_set, List.getElem?_set]
    rw [List.getLast?_eq_getElem?] at hlast
    split_ifs with h
    · rfl
    · exact hlast
  have hset : (last :: (xs.set i last).dropLast).Perm (last :: xs.eraseIdx i) := by
    obtain ⟨front, hfront⟩ := List.getLast?_eq_some_iff.mp hmoved
    rw [hfront, List.dropLast_concat]
    refine (List.perm_append_singleton last front).symm.trans ?_
    rw [← hfront]
    exact List.set_perm_cons_eraseIdx hi last
  exact (hset.cons_inv.cons _).trans (List.getElem_cons_eraseIdx_perm hi)

theorem take_cases (pending : List (Mobility K)) (c : Composition) :
    (takeMobility pending c = pending ∧ ∀ m ∈ pending, m.composition ≠ c) ∨
      ∃ m, m.composition = c ∧ (m :: takeMobility pending c).Perm pending := by
  unfold takeMobility
  cases hfound : pending.findIdx? (·.composition == c) with
  | none =>
    rw [List.findIdx?_eq_none_iff] at hfound
    exact .inl ⟨rfl, fun m hm => by simpa using hfound m hm⟩
  | some i =>
    obtain ⟨hi, hc, -⟩ := List.findIdx?_eq_some_iff_getElem.mp hfound
    cases hlast : pending.getLast? with
    | none =>
      rw [List.getLast?_eq_none_iff.mp hlast] at hi
      exact absurd hi (Nat.not_lt_zero i)
    | some last =>
      exact .inr ⟨pending[i], by simpa using hc, perm_cons_dropLast_set hi hlast⟩

theorem take_perm (h : Distinct pending) (c : Composition) :
    (takeMobility pending c).Perm (pending.filter (·.composition != c)) := by
  rcases take_cases pending c with ⟨htake, hne⟩ | ⟨m, rfl, hperm⟩
  · rw [htake, List.filter_eq_self.mpr fun m hm => by simpa using hne m hm]
  · have hmissing := (List.nodup_cons.mp ((hperm.map composition).nodup_iff.mpr h)).1
    have hrest : (takeMobility pending m.composition).filter (·.composition != m.composition) =
        takeMobility pending m.composition := by
      refine List.filter_eq_self.mpr fun m' hm' => ?_
      rw [bne_iff_ne]
      exact fun he => hmissing (List.mem_map.mpr ⟨m', hm', he⟩)
    have hfilter := hperm.filter (·.composition != m.composition)
    rwa [List.filter_cons_of_neg (by simp), hrest] at hfilter

theorem foldl_take_perm (h : Distinct pending) (cs : List Composition) :
    (cs.foldl takeMobility pending).Perm
      (pending.filter fun m => !cs.contains m.composition) := by
  induction cs generalizing pending with
  | nil => simp
  | cons c cs ih =>
    have htake := take_perm h c
    refine (ih ((h.filter _).perm htake)).trans ((htake.filter _).trans ?_)
    rw [List.filter_filter]
    refine List.Perm.of_eq (List.filter_congr fun m _ => ?_)
    rw [List.contains_cons, Bool.not_or, Bool.and_comm]
    rfl

end Mobility

open Mobility

section Pass

variable {K : Type} [Scalar K] {pending : List (Mobility K)}

/-- The pass through the regions: the mobility of each, and what is left of the list. -/
def takeAll : List (Mobility K) → List Region → List (K × K) × List (Mobility K)
  | pending, [] => ([], pending)
  | pending, r :: rest =>
    let left := if r.isSimplex then takeMobility pending r.origin else pending
    let (found, left) := takeAll left rest
    (Cluster.mobilityOf pending r :: found, left)

theorem mobilityOf_congr {rest : List (Mobility K)} {r : Region} (h : Distinct pending)
    (h' : Distinct rest) (hmem : ∀ m, m.composition = r.origin → (m ∈ pending ↔ m ∈ rest)) :
    Cluster.mobilityOf pending r = Cluster.mobilityOf rest r := by
  unfold Cluster.mobilityOf
  rw [h.find?_congr h' hmem]

/-- Each region of the pass gets what it would get from the whole list. -/
theorem takeAll_eq (h : Distinct pending) {rs : List Region}
    (hrs : rs.Pairwise fun r s => r.origin ≠ s.origin) :
    takeAll pending rs = (rs.map (Cluster.mobilityOf pending), unmatchedMobility pending rs) := by
  induction rs generalizing pending with
  | nil => rfl
  | cons r rs ih =>
    obtain ⟨hr, hrs⟩ := List.pairwise_cons.mp hrs
    cases hsimplex : r.isSimplex with
    | false => simp [takeAll, unmatchedMobility, hsimplex, ih h hrs]
    | true =>
      have htake := take_perm h r.origin
      have hleft := (h.filter _).perm htake
      -- What is taken off belongs to none of the regions that follow.
      have hothers : rs.map (Cluster.mobilityOf (takeMobility pending r.origin)) =
          rs.map (Cluster.mobilityOf pending) := by
        refine List.map_congr_left fun s hs => mobilityOf_congr hleft h fun m hm => ?_
        have hne : m.composition ≠ r.origin := fun he => hr s hs (he.symm.trans hm)
        simp [htake.mem_iff, hne]
      simp [takeAll, unmatchedMobility, hsimplex, ih hleft hrs, hothers]

end Pass

namespace Region

variable {r : Region} {c : Composition}

/-- The region holds the composition and no other. -/
def HoldsOnly (r : Region) (c : Composition) : Prop := ∀ d, r.contains d = true ↔ d = c

theorem holdsOnly_iff : r.HoldsOnly c ↔ r.isSimplex = true ∧ r.origin = c := by
  constructor
  · intro h
    exact ⟨isSimplex_of_contains fun d => (h d).mp, (h _).mp r.contains_origin⟩
  · rintro ⟨hs, rfl⟩ d
    exact contains_iff_of_isSimplex hs

end Region

section MobilityOf

variable {K : Type} [Scalar K] {mobility : List (Mobility K)} {r : Region}

theorem mobilityOf_of_mem (hd : Distinct mobility) {m : Mobility K} (hm : m ∈ mobility)
    (hr : r.HoldsOnly m.composition) : Cluster.mobilityOf mobility r = (m.factor, m.energy) := by
  obtain ⟨hs, ho⟩ := Region.holdsOnly_iff.mp hr
  have hfind := hd.find?_eq_some_iff.mpr ⟨hm, ho.symm⟩
  simp [Cluster.mobilityOf, hs, hfind]

theorem mobilityOf_of_not_mem (h : ∀ m ∈ mobility, ¬r.HoldsOnly m.composition) :
    Cluster.mobilityOf mobility r = (0, 0) := by
  unfold Cluster.mobilityOf
  cases hs : r.isSimplex with
  | false => simp
  | true =>
    have hnone : mobility.find? (·.composition == r.origin) = none := by
      refine List.find?_eq_none.mpr fun m hm he => h m hm ?_
      exact Region.holdsOnly_iff.mpr ⟨hs, (by simpa using he : m.composition = _).symm⟩
    simp [hnone]

end MobilityOf

namespace Paving

variable {axes : List Axis} {p : Paving} {c : Composition}

/-- Some region holds the composition and no other. -/
def Singles (p : Paving) (c : Composition) : Prop := ∃ r ∈ p.regions, r.HoldsOnly c

theorem contains_singles_iff :
    ((p.regions.filter Region.isSimplex).map Region.origin).contains c = true ↔ p.Singles c := by
  simp only [Singles, Region.holdsOnly_iff, List.contains_eq_mem, decide_eq_true_eq, List.mem_map,
    List.mem_filter, and_assoc]

/-- A composition without a region of its own lies outside of the box, is the empty cluster or shares
its region with others. -/
theorem not_singles_iff (hs : ∀ a ∈ axes, a.Sound) (hp : ofAxes axes = .ok p) :
    ¬p.Singles c ↔ ¬InBox (axes.map Axis.max) c ∨ (∀ n ∈ c, n = 0) ∨
      ∃ r ∈ p.regions, r.contains c = true ∧ ∃ d, d ≠ c ∧ r.contains d = true := by
  constructor
  · intro h
    by_contra hnone
    push Not at hnone
    obtain ⟨hbox, hne, halone⟩ := hnone
    obtain ⟨id, ⟨r, hr, hc⟩, -⟩ := existsUnique_region hs hp hbox hne
    have hmem := List.mem_of_getElem? hr
    refine h ⟨r, hmem, fun d => ⟨fun hd => ?_, fun hd => hd ▸ hc⟩⟩
    by_contra hdc
    exact halone r hmem hc d hdc hd
  · rintro hcause ⟨r, hr, hc⟩
    have hin := inBox_of_contains hs hp hr ((hc c).mpr rfl)
    rcases hcause with hbox | hzero | ⟨s, hs', hsc, d, hdc, hsd⟩
    · exact hbox hin.1
    · obtain ⟨n, hn, hne⟩ := hin.2
      exact hne (hzero n hn)
    · obtain ⟨id, -, hunique⟩ := existsUnique_region hs hp hin.1 hin.2
      obtain ⟨i, hi⟩ := List.mem_iff_getElem?.mp hr
      obtain ⟨j, hj⟩ := List.mem_iff_getElem?.mp hs'
      have hij : i = j := (hunique i ⟨r, hi, (hc c).mpr rfl⟩).trans (hunique j ⟨s, hj, hsc⟩).symm
      obtain rfl := Option.some.inj (hi.symm.trans (hij ▸ hj))
      exact hdc ((hc d).mp hsd)

end Paving

namespace Network

variable {K : Type} [Scalar K] {spec : NetworkSpec K} {net : Network K}
  {mobility : List (Mobility K)}

namespace BuiltFrom

theorem distinct (h : net.BuiltFrom spec) : Distinct spec.mobility :=
  (NetworkSpec.checkMobility_eq_ok_iff.mp (NetworkSpec.mobility_of_validate h.valid)).2.1

theorem pairwise_origin_ne (h : net.BuiltFrom spec) :
    net.paving.regions.Pairwise fun r s => r.origin ≠ s.origin :=
  (Paving.pairwise_origin (Paving.ofAxes_of_ofAxes? h.paving)).imp fun hlt => ne_of_lt hlt

theorem clusters_eq (h : net.BuiltFrom spec) :
    net.table.clusters.toList = net.paving.regions.map (Cluster.ofRegion spec net.lengths) := by
  rw [h.table]
  rfl

theorem mobility_eq (h : net.BuiltFrom spec) {i : Nat} {c : Cluster K}
    (hc : net.cluster i = .ok c) :
    (c.diffusionFactor, c.migrationEnergy) = Cluster.mobilityOf spec.mobility c.region := by
  obtain ⟨r, -, rfl⟩ := h.cluster_eq_ok_iff.mp hc
  rfl

end BuiltFrom

theorem warnings_journal (net : Network K) : net.journal.log.filter (·.level = .warn) =
    (unmatchedMobility net.spec.mobility net.paving.regions).map Mobility.warning := by
  simp [journal, Mobility.warning]

section Reordered

/-- The network with its mobilities listed in another order. -/
def relisted (net : Network K) (mobility : List (Mobility K)) : Network K :=
  { net with spec := { net.spec with mobility } }

theorem BuiltWith.relisted {o : Overflow} (h : net.BuiltWith spec o)
    (hm : mobility.Perm spec.mobility) :
    (net.relisted mobility).BuiltWith { spec with mobility } o := by
  obtain ⟨hsound, hd, -⟩ :=
    NetworkSpec.checkMobility_eq_ok_iff.mp (NetworkSpec.mobility_of_validate h.valid)
  have hd' := Distinct.perm hd hm
  constructor
  case spec_eq => rw [Network.relisted, h.spec_eq]
  case lengths =>
    have hvalid := NetworkSpec.validate_of_mobility h.valid
      (NetworkSpec.checkMobility_eq_ok_iff.mpr
        ⟨fun m hmem => hsound m (hm.mem_iff.mp hmem), hd', by simp⟩)
    -- The lengths do not depend on the mobilities; only the checks look at these.
    have hlengths := h.returns_resolve
    unfold NetworkSpec.resolve at hlengths ⊢
    obtain ⟨⟨⟩, j, hv, hrest⟩ := returns_bind_iff.mp hlengths
    obtain ⟨-, rfl⟩ := returns_ofExcept_iff.mp hv
    exact ⟨_, returns_bind_iff.mpr ⟨(), _, returns_ofExcept_iff.mpr ⟨hvalid, rfl⟩, hrest⟩⟩
  case paving => exact h.paving
  case index => exact h.index
  case table =>
    have hcluster : Cluster.ofRegion { spec with mobility } net.lengths =
        Cluster.ofRegion spec net.lengths := by
      funext r
      unfold Cluster.ofRegion
      rw [mobilityOf_congr (r := r) hd' hd fun m _ => hm.mem_iff]
    refine h.table.trans ?_
    unfold ClusterTable.ofPaving
    rw [← hcluster]
    rfl
  case reactions => exact h.reactions
  case pattern => exact h.pattern

theorem report_relisted (h : (build spec).value = .ok net) (hm : mobility.Perm spec.mobility) :
    (build { spec with mobility }).report =
      (.ok (net.relisted mobility), (net.relisted mobility).journal) :=
  ((builtWith_of_build h).relisted hm).returns_build

theorem log_relisted_perm (h : net.BuiltFrom spec) (hm : mobility.Perm spec.mobility) :
    (net.relisted mobility).journal.log.Perm net.journal.log := by
  have hleft : (unmatchedMobility mobility net.paving.regions).Perm
      (unmatchedMobility net.spec.mobility net.paving.regions) := by
    rw [h.spec_eq]
    exact (foldl_take_perm (h.distinct.perm hm) _).trans
      ((hm.filter _).trans (foldl_take_perm h.distinct _).symm)
  exact ((hleft.map _).append_left _).append_right _

end Reordered

/-- How the clusters of a network get their mobilities, and which mobilities are reported to be without
a cluster. -/
structure MobilitiesGiven (spec : NetworkSpec K) (net : Network K) (journal : Journal K) : Prop where
  /-- Of a composition there is one mobility at most. -/
  distinct : (spec.mobility.map Mobility.composition).Nodup
  listed : ∀ (i : Nat) (c : Cluster K) (m : Mobility K), net.cluster i = .ok c →
    m ∈ spec.mobility → c.region.HoldsOnly m.composition →
      c.diffusionFactor = m.factor ∧ c.migrationEnergy = m.energy
  unlisted : ∀ (i : Nat) (c : Cluster K) (d : Composition), net.cluster i = .ok c →
    c.region.HoldsOnly d → (∀ m ∈ spec.mobility, m.composition ≠ d) →
      c.diffusionFactor = 0 ∧ c.migrationEnergy = 0
  grouped : ∀ (i : Nat) (c : Cluster K), net.cluster i = .ok c → (∀ d, ¬c.region.HoldsOnly d) →
    c.diffusionFactor = 0 ∧ c.migrationEnergy = 0
  /-- The pass that takes mobilities off the list gives the same, and the warnings are about what it
  leaves. -/
  reported : ∃ left, takeAll spec.mobility net.paving.regions =
      (net.table.clusters.toList.map fun c => (c.diffusionFactor, c.migrationEnergy), left) ∧
    journal.log.filter (·.level = .warn) = left.map Mobility.warning ∧
    (left.map Mobility.composition).Nodup ∧
    ∀ m, m ∈ left ↔ m ∈ spec.mobility ∧ ¬net.paving.Singles m.composition
  /-- Why a mobility can be without a cluster. -/
  causes : ∀ c, ¬net.paving.Singles c ↔ ¬InBox (spec.axes.map Axis.max) c ∨ (∀ n ∈ c, n = 0) ∨
    ∃ r ∈ net.paving.regions, r.contains c = true ∧ ∃ d, d ≠ c ∧ r.contains d = true
  /-- In another order the mobilities give the same clusters, reactions and events, and the same
  records up to their order. -/
  relisted : ∀ mobility, mobility.Perm spec.mobility → ∃ journal' : Journal K,
    (build { spec with mobility }).report =
      (.ok { net with spec := { spec with mobility } }, journal') ∧
    journal'.events = journal.events ∧ journal'.log.Perm journal.log

/-- A cluster that is one composition has the mobility listed for it, and every other cluster none.
The warnings name, once each, the listed compositions that are no cluster of their own. The order of
the list has no bearing on the network. -/
theorem mobilities_given (hbound : ∀ a ∈ spec.axes, a.groupMin ≤ countLimit)
    {journal : Journal K} (hnet : (build spec).report = (.ok net, journal)) :
    MobilitiesGiven spec net journal := by
  have hvalue : (build spec).value = .ok net := congrArg Prod.fst hnet
  have h := builtFrom_of_build hvalue
  have hp := Paving.ofAxes_of_ofAxes? h.paving
  have hs := Paving.sound_of_ofAxes hbound hp
  obtain rfl := (Prod.mk.inj ((report_build hvalue).symm.trans hnet)).2
  constructor
  case distinct => exact h.distinct
  case listed =>
    intro i c m hc hm hr
    exact Prod.mk.inj ((h.mobility_eq hc).trans (mobilityOf_of_mem h.distinct hm hr))
  case unlisted =>
    intro i c d hc hr hne
    have hno : ∀ m ∈ spec.mobility, ¬c.region.HoldsOnly m.composition := fun m hm hm' =>
      hne m hm ((hr _).mp ((hm' _).mpr rfl))
    exact Prod.mk.inj ((h.mobility_eq hc).trans (mobilityOf_of_not_mem hno))
  case grouped =>
    intro i c hc hno
    exact Prod.mk.inj ((h.mobility_eq hc).trans (mobilityOf_of_not_mem fun m _ => hno _))
  case reported =>
    have hleft := foldl_take_perm h.distinct
      ((net.paving.regions.filter Region.isSimplex).map Region.origin)
    refine ⟨unmatchedMobility spec.mobility net.paving.regions, ?_, ?_, ?_, fun m => ?_⟩
    · rw [takeAll_eq h.distinct h.pairwise_origin_ne, h.clusters_eq, List.map_map]
      rfl
    · rw [warnings_journal, h.spec_eq]
    · exact (h.distinct.filter _).perm hleft
    · rw [← Paving.contains_singles_iff]
      exact hleft.mem_iff.trans (by simp)
  case causes => exact fun c => Paving.not_singles_iff hs hp
  case relisted =>
    intro mobility hm
    have hreport := report_relisted hvalue hm
    obtain rfl := h.spec_eq
    exact ⟨_, hreport, rfl, log_relisted_perm h hm⟩

/-- Of five mobilities, those of six and of twenty atoms and of the empty cluster are without a
cluster. -/
theorem mobilities_given_grouped :
    let spec : NetworkSpec ℝ := { NetworkSpec.groupedXenon 8 with
      mobility := [⟨[20], 4, 1⟩, ⟨[1], 7, 1⟩, ⟨[0], 5, 1⟩, ⟨[6], 3, 1⟩, ⟨[2], 2, 1⟩] }
    (∀ a ∈ spec.axes, a.groupMin ≤ countLimit) ∧ ∃ net journal,
      (build spec).report = (.ok net, journal) ∧ MobilitiesGiven spec net journal ∧
        net.table.clusters.toList.map Cluster.diffusionFactor = [7, 2, 0, 0, 0, 0] := by
  intro spec
  have hbound : ∀ a ∈ spec.axes, a.groupMin ≤ countLimit := by decide
  have hmobility : NetworkSpec.checkMobility 1 [] spec.mobility = .ok () := by
    simp [NetworkSpec.checkMobility_eq_ok_iff, spec, Scalar.isAtLeast_real]
  have hvalid : spec.Valid := { NetworkSpec.groupedXenon_valid 8 with mobility := hmobility }
  have hp : Paving.ofAxes? spec.axes =
      .ok ⟨([.singleton 1, .singleton 2, .singleton 3, .singleton 4, ⟨5, 7, by decide⟩,
        ⟨7, 9, by decide⟩] : List Interval).map fun a => ⟨[a], List.cons_ne_nil _ _⟩,
        [.xenon], [8]⟩ := by
    decide +kernel
  obtain ⟨net, hnet, hpaving⟩ := exists_build hvalid (by decide) hp
  refine ⟨hbound, net, net.journal, report_build hnet,
    mobilities_given hbound (report_build hnet), ?_⟩
  rw [(builtFrom_of_build hnet).clusters_eq, hpaving]
  simp [Cluster.ofRegion, Cluster.mobilityOf, Region.isSimplex, Region.origin,
    Interval.isSingleton, Interval.singleton, Interval.width, spec]

end Network

end ClusterDynamics
