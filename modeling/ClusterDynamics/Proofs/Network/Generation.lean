import ClusterDynamics.Proofs.Lattice.Overflow
import ClusterDynamics.Proofs.Lattice.Query
import ClusterDynamics.Proofs.Network.Mergers
import ClusterDynamics.Proofs.Network.Ordering

/-! Generation of reactions: a network lists those that its mergers bring about and no others. -/

namespace ClusterDynamics

/-- A region that holds a composition of a box meets the box. -/
theorem boxMeets_of_contains {ts : List Interval} {lo hi c : Composition}
    (ht : boxContains ts c = true) (hlo : List.Forall₂ (· ≤ ·) lo c)
    (hhi : List.Forall₂ (· ≤ ·) c hi) : boxMeets ts lo hi = true := by
  rw [boxContains_iff] at ht
  induction ht generalizing lo hi with
  | nil =>
    cases hlo
    cases hhi
    rfl
  | cons hm _ ih =>
    cases hlo with
    | cons hl hlo =>
      cases hhi with
      | cons hh hhi =>
        rw [boxMeets, ih hlo hhi, Bool.and_true, Interval.meets_eq_true, Interval.last]
        rw [Interval.contains_eq_true] at hm
        omega

namespace Channels

variable {ch : Channels} {spec : NetworkSpec ℝ} {lengths : Lengths ℝ} {r : Region}

theorem isPrimaryMonomer_iff : ch.isPrimaryMonomer (Cluster.ofRegion spec lengths r) = true ↔
    ch.PrimaryMonomer spec.profile.species r := by
  unfold PrimaryMonomer
  simp only [← Region.monomer?_eq_some_iff]
  cases hp : ch.primary <;> simp [isPrimaryMonomer, Cluster.ofRegion, hp]

theorem emits_iff : ch.emits (Cluster.ofRegion spec lengths r) = true ↔
    ch.Emitted spec.profile.species r := by
  unfold Emitted
  simp only [← Region.monomer?_eq_some_iff]
  cases hm : r.monomer? spec.profile.species <;> simp [emits, Cluster.ofRegion, hm]

theorem reSolves_iff : ch.reSolves (Cluster.ofRegion spec lengths r) = true ↔
    ∃ least, ch.reSolutionFrom = some least ∧
      (least : ℝ) ≤ spec.profile.meanCount r spec.profile.primary := by
  cases hm : ch.reSolutionFrom with
  | none => simp [reSolves, hm]
  | some least =>
    simp only [reSolves, hm, Option.some.injEq, exists_eq_left']
    exact @decide_eq_true_iff _ (_)

theorem mem_reactionsOf_iff {i j k : Nat} {s t : Region} {w : ℝ} {x : Reaction ℝ} :
    x ∈ ch.reactionsOf i j k (Cluster.ofRegion spec lengths r) (Cluster.ofRegion spec lengths s)
        (Cluster.ofRegion spec lengths t) w ↔
      (ch.Nucleates spec.profile.species r s ∧ x = .nucleation i k) ∨
      (¬ch.Nucleates spec.profile.species r s ∧ x = .production i j k w) ∨
      ((ch.Emitted spec.profile.species r ∨ ch.Emitted spec.profile.species s) ∧
        x = .dissociation k i j w) ∨
      ((ch.PrimaryMonomer spec.profile.species r ∨ ch.PrimaryMonomer spec.profile.species s) ∧
        (∃ least, ch.reSolutionFrom = some least ∧
          (least : ℝ) ≤ spec.profile.meanCount t spec.profile.primary) ∧
        x = .reSolution k i j w) := by
  have hhead : ∀ (b : Bool) (y z : Reaction ℝ), (x = if b then y else z) ↔
      b = true ∧ x = y ∨ ¬b = true ∧ x = z := by
    intro b y z
    cases b <;> simp
  have hlist : ∀ (b : Bool) (y : Reaction ℝ), x ∈ (if b then [y] else []) ↔ b = true ∧ x = y := by
    intro b y
    cases b <;> simp
  simp only [reactionsOf, List.cons_append, List.mem_cons, List.mem_append, hhead, hlist,
    Bool.and_eq_true, Bool.or_eq_true, isPrimaryMonomer_iff, emits_iff, reSolves_iff, Nucleates,
    and_assoc, or_assoc]

end Channels

section

variable {K : Type} [Scalar K] {spec : NetworkSpec K} {lengths : Lengths K} {ch : Channels}
  {o : Overflow} {p : Paving} {primary : Nat} {index : OverlapIndex}

theorem clusters_ofPaving (k : Nat) : (ClusterTable.ofPaving spec lengths p).clusters[k]? =
    (p.regions[k]?).map (Cluster.ofRegion spec lengths) := by
  simp [ClusterTable.ofPaving]

theorem mem_drop_zipIdx_iff {α : Type} {xs : List α} {i j : Nat} {a : α} :
    (a, j) ∈ xs.zipIdx.drop i ↔ i ≤ j ∧ xs[j]? = some a := by
  rw [List.mem_iff_getElem?]
  simp only [List.getElem?_drop, List.getElem?_zipIdx, Option.map_eq_some_iff, Prod.mk.injEq,
    Nat.zero_add]
  constructor
  · rintro ⟨m, b, hb, rfl, rfl⟩
    exact ⟨Nat.le_add_right i m, hb⟩
  · rintro ⟨hij, ha⟩
    exact ⟨j - i, a, by rwa [Nat.add_sub_cancel' hij], rfl, Nat.add_sub_cancel' hij⟩

theorem mem_named_iff {i : Nat} {a : Cluster K} :
    (a, i) ∈ (ClusterTable.ofPaving spec lengths p).clusters.toList.zipIdx ↔
      ∃ r, p.regions[i]? = some r ∧ Cluster.ofRegion spec lengths r = a := by
  simp [List.mem_zipIdx_iff_getElem?, clusters_ofPaving]

theorem mem_drop_named_iff {i j : Nat} {b : Cluster K} :
    (b, j) ∈ (ClusterTable.ofPaving spec lengths p).clusters.toList.zipIdx.drop i ↔
      i ≤ j ∧ ∃ s, p.regions[j]? = some s ∧ Cluster.ofRegion spec lengths s = b := by
  simp [mem_drop_zipIdx_iff, clusters_ofPaving]

theorem mergerReactions_ofPaving {i j k : Nat} {r s t : Region} (ht : p.regions[k]? = some t) :
    mergerReactions (ClusterTable.ofPaving spec lengths p) ch i j (Cluster.ofRegion spec lengths r)
        (Cluster.ofRegion spec lengths s) k =
      if (r.sumFraction s t : K) ≤ 0 then [] else
        ch.reactionsOf i j k (Cluster.ofRegion spec lengths r) (Cluster.ofRegion spec lengths s)
          (Cluster.ofRegion spec lengths t) (r.sumFraction s t) := by
  rw [mergerReactions, clusters_ofPaving, ht]
  rfl

/-- The query for a box of sums finds the regions that meet the box. -/
theorem query_sumBox (hp : p.Aligned) (hx : OverlapIndex.ofPaving p primary = .ok index)
    {r s : Region} (hr : r ∈ p.regions) (hs : s ∈ p.regions) {box : Composition × Composition}
    (h : sumBox o r s = .ok box) : index.query box.1 box.2 = .ok (p.meeting box.1 box.2) := by
  obtain ⟨hlo, hhi⟩ := length_of_sumBox h
  rw [hp.length_eq r hr, hp.length_eq s hs, Nat.min_self] at hlo hhi
  exact OverlapIndex.query_eq_meeting hp hx hlo hhi

theorem exists_pairReactions_iff (hp : p.Aligned)
    (hx : OverlapIndex.ofPaving p primary = .ok index) (i j : Nat) {r s : Region}
    (hr : r ∈ p.regions) (hs : s ∈ p.regions) :
    (∃ xs, pairReactions o index (ClusterTable.ofPaving spec lengths p) ch i j
        (Cluster.ofRegion spec lengths r) (Cluster.ofRegion spec lengths s) = .ok xs) ↔
      ∃ box, sumBox o r s = .ok box := by
  constructor
  · rintro ⟨xs, h⟩
    obtain ⟨box, hbox, -⟩ := bind_eq_ok_iff.mp h
    exact ⟨box, mapError_eq_ok_iff.mp hbox⟩
  · rintro ⟨box, hbox⟩
    exact exists_bind_eq_ok ⟨box, mapError_eq_ok_iff.mpr hbox⟩ fun box' hbox' =>
      exists_bind_eq_ok ⟨_, query_sumBox hp hx hr hs (mapError_eq_ok_iff.mp hbox')⟩
        fun _ _ => ⟨_, rfl⟩

/-- Generation succeeds if and only if all boxes of sums come out: every query of it is of the right
dimension. -/
theorem exists_reactionList_iff (hp : p.Aligned)
    (hx : OverlapIndex.ofPaving p primary = .ok index) (spec : NetworkSpec K)
    (lengths : Lengths K) (ch : Channels) :
    (∃ rs, reactionList index (ClusterTable.ofPaving spec lengths p) ch o = .ok rs) ↔
      o.CompleteOn p := by
  have hmergers : (∃ rs, reactionList index (ClusterTable.ofPaving spec lengths p) ch o = .ok rs) ↔
      ∃ rows, (ClusterTable.ofPaving spec lengths p).clusters.toList.zipIdx.mapM (fun x =>
        rowReactions o index (ClusterTable.ofPaving spec lengths p) ch x.2 x.1) = .ok rows := by
    constructor
    · rintro ⟨rs, h⟩
      obtain ⟨merged, hmerged, -⟩ := bind_eq_ok_iff.mp h
      obtain ⟨rows, hrows, -⟩ := bind_eq_ok_iff.mp hmerged
      exact ⟨rows, hrows⟩
    · intro hrows
      exact exists_bind_eq_ok (exists_bind_eq_ok hrows fun _ _ => ⟨_, rfl⟩) fun _ _ => ⟨_, rfl⟩
  rw [hmergers, exists_mapM_eq_ok_iff]
  constructor
  · intro hrows i j r s hij hr hs
    obtain ⟨row, hrow⟩ := hrows (_, i) (mem_named_iff.mpr ⟨r, hr, rfl⟩)
    have hpair := exists_mapM_eq_ok_iff.mp ⟨row, hrow⟩ (_, j)
      (mem_drop_named_iff.mpr ⟨hij, s, hs, rfl⟩)
    exact (exists_pairReactions_iff hp hx i j (List.mem_of_getElem? hr)
      (List.mem_of_getElem? hs)).mp hpair
  · rintro hboxes ⟨a, i⟩ ha
    obtain ⟨r, hr, rfl⟩ := mem_named_iff.mp ha
    refine exists_mapM_eq_ok_iff.mpr ?_
    rintro ⟨b, j⟩ hb
    obtain ⟨hij, s, hs, rfl⟩ := mem_drop_named_iff.mp hb
    exact (exists_pairReactions_iff hp hx i j (List.mem_of_getElem? hr)
      (List.mem_of_getElem? hs)).mpr (hboxes i j r s hij hr hs)

/-- Generation fails by a sum of counts past the range alone. -/
theorem exists_outOfRange_of_reactionList (hp : p.Aligned)
    (hx : OverlapIndex.ofPaving p primary = .ok index) {e : LatticeError}
    (h : reactionList index (ClusterTable.ofPaving spec lengths p) ch o = .error e) :
    ∃ e', e = .outOfRange e' := by
  obtain ⟨⟨a, i⟩, ha, ⟨b, j⟩, hb, hpair⟩ :
      ∃ x ∈ (ClusterTable.ofPaving spec lengths p).clusters.toList.zipIdx,
        ∃ y ∈ (ClusterTable.ofPaving spec lengths p).clusters.toList.zipIdx.drop x.2,
          pairReactions o index (ClusterTable.ofPaving spec lengths p) ch x.2 y.2 x.1 y.1 =
            .error e := by
    rcases bind_eq_error_iff.mp h with hmergers | ⟨merged, -, h⟩
    · rcases bind_eq_error_iff.mp hmergers with hrows | ⟨rows, -, h⟩
      · obtain ⟨x, hx, hrow⟩ := exists_of_mapM_eq_error hrows
        obtain ⟨y, hy, hpair⟩ := exists_of_mapM_eq_error hrow
        exact ⟨x, hx, y, hy, hpair⟩
      · cases h
    · cases h
  obtain ⟨r, hr, rfl⟩ := mem_named_iff.mp ha
  obtain ⟨-, s, hs, rfl⟩ := mem_drop_named_iff.mp hb
  rcases bind_eq_error_iff.mp hpair with hbox | ⟨box, hbox, hpair⟩
  · obtain ⟨e', -, he⟩ := mapError_eq_error_iff.mp hbox
    exact ⟨e', he.symm⟩
  · have hquery := query_sumBox hp hx (List.mem_of_getElem? hr) (List.mem_of_getElem? hs)
      (mapError_eq_ok_iff.mp hbox)
    rcases bind_eq_error_iff.mp hpair with hnone | ⟨hits, -, hpair⟩
    · cases hquery.symm.trans hnone
    · cases hpair

end

section

variable {spec : NetworkSpec ℝ} {lengths : Lengths ℝ} {ch : Channels} {o : Overflow} {p : Paving}
  {primary : Nat} {index : OverlapIndex} {x : Reaction ℝ}

/-- The reaction comes from a merger of clusters `i` and `j` with regions `r` and `s` into a cluster
that the box of their sums finds. -/
def BroughtBy (spec : NetworkSpec ℝ) (lengths : Lengths ℝ) (ch : Channels) (o : Overflow)
    (p : Paving) (i j : Nat) (r s : Region) (x : Reaction ℝ) : Prop :=
  ∃ box k t, sumBox o r s = .ok box ∧ p.regions[k]? = some t ∧ t.meets box.1 box.2 = true ∧
    (r.mergers s t).Nonempty ∧
    x ∈ ch.reactionsOf i j k (Cluster.ofRegion spec lengths r) (Cluster.ofRegion spec lengths s)
      (Cluster.ofRegion spec lengths t) (r.mergerShare s t)

theorem mem_mergerReactions_iff (hp : p.Aligned) {i j k : Nat} {r s t : Region}
    (hr : r ∈ p.regions) (hs : s ∈ p.regions) (ht : p.regions[k]? = some t) :
    x ∈ mergerReactions (ClusterTable.ofPaving spec lengths p) ch i j
        (Cluster.ofRegion spec lengths r) (Cluster.ofRegion spec lengths s) k ↔
      (r.mergers s t).Nonempty ∧
        x ∈ ch.reactionsOf i j k (Cluster.ofRegion spec lengths r) (Cluster.ofRegion spec lengths s)
          (Cluster.ofRegion spec lengths t) (r.mergerShare s t) := by
  have hlr := hp.length_eq r hr
  have hls := hp.length_eq s hs
  have hlt := hp.length_eq t (List.mem_of_getElem? ht)
  have hshare : (r.sumFraction s t : ℝ) = r.mergerShare s t :=
    Region.sumFraction_eq_mergerShare (hlr.trans hls.symm) (hlr.trans hlt.symm)
  rw [mergerReactions_ofPaving ht, hshare, ← Region.mergerShare_pos_iff]
  split_ifs with hw
  · simpa using fun hpos : 0 < r.mergerShare s t => absurd hpos (not_lt.mpr (by simpa using hw))
  · exact ⟨fun hx => ⟨by simpa using hw, hx⟩, fun h => h.2⟩

theorem mem_pairReactions_iff (hp : p.Aligned) (hx : OverlapIndex.ofPaving p primary = .ok index)
    {i j : Nat} {r s : Region} (hr : r ∈ p.regions) (hs : s ∈ p.regions)
    {xs : List (Reaction ℝ)} (h : pairReactions o index (ClusterTable.ofPaving spec lengths p) ch i j
      (Cluster.ofRegion spec lengths r) (Cluster.ofRegion spec lengths s) = .ok xs) :
    x ∈ xs ↔ BroughtBy spec lengths ch o p i j r s x := by
  obtain ⟨box, hbox, h⟩ := bind_eq_ok_iff.mp h
  obtain ⟨hits, hhits, h⟩ := bind_eq_ok_iff.mp h
  obtain rfl := Except.ok.inj h
  replace hbox : sumBox o r s = .ok box := mapError_eq_ok_iff.mp hbox
  obtain rfl := Except.ok.inj ((query_sumBox hp hx hr hs hbox).symm.trans hhits)
  rw [List.mem_flatMap]
  constructor
  · rintro ⟨k, hk, hxk⟩
    obtain ⟨t, ht, hmeets⟩ := Paving.mem_meeting.mp hk
    exact ⟨box, k, t, hbox, ht, hmeets, (mem_mergerReactions_iff hp hr hs ht).mp hxk⟩
  · rintro ⟨box', k, t, hbox', ht, hmeets, hxk⟩
    obtain rfl := Except.ok.inj (hbox.symm.trans hbox')
    exact ⟨k, Paving.mem_meeting.mpr ⟨t, ht, hmeets⟩, (mem_mergerReactions_iff hp hr hs ht).mpr hxk⟩

theorem mem_rowReactions_iff (hp : p.Aligned) (hx : OverlapIndex.ofPaving p primary = .ok index)
    {i : Nat} {r : Region} (hr : p.regions[i]? = some r) {yss : List (List (Reaction ℝ))}
    (h : rowReactions o index (ClusterTable.ofPaving spec lengths p) ch i
      (Cluster.ofRegion spec lengths r) = .ok yss) :
    x ∈ yss.flatten ↔ ∃ j s, i ≤ j ∧ p.regions[j]? = some s ∧
      BroughtBy spec lengths ch o p i j r s x := by
  have hmem : List.Forall₂ (fun (y : Cluster ℝ × Nat) xs => ∀ x, x ∈ xs ↔
      ∃ s, p.regions[y.2]? = some s ∧ BroughtBy spec lengths ch o p i y.2 r s x)
      ((ClusterTable.ofPaving spec lengths p).clusters.toList.zipIdx.drop i) yss := by
    refine forall₂_of_mapM_eq_ok h ?_
    rintro ⟨b, j⟩ hb xs hxs x
    obtain ⟨-, s, hs, rfl⟩ := mem_drop_named_iff.mp hb
    rw [mem_pairReactions_iff hp hx (List.mem_of_getElem? hr) (List.mem_of_getElem? hs) hxs]
    simp [hs]
  rw [mem_flatten_iff_of_forall₂ hmem]
  constructor
  · rintro ⟨⟨b, j⟩, hb, s, hs, hx⟩
    exact ⟨j, s, (mem_drop_named_iff.mp hb).1, hs, hx⟩
  · rintro ⟨j, s, hij, hs, hx⟩
    exact ⟨(_, j), mem_drop_named_iff.mpr ⟨hij, s, hs, rfl⟩, s, hs, hx⟩

theorem mem_mergers_iff (hp : p.Aligned) (hx : OverlapIndex.ofPaving p primary = .ok index)
    {xs : List (Reaction ℝ)}
    (h : mergers o index (ClusterTable.ofPaving spec lengths p) ch = .ok xs) :
    x ∈ xs ↔ ∃ i j r s, i ≤ j ∧ p.regions[i]? = some r ∧ p.regions[j]? = some s ∧
      BroughtBy spec lengths ch o p i j r s x := by
  obtain ⟨rows, hrows, h⟩ := bind_eq_ok_iff.mp h
  obtain rfl := Except.ok.inj h
  have hmem : List.Forall₂ (fun (y : Cluster ℝ × Nat) yss => ∀ x, x ∈ yss.flatten ↔
      ∃ r j s, p.regions[y.2]? = some r ∧ y.2 ≤ j ∧ p.regions[j]? = some s ∧
        BroughtBy spec lengths ch o p y.2 j r s x)
      (ClusterTable.ofPaving spec lengths p).clusters.toList.zipIdx rows := by
    refine forall₂_of_mapM_eq_ok hrows ?_
    rintro ⟨a, i⟩ ha yss hyss x
    obtain ⟨r, hr, rfl⟩ := mem_named_iff.mp ha
    rw [mem_rowReactions_iff hp hx hr hyss]
    simp [hr]
  rw [List.flatten_flatten, mem_flatten_iff_of_forall₂ (List.forall₂_map_right_iff.mpr hmem)]
  constructor
  · rintro ⟨⟨a, i⟩, -, r, j, s, hr, hij, hs, hx⟩
    exact ⟨i, j, r, s, hij, hr, hs, hx⟩
  · rintro ⟨i, j, r, s, hij, hr, hs, hx⟩
    exact ⟨(_, i), mem_named_iff.mpr ⟨r, hr, rfl⟩, r, j, s, hr, hij, hs, hx⟩

theorem mem_sinkReactions_iff : x ∈ sinkReactions (ClusterTable.ofPaving spec lengths p) ↔
    ∃ i r, p.regions[i]? = some r ∧ 0 < (Cluster.mobilityOf spec.mobility r).1 ∧ x = .sink i := by
  have hmobile : ∀ r, (Cluster.ofRegion spec lengths r).isMobile = true ↔
      0 < (Cluster.mobilityOf spec.mobility r).1 := by
    intro r
    have hfactor : (Cluster.ofRegion spec lengths r).diffusionFactor =
        (Cluster.mobilityOf spec.mobility r).1 := rfl
    rw [Cluster.isMobile, hfactor, @decide_eq_true_iff _ (_)]
    simp
  simp only [sinkReactions, ClusterTable.diffusing, List.mem_map, List.mem_filter, List.mem_range]
  constructor
  · rintro ⟨i, ⟨-, hi⟩, rfl⟩
    rw [clusters_ofPaving, Option.any_map] at hi
    obtain ⟨r, hr, hm⟩ := (Option.any_eq_true _ _).mp hi
    exact ⟨i, r, hr, (hmobile r).mp hm, rfl⟩
  · rintro ⟨i, r, hr, hm, rfl⟩
    refine ⟨i, ⟨?_, ?_⟩, rfl⟩
    · simpa [ClusterTable.size, ClusterTable.ofPaving] using (List.getElem?_eq_some_iff.mp hr).1
    · rw [clusters_ofPaving, hr]
      exact (hmobile r).mpr hm

/-- Where the boxes of all sums come out exact, mergers bring about the listed reactions and no
others. -/
theorem listed_iff (ho : o.ExactOn p) : Listed spec ch p x ↔
    (∃ i j r s, i ≤ j ∧ p.regions[i]? = some r ∧ p.regions[j]? = some s ∧
      BroughtBy spec lengths ch o p i j r s x) ∨
    ch.sinks = true ∧ x ∈ sinkReactions (ClusterTable.ofPaving spec lengths p) := by
  have hbring : ∀ {i j k r s t}, p.Merger i j k r s t →
      x ∈ ch.reactionsOf i j k (Cluster.ofRegion spec lengths r) (Cluster.ofRegion spec lengths s)
        (Cluster.ofRegion spec lengths t) (r.mergerShare s t) →
      ∃ i j r s, i ≤ j ∧ p.regions[i]? = some r ∧ p.regions[j]? = some s ∧
        BroughtBy spec lengths ch o p i j r s x := by
    intro i j k r s t h hx
    obtain ⟨c, d, hc, hd, hcd⟩ := h.sum
    obtain ⟨hlo, hhi⟩ := mergeCounts_bounds hc hd
    exact ⟨i, j, r, s, h.le, h.first, h.second, _, k, t,
      ho i j r s h.le h.first h.second, h.product, boxMeets_of_contains hcd hlo hhi,
      Region.mergers_nonempty_iff.mpr h.sum, hx⟩
  simp only [Channels.mem_reactionsOf_iff] at hbring
  constructor
  · intro h
    cases h with
    | production h hn => exact .inl (hbring h (.inr (.inl ⟨hn, rfl⟩)))
    | nucleation h hn => exact .inl (hbring h (.inl ⟨hn, rfl⟩))
    | dissociation h he => exact .inl (hbring h (.inr (.inr (.inl ⟨he, rfl⟩))))
    | reSolution h hm hleast hsize =>
      exact .inl (hbring h (.inr (.inr (.inr ⟨hm, ⟨_, hleast, hsize⟩, rfl⟩))))
    | sink hs hr hm => exact .inr ⟨hs, mem_sinkReactions_iff.mpr ⟨_, _, hr, hm, rfl⟩⟩
  · rintro (⟨i, j, r, s, hij, hr, hs, -, k, t, -, ht, -, hm, hx⟩ | ⟨hs, hx⟩)
    · have h : p.Merger i j k r s t := ⟨hij, hr, hs, ht, Region.mergers_nonempty_iff.mp hm⟩
      rcases Channels.mem_reactionsOf_iff.mp hx with
        ⟨hn, rfl⟩ | ⟨hn, rfl⟩ | ⟨he, rfl⟩ | ⟨hm, ⟨least, hleast, hsize⟩, rfl⟩
      · exact .nucleation h hn
      · exact .production h hn
      · exact .dissociation h he
      · exact .reSolution h hm hleast hsize
    · obtain ⟨i, r, hr, hm, rfl⟩ := mem_sinkReactions_iff.mp hx
      exact .sink hs hr hm

theorem ascending_of_reactionList {K : Type} [Scalar K] {o : Overflow} {index : OverlapIndex}
    {table : ClusterTable K} {ch : Channels} {rs : List (Reaction K)}
    (h : reactionList index table ch o = .ok rs) : Ascending rs := by
  obtain ⟨merged, -, h⟩ := bind_eq_ok_iff.mp h
  rw [← Except.ok.inj h]
  exact ascending_sortReactions _

/-- What a generated list consists of, whatever became of the boxes of sums. -/
theorem mem_of_mem_reactionList (hp : p.Aligned)
    (hx : OverlapIndex.ofPaving p primary = .ok index) {rs : List (Reaction ℝ)}
    (h : reactionList index (ClusterTable.ofPaving spec lengths p) ch o = .ok rs) (hmem : x ∈ rs) :
    (∃ i j r s, i ≤ j ∧ p.regions[i]? = some r ∧ p.regions[j]? = some s ∧
      BroughtBy spec lengths ch o p i j r s x) ∨
    ch.sinks = true ∧ x ∈ sinkReactions (ClusterTable.ofPaving spec lengths p) := by
  obtain ⟨merged, hmerged, h⟩ := bind_eq_ok_iff.mp h
  obtain rfl := Except.ok.inj h
  rw [← mem_mergers_iff hp hx hmerged]
  have hmem' := List.mem_append.mp (List.mem_mergeSort.mp (mem_of_mem_keepFirst hmem))
  refine hmem'.imp_right fun hsinks => ?_
  split_ifs at hsinks with hs
  · exact ⟨hs, hsinks⟩
  · cases hsinks

/-- Where the boxes of all sums come out exact, all mergers and sinks together are the listed
reactions. -/
theorem mem_merged_iff (hp : p.Aligned) (hx : OverlapIndex.ofPaving p primary = .ok index)
    (ho : o.ExactOn p) {merged : List (Reaction ℝ)}
    (h : mergers o index (ClusterTable.ofPaving spec lengths p) ch = .ok merged) :
    x ∈ merged ++ (if ch.sinks then sinkReactions (ClusterTable.ofPaving spec lengths p) else []) ↔
      Listed spec ch p x := by
  rw [List.mem_append, mem_mergers_iff hp hx h, listed_iff ho]
  refine or_congr_right ?_
  cases ch.sinks <;> simp

/-- Of the mergers and sinks no two differ under one key. -/
theorem eq_of_key_of_mergers (hp : p.Aligned) (hx : OverlapIndex.ofPaving p primary = .ok index)
    (ho : o.ExactOn p) {merged : List (Reaction ℝ)}
    (h : mergers o index (ClusterTable.ofPaving spec lengths p) ch = .ok merged) :
    let all := merged ++
      if ch.sinks then sinkReactions (ClusterTable.ofPaving spec lengths p) else []
    ∀ x ∈ all, ∀ y ∈ all, x.key = y.key → x = y := by
  intro all x hx' y hy' hkey
  exact ((mem_merged_iff hp hx ho h).mp hx').eq_of_key ((mem_merged_iff hp hx ho h).mp hy') hkey

/-- Where the boxes of all sums come out exact, the listed reactions are generated and no others. -/
theorem mem_reactionList_iff (hp : p.Aligned) (hx : OverlapIndex.ofPaving p primary = .ok index)
    (ho : o.ExactOn p) {rs : List (Reaction ℝ)}
    (h : reactionList index (ClusterTable.ofPaving spec lengths p) ch o = .ok rs) :
    x ∈ rs ↔ Listed spec ch p x := by
  obtain ⟨merged, hmerged, h⟩ := bind_eq_ok_iff.mp h
  rw [← Except.ok.inj h, mem_sortReactions_iff (eq_of_key_of_mergers hp hx ho hmerged),
    mem_merged_iff hp hx ho hmerged]

end

end ClusterDynamics
