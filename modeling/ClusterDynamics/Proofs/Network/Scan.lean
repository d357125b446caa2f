import ClusterDynamics.Proofs.Lattice.Buckets
import ClusterDynamics.Proofs.Network.Generation

/-! Generation as a scan by names. Row by row, each pair of clusters is looked up by name, the index
in flat tables finds the clusters that its sums can fall into, and the share of each is multiplied
out axis by axis. The reactions of all rows and the sinks go one by one into a table in which the
first of a key stays, and the table is sorted at the end. As long as all names and their number are
words of their own, the scan gives the list of `reactionList`. -/

namespace ClusterDynamics

section Definitions

variable {K : Type} [Scalar K]

/-- The fraction of pairs of a composition of `r` and one of `s` with their sum in `t`, by look-ups
of the axes. -/
def scanShare (r s t : Region) : Except OutOfRange K := do
  let shares ← (List.range t.dimension).mapM fun axis => do
    let a ← entryAt r.axes.toArray axis
    let b ← entryAt s.axes.toArray axis
    return a.sumFraction b (← entryAt t.axes.toArray axis)
  return Scalar.product shares

def scanKnockOut (table : ClusterTable K) (ch : Channels) (i j k : Nat) (a b : Cluster K) (w : K) :
    Except OutOfRange (List (Reaction K)) :=
  match ch.reSolutionFrom with
  | none => .ok []
  | some least =>
    if ch.isPrimaryMonomer a || ch.isPrimaryMonomer b then do
      let c ← table.cluster k
      return if Scalar.ofNat least ≤ c.primarySize then [.reSolution k i j w] else []
    else .ok []

/-- The reactions of the merger of a pair into the cluster `k`. -/
def scanHit (p : Paving) (table : ClusterTable K) (ch : Channels) (i j : Nat) (a b : Cluster K)
    (r s : Region) (k : Nat) : Except OutOfRange (List (Reaction K)) := do
  let t ← entryAt p.regions.toArray k
  let w : K ← scanShare r s t
  if w ≤ 0 then return []
  else
    let merger :=
      if ch.nucleation && ch.isPrimaryMonomer a && ch.isPrimaryMonomer b then .nucleation i k
      else .production i j k w
    let emission :=
      if (a.region.isSimplex || s.isSimplex) && (ch.emits a || ch.emits b) then
        [.dissociation k i j w]
      else []
    let knockOut ← scanKnockOut table ch i j k a b w
    return merger :: emission ++ knockOut

def scanPair (o : Overflow) (x : BucketIndex) (p : Paving) (table : ClusterTable K) (ch : Channels)
    (i : Nat) (a : Cluster K) (r : Region) (j : Nat) : Except LatticeError (List (Reaction K)) := do
  let s ← (entryAt p.regions.toArray j).mapError .outOfRange
  let b ← (table.cluster j).mapError .outOfRange
  let (lo, hi) ← (sumBox o r s).mapError .outOfRange
  let hits ← x.query lo hi
  let found ← (hits.mapM (scanHit p table ch i j a b r s)).mapError .outOfRange
  return found.flatten

/-- The reactions of the pairs of cluster `i` with itself and the clusters behind it. -/
def scanRow (o : Overflow) (x : BucketIndex) (p : Paving) (table : ClusterTable K) (ch : Channels)
    (i : Nat) : Except LatticeError (List (Reaction K)) := do
  let r ← (entryAt p.regions.toArray i).mapError .outOfRange
  let a ← (table.cluster i).mapError .outOfRange
  let row ← (List.range' i (nameOf p.size - i)).mapM (scanPair o x p table ch i a r)
  return row.flatten

def scanSinks (table : ClusterTable K) : List (Reaction K) :=
  (table.clusters.toList.zipIdx.filter fun x => x.1.isMobile).map fun x => .sink (nameOf x.2)

/-- Put a reaction behind others, if none of them has its key. -/
def enterFirst {K : Type} (unique : List (Reaction K)) (r : Reaction K) : List (Reaction K) :=
  if unique.any (·.key = r.key) then unique else unique ++ [r]

/-- The first reaction of each key, in the order of the keys. -/
def sortFirsts {K : Type} (rs : List (Reaction K)) : List (Reaction K) :=
  (rs.foldl enterFirst []).mergeSort fun r s => r.key.precedes s.key

def scanRows (o : Overflow) (x : BucketIndex) (p : Paving) (table : ClusterTable K)
    (ch : Channels) : Except LatticeError (List (Reaction K)) := do
  let rows ← (List.range p.size).mapM fun i => scanRow o x p table ch (nameOf i)
  return rows.flatten

def scanReactions (o : Overflow) (x : BucketIndex) (p : Paving) (table : ClusterTable K)
    (ch : Channels) : Except LatticeError (List (Reaction K)) := do
  let merged ← scanRows o x p table ch
  return sortFirsts (merged ++ if ch.sinks then scanSinks table else [])

end Definitions

section Firsts

variable {K : Type} {r s : Reaction K} {rs unique : List (Reaction K)}

theorem mem_enterFirst (h : s ∈ enterFirst unique r) : s ∈ unique ∨ s = r := by
  rw [enterFirst] at h
  split_ifs at h
  · exact .inl h
  · simpa using h

theorem keys_enterFirst (k : ReactionKey) : k ∈ (enterFirst unique r).map Reaction.key ↔
    k ∈ unique.map Reaction.key ∨ k = r.key := by
  rw [enterFirst]
  split_ifs with h
  · obtain ⟨s, hs, hkey⟩ := List.any_eq_true.mp h
    constructor
    · exact .inl
    · rintro (hk | rfl)
      · exact hk
      · exact List.mem_map.mpr ⟨s, hs, of_decide_eq_true hkey⟩
  · simp

theorem nodup_enterFirst (h : (unique.map Reaction.key).Nodup) :
    ((enterFirst unique r).map Reaction.key).Nodup := by
  rw [enterFirst]
  split_ifs with hany
  · exact h
  · rw [List.map_append]
    refine h.append (List.nodup_singleton _) ?_
    rintro k hk hr
    obtain ⟨s, hs, rfl⟩ := List.mem_map.mp hk
    exact hany (List.any_eq_true.mpr ⟨s, hs, decide_eq_true (by simpa using hr)⟩)

theorem mem_foldl_enterFirst (h : s ∈ rs.foldl enterFirst unique) : s ∈ unique ∨ s ∈ rs := by
  induction rs generalizing unique with
  | nil => exact .inl h
  | cons r rs ih =>
    rcases ih h with hs | hs
    · rcases mem_enterFirst hs with hs | rfl
      · exact .inl hs
      · exact .inr List.mem_cons_self
    · exact .inr (List.mem_cons_of_mem _ hs)

theorem keys_foldl_enterFirst (k : ReactionKey) : k ∈ (rs.foldl enterFirst unique).map Reaction.key ↔
    k ∈ unique.map Reaction.key ∨ k ∈ rs.map Reaction.key := by
  induction rs generalizing unique with
  | nil => simp
  | cons r rs ih => rw [List.foldl_cons, ih, keys_enterFirst, List.map_cons, List.mem_cons, or_assoc]

theorem nodup_foldl_enterFirst (h : (unique.map Reaction.key).Nodup) :
    ((rs.foldl enterFirst unique).map Reaction.key).Nodup := by
  induction rs generalizing unique with
  | nil => exact h
  | cons r rs ih => exact ih (nodup_enterFirst h)

theorem ascending_sortFirsts (rs : List (Reaction K)) : Ascending (sortFirsts rs) := by
  have hnodup : ((sortFirsts rs).map Reaction.key).Nodup := by
    rw [sortFirsts, ((List.mergeSort_perm _ _).map Reaction.key).nodup_iff]
    exact nodup_foldl_enterFirst List.nodup_nil
  exact (pairwise_mergeSort_key _).and (List.pairwise_map.mp hnodup)

/-- Where equal keys mean equal reactions, the table loses none. -/
theorem mem_sortFirsts_iff (h : ∀ r ∈ rs, ∀ s ∈ rs, r.key = s.key → r = s) :
    r ∈ sortFirsts rs ↔ r ∈ rs := by
  rw [sortFirsts, List.mem_mergeSort]
  have hsub : ∀ s ∈ rs.foldl enterFirst [], s ∈ rs := fun s hs =>
    (mem_foldl_enterFirst hs).resolve_left List.not_mem_nil
  refine ⟨hsub r, fun hr => ?_⟩
  obtain ⟨s, hs, hkey⟩ := List.mem_map.mp
    ((keys_foldl_enterFirst r.key).mpr (.inr (List.mem_map_of_mem hr)))
  rwa [← h s (hsub s hs) r hr hkey]

theorem Ascending.eq_of_mem_iff {ss : List (Reaction K)} (hr : Ascending rs) (hs : Ascending ss)
    (h : ∀ r, r ∈ rs ↔ r ∈ ss) : rs = ss := by
  have hnodup : ∀ {ts : List (Reaction K)}, Ascending ts → ts.Nodup := fun ht =>
    ht.imp fun hxy he => hxy.2 (congrArg Reaction.key he)
  refine ((List.perm_ext_iff_of_nodup (hnodup hr) (hnodup hs)).mpr h).eq_of_pairwise ?_ hr hs
  intro x y _ _ hxy hyx
  exact absurd (ReactionKey.precedes_antisymm hxy.1 hyx.1) hxy.2

theorem sortFirsts_eq_sortReactions (h : ∀ r ∈ rs, ∀ s ∈ rs, r.key = s.key → r = s) :
    sortFirsts rs = sortReactions rs := by
  refine (ascending_sortFirsts rs).eq_of_mem_iff (ascending_sortReactions rs) fun r => ?_
  rw [mem_sortFirsts_iff h, mem_sortReactions_iff h]

end Firsts

section

variable {K : Type} [Scalar K] {spec : NetworkSpec K} {lengths : Lengths K} {ch : Channels}
  {o : Overflow} {p : Paving} {primary : Nat} {index : OverlapIndex} {r s t : Region}

theorem entryAt_region {k : Nat} (h : p.regions[k]? = some t) :
    entryAt p.regions.toArray k = .ok t :=
  entryAt_eq_ok_iff.mpr (by rwa [List.getElem?_toArray])

theorem cluster_ofPaving {k : Nat} (h : p.regions[k]? = some t) :
    (ClusterTable.ofPaving spec lengths p).cluster k = .ok (Cluster.ofRegion spec lengths t) :=
  entryAt_eq_ok_iff.mpr (by rw [clusters_ofPaving, h, Option.map_some])

theorem scanShare_eq (hr : r.axes.length = t.axes.length) (hs : s.axes.length = t.axes.length) :
    scanShare r s t = .ok (r.sumFraction s t : K) := by
  have hshares : ((List.range t.dimension).mapM fun axis => do
      let a ← entryAt r.axes.toArray axis
      let b ← entryAt s.axes.toArray axis
      return a.sumFraction b (← entryAt t.axes.toArray axis)) =
      .ok (List.zipWith (fun t (a, b) => (Interval.sumFraction a b t : K)) t.axes
        (r.axes.zip s.axes)) := by
    rw [mapM_eq_ok_iff, List.forall₂_iff_get]
    refine ⟨by simp [Region.dimension, hr, hs], fun i hi hj => ?_⟩
    have hi' : i < t.axes.length := by simpa [Region.dimension] using hi
    have hentry : ∀ {u : Region} (hu : i < u.axes.length),
        entryAt u.axes.toArray i = .ok u.axes[i] :=
      fun hu => entryAt_eq_ok_iff.mpr (by simp [hu])
    simp only [List.get_eq_getElem, List.getElem_range, hentry (hi'.trans_eq hr.symm),
      hentry (hi'.trans_eq hs.symm), hentry hi', ok_bind, List.getElem_zipWith, List.getElem_zip]
    rfl
  rw [scanShare, hshares]
  rfl

/-- Only a region of a single composition is a monomer. -/
theorem isSimplex_of_emits (h : ch.emits (Cluster.ofRegion spec lengths r) = true) :
    r.isSimplex = true := by
  obtain ⟨s, hs, -⟩ := (Option.any_eq_true _ _).mp h
  replace hs : r.monomer? spec.profile.species = some s := hs
  rw [Region.monomer?] at hs
  split_ifs at hs with hsimplex
  exact hsimplex

theorem scanKnockOut_eq {i j k : Nat} {a b : Cluster K} {w : K} (ht : p.regions[k]? = some t) :
    scanKnockOut (ClusterTable.ofPaving spec lengths p) ch i j k a b w =
      .ok (if (ch.isPrimaryMonomer a || ch.isPrimaryMonomer b) &&
        ch.reSolves (Cluster.ofRegion spec lengths t) then [.reSolution k i j w] else []) := by
  rw [scanKnockOut, cluster_ofPaving ht, Channels.reSolves]
  cases ch.reSolutionFrom with
  | none => simp
  | some least =>
    cases hpair : ch.isPrimaryMonomer a || ch.isPrimaryMonomer b with
    | false => simp
    | true => simp [pure, Except.pure]

/-- The merger of a pair into a cluster gives the reactions that it brings about. -/
theorem scanHit_eq (hp : p.Aligned) (hr : r ∈ p.regions) (hs : s ∈ p.regions) {i j k : Nat}
    (ht : p.regions[k]? = some t) :
    scanHit p (ClusterTable.ofPaving spec lengths p) ch i j (Cluster.ofRegion spec lengths r)
        (Cluster.ofRegion spec lengths s) r s k =
      .ok (mergerReactions (ClusterTable.ofPaving spec lengths p) ch i j
        (Cluster.ofRegion spec lengths r) (Cluster.ofRegion spec lengths s) k) := by
  have hlength := hp.length_eq t (List.mem_of_getElem? ht)
  have hshare : scanShare r s t = .ok (r.sumFraction s t : K) :=
    scanShare_eq ((hp.length_eq r hr).trans hlength.symm) ((hp.length_eq s hs).trans hlength.symm)
  have hemission : ((r.isSimplex || s.isSimplex) &&
      (ch.emits (Cluster.ofRegion spec lengths r) || ch.emits (Cluster.ofRegion spec lengths s))) =
      (ch.emits (Cluster.ofRegion spec lengths r) ||
        ch.emits (Cluster.ofRegion spec lengths s)) := by
    rw [Bool.and_eq_right_iff_imp, Bool.or_eq_true, Bool.or_eq_true]
    exact Or.imp isSimplex_of_emits isSimplex_of_emits
  rw [scanHit, entryAt_region ht, ok_bind, hshare, ok_bind, mergerReactions_ofPaving ht]
  by_cases hw : (r.sumFraction s t : K) ≤ 0
  · rw [if_pos hw, if_pos hw]
    rfl
  · have hregion : (Cluster.ofRegion spec lengths r).region = r := rfl
    rw [if_neg hw, if_neg hw, scanKnockOut_eq ht, hregion, hemission]
    rfl

/-- The scan of a pair gives its reactions, or fails as they do. -/
theorem scanPair_eq (hp : p.Aligned) (hx : OverlapIndex.ofPaving p primary = .ok index)
    {x : BucketIndex} (hquery : x.query = index.query) (hr : r ∈ p.regions) {i j : Nat}
    (hs : p.regions[j]? = some s) :
    scanPair o x p (ClusterTable.ofPaving spec lengths p) ch i (Cluster.ofRegion spec lengths r) r
        j =
      pairReactions o index (ClusterTable.ofPaving spec lengths p) ch i j
        (Cluster.ofRegion spec lengths r) (Cluster.ofRegion spec lengths s) := by
  have hmem := List.mem_of_getElem? hs
  have hregion : ∀ u : Region, (Cluster.ofRegion spec lengths u).region = u := fun _ => rfl
  rw [scanPair, entryAt_region hs, mapError_ok, ok_bind, cluster_ofPaving hs, mapError_ok, ok_bind,
    pairReactions, hregion, hregion, hquery]
  cases hbox : sumBox o r s with
  | error e => rfl
  | ok box =>
    have hfound : (p.meeting box.1 box.2).mapM (scanHit p (ClusterTable.ofPaving spec lengths p) ch
        i j (Cluster.ofRegion spec lengths r) (Cluster.ofRegion spec lengths s) r s) =
        .ok ((p.meeting box.1 box.2).map (mergerReactions (ClusterTable.ofPaving spec lengths p) ch
          i j (Cluster.ofRegion spec lengths r) (Cluster.ofRegion spec lengths s))) := by
      refine mapM_eq_ok_map fun k hk => ?_
      obtain ⟨t, ht, -⟩ := Paving.mem_meeting.mp hk
      exact scanHit_eq hp hr hmem ht
    change (index.query box.1 box.2 >>= _) = index.query box.1 box.2 >>= _
    rw [query_sumBox hp hx hr hmem hbox, ok_bind, ok_bind, hfound]
    exact congrArg Except.ok List.flatMap_def.symm

theorem mapM_named {ε β : Type} {f : Cluster K × Nat → Except ε β} {g : Nat → Except ε β} {n : Nat}
    (h : ∀ r i, n ≤ i → p.regions[i]? = some r → f (Cluster.ofRegion spec lengths r, i) = g i) :
    ((ClusterTable.ofPaving spec lengths p).clusters.toList.zipIdx.drop n).mapM f =
      (List.range' n (p.size - n)).mapM g := by
  have hpositions : ((ClusterTable.ofPaving spec lengths p).clusters.toList.zipIdx.drop n).map
      Prod.snd = List.range' n (p.size - n) := by
    rw [List.map_drop, List.zipIdx_map_snd, List.drop_range']
    simp [ClusterTable.ofPaving, Paving.size]
  rw [← hpositions, List.mapM_map]
  refine mapM_congr ?_
  rintro ⟨a, i⟩ ha
  obtain ⟨hni, r, hr, rfl⟩ := mem_drop_named_iff.mp ha
  exact h r i hni hr

/-- The scan of a row gives the reactions of its pairs, or fails as they do. -/
theorem scanRow_eq (hp : p.Aligned) (hsize : p.size < nameLimit)
    (hx : OverlapIndex.ofPaving p primary = .ok index) {x : BucketIndex}
    (hquery : x.query = index.query) {i : Nat} (hr : p.regions[i]? = some r) :
    scanRow o x p (ClusterTable.ofPaving spec lengths p) ch i =
      (rowReactions o index (ClusterTable.ofPaving spec lengths p) ch i
        (Cluster.ofRegion spec lengths r)).map List.flatten := by
  have hpairs : ∀ s j, i ≤ j → p.regions[j]? = some s →
      pairReactions o index (ClusterTable.ofPaving spec lengths p) ch i j
        (Cluster.ofRegion spec lengths r) (Cluster.ofRegion spec lengths s) =
      scanPair o x p (ClusterTable.ofPaving spec lengths p) ch i (Cluster.ofRegion spec lengths r) r
        j :=
    fun s j _ hs => (scanPair_eq hp hx hquery (List.mem_of_getElem? hr) hs).symm
  rw [rowReactions, mapM_named hpairs, scanRow, entryAt_region hr, cluster_ofPaving hr, nameOf_of_lt hsize]
  rfl

/-- The rows of the scan are the reactions of all pairs, or fail as they do. -/
theorem scanRows_eq (hp : p.Aligned) (hsize : p.size < nameLimit)
    (hx : OverlapIndex.ofPaving p primary = .ok index) {x : BucketIndex}
    (hquery : x.query = index.query) :
    scanRows o x p (ClusterTable.ofPaving spec lengths p) ch =
      mergers o index (ClusterTable.ofPaving spec lengths p) ch := by
  have hrow : ∀ r i, 0 ≤ i → p.regions[i]? = some r →
      (rowReactions o index (ClusterTable.ofPaving spec lengths p) ch i
        (Cluster.ofRegion spec lengths r)).map List.flatten =
        scanRow o x p (ClusterTable.ofPaving spec lengths p) ch (nameOf i) := by
    intro r i _ hr
    have hi := (List.getElem?_eq_some_iff.mp hr).1
    rw [nameOf_of_lt (hi.trans hsize), scanRow_eq hp hsize hx hquery hr]
  have hrows := mapM_named (f := fun x => (rowReactions o index
    (ClusterTable.ofPaving spec lengths p) ch x.2 x.1).map List.flatten) hrow
  rw [List.drop_zero, Nat.sub_zero, ← List.range_eq_range', mapM_map] at hrows
  rw [scanRows, ← hrows]
  change _ = (ClusterTable.ofPaving spec lengths p).clusters.toList.zipIdx.mapM (fun x =>
      rowReactions o index (ClusterTable.ofPaving spec lengths p) ch x.2 x.1) >>=
    fun rows => .ok rows.flatten.flatten
  cases (ClusterTable.ofPaving spec lengths p).clusters.toList.zipIdx.mapM fun x =>
      rowReactions o index (ClusterTable.ofPaving spec lengths p) ch x.2 x.1 with
  | error e => rfl
  | ok rows => exact congrArg Except.ok List.flatten_flatten.symm

theorem scanSinks_eq (hsize : p.size < nameLimit) :
    scanSinks (ClusterTable.ofPaving spec lengths p) =
      sinkReactions (ClusterTable.ofPaving spec lengths p) := by
  let mobile (i : Nat) : Bool :=
    (ClusterTable.ofPaving spec lengths p).clusters[i]?.any Cluster.isMobile
  have hmobile : (ClusterTable.ofPaving spec lengths p).clusters.toList.zipIdx.filter
      (fun x => x.1.isMobile) =
      (ClusterTable.ofPaving spec lengths p).clusters.toList.zipIdx.filter fun x => mobile x.2 := by
    refine List.filter_congr ?_
    rintro ⟨a, i⟩ ha
    obtain ⟨r, hr, rfl⟩ := mem_named_iff.mp ha
    dsimp only [mobile]
    rw [clusters_ofPaving, hr]
    rfl
  have hpositions : (ClusterTable.ofPaving spec lengths p).clusters.toList.zipIdx.map Prod.snd =
      List.range (ClusterTable.ofPaving spec lengths p).size := by
    rw [List.zipIdx_map_snd, List.range_eq_range']
    rfl
  rw [scanSinks, sinkReactions, ClusterTable.diffusing, hmobile, ← hpositions, List.filter_map,
    List.map_map]
  refine List.map_congr_left ?_
  rintro ⟨a, i⟩ ha
  obtain ⟨r, hr, -⟩ := mem_named_iff.mp (List.mem_of_mem_filter ha)
  have hi := (List.getElem?_eq_some_iff.mp hr).1
  rw [Function.comp_apply, nameOf_of_lt (hi.trans hsize)]

end

section

variable {axes : List Axis} {spec : NetworkSpec ℝ} {lengths : Lengths ℝ} {ch : Channels}
  {o : Overflow} {p : Paving} {primary : Nat} {index : OverlapIndex}

/-- Where the boxes of all sums come out exact, the scan gives the list of `reactionList`. -/
theorem scanReactions_eq (hp : p.Aligned) (hsize : p.size < nameLimit)
    (hx : OverlapIndex.ofPaving p primary = .ok index) {x : BucketIndex}
    (hquery : x.query = index.query) (ho : o.ExactOn p) :
    scanReactions o x p (ClusterTable.ofPaving spec lengths p) ch =
      reactionList index (ClusterTable.ofPaving spec lengths p) ch o := by
  rw [reactionList, scanReactions, scanSinks_eq hsize, scanRows_eq hp hsize hx hquery]
  cases hmerged : mergers o index (ClusterTable.ofPaving spec lengths p) ch with
  | error e => rfl
  | ok merged =>
    have hfirsts := sortFirsts_eq_sortReactions (eq_of_key_of_mergers hp hx ho hmerged)
    exact congrArg Except.ok hfirsts

/-- For a paving built from axes whose sums of counts are exact, an index on any of them and any
channels, generation succeeds if the number of regions is a word of names. It gives the listed
reactions and no others, in the order of their keys, each key once. So does the scan by names. -/
theorem exists_reactionList (o : Overflow) (hp : Paving.ofAxes? axes = .ok p)
    (hfits : ∀ a ∈ axes, o.Fits a.max) (hsize : p.size < nameLimit)
    (hx : OverlapIndex.ofPaving p primary = .ok index) (spec : NetworkSpec ℝ)
    (lengths : Lengths ℝ) (ch : Channels) :
    ∃ buckets rs, BucketIndex.ofPaving p primary = .ok buckets ∧
      scanReactions o buckets p (ClusterTable.ofPaving spec lengths p) ch = .ok rs ∧
      reactionList index (ClusterTable.ofPaving spec lengths p) ch o = .ok rs ∧
      (rs.Pairwise fun r s => r.key.precedes s.key = true ∧ r.key ≠ s.key) ∧
      ∀ x, x ∈ rs ↔ Listed spec ch p x := by
  have hp' := Paving.ofAxes_of_ofAxes? hp
  have haligned := Paving.Aligned.of_ofAxes hp'
  have hexact := Paving.exactOn_of_fits (Paving.sound_of_fits hp' hfits) hp' hfits
  obtain ⟨buckets, hbuckets, hquery, -⟩ := BucketIndex.exists_query_eq haligned
    (Paving.regions_ne_nil_of_ofAxes hp') (Nat.le_of_lt hsize) hx
  obtain ⟨rs, hrs⟩ :=
    (exists_reactionList_iff haligned hx spec lengths ch).mpr hexact.completeOn
  have hscan := (scanReactions_eq haligned hsize hx hquery hexact).trans hrs
  exact ⟨buckets, rs, hbuckets, hscan, hrs, ascending_of_reactionList hrs,
    fun x => mem_reactionList_iff haligned hx hexact hrs⟩

/-- Xenon up to four, in pairs from two on: two monomers nucleate, and half of the mergers of a
monomer with the pair `2, 3` end in the cut pair behind it. -/
theorem exists_reactionList_xenon :
    let lengths : Lengths ℝ := ⟨1 / 2, 1 / 5, 1 / 25, 1 / 3⟩
    ∃ p index rs, Paving.ofAxes? [⟨.xenon, 4, 2, 2⟩] = .ok p ∧
      OverlapIndex.ofPaving p 0 = .ok index ∧
      reactionList index (ClusterTable.ofPaving (.ofProfile .fissionGas 4) lengths p)
        { nucleation := true, primary := some .xenon } = .ok rs ∧
      Reaction.nucleation 0 1 ∈ rs ∧ Reaction.production 0 1 2 (1 / 2) ∈ rs := by
  intro lengths
  let one : Region := ⟨[⟨1, 2, by omega⟩], by simp⟩
  let pair : Region := ⟨[⟨2, 4, by omega⟩], by simp⟩
  let last : Region := ⟨[⟨4, 5, by omega⟩], by simp⟩
  have hp : Paving.ofAxes? [⟨.xenon, 4, 2, 2⟩] = .ok ⟨[one, pair, last], [.xenon], [4]⟩ := by
    decide +kernel
  have hx := OverlapIndex.ofPaving_eq_ok_iff.mpr
    ⟨(by decide : 0 < Paving.dimension ⟨[one, pair, last], [.xenon], [4]⟩), rfl⟩
  obtain ⟨-, rs, -, -, hrs, -, hmem⟩ := exists_reactionList .checked hp (by decide) (by decide) hx
    (.ofProfile .fissionGas 4) lengths { nucleation := true, primary := some .xenon }
  refine ⟨_, _, rs, hp, hx, hrs, (hmem _).mpr ?_, (hmem _).mpr ?_⟩
  · have hone : Region.IsMonomer [.xenon] .xenon one := Region.monomer?_eq_some_iff.mp (by decide)
    exact .nucleation (j := 0) ⟨le_rfl, rfl, rfl, rfl, [1], [1], by decide, by decide, by decide⟩
      ⟨rfl, ⟨.xenon, rfl, hone⟩, ⟨.xenon, rfl, hone⟩⟩
  · have hshare : one.mergerShare pair last = 1 / 2 := by
      rw [Region.mergerShare, show (one.mergers pair last).card = 1 by decide,
        show one.compositions.card = 1 by decide, show pair.compositions.card = 2 by decide]
      norm_num
    rw [← hshare]
    refine .production ⟨by decide, rfl, rfl, rfl, [1], [3], by decide, by decide, by decide⟩ ?_
    rintro ⟨-, -, s, -, hs⟩
    rw [← Region.monomer?_eq_some_iff] at hs
    cases hs

/-- Xenon up to `2 ^ 31 - 1` in one run: all sums of two counts are counts, but the sum of the bounds
behind them is not, and with checks generation stops there. -/
theorem reactionList_past_range :
    let max := 2147483647
    let lengths : Lengths ℝ := ⟨1 / 2, 1 / 5, 1 / 25, 1 / 3⟩
    2 * max ≤ countLimit ∧ ∃ p index e, Paving.ofAxes? [⟨.xenon, max, 1, max⟩] = .ok p ∧
      OverlapIndex.ofPaving p 0 = .ok index ∧
      reactionList index (ClusterTable.ofPaving (.ofProfile .fissionGas 1) lengths p) {} =
        .error (.outOfRange e) := by
  intro max lengths
  let all : Region := ⟨[⟨1, 2147483648, by omega⟩], by simp⟩
  have hp : Paving.ofAxes? [⟨.xenon, max, 1, max⟩] = .ok ⟨[all], [.xenon], [max]⟩ := by
    decide +kernel
  have haligned := Paving.Aligned.of_ofAxes (Paving.ofAxes_of_ofAxes? hp)
  have hx := OverlapIndex.ofPaving_eq_ok_iff.mpr
    ⟨(by decide : 0 < Paving.dimension ⟨[all], [.xenon], [max]⟩), rfl⟩
  refine ⟨by decide, ?_⟩
  cases hlist : reactionList (.onAxis ⟨[all], [.xenon], [max]⟩ 0)
      (ClusterTable.ofPaving (.ofProfile .fissionGas 1) lengths ⟨[all], [.xenon], [max]⟩) {} with
  | error e =>
    obtain ⟨e, rfl⟩ := exists_outOfRange_of_reactionList haligned hx hlist
    exact ⟨_, _, e, hp, hx, hlist⟩
  | ok rs =>
    have hsums := (exists_reactionList_iff haligned hx _ _ _).mp ⟨rs, hlist⟩
    obtain ⟨box, hbox⟩ := hsums 0 0 all all le_rfl rfl rfl
    have hle := stop_add_stop_le_of_sumBox hbox (⟨1, 2147483648, by omega⟩, ⟨1, 2147483648, by omega⟩)
      List.mem_cons_self
    exact absurd hle (by decide)

end

end ClusterDynamics
