import ClusterDynamics.Proofs.Lattice.Alignment
import ClusterDynamics.Proofs.Lattice.Shelf
import ClusterDynamics.Proofs.TurningPoint
import Mathlib.Data.List.Sort

/-! The answer to a query is the list of all regions that meet the box, in ascending order. The
search on the primary axis may skip the other intervals because the first and last counts of the
sorted intervals of aligned regions both increase. -/

namespace ClusterDynamics

theorem extract_eq_filter {α : Type} {p : α → Bool} {xs : List α} {s t : Nat} (hst : s ≤ t)
    (h : ∀ i x, xs[i]? = some x → (p x = true ↔ s ≤ i ∧ i < t)) : xs.extract s t = xs.filter p := by
  have hbefore : (xs.take s).filter p = [] := by
    rw [List.filter_eq_nil_iff]
    intro x hx hpx
    obtain ⟨i, hi⟩ := List.mem_iff_getElem?.mp hx
    rw [List.getElem?_take] at hi
    split_ifs at hi with his
    have hrange := (h i x hi).mp hpx
    omega
  have hbehind : (xs.drop t).filter p = [] := by
    rw [List.filter_eq_nil_iff]
    intro x hx hpx
    obtain ⟨i, hi⟩ := List.mem_iff_getElem?.mp hx
    rw [List.getElem?_drop] at hi
    have hrange := (h (t + i) x hi).mp hpx
    omega
  have hwithin : ((xs.take t).drop s).filter p = (xs.take t).drop s := by
    rw [List.filter_eq_self]
    intro x hx
    obtain ⟨i, hi⟩ := List.mem_iff_getElem?.mp hx
    rw [List.getElem?_drop, List.getElem?_take] at hi
    split_ifs at hi with hit
    exact (h (s + i) x hi).mpr ⟨by omega, hit⟩
  have hsplit : xs = xs.take s ++ (xs.take t).drop s ++ xs.drop t := by
    have htake : xs.take s = (xs.take t).take s := by rw [List.take_take, Nat.min_eq_left hst]
    rw [htake, List.take_append_drop, List.take_append_drop]
  rw [List.extract_eq_take_drop, ← List.drop_take]
  conv_rhs => rw [hsplit, List.filter_append, List.filter_append, hbefore, hwithin, hbehind]
  simp

theorem mergeSort_eq_of_perm {xs ys : List Nat} (h : xs.Perm ys) (hy : ys.Pairwise (· < ·)) :
    xs.mergeSort (fun a b => decide (a ≤ b)) = ys := by
  have hsorted : (xs.mergeSort fun a b => decide (a ≤ b)).Pairwise (· ≤ ·) :=
    List.pairwise_mergeSort' _ xs
  exact ((List.mergeSort_perm xs _).trans h).eq_of_pairwise (fun a b _ _ => Nat.le_antisymm) hsorted
    (hy.imp Nat.le_of_lt)

/-- The axis in front counts as it does in its place. -/
theorem meets_and_boxMeets_eraseIdx {axes : List Interval} {lo hi : Composition} {axis : Nat}
    {a : Interval} (ha : axes[axis]? = some a) (hlo : lo.length = axes.length)
    (hhi : hi.length = axes.length) :
    (a.meets (lo.getD axis 0) (hi.getD axis 0) &&
      boxMeets (axes.eraseIdx axis) (lo.eraseIdx axis) (hi.eraseIdx axis)) =
      boxMeets axes lo hi := by
  induction axes generalizing lo hi axis with
  | nil => simp at ha
  | cons b axes ih =>
    obtain ⟨l, lo, rfl⟩ := List.exists_cons_of_length_eq_add_one hlo
    obtain ⟨h, hi, rfl⟩ := List.exists_cons_of_length_eq_add_one hhi
    cases axis with
    | zero =>
      obtain rfl : b = a := by simpa using ha
      simp [boxMeets]
    | succ axis =>
      have hrest := ih (by simpa using ha) (Nat.succ.inj hlo) (Nat.succ.inj hhi)
      simp only [List.eraseIdx_cons_succ, boxMeets, List.getD_cons_succ, ← hrest]
      rw [Bool.and_left_comm]

theorem lastStops_cons (dimension : Nat) (r : Region) (regions : List Region) :
    lastStops dimension (r :: regions) =
      List.zipWith max r.upperLimit (lastStops dimension regions) :=
  rfl

theorem length_lastStops {dimension : Nat} {regions : List Region}
    (h : ∀ r ∈ regions, r.axes.length = dimension) :
    (lastStops dimension regions).length = dimension := by
  induction regions with
  | nil => simp [lastStops]
  | cons r regions ih =>
    have hrest := ih fun s hs => h s (List.mem_cons_of_mem _ hs)
    simp [lastStops_cons, Region.upperLimit, hrest, h r List.mem_cons_self]

theorem stop_le_lastStops {dimension : Nat} {regions : List Region}
    (h : ∀ r ∈ regions, r.axes.length = dimension) : ∀ r ∈ regions,
      List.Forall₂ (fun a s => a.stop ≤ s) r.axes (lastStops dimension regions) := by
  induction regions with
  | nil => simp
  | cons r regions ih =>
    have hrest := fun s hs => h s (List.mem_cons_of_mem r hs)
    have hl := length_lastStops hrest
    intro s hs
    rw [lastStops_cons, List.forall₂_iff_get]
    refine ⟨by simp [Region.upperLimit, hl, h r List.mem_cons_self, h s hs], fun i hi hj => ?_⟩
    simp only [List.get_eq_getElem, List.getElem_zipWith, Region.upperLimit, List.getElem_map]
    rcases List.mem_cons.mp hs with rfl | hs
    · exact Nat.le_max_left _ _
    · have hi' : i < (lastStops dimension regions).length := by rwa [hl, ← hrest s hs]
      have hle := (List.forall₂_iff_get.mp (ih hrest s hs)).2 i hi hi'
      exact le_trans hle (Nat.le_max_right _ _)

/-- A box that reaches all stops of an axis meets no region that keeps within them. -/
theorem boxMeets_of_reachesStop {axes : List Interval} {stops lo hi : Composition}
    (hs : List.Forall₂ (fun a s => a.stop ≤ s) axes stops) (h : reachesStop lo stops = true) :
    boxMeets axes lo hi = false := by
  induction hs generalizing lo hi with
  | nil => cases lo <;> cases h
  | @cons a s axes stops ha _ ih =>
    cases lo with
    | nil => cases h
    | cons l lo =>
      cases hi with
      | nil => rfl
      | cons h' hi =>
        simp only [reachesStop, Bool.or_eq_true, decide_eq_true_eq] at h
        rcases h with h | h
        · have hlast := a.first_lt_stop
          have hmiss : a.meets l h' = false := by
            rw [Bool.eq_false_iff, Ne, Interval.meets_eq_true, Interval.last]
            omega
          simp [boxMeets, hmiss]
        · simp [boxMeets, ih h]

namespace Paving

/-- The positions of the regions that meet a box, in ascending order. -/
def meeting (p : Paving) (lo hi : Composition) : List Nat :=
  (p.regions.zipIdx.filter fun x => x.1.meets lo hi).map Prod.snd

theorem mem_meeting {p : Paving} {lo hi : Composition} {id : Nat} :
    id ∈ p.meeting lo hi ↔ ∃ r, p.regions[id]? = some r ∧ r.meets lo hi = true := by
  simp [meeting, List.mem_zipIdx_iff_getElem?]

theorem pairwise_meeting (p : Paving) (lo hi : Composition) :
    (p.meeting lo hi).Pairwise (· < ·) := by
  refine List.Pairwise.sublist (List.filter_sublist.map Prod.snd) ?_
  rw [List.zipIdx_map_snd]
  exact List.pairwise_lt_range'

/-- In the order of intervals neither bound decreases. -/
theorem Aligned.le_of_precedes {p : Paving} (hp : p.Aligned) {r s : Region} (hr : r ∈ p.regions)
    (hs : s ∈ p.regions) {axis : Nat} {a b : Interval} (ha : r.axes[axis]? = some a)
    (hb : s.axes[axis]? = some b) (h : a.precedes b = true) :
    a.first ≤ b.first ∧ a.stop ≤ b.stop := by
  rcases Interval.precedes_iff.mp h with hlt | ⟨he, hle⟩
  · have hstop := hp.stop_le_first r hr s hs axis a b ha hb hlt
    have hb := b.first_lt_stop
    exact ⟨hlt.le, by omega⟩
  · exact ⟨he.le, hle⟩

end Paving

namespace OverlapIndex

/-- The buckets are in order: of two, the later one has neither an earlier first nor an earlier last
count. -/
def Ordered (x : OverlapIndex) : Prop :=
  x.buckets.toList.Pairwise fun a b => a.1.first ≤ b.1.first ∧ a.1.stop ≤ b.1.stop

theorem Ordered.le {x : OverlapIndex} (hx : x.Ordered) {i j : Nat}
    {a b : Interval × Shelf x.others} (hij : i ≤ j) (ha : x.buckets[i]? = some a)
    (hb : x.buckets[j]? = some b) : a.1.first ≤ b.1.first ∧ a.1.stop ≤ b.1.stop := by
  rw [← Array.getElem?_toList] at ha hb
  rcases Nat.eq_or_lt_of_le hij with rfl | hlt
  · obtain rfl := Option.some.inj (ha.symm.trans hb)
    exact ⟨le_rfl, le_rfl⟩
  · obtain ⟨hi, rfl⟩ := List.getElem?_eq_some_iff.mp ha
    obtain ⟨hj, rfl⟩ := List.getElem?_eq_some_iff.mp hb
    exact List.pairwise_iff_getElem.mp hx i j hi hj hlt

theorem endsBefore_eq {x : OverlapIndex} {i : Nat} {b : Interval × Shelf x.others}
    (hb : x.buckets[i]? = some b) (n : Nat) : x.endsBefore n i = decide (b.1.last < n) := by
  simp [endsBefore, hb]

theorem beginsBy_eq {x : OverlapIndex} {i : Nat} {b : Interval × Shelf x.others}
    (hb : x.buckets[i]? = some b) (n : Nat) : x.beginsBy n i = decide (b.1.first ≤ n) := by
  simp [beginsBy, hb]

theorem exists_bucket {x : OverlapIndex} {i : Nat} (hi : i < x.buckets.size) :
    ∃ b, x.buckets[i]? = some b :=
  ⟨x.buckets[i], Array.getElem?_eq_getElem hi⟩

theorem Ordered.turnsAt_endsBefore {x : OverlapIndex} (hx : x.Ordered) (n : Nat) :
    TurnsAt (x.endsBefore n) 0 x.buckets.size
      (turningPoint (x.endsBefore n) 0 x.buckets.size) := by
  refine turnsAt_turningPoint fun i j _ hij hj hends => ?_
  obtain ⟨a, ha⟩ := @exists_bucket x i (by omega)
  obtain ⟨b, hb⟩ := @exists_bucket x j (by omega)
  have hle := hx.le hij ha hb
  rw [endsBefore_eq hb, decide_eq_true_eq, Interval.last] at hends
  rw [endsBefore_eq ha, decide_eq_true_eq, Interval.last]
  omega

theorem Ordered.turnsAt_beginsBy {x : OverlapIndex} (hx : x.Ordered) (n first : Nat) :
    TurnsAt (x.beginsBy n) first (x.buckets.size - first)
      (turningPoint (x.beginsBy n) first (x.buckets.size - first)) := by
  refine turnsAt_turningPoint fun i j _ hij hj hbegins => ?_
  obtain ⟨a, ha⟩ := @exists_bucket x i (by omega)
  obtain ⟨b, hb⟩ := @exists_bucket x j (by omega)
  have hle := hx.le hij ha hb
  rw [beginsBy_eq hb, decide_eq_true_eq] at hbegins
  rw [beginsBy_eq ha, decide_eq_true_eq]
  omega

theorem reached_eq_filter {x : OverlapIndex} (hx : x.Ordered) (lo hi : Nat) :
    x.reached lo hi = x.buckets.toList.filter fun b => b.1.meets lo hi := by
  -- Neither bound decreases from bucket to bucket, so both tests turn once, and the buckets that
  -- meet the interval stand between the two turning points.
  have hfirst := hx.turnsAt_endsBefore lo
  rw [reached]
  generalize turningPoint (x.endsBefore lo) 0 x.buckets.size = first at hfirst ⊢
  have hstop := hx.turnsAt_beginsBy hi first
  generalize turningPoint (x.beginsBy hi) first (x.buckets.size - first) = stop at hstop ⊢
  rw [Array.toList_extract]
  refine extract_eq_filter hstop.first_le fun i b hb => ?_
  rw [Array.getElem?_toList] at hb
  have hi' : i < x.buckets.size := (Array.getElem?_eq_some_iff.mp hb).1
  have hends := endsBefore_eq hb lo
  have hbegins := beginsBy_eq hb hi
  have hle := hfirst.le_stop
  rw [Interval.meets_eq_true]
  constructor
  · rintro ⟨hb₁, hb₂⟩
    have hge : first ≤ i := by
      by_contra hlt
      have h := hfirst.before i (Nat.zero_le i) (by omega)
      rw [hends, decide_eq_true_eq] at h
      omega
    refine ⟨hge, ?_⟩
    by_contra hlt
    have h := hstop.behind i (by omega) (by omega)
    rw [hbegins, decide_eq_false_iff_not] at h
    exact h hb₁
  · rintro ⟨hge, hlt⟩
    have h₁ := hstop.before i hge hlt
    have h₂ := hfirst.behind i hge (by omega)
    rw [hbegins, decide_eq_true_eq] at h₁
    rw [hends, decide_eq_false_iff_not] at h₂
    exact ⟨h₁, by omega⟩

/-- The axes of the regions with the primary one in front, along with their positions. -/
def entries (p : Paving) (primary : Nat) : List (List Interval × Nat) :=
  p.regions.zipIdx.map fun x => (primaryFirst primary x.1.axes, x.2)

/-- The index of a paving on one of its axes. -/
def onAxis (p : Paving) (primary : Nat) : OverlapIndex :=
  let buckets : List (Interval × Shelf (p.dimension - 1)) :=
    Shelf.ofRegions (p.dimension - 1 + 1) (entries p primary)
  { primary, others := p.dimension - 1, buckets := buckets.toArray
    stops := lastStops p.dimension p.regions }

theorem ofPaving_eq_ok_iff {p : Paving} {primary : Nat} {x : OverlapIndex} :
    ofPaving p primary = .ok x ↔ primary < p.dimension ∧ x = onAxis p primary := by
  unfold ofPaving
  split_ifs with h
  · simp [h]
  · simp only [Except.ok.injEq, Nat.lt_of_not_le h, true_and, eq_comm]
    rfl

variable {p : Paving} {primary : Nat}

theorem primaryFirst_eq {axes : List Interval} {a : Interval} (ha : axes[primary]? = some a) :
    primaryFirst primary axes = a :: axes.eraseIdx primary := by
  simp [primaryFirst, ha]

theorem ordered_onAxis (hp : p.Aligned) (hprimary : primary < p.dimension) :
    (onAxis p primary).Ordered := by
  have haxis : ∀ a ∈ ((entries p primary).filterMap Shelf.underFirst).map Prod.fst,
      ∃ r ∈ p.regions, r.axes[primary]? = some a := by
    intro a ha
    obtain ⟨e, he, rfl⟩ := List.mem_map.mp ha
    obtain ⟨x, hx, hu⟩ := List.mem_filterMap.mp he
    obtain ⟨⟨r, id⟩, hr, rfl⟩ := List.mem_map.mp hx
    have hmem : r ∈ p.regions := List.fst_mem_of_mem_zipIdx hr
    have hi : primary < r.axes.length := by rwa [hp.length_eq r hmem]
    refine ⟨r, hmem, ?_⟩
    have ha' := List.getElem?_eq_getElem hi
    dsimp only at hu
    rw [primaryFirst_eq ha'] at hu
    rw [ha', ← Option.some.inj hu]
  have hsubset :=
    intervals_groupByInterval_subset ((entries p primary).filterMap Shelf.underFirst)
  have hsorted := pairwise_groupByInterval ((entries p primary).filterMap Shelf.underFirst)
  rw [List.pairwise_map] at hsorted
  rw [Ordered, onAxis, Shelf.ofRegions, List.pairwise_map]
  refine hsorted.imp_of_mem fun {g h} hg hh hgh => ?_
  obtain ⟨r, hr, ha⟩ := haxis g.1 (hsubset (List.mem_map_of_mem hg))
  obtain ⟨s, hs, hb⟩ := haxis h.1 (hsubset (List.mem_map_of_mem hh))
  exact hp.le_of_precedes hr hs ha hb hgh

/-- A box that reaches all stops of an axis meets no region. -/
theorem meeting_eq_nil (hp : p.Aligned) {lo hi : Composition}
    (h : reachesStop lo (lastStops p.dimension p.regions) = true) : p.meeting lo hi = [] := by
  rw [List.eq_nil_iff_forall_not_mem]
  intro id hid
  obtain ⟨r, hrid, hm⟩ := Paving.mem_meeting.mp hid
  have hstops := stop_le_lastStops hp.length_eq r (List.mem_of_getElem? hrid)
  rw [Region.meets, boxMeets_of_reachesStop hstops h] at hm
  cases hm

/-- The entries that meet a box with the primary axis in front are the regions that meet the box. -/
theorem filter_entries (hp : p.Aligned) (hprimary : primary < p.dimension) {lo hi : Composition}
    (hlo : lo.length = p.dimension) (hhi : hi.length = p.dimension) :
    ((entries p primary).filter fun e => boxMeets e.1 (lo.getD primary 0 :: lo.eraseIdx primary)
      (hi.getD primary 0 :: hi.eraseIdx primary)).map Prod.snd = p.meeting lo hi := by
  rw [entries, List.filter_map, List.map_map, Paving.meeting]
  refine congrArg₂ _ rfl (List.filter_congr fun x hx => ?_)
  have hl := hp.length_eq x.1 (List.fst_mem_of_mem_zipIdx hx)
  have ha := List.getElem?_eq_getElem (l := x.1.axes) (hl ▸ hprimary)
  rw [Function.comp_apply, primaryFirst_eq ha, boxMeets, Region.meets]
  exact meets_and_boxMeets_eraseIdx ha (hlo.trans hl.symm) (hhi.trans hl.symm)

theorem length_entries (hp : p.Aligned) (hprimary : primary < p.dimension) :
    ∀ e ∈ entries p primary, e.1.length = p.dimension - 1 + 1 := by
  intro e he
  obtain ⟨⟨r, id⟩, hr, rfl⟩ := List.mem_map.mp he
  have hl := hp.length_eq r (List.fst_mem_of_mem_zipIdx hr)
  rw [primaryFirst_eq (List.getElem?_eq_getElem (hl ▸ hprimary)), List.length_cons,
    List.length_eraseIdx_of_lt (hl ▸ hprimary), hl]

/-- A query finds exactly the regions that meet the box. -/
theorem query_eq_meeting (hp : p.Aligned) {x : OverlapIndex} (hx : ofPaving p primary = .ok x)
    {lo hi : Composition} (hlo : lo.length = p.dimension) (hhi : hi.length = p.dimension) :
    x.query lo hi = .ok (p.meeting lo hi) := by
  obtain ⟨hprimary, rfl⟩ := ofPaving_eq_ok_iff.mp hx
  have hd : (onAxis p primary).dimension = p.dimension := Nat.sub_add_cancel (by omega)
  rw [query, if_neg (by simp [hd, hlo]), if_neg (by simp [hd, hhi])]
  by_cases hr : reachesStop lo (onAxis p primary).stops = true
  · rw [if_pos hr, meeting_eq_nil hp hr]
  · rw [if_neg hr]
    dsimp only
    congr 1
    refine mergeSort_eq_of_perm ?_ (p.pairwise_meeting lo hi)
    rw [reached_eq_filter (ordered_onAxis hp hprimary), ← filter_entries hp hprimary hlo hhi]
    have hquery : ((onAxis p primary).buckets.toList.filter fun b =>
        b.1.meets (lo.getD primary 0) (hi.getD primary 0)).flatMap (fun x =>
          x.2.query (p.dimension - 1) (lo.eraseIdx primary) (hi.eraseIdx primary)) =
        Shelf.query (p.dimension - 1 + 1) (Shelf.ofRegions _ (entries p primary))
          (lo.getD primary 0 :: lo.eraseIdx primary) (hi.getD primary 0 :: hi.eraseIdx primary) :=
      Shelf.flatMap_filter_meets ..
    refine .trans (.of_eq hquery) (Shelf.query_ofRegions_perm (length_entries hp hprimary) ?_ ?_)
    · rw [List.length_cons, List.length_eraseIdx_of_lt (hlo ▸ hprimary), hlo]
    · rw [List.length_cons, List.length_eraseIdx_of_lt (hhi ▸ hprimary), hhi]

end OverlapIndex

end ClusterDynamics
