import ClusterDynamics.Proofs.Lattice.Tiling
import ClusterDynamics.Proofs.OutOfRange

/-! An index in flat tables: the distinct intervals of the primary axis in order, beside each the
names of the regions with that interval, and the regions themselves. A query searches the intervals
for the first that does not end before the box, goes on from there until an interval begins behind
the box, and tests the other axes of each region on the way. Names are 32-bit words; where every
region has one of its own, the answer is that of `OverlapIndex`. -/

namespace ClusterDynamics

/-- So many regions have names of their own. -/
def nameLimit : Nat := 4294967296

/-- The name of the region at a position. -/
def nameOf (position : Nat) : Nat := position % nameLimit

theorem nameOf_of_lt {i : Nat} (h : i < nameLimit) : nameOf i = i :=
  Nat.mod_eq_of_lt h

/-- Order by interval, then by name. -/
def entryPrecedes (x y : Interval × Nat) : Bool :=
  if x.1 = y.1 then decide (x.2 ≤ y.2) else x.1.precedes y.1

/-- Add a name to the last of some lists. -/
def addToLast (name : Nat) : List (List Nat) → List (List Nat)
  | [] => []
  | [names] => [names ++ [name]]
  | names :: rest => names :: addToLast name rest

structure BucketIndex where
  primary : Nat
  bounds : List Interval
  members : List (List Nat)
  regions : Array Region

namespace BucketIndex

/-- Put an entry behind intervals and their names: to the last of them if it has that interval. -/
def put (tables : List Interval × List (List Nat)) (entry : Interval × Nat) :
    List Interval × List (List Nat) :=
  if tables.1.getLast? = some entry.1 then (tables.1, addToLast entry.2 tables.2)
  else (tables.1 ++ [entry.1], tables.2 ++ [[entry.2]])

/-- The interval of each region on the primary axis, with the region's name. -/
def entriesOf (p : Paving) (primary : Nat) : Except OutOfRange (List (Interval × Nat)) :=
  p.regions.zipIdx.mapM fun (r, i) => return (← entryAt r.axes.toArray primary, nameOf i)

def ofEntries (primary : Nat) (regions : Array Region) (entries : List (Interval × Nat)) :
    BucketIndex :=
  let tables := (entries.mergeSort entryPrecedes).foldl put ([], [])
  { primary, bounds := tables.1, members := tables.2, regions }

def ofPaving (p : Paving) (primary : Nat) : Except LatticeError BucketIndex :=
  if p.dimension ≤ primary then .error (.noAxis p.dimension primary)
  else do
    let entries ← (entriesOf p primary).mapError .outOfRange
    return ofEntries primary p.regions.toArray entries

/-- Whether the region of a name meets a box on all axes but the primary one. -/
def meetsBeside (x : BucketIndex) (lo hi : Composition) (name : Nat) : Except OutOfRange Bool := do
  let r ← entryAt x.regions name
  r.axes.zipIdx.allM fun (a, axis) =>
    if axis = x.primary then return true
    else return a.meets (← entryAt lo.toArray axis) (← entryAt hi.toArray axis)

/-- Put a name behind those found if its region meets the box beside the primary axis. -/
def keepMeeting (x : BucketIndex) (lo hi : Composition) (found : List Nat) (name : Nat) :
    Except OutOfRange (List Nat) := do
  if ← x.meetsBeside lo hi name then return found ++ [name] else return found

/-- The names found, and those of the regions that meet the box under the given intervals. The first
interval that begins behind the box ends the search. -/
def collect (x : BucketIndex) (lo hi : Composition) (last : Nat) :
    List Nat → List (Interval × List Nat) → Except OutOfRange (List Nat)
  | found, [] => .ok found
  | found, (a, names) :: buckets =>
    if last < a.first then .ok found
    else do x.collect lo hi last (← names.foldlM (x.keepMeeting lo hi) found) buckets

/-- The position of the first interval that does not end before a count. -/
def start (x : BucketIndex) (first : Nat) : Nat :=
  turningPoint (fun i => (x.bounds[i]?).any fun a => decide (a.last < first)) 0 x.bounds.length

def dimension (x : BucketIndex) : Nat := x.regions[0]?.elim 0 Region.dimension

/-- The names of the regions that meet the box with corners `lo` and `hi`, both included, in
ascending order. -/
def query (x : BucketIndex) (lo hi : Composition) : Except LatticeError (List Nat) :=
  if lo.length ≠ x.dimension then .error (.axisMismatch x.dimension lo.length)
  else if hi.length ≠ x.dimension then .error (.axisMismatch x.dimension hi.length)
  else Except.mapError .outOfRange do
    let first ← entryAt lo.toArray x.primary
    let last ← entryAt hi.toArray x.primary
    let names ← x.collect lo hi last []
      ((x.bounds.drop (x.start first)).zip (x.members.drop (x.start first)))
    return names.mergeSort fun a b => decide (a ≤ b)

/-- The name of the region that holds a composition, if there is one. -/
def find? (x : BucketIndex) (c : Composition) : Option Nat :=
  match x.query c c with
  | .ok (name :: _) => some name
  | _ => none

end BucketIndex

section Order

theorem entryPrecedes_iff {x y : Interval × Nat} : entryPrecedes x y = true ↔
    x.1.first < y.1.first ∨ x.1.first = y.1.first ∧
      (x.1.stop < y.1.stop ∨ x.1.stop = y.1.stop ∧ x.2 ≤ y.2) := by
  have heq : x.1 = y.1 ↔ x.1.first = y.1.first ∧ x.1.stop = y.1.stop := by
    obtain ⟨⟨a, b, hab⟩, i⟩ := x
    obtain ⟨⟨c, d, hcd⟩, j⟩ := y
    simp
  rw [entryPrecedes]
  split_ifs with h
  · rw [heq] at h
    simp [h]
  · rw [heq] at h
    rw [Interval.precedes_iff]
    omega

theorem entryPrecedes_trans (x y z : Interval × Nat) (hxy : entryPrecedes x y = true)
    (hyz : entryPrecedes y z = true) : entryPrecedes x z = true := by
  rw [entryPrecedes_iff] at *
  omega

theorem entryPrecedes_total (x y : Interval × Nat) :
    (entryPrecedes x y || entryPrecedes y x) = true := by
  rw [Bool.or_eq_true, entryPrecedes_iff, entryPrecedes_iff]
  omega

theorem precedes_of_entryPrecedes {x y : Interval × Nat} (h : entryPrecedes x y = true) :
    x.1.precedes y.1 = true := by
  rw [entryPrecedes_iff] at h
  rw [Interval.precedes_iff]
  omega

end Order

theorem addToLast_append (name : Nat) (names : List Nat) (lists : List (List Nat)) :
    addToLast name (lists ++ [names]) = lists ++ [names ++ [name]] := by
  induction lists with
  | nil => rfl
  | cons names' lists ih =>
    have hstep : addToLast name (names' :: (lists ++ [names])) =
        names' :: addToLast name (lists ++ [names]) := by
      cases lists <;> rfl
    rw [List.cons_append, hstep, ih, List.cons_append]

theorem ungroup_append {α : Type} (gs hs : List (Interval × List α)) :
    ungroup (gs ++ hs) = ungroup gs ++ ungroup hs :=
  List.flatMap_append

namespace BucketIndex

/-- The tables hold some entries in order, each interval once in a row. -/
structure Hold (tables : List Interval × List (List Nat)) (entries : List (Interval × Nat)) :
    Prop where
  length_eq : tables.1.length = tables.2.length
  ungroup_eq : ungroup (tables.1.zip tables.2) = entries
  sublist : tables.1.Sublist (entries.map Prod.fst)

theorem Hold.put {tables : List Interval × List (List Nat)} {entries : List (Interval × Nat)}
    (h : Hold tables entries) (entry : Interval × Nat) :
    Hold (put tables entry) (entries ++ [entry]) := by
  obtain ⟨bounds, members⟩ := tables
  obtain ⟨hlength, hungroup, hsublist⟩ := h
  dsimp only at hlength hungroup hsublist
  rw [BucketIndex.put]
  dsimp only
  split_ifs with hlast
  · obtain ⟨bounds, rfl⟩ := List.getLast?_eq_some_iff.mp hlast
    obtain ⟨members, names, rfl⟩ := List.eq_nil_or_concat' members |>.resolve_left (by
      rintro rfl
      simp at hlength)
    have hlength' : bounds.length = members.length := by simpa using hlength
    refine ⟨?_, ?_, ?_⟩
    · simpa [addToLast_append] using hlength
    · rw [← hungroup, addToLast_append, List.zip_append hlength', List.zip_append hlength',
        ungroup_append, ungroup_append, List.append_assoc]
      simp [ungroup]
    · rw [List.map_append]
      exact hsublist.trans (List.sublist_append_left _ _)
  · refine ⟨?_, ?_, ?_⟩
    · simpa using hlength
    · rw [List.zip_append hlength, ungroup_append, hungroup]
      rfl
    · rw [List.map_append]
      exact hsublist.append (List.Sublist.refl _)

/-- The tables after a pass over some entries hold them. -/
theorem hold_foldl (entries : List (Interval × Nat)) : Hold (entries.foldl put ([], [])) entries := by
  induction entries using List.reverseRecOn with
  | nil => exact ⟨rfl, rfl, .slnil⟩
  | append_singleton entries entry ih =>
    rw [List.foldl_append]
    exact ih.put entry

/-- What an index holds of a paving: beside each interval of the primary axis, in order, the regions
with that interval, each region once. -/
structure Indexes (x : BucketIndex) (p : Paving) : Prop where
  regions_eq : x.regions = p.regions.toArray
  primary_lt : x.primary < p.dimension
  length_eq : x.bounds.length = x.members.length
  ordered : x.bounds.Pairwise fun a b => a.first ≤ b.first ∧ a.stop ≤ b.stop
  mem_iff : ∀ a i, (a, i) ∈ ungroup (x.bounds.zip x.members) ↔
    ∃ r, p.regions[i]? = some r ∧ r.axes[x.primary]? = some a
  nodup : ((ungroup (x.bounds.zip x.members)).map Prod.snd).Nodup

variable {p : Paving} {primary : Nat} {x : BucketIndex} {lo hi : Composition}

theorem exists_entriesOf (hp : p.Aligned) (hprimary : primary < p.dimension)
    (hsize : p.size ≤ nameLimit) : ∃ entries, entriesOf p primary = .ok entries ∧
      List.Forall₂ (fun x e => x.1.axes[primary]? = some e.1 ∧ x.2 = e.2) p.regions.zipIdx
        entries := by
  refine exists_mapM_eq_ok ?_
  rintro ⟨r, i⟩ hri
  have hr := List.mem_zipIdx_iff_getElem?.mp hri
  have hi : i < nameLimit := (List.getElem?_eq_some_iff.mp hr).1.trans_le hsize
  have haxis : primary < r.axes.length := by rwa [hp.length_eq r (List.mem_of_getElem? hr)]
  have hentry : entryAt r.axes.toArray primary = .ok r.axes[primary] :=
    entryAt_eq_ok_iff.mpr (by simp [haxis])
  refine ⟨(r.axes[primary], i), ?_, List.getElem?_eq_getElem haxis, rfl⟩
  dsimp only
  rw [hentry, ok_bind, nameOf_of_lt hi]
  rfl

theorem exists_indexes (hp : p.Aligned) (hprimary : primary < p.dimension)
    (hsize : p.size ≤ nameLimit) :
    ∃ x, ofPaving p primary = .ok x ∧ x.primary = primary ∧ x.Indexes p := by
  obtain ⟨entries, hentries, hregions⟩ := exists_entriesOf hp hprimary hsize
  have hofPaving : ofPaving p primary = .ok (ofEntries primary p.regions.toArray entries) := by
    rw [ofPaving, if_neg (Nat.not_le_of_lt hprimary), hentries]
    rfl
  have hperm := List.mergeSort_perm entries entryPrecedes
  have hhold := hold_foldl (entries.mergeSort entryPrecedes)
  have hungroup : ungroup ((ofEntries primary p.regions.toArray entries).bounds.zip
      (ofEntries primary p.regions.toArray entries).members) =
      entries.mergeSort entryPrecedes := hhold.ungroup_eq
  refine ⟨_, hofPaving, rfl, ?_⟩
  constructor
  case regions_eq => rfl
  case primary_lt => exact hprimary
  case length_eq => exact hhold.length_eq
  case ordered =>
    have hsorted : (entries.mergeSort entryPrecedes).Pairwise fun x y =>
        x.1.first ≤ y.1.first ∧ x.1.stop ≤ y.1.stop := by
      refine (List.pairwise_mergeSort entryPrecedes_trans entryPrecedes_total entries).imp_of_mem
        fun {x y} hx hy hxy => ?_
      obtain ⟨⟨r, i⟩, hr, hrx, -⟩ := exists_mem_of_forall₂ hregions.flip (hperm.mem_iff.mp hx)
      obtain ⟨⟨s, j⟩, hs, hsy, -⟩ := exists_mem_of_forall₂ hregions.flip (hperm.mem_iff.mp hy)
      exact hp.le_of_precedes (List.fst_mem_of_mem_zipIdx hr) (List.fst_mem_of_mem_zipIdx hs) hrx
        hsy (precedes_of_entryPrecedes hxy)
    exact (List.pairwise_map.mpr hsorted).sublist hhold.sublist
  case mem_iff =>
    intro a i
    rw [hungroup, hperm.mem_iff]
    constructor
    · intro ha
      obtain ⟨⟨r, j⟩, hr, hra, rfl⟩ := exists_mem_of_forall₂ hregions.flip ha
      exact ⟨r, List.mem_zipIdx_iff_getElem?.mp hr, hra⟩
    · rintro ⟨r, hr, hra⟩
      have hri : (r, i) ∈ p.regions.zipIdx := List.mem_zipIdx_iff_getElem?.mpr hr
      obtain ⟨⟨b, j⟩, hb, hrb, rfl⟩ := exists_mem_of_forall₂ hregions hri
      rwa [Option.some.inj (hra.symm.trans hrb)]
  case nodup =>
    rw [hungroup, (hperm.map Prod.snd).nodup_iff,
      map_eq_map_of_forall₂ hregions fun x e hxe => hxe.2.symm, List.zipIdx_map_snd]
    exact List.nodup_range'

/-- Whether a region meets a box on all axes but one. -/
def boxMeetsBeside (primary : Nat) (axes : List Interval) (lo hi : Composition) : Bool :=
  axes.zipIdx.all fun (a, axis) => axis == primary || a.meets (lo.getD axis 0) (hi.getD axis 0)

theorem meets_and_boxMeetsBeside {axes : List Interval} {a : Interval}
    (ha : axes[primary]? = some a) (hlo : lo.length = axes.length) (hhi : hi.length = axes.length) :
    (a.meets (lo.getD primary 0) (hi.getD primary 0) && boxMeetsBeside primary axes lo hi) =
      boxMeets axes lo hi := by
  rw [Bool.eq_iff_iff, Bool.and_eq_true, boxMeets_iff hlo hhi, boxMeetsBeside, List.all_eq_true]
  simp only [Prod.forall, List.mem_zipIdx_iff_getElem?, Bool.or_eq_true, beq_iff_eq]
  constructor
  · rintro ⟨hprimary, hothers⟩ axis b hb
    rcases hothers b axis hb with rfl | hmeets
    · rwa [← Option.some.inj (ha.symm.trans hb)]
    · exact hmeets
  · intro hall
    exact ⟨hall primary a ha, fun b axis hb => .inr (hall axis b hb)⟩

/-- Whether the region at a position meets a box on all axes but one. -/
def meetsAtBeside (p : Paving) (primary : Nat) (lo hi : Composition) (i : Nat) : Bool :=
  p.regions[i]?.any fun r => boxMeetsBeside primary r.axes lo hi

theorem allM_eq_ok {ε α : Type} {f : α → Except ε Bool} {q : α → Bool} {xs : List α}
    (h : ∀ x ∈ xs, f x = .ok (q x)) : xs.allM f = .ok (xs.all q) := by
  induction xs with
  | nil => rfl
  | cons x xs ih =>
    rw [List.allM, h x List.mem_cons_self, ok_bind, List.all_cons]
    cases q x with
    | true => exact ih fun y hy => h y (List.mem_cons_of_mem _ hy)
    | false => rfl

theorem entryAt_toArray {n : Composition} {axis : Nat} (h : axis < n.length) :
    entryAt n.toArray axis = .ok (n.getD axis 0) :=
  entryAt_eq_ok_iff.mpr (by simp [h])

namespace Indexes

theorem meetsBeside_eq (h : x.Indexes p) (hp : p.Aligned) (hlo : lo.length = p.dimension)
    (hhi : hi.length = p.dimension) {i : Nat} {r : Region} (hr : p.regions[i]? = some r) :
    x.meetsBeside lo hi i = .ok (meetsAtBeside p x.primary lo hi i) := by
  have hentry : entryAt x.regions i = .ok r := entryAt_eq_ok_iff.mpr (by simp [h.regions_eq, hr])
  rw [meetsBeside, hentry, ok_bind, meetsAtBeside, hr]
  refine allM_eq_ok ?_
  rintro ⟨a, axis⟩ ha
  have haxis : axis < r.axes.length :=
    (List.getElem?_eq_some_iff.mp (List.mem_zipIdx_iff_getElem?.mp ha)).1
  rw [hp.length_eq r (List.mem_of_getElem? hr)] at haxis
  dsimp only
  by_cases hprimary : axis = x.primary
  · rw [if_pos hprimary, hprimary]
    simp [pure, Except.pure]
  · rw [if_neg hprimary, entryAt_toArray (hlo ▸ haxis), ok_bind, entryAt_toArray (hhi ▸ haxis),
      ok_bind]
    simp [pure, Except.pure, hprimary]

/-- The names of the regions that meet a box, by their entries. -/
theorem mem_meeting_iff (h : x.Indexes p) (hp : p.Aligned) (hlo : lo.length = p.dimension)
    (hhi : hi.length = p.dimension) {i : Nat} : i ∈ p.meeting lo hi ↔
      ∃ a, (a, i) ∈ ungroup (x.bounds.zip x.members) ∧
        a.meets (lo.getD x.primary 0) (hi.getD x.primary 0) = true ∧
        meetsAtBeside p x.primary lo hi i = true := by
  have hregion : ∀ {a r}, p.regions[i]? = some r → r.axes[x.primary]? = some a →
      (r.meets lo hi = true ↔ a.meets (lo.getD x.primary 0) (hi.getD x.primary 0) = true ∧
        meetsAtBeside p x.primary lo hi i = true) := by
    intro a r hr ha
    have hlength := hp.length_eq r (List.mem_of_getElem? hr)
    rw [Region.meets, ← meets_and_boxMeetsBeside ha (hlo.trans hlength.symm)
      (hhi.trans hlength.symm), Bool.and_eq_true, meetsAtBeside, hr]
    rfl
  rw [Paving.mem_meeting]
  constructor
  · rintro ⟨r, hr, hmeets⟩
    have haxis : x.primary < r.axes.length := by
      rw [hp.length_eq r (List.mem_of_getElem? hr)]
      exact h.primary_lt
    have ha := List.getElem?_eq_getElem haxis
    exact ⟨_, (h.mem_iff _ i).mpr ⟨r, hr, ha⟩, (hregion hr ha).mp hmeets⟩
  · rintro ⟨a, ha, hmeets⟩
    obtain ⟨r, hr, hra⟩ := (h.mem_iff a i).mp ha
    exact ⟨r, hr, (hregion hr hra).mpr hmeets⟩

/-- What the names of a bucket add to those found, if all of them are in the index. -/
theorem foldlM_keepMeeting {q : Nat → Bool} {names : List Nat}
    (h : ∀ i ∈ names, x.meetsBeside lo hi i = .ok (q i)) (found : List Nat) :
    names.foldlM (x.keepMeeting lo hi) found = .ok (found ++ names.filter q) := by
  induction names generalizing found with
  | nil => simp [pure, Except.pure]
  | cons i names ih =>
    have hrest := ih fun j hj => h j (List.mem_cons_of_mem _ hj)
    have hkeep : x.keepMeeting lo hi found i = .ok (found ++ if q i then [i] else []) := by
      rw [keepMeeting, h i List.mem_cons_self, ok_bind]
      cases q i <;> simp [pure, Except.pure]
    rw [List.foldlM_cons, hkeep, ok_bind, hrest, List.append_assoc]
    cases hq : q i <;> simp [hq]

/-- Behind the first interval that begins behind the box there are only others that do. -/
theorem collect_eq {q : Nat → Bool} {last : Nat} {buckets : List (Interval × List Nat)}
    (hsorted : buckets.Pairwise fun g h => g.1.first ≤ h.1.first)
    (h : ∀ e ∈ ungroup buckets, x.meetsBeside lo hi e.2 = .ok (q e.2)) (found : List Nat) :
    x.collect lo hi last found buckets = .ok (found ++
      ((ungroup buckets).filter fun e => decide (e.1.first ≤ last) && q e.2).map Prod.snd) := by
  induction buckets generalizing found with
  | nil => simp [collect, ungroup]
  | cons g buckets ih =>
    obtain ⟨a, names⟩ := g
    rw [List.pairwise_cons] at hsorted
    rw [collect]
    by_cases hlast : last < a.first
    · have hnone : (ungroup ((a, names) :: buckets)).filter
          (fun e => decide (e.1.first ≤ last) && q e.2) = [] := by
        rw [List.filter_eq_nil_iff]
        intro e he
        obtain ⟨g, hg, he⟩ := List.mem_flatMap.mp he
        obtain ⟨i, -, rfl⟩ := List.mem_map.mp he
        have hle : a.first ≤ g.1.first := by
          rcases List.mem_cons.mp hg with rfl | hg
          · exact le_rfl
          · exact hsorted.1 g hg
        simp [Nat.lt_of_lt_of_le hlast hle]
      rw [if_pos hlast, hnone, List.map_nil, List.append_nil]
    · have hsplit : ungroup ((a, names) :: buckets) = names.map (a, ·) ++ ungroup buckets :=
        List.flatMap_cons
      have hhere : ∀ i ∈ names, x.meetsBeside lo hi i = .ok (q i) := by
        intro i hi
        refine h (a, i) ?_
        rw [hsplit]
        exact List.mem_append_left _ (List.mem_map_of_mem hi)
      have hrest : ∀ e ∈ ungroup buckets, x.meetsBeside lo hi e.2 = .ok (q e.2) := by
        intro e he
        refine h e ?_
        rw [hsplit]
        exact List.mem_append_right _ he
      rw [if_neg hlast, foldlM_keepMeeting hhere, ok_bind, ih hsorted.2 hrest, hsplit,
        List.filter_append, List.map_append, List.append_assoc, List.filter_map, List.map_map]
      simp [Function.comp_def, Nat.le_of_not_lt hlast]

/-- The intervals before the start of a search end before the box, and the others do not. -/
theorem turnsAt_start (h : x.Indexes p) (first : Nat) :
    (∀ a ∈ x.bounds.take (x.start first), a.last < first) ∧
      ∀ a ∈ x.bounds.drop (x.start first), first ≤ a.last := by
  have hturn : TurnsAt (fun i => (x.bounds[i]?).any fun a => decide (a.last < first)) 0
      x.bounds.length (x.start first) := by
    refine turnsAt_turningPoint fun i j _ hij hj hends => ?_
    have hj' : j < x.bounds.length := by omega
    have hi' : i < x.bounds.length := by omega
    rw [List.getElem?_eq_getElem hj', Option.any_some, decide_eq_true_eq, Interval.last] at hends
    rw [List.getElem?_eq_getElem hi', Option.any_some, decide_eq_true_eq, Interval.last]
    rcases Nat.eq_or_lt_of_le hij with rfl | hlt
    · exact hends
    · have hle := List.pairwise_iff_getElem.mp h.ordered i j hi' hj' hlt
      omega
  constructor
  · intro a ha
    obtain ⟨i, hi⟩ := List.mem_iff_getElem?.mp ha
    rw [List.getElem?_take] at hi
    split_ifs at hi with hlt
    have hends := hturn.before i (Nat.zero_le i) hlt
    rwa [hi, Option.any_some, decide_eq_true_eq] at hends
  · intro a ha
    obtain ⟨i, hi⟩ := List.mem_iff_getElem?.mp ha
    rw [List.getElem?_drop] at hi
    have hlt := (List.getElem?_eq_some_iff.mp hi).1
    have hends := hturn.behind (x.start first + i) (Nat.le_add_right _ _) (by omega)
    rw [hi, Option.any_some, decide_eq_false_iff_not] at hends
    exact Nat.le_of_not_lt hends

theorem dimension_eq (h : x.Indexes p) (hp : p.Aligned) (hne : p.regions ≠ []) :
    x.dimension = p.dimension := by
  obtain ⟨r, regions, hregions⟩ := List.exists_cons_of_ne_nil hne
  rw [← hp.length_eq r (hregions ▸ List.mem_cons_self), dimension, h.regions_eq, hregions]
  rfl

theorem ungroup_split (h : x.Indexes p) (n : Nat) : ungroup (x.bounds.zip x.members) =
    ungroup ((x.bounds.take n).zip (x.members.take n)) ++
      ungroup ((x.bounds.drop n).zip (x.members.drop n)) := by
  have hlength : (x.bounds.take n).length = (x.members.take n).length := by
    rw [List.length_take, List.length_take, h.length_eq]
  rw [← ungroup_append, ← List.zip_append hlength, List.take_append_drop, List.take_append_drop]

theorem pairwise_drop (h : x.Indexes p) (n : Nat) :
    ((x.bounds.drop n).zip (x.members.drop n)).Pairwise fun g g' => g.1.first ≤ g'.1.first := by
  have hlength : (x.bounds.drop n).length ≤ (x.members.drop n).length := by
    rw [List.length_drop, List.length_drop, h.length_eq]
  have hbounds : (((x.bounds.drop n).zip (x.members.drop n)).map Prod.fst).Pairwise
      fun a b => a.first ≤ b.first := by
    rw [List.map_fst_zip hlength]
    exact (h.ordered.sublist (List.drop_sublist _ _)).imp And.left
  rw [List.pairwise_map] at hbounds
  exact hbounds

theorem mem_bounds_of_mem_ungroup {bounds : List Interval} {members : List (List Nat)}
    {e : Interval × Nat} (h : e ∈ ungroup (bounds.zip members)) : e.1 ∈ bounds := by
  obtain ⟨⟨a, names⟩, hg, he⟩ := List.mem_flatMap.mp h
  obtain ⟨i, -, rfl⟩ := List.mem_map.mp he
  exact (List.of_mem_zip hg).1

/-- The names that the search collects are those of the regions that meet the box. -/
theorem exists_collect (h : x.Indexes p) (hp : p.Aligned) (hlo : lo.length = p.dimension)
    (hhi : hi.length = p.dimension) :
    ∃ names, x.collect lo hi (hi.getD x.primary 0) []
        ((x.bounds.drop (x.start (lo.getD x.primary 0))).zip
          (x.members.drop (x.start (lo.getD x.primary 0)))) = .ok names ∧
      names.Perm (p.meeting lo hi) := by
  obtain ⟨hbefore, hbehind⟩ := h.turnsAt_start (lo.getD x.primary 0)
  have hsplit := h.ungroup_split (x.start (lo.getD x.primary 0))
  generalize x.start (lo.getD x.primary 0) = start at *
  have hmem : ∀ e ∈ ungroup ((x.bounds.drop start).zip (x.members.drop start)),
      e ∈ ungroup (x.bounds.zip x.members) := by
    intro e he
    rw [hsplit]
    exact List.mem_append_right _ he
  have htests : ∀ e ∈ ungroup ((x.bounds.drop start).zip (x.members.drop start)),
      x.meetsBeside lo hi e.2 = .ok (meetsAtBeside p x.primary lo hi e.2) := by
    intro e he
    obtain ⟨r, hr, -⟩ := (h.mem_iff e.1 e.2).mp (hmem e he)
    exact h.meetsBeside_eq hp hlo hhi hr
  refine ⟨_, collect_eq (h.pairwise_drop start) htests [], ?_⟩
  rw [List.nil_append]
  refine (List.perm_ext_iff_of_nodup ?_ ?_).mpr fun i => ?_
  · refine h.nodup.sublist ?_
    rw [hsplit, List.map_append]
    exact (List.filter_sublist.map _).trans (List.sublist_append_right _ _)
  · exact (p.pairwise_meeting lo hi).imp Nat.ne_of_lt
  · rw [h.mem_meeting_iff hp hlo hhi, List.mem_map]
    constructor
    · rintro ⟨⟨a, j⟩, ha, rfl⟩
      obtain ⟨ha, hmeets⟩ := List.mem_filter.mp ha
      rw [Bool.and_eq_true, decide_eq_true_eq] at hmeets
      have hlast := hbehind a (mem_bounds_of_mem_ungroup ha)
      exact ⟨a, hmem _ ha, Interval.meets_eq_true.mpr ⟨hmeets.1, hlast⟩, hmeets.2⟩
    · rintro ⟨a, ha, hmeets, hbeside⟩
      obtain ⟨hfirst, hlast⟩ := Interval.meets_eq_true.mp hmeets
      rw [hsplit, List.mem_append] at ha
      have hdropped := ha.resolve_left fun htaken =>
        Nat.not_lt_of_le hlast (hbefore _ (mem_bounds_of_mem_ungroup htaken))
      refine ⟨_, List.mem_filter.mpr ⟨hdropped, ?_⟩, rfl⟩
      rw [Bool.and_eq_true, decide_eq_true_eq]
      exact ⟨hfirst, hbeside⟩

theorem query_eq_meeting (h : x.Indexes p) (hp : p.Aligned) (hne : p.regions ≠ [])
    (hlo : lo.length = p.dimension) (hhi : hi.length = p.dimension) :
    x.query lo hi = .ok (p.meeting lo hi) := by
  obtain ⟨names, hnames, hperm⟩ := h.exists_collect hp hlo hhi
  have hdimension := h.dimension_eq hp hne
  rw [query, if_neg (by simp [hdimension, hlo]), if_neg (by simp [hdimension, hhi]),
    entryAt_toArray (hlo ▸ h.primary_lt), ok_bind, entryAt_toArray (hhi ▸ h.primary_lt), ok_bind,
    hnames, ok_bind]
  exact congrArg Except.ok (mergeSort_eq_of_perm hperm (p.pairwise_meeting lo hi))

end Indexes

/-- Both indexes of a paving give the same answers, whatever the lengths of the corners. -/
theorem exists_query_eq (hp : p.Aligned) (hne : p.regions ≠ []) (hsize : p.size ≤ nameLimit)
    {y : OverlapIndex} (hy : OverlapIndex.ofPaving p primary = .ok y) :
    ∃ x, ofPaving p primary = .ok x ∧ x.query = y.query ∧ x.find? = y.find? := by
  obtain ⟨hprimary, -⟩ := OverlapIndex.ofPaving_eq_ok_iff.mp hy
  obtain ⟨x, hx, -, h⟩ := exists_indexes hp hprimary hsize
  have hdimension := h.dimension_eq hp hne
  have hquery : x.query = y.query := by
    funext lo hi
    by_cases hlo : lo.length = p.dimension
    · by_cases hhi : hi.length = p.dimension
      · rw [h.query_eq_meeting hp hne hlo hhi, OverlapIndex.query_eq_meeting hp hy hlo hhi]
      · rw [OverlapIndex.query_of_length_hi hy hlo hhi, query, if_neg (by simp [hdimension, hlo]),
          if_pos (by simpa [hdimension] using hhi), hdimension]
    · rw [OverlapIndex.query_of_length_lo hy hlo, query, if_pos (by simpa [hdimension] using hlo),
        hdimension]
  refine ⟨x, hx, hquery, funext fun c => ?_⟩
  rcases hanswer : y.query c c with e | (_ | ⟨i, ids⟩) <;>
    simp [find?, OverlapIndex.find?, hquery, hanswer]

end BucketIndex

namespace OverlapIndex

variable {axes : List Axis} {p : Paving} {primary : Nat}

/-- However a paving was cut off since its construction, an index on any of its axes answers a query
with exactly the regions whose interval meets the box on every axis, in ascending order, and with an
error if a corner has another number of axes. Where nothing was cut off since, a composition is
found if and only if it is one of the box other than the empty cluster, and it is in the region that
is found. The index in flat tables answers alike. Counts are bounded by `countLimit`, and every
region has a name of its own. -/
theorem query_tileAll (hbound : ∀ a ∈ axes, a.groupMin ≤ countLimit)
    (h : Paving.ofAxes? axes = .ok p) (hsize : p.size ≤ nameLimit) (passes : List (Nat × Nat))
    (hprimary : primary < p.dimension) :
    (∃ x, ofPaving (p.tileAll passes) primary = .ok x ∧
      (∃ y, BucketIndex.ofPaving (p.tileAll passes) primary = .ok y ∧ y.query = x.query) ∧
      (∀ lo hi : Composition, lo.length = p.dimension → hi.length = p.dimension →
        ∃ ids, x.query lo hi = .ok ids ∧ ids.Pairwise (· < ·) ∧
          ∀ id, id ∈ ids ↔ ∃ r, (p.tileAll passes).regions[id]? = some r ∧
            ∀ (axis : Nat) (a : Interval), r.axes[axis]? = some a →
              a.meets (lo.getD axis 0) (hi.getD axis 0) = true) ∧
      (∀ lo hi : Composition, lo.length ≠ p.dimension →
        x.query lo hi = .error (.axisMismatch p.dimension lo.length)) ∧
      ∀ lo hi : Composition, lo.length = p.dimension → hi.length ≠ p.dimension →
        x.query lo hi = .error (.axisMismatch p.dimension hi.length)) ∧
    ∃ x, ofPaving p primary = .ok x ∧
      (∃ y, BucketIndex.ofPaving p primary = .ok y ∧ y.find? = x.find?) ∧ ∀ c : Composition,
      ((∃ id, x.find? c = some id) ↔ InBox (axes.map Axis.max) c ∧ ∃ n ∈ c, n ≠ 0) ∧
        ∀ id, x.find? c = some id → ∃ r, p.regions[id]? = some r ∧ r.contains c = true := by
  have hp := Paving.ofAxes_of_ofAxes? h
  have haligned := Paving.Aligned.of_ofAxes hp
  have hne := Paving.regions_ne_nil_of_ofAxes hp
  constructor
  · have htiled := haligned.tileAll passes
    have hdimension := p.dimension_tileAll passes
    have hx := ofPaving_eq_ok_iff.mpr ⟨hprimary.trans_eq hdimension.symm, rfl⟩
    have hsize' := p.size_tileAll passes
    have hne' : (p.tileAll passes).regions ≠ [] :=
      List.ne_nil_of_length_pos ((List.length_pos_iff.mpr hne).trans_eq hsize'.symm)
    obtain ⟨y, hy, hquery, -⟩ :=
      BucketIndex.exists_query_eq htiled hne' (hsize'.trans_le hsize) hx
    rw [← hdimension]
    refine ⟨_, hx, ⟨y, hy, hquery⟩, fun lo hi hlo hhi => ?_, fun lo hi hlo => query_of_length_lo hx hlo,
      fun lo hi hlo hhi => query_of_length_hi hx hlo hhi⟩
    refine ⟨_, query_eq_meeting htiled hx hlo hhi, Paving.pairwise_meeting _ lo hi, fun id => ?_⟩
    rw [Paving.mem_meeting]
    exact exists_congr fun r => and_congr_right fun hr =>
      htiled.meets_iff (List.mem_of_getElem? hr) hlo hhi
  · have hs := Paving.sound_of_ofAxes hbound hp
    have hx := ofPaving_eq_ok_iff.mpr ⟨hprimary, rfl⟩
    obtain ⟨y, hy, -, hfind⟩ := BucketIndex.exists_query_eq haligned hne hsize hx
    refine ⟨_, hx, ⟨y, hy, hfind⟩, fun c => ⟨⟨?_, ?_⟩, fun id hid => contains_of_find? haligned hx hid⟩⟩
    · rintro ⟨id, hid⟩
      obtain ⟨r, hr, hc⟩ := contains_of_find? haligned hx hid
      exact Paving.inBox_of_contains hs hp (List.mem_of_getElem? hr) hc
    · rintro ⟨hbox, hne⟩
      obtain ⟨id, r, hr, hc⟩ := (Paving.existsUnique_region hs hp hbox hne).exists
      exact exists_find? haligned hx (List.mem_of_getElem? hr) hc

/-- A pass that ends at the second region: the run of one and two vacancies is cut off without helium
and whole with it, so only the latter holds two vacancies. -/
theorem query_tileAll_stopped :
    let p : Paving := ⟨[⟨[⟨0, 1, by omega⟩, ⟨1, 3, by omega⟩], by simp⟩,
      ⟨[⟨0, 1, by omega⟩, ⟨3, 4, by omega⟩], by simp⟩,
      ⟨[⟨1, 2, by omega⟩, ⟨0, 1, by omega⟩], by simp⟩,
      ⟨[⟨1, 2, by omega⟩, ⟨1, 3, by omega⟩], by simp⟩,
      ⟨[⟨1, 2, by omega⟩, ⟨3, 4, by omega⟩], by simp⟩], [.helium, .vacancy], [1, 3]⟩
    Paving.ofAxes? [⟨.helium, 1, 2, 1⟩, ⟨.vacancy, 3, 1, 2⟩] = .ok p ∧
      (p.tile 1 2).2 = .error (.degenerateInterval 3 2) ∧
      ∃ x ids, ofPaving (p.tileAll [(1, 2)]) 1 = .ok x ∧
        x.query [0, 2] [1, 2] = .ok ids ∧ 3 ∈ ids ∧ 0 ∉ ids := by
  intro p
  have hp : Paving.ofAxes? [⟨.helium, 1, 2, 1⟩, ⟨.vacancy, 3, 1, 2⟩] = .ok p := by decide +kernel
  obtain ⟨⟨x, hx, -, hquery, -⟩, -⟩ := query_tileAll (by decide) hp (by decide) [(1, 2)]
    (show 1 < p.dimension by decide)
  obtain ⟨ids, hids, -, hmem⟩ := hquery [0, 2] [1, 2] rfl rfl
  refine ⟨hp, rfl, x, ids, hx, hids, (hmem 3).mpr ⟨_, rfl, ?_⟩, fun h => ?_⟩
  · rintro (_ | _ | axis) a ha
    · obtain rfl := Option.some.inj ha
      decide
    · obtain rfl := Option.some.inj ha
      decide
    · cases ha
  · obtain ⟨r, hr, hmeets⟩ := (hmem 0).mp h
    obtain rfl := Option.some.inj hr
    exact absurd (hmeets 1 _ rfl) (by decide)

end OverlapIndex

end ClusterDynamics
