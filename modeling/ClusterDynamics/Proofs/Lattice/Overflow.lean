import ClusterDynamics.Lattice.Overflow
import ClusterDynamics.Proofs.Lattice.Construction

/-! When the box of the sums of two regions comes out exact. With checks it does whenever it comes
out at all, and it does so if twice the bound behind the largest count is a count on each axis.
Without checks it always comes out, and exact if twice the largest count itself is a count. -/

namespace ClusterDynamics

/-- The smallest sums of a composition of `r` and one of `s`. -/
def leastSums (r s : Region) : Composition :=
  List.zipWith (fun a b => a.first + b.first) r.axes s.axes

/-- The largest sums of a composition of `r` and one of `s`. -/
def greatestSums (r s : Region) : Composition :=
  List.zipWith (fun a b => a.last + b.last) r.axes s.axes

namespace Overflow

/-- Sums of counts up to `max` come out exact. -/
def Fits : Overflow → Nat → Prop
  | checked, max => 2 * (max + 1) ≤ countLimit
  | wrapping, max => 2 * max ≤ countLimit

instance : (o : Overflow) → (max : Nat) → Decidable (o.Fits max)
  | checked, max => inferInstanceAs (Decidable (2 * (max + 1) ≤ countLimit))
  | wrapping, max => inferInstanceAs (Decidable (2 * max ≤ countLimit))

/-- The box of the sums of any two regions comes out. -/
def CompleteOn (o : Overflow) (p : Paving) : Prop :=
  ∀ (i j : Nat) (r s : Region), i ≤ j → p.regions[i]? = some r → p.regions[j]? = some s →
    ∃ box, sumBox o r s = .ok box

/-- The box of the sums of any two regions comes out exact. -/
def ExactOn (o : Overflow) (p : Paving) : Prop :=
  ∀ (i j : Nat) (r s : Region), i ≤ j → p.regions[i]? = some r → p.regions[j]? = some s →
    sumBox o r s = .ok (leastSums r s, greatestSums r s)

theorem ExactOn.completeOn {o : Overflow} {p : Paving} (h : o.ExactOn p) : o.CompleteOn p :=
  fun i j r s hij hr hs => ⟨_, h i j r s hij hr hs⟩

variable {o : Overflow} {m n k max : Nat}

theorem add_eq_ok (h : m + n ≤ countLimit) : o.add m n = .ok (m + n) :=
  if_pos h

theorem add_checked_eq_ok_iff :
    checked.add m n = .ok k ↔ k = m + n ∧ m + n ≤ countLimit := by
  by_cases h : m + n ≤ countLimit
  · simp [add, h, eq_comm]
  · simp [add, h]

theorem exists_add_wrapping (m n : Nat) : ∃ k, wrapping.add m n = .ok k := by
  by_cases h : m + n ≤ countLimit
  · exact ⟨_, if_pos h⟩
  · exact ⟨_, if_neg h⟩

theorem sub_eq_ok (h : n ≤ m) : o.sub m n = .ok (m - n) :=
  if_pos h

theorem sub_wrapping_of_lt (h : m < n) :
    wrapping.sub m n = .ok (m + (countLimit + 1) - n) :=
  if_neg (Nat.not_le_of_lt h)

theorem exists_sub_wrapping (m n : Nat) : ∃ k, wrapping.sub m n = .ok k := by
  by_cases h : n ≤ m
  · exact ⟨_, sub_eq_ok h⟩
  · exact ⟨_, sub_wrapping_of_lt (Nat.lt_of_not_le h)⟩

theorem Fits.add_eq_ok (h : o.Fits max) (hm : m ≤ max) (hn : n ≤ max) :
    o.add m n = .ok (m + n) := by
  apply Overflow.add_eq_ok
  cases o with
  | checked =>
    change 2 * (max + 1) ≤ countLimit at h
    omega
  | wrapping =>
    change 2 * max ≤ countLimit at h
    omega

theorem Fits.lt (h : o.Fits max) : max < countLimit := by
  have hlimit : 1 ≤ countLimit := by decide
  cases o with
  | checked =>
    change 2 * (max + 1) ≤ countLimit at h
    omega
  | wrapping =>
    change 2 * max ≤ countLimit at h
    omega

theorem lastSum_of_le (hm : 1 ≤ m) (hn : 1 ≤ n) (h : m + n ≤ countLimit) :
    lastSum o m n = .ok (m - 1 + (n - 1)) := by
  rw [lastSum, Overflow.add_eq_ok h, ok_bind, sub_eq_ok (by omega)]
  exact congrArg Except.ok (by omega)

theorem lastSum_checked_eq_ok_iff (hm : 1 ≤ m) (hn : 1 ≤ n) :
    lastSum checked m n = .ok k ↔ k = m - 1 + (n - 1) ∧ m + n ≤ countLimit := by
  constructor
  · intro h
    obtain ⟨total, htotal, -⟩ := bind_eq_ok_iff.mp h
    obtain ⟨-, hle⟩ := add_checked_eq_ok_iff.mp htotal
    rw [lastSum_of_le hm hn hle] at h
    exact ⟨(Except.ok.inj h).symm, hle⟩
  · rintro ⟨rfl, hle⟩
    exact lastSum_of_le hm hn hle

/-- Bounds behind counts may add up to a number past the range: what is left of it comes back into
range from below. -/
theorem Fits.lastSum_eq_ok (h : o.Fits max) (hm : 1 ≤ m) (hn : 1 ≤ n) (hm' : m ≤ max + 1)
    (hn' : n ≤ max + 1) : lastSum o m n = .ok (m - 1 + (n - 1)) := by
  by_cases hle : m + n ≤ countLimit
  · exact lastSum_of_le hm hn hle
  cases o with
  | checked =>
    change 2 * (max + 1) ≤ countLimit at h
    omega
  | wrapping =>
    change 2 * max ≤ countLimit at h
    have hlimit : 1 ≤ countLimit := by decide
    have hleft : (m + n) % (countLimit + 1) = m + n - (countLimit + 1) := by
      rw [Nat.mod_eq_sub_mod (by omega), Nat.mod_eq_of_lt (by omega)]
    have hadd : wrapping.add m n = .ok ((m + n) % (countLimit + 1)) := if_neg hle
    rw [lastSum, hadd, ok_bind, hleft, sub_wrapping_of_lt (by omega)]
    exact congrArg Except.ok (by omega)

end Overflow

section SumBox

variable {o : Overflow} {r s : Region} {box : Composition × Composition}

theorem leastSums_eq_map (r s : Region) :
    leastSums r s = (r.axes.zip s.axes).map fun x => x.1.first + x.2.first :=
  (List.map_uncurry_zip_eq_zipWith ..).symm

theorem greatestSums_eq_map (r s : Region) :
    greatestSums r s = (r.axes.zip s.axes).map fun x => x.1.last + x.2.last :=
  (List.map_uncurry_zip_eq_zipWith ..).symm

theorem sumBox_eq_ok_iff : sumBox o r s = .ok box ↔
    List.Forall₂ (fun x n => o.add x.1.first x.2.first = .ok n) (r.axes.zip s.axes) box.1 ∧
      List.Forall₂ (fun x n => lastSum o x.1.stop x.2.stop = .ok n) (r.axes.zip s.axes) box.2 := by
  have hlo : (r.origin.zip s.origin).mapM (fun x => o.add x.1 x.2) = .ok box.1 ↔
      List.Forall₂ (fun x n => o.add x.1.first x.2.first = .ok n) (r.axes.zip s.axes) box.1 := by
    rw [mapM_eq_ok_iff, Region.origin, Region.origin, List.zip_map, List.forall₂_map_left_iff]
    rfl
  have hhi : (r.upperLimit.zip s.upperLimit).mapM (fun x => lastSum o x.1 x.2) = .ok box.2 ↔
      List.Forall₂ (fun x n => lastSum o x.1.stop x.2.stop = .ok n) (r.axes.zip s.axes) box.2 := by
    rw [mapM_eq_ok_iff, Region.upperLimit, Region.upperLimit, List.zip_map,
      List.forall₂_map_left_iff]
    rfl
  rw [← hlo, ← hhi, sumBox, bind_eq_ok_iff]
  constructor
  · rintro ⟨lo, hlo', h⟩
    obtain ⟨hi, hhi', h⟩ := bind_eq_ok_iff.mp h
    obtain rfl : (lo, hi) = box := Except.ok.inj h
    exact ⟨hlo', hhi'⟩
  · rintro ⟨hlo', hhi'⟩
    exact ⟨box.1, hlo', bind_eq_ok_iff.mpr ⟨box.2, hhi', rfl⟩⟩

theorem length_of_sumBox (h : sumBox o r s = .ok box) :
    box.1.length = min r.axes.length s.axes.length ∧
      box.2.length = min r.axes.length s.axes.length := by
  obtain ⟨hlo, hhi⟩ := sumBox_eq_ok_iff.mp h
  rw [← hlo.length_eq, ← hhi.length_eq, List.length_zip]
  exact ⟨rfl, rfl⟩

theorem exists_sumBox_wrapping (r s : Region) : ∃ box, sumBox .wrapping r s = .ok box := by
  obtain ⟨lo, hlo⟩ := exists_mapM_eq_ok_iff.mpr fun (x : Interval × Interval)
    (_ : x ∈ r.axes.zip s.axes) => Overflow.exists_add_wrapping x.1.first x.2.first
  obtain ⟨hi, hhi⟩ := exists_mapM_eq_ok_iff.mpr fun (x : Interval × Interval)
      (_ : x ∈ r.axes.zip s.axes) => show ∃ n, lastSum .wrapping x.1.stop x.2.stop = .ok n from
    exists_bind_eq_ok (Overflow.exists_add_wrapping _ _) fun _ _ => Overflow.exists_sub_wrapping _ _
  exact ⟨(lo, hi), sumBox_eq_ok_iff.mpr ⟨mapM_eq_ok_iff.mp hlo, mapM_eq_ok_iff.mp hhi⟩⟩

theorem Overflow.completeOn_wrapping (p : Paving) : wrapping.CompleteOn p :=
  fun _ _ r s _ _ _ => exists_sumBox_wrapping r s

theorem Interval.one_le_stop (a : Interval) : 1 ≤ a.stop :=
  Nat.one_le_of_lt a.first_lt_stop

/-- With checks, a box that comes out is exact. -/
theorem eq_of_sumBox_checked (h : sumBox .checked r s = .ok box) :
    box = (leastSums r s, greatestSums r s) := by
  obtain ⟨hlo, hhi⟩ := sumBox_eq_ok_iff.mp h
  refine Prod.ext ?_ ?_
  · rw [leastSums_eq_map, ← List.map_id box.1]
    exact map_eq_map_of_forall₂ hlo fun x n hx => (Overflow.add_checked_eq_ok_iff.mp hx).1
  · rw [greatestSums_eq_map, ← List.map_id box.2]
    refine map_eq_map_of_forall₂ hhi fun x n hx => ?_
    exact ((Overflow.lastSum_checked_eq_ok_iff x.1.one_le_stop x.2.one_le_stop).mp hx).1

theorem Overflow.CompleteOn.exactOn {p : Paving} (h : checked.CompleteOn p) :
    checked.ExactOn p := by
  intro i j r s hij hr hs
  obtain ⟨box, hbox⟩ := h i j r s hij hr hs
  rwa [eq_of_sumBox_checked hbox] at hbox

theorem stop_add_stop_le_of_sumBox (h : sumBox .checked r s = .ok box) :
    ∀ x ∈ r.axes.zip s.axes, x.1.stop + x.2.stop ≤ countLimit := by
  obtain ⟨-, hhi⟩ := sumBox_eq_ok_iff.mp h
  intro x hx
  obtain ⟨n, -, hn⟩ := exists_mem_of_forall₂ hhi hx
  exact ((Overflow.lastSum_checked_eq_ok_iff x.1.one_le_stop x.2.one_le_stop).mp hn).2

end SumBox

namespace Paving

variable {o : Overflow} {axes : List Axis} {p : Paving} {r s : Region}

/-- Axes with a partition are sound where sums of their counts are exact. -/
theorem sound_of_fits (h : ofAxes axes = .ok p) (hfits : ∀ a ∈ axes, o.Fits a.max) :
    ∀ a ∈ axes, a.Sound := by
  intro a ha
  obtain ⟨cuts, hcuts, -⟩ := ofAxes_eq_ok_iff.mp h
  obtain ⟨cut, -, hcut⟩ := exists_mem_of_forall₂ (cutsOf_eq_ok_iff.mp hcuts).2.2 ha
  obtain ⟨⟨hwidth, hmin⟩, -⟩ := Axis.intervals_eq_ok_iff.mp hcut
  exact ⟨hwidth, hmin, (hfits a ha).lt⟩

/-- Regions end with the axes that they are cut from. -/
theorem stop_le_of_ofAxes (hs : ∀ a ∈ axes, a.Sound) (h : ofAxes axes = .ok p)
    (hr : r ∈ p.regions) : List.Forall₂ (fun i a => i.stop ≤ a.max + 1) r.axes axes := by
  have hbox := (inBox_of_contains hs h hr r.contains_last).1
  rw [InBox, List.forall₂_map_left_iff, List.forall₂_map_right_iff] at hbox
  refine hbox.imp fun i a hia => ?_
  rw [Interval.last] at hia
  omega

/-- One region reaches the largest counts of all axes. -/
theorem exists_stop_eq_of_ofAxes (hs : ∀ a ∈ axes, a.Sound) (h : ofAxes axes = .ok p)
    (hpos : ∃ a ∈ axes, 1 ≤ a.max) :
    ∃ r ∈ p.regions, List.Forall₂ (fun i a => i.stop = a.max + 1) r.axes axes := by
  have hbox : InBox (axes.map Axis.max) (axes.map Axis.max) :=
    List.forall₂_same.mpr fun _ _ => le_rfl
  obtain ⟨a, ha, hmax⟩ := hpos
  obtain ⟨id, r, hr, hc⟩ := (existsUnique_region hs h hbox
    ⟨a.max, List.mem_map_of_mem ha, by omega⟩).exists
  have hmem := List.mem_of_getElem? hr
  refine ⟨r, hmem, ?_⟩
  have hc' := List.forall₂_map_right_iff.mp (boxContains_iff.mp hc)
  have hstop := List.forall₂_iff_get.mp (stop_le_of_ofAxes hs h hmem)
  obtain ⟨hlength, hcontains⟩ := List.forall₂_iff_get.mp hc'
  refine List.forall₂_iff_get.mpr ⟨hlength, fun i hi hj => ?_⟩
  have hin := Interval.contains_eq_true.mp (hcontains i hi hj)
  exact le_antisymm (hstop.2 i hi hj) hin.2

/-- The box of the sums of two regions comes out exact where the sums of counts do. -/
theorem sumBox_of_fits (hs : ∀ a ∈ axes, a.Sound) (h : ofAxes axes = .ok p)
    (hfits : ∀ a ∈ axes, o.Fits a.max) (hr : r ∈ p.regions) (hs' : s ∈ p.regions) :
    sumBox o r s = .ok (leastSums r s, greatestSums r s) := by
  have haxis : ∀ x ∈ r.axes.zip s.axes, ∃ a ∈ axes, x.1.stop ≤ a.max + 1 ∧
      x.2.stop ≤ a.max + 1 := by
    intro x hx
    obtain ⟨i, hi⟩ := List.mem_iff_getElem?.mp hx
    obtain ⟨hri, hsi⟩ := List.getElem?_zip_eq_some.mp hi
    obtain ⟨a, ha, hra⟩ := exists_getElem?_of_forall₂ (stop_le_of_ofAxes hs h hr) hri
    obtain ⟨b, hb, hsb⟩ := exists_getElem?_of_forall₂ (stop_le_of_ofAxes hs h hs') hsi
    obtain rfl := Option.some.inj (ha.symm.trans hb)
    exact ⟨a, List.mem_of_getElem? ha, hra, hsb⟩
  rw [sumBox_eq_ok_iff, leastSums_eq_map, greatestSums_eq_map, List.forall₂_map_right_iff,
    List.forall₂_map_right_iff, List.forall₂_same, List.forall₂_same]
  constructor
  · intro x hx
    obtain ⟨a, ha, hr, hs⟩ := haxis x hx
    have hx₁ := x.1.first_lt_stop
    have hx₂ := x.2.first_lt_stop
    exact (hfits a ha).add_eq_ok (by omega) (by omega)
  · intro x hx
    obtain ⟨a, ha, hr, hs⟩ := haxis x hx
    exact (hfits a ha).lastSum_eq_ok x.1.one_le_stop x.2.one_le_stop hr hs

theorem exactOn_of_fits (hs : ∀ a ∈ axes, a.Sound) (h : ofAxes axes = .ok p)
    (hfits : ∀ a ∈ axes, o.Fits a.max) : o.ExactOn p := fun _ _ _ _ _ hr hs' =>
  sumBox_of_fits hs h hfits (List.mem_of_getElem? hr) (List.mem_of_getElem? hs')

/-- With checks all sums come out only if twice the bound behind the largest count is a count on
each axis. -/
theorem fits_of_completeOn (hs : ∀ a ∈ axes, a.Sound) (h : ofAxes axes = .ok p)
    (hpos : ∃ a ∈ axes, 1 ≤ a.max) (hsums : Overflow.checked.CompleteOn p) :
    ∀ a ∈ axes, Overflow.checked.Fits a.max := by
  obtain ⟨r, hr, hstop⟩ := exists_stop_eq_of_ofAxes hs h hpos
  obtain ⟨id, hid⟩ := List.mem_iff_getElem?.mp hr
  obtain ⟨box, hbox⟩ := hsums id id r r le_rfl hid hid
  intro a ha
  obtain ⟨i, hi, hia⟩ := exists_mem_of_forall₂ hstop.flip ha
  have hpair : (i, i) ∈ r.axes.zip r.axes := by
    obtain ⟨n, hn⟩ := List.mem_iff_getElem?.mp hi
    exact List.mem_of_getElem? (List.getElem?_zip_eq_some.mpr ⟨hn, hn⟩)
  have hle := stop_add_stop_le_of_sumBox hbox _ hpair
  change 2 * (a.max + 1) ≤ countLimit
  dsimp only at hle
  omega

end Paving

end ClusterDynamics
