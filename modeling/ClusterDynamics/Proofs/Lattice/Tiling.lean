import ClusterDynamics.Proofs.Lattice.Construction
import ClusterDynamics.Proofs.Lattice.Query

/-! Queries on pavings that were cut off further. A pass may stop at a region with nothing left and
leave the regions behind it as they were, so intervals of one cut can come to stop at different
counts. They stay aligned, and that is all that the index rests on. -/

namespace ClusterDynamics

/-- A box meets another one if their intervals do on every axis. -/
theorem boxMeets_iff {as : List Interval} {lo hi : Composition} (hlo : lo.length = as.length)
    (hhi : hi.length = as.length) : boxMeets as lo hi = true ↔
      ∀ (axis : Nat) (a : Interval), as[axis]? = some a →
        a.meets (lo.getD axis 0) (hi.getD axis 0) = true := by
  induction as generalizing lo hi with
  | nil =>
    obtain rfl := List.eq_nil_of_length_eq_zero hlo
    obtain rfl := List.eq_nil_of_length_eq_zero hhi
    simp [boxMeets]
  | cons b as ih =>
    obtain ⟨l, lo, rfl⟩ := List.exists_cons_of_length_eq_add_one hlo
    obtain ⟨h, hi, rfl⟩ := List.exists_cons_of_length_eq_add_one hhi
    rw [boxMeets, Bool.and_eq_true, ih (Nat.succ.inj hlo) (Nat.succ.inj hhi)]
    constructor
    · rintro ⟨hb, has⟩ (_ | axis) a ha
      · obtain rfl := Option.some.inj ha
        exact hb
      · exact has axis a ha
    · intro hall
      exact ⟨hall 0 b rfl, fun axis a ha => hall (axis + 1) a ha⟩

/-- The box of a single composition meets the boxes that hold it. -/
theorem boxMeets_self {as : List Interval} {c : Composition} :
    boxMeets as c c = boxContains as c := by
  induction as generalizing c with
  | nil => cases c <;> rfl
  | cons a as ih =>
    cases c with
    | nil => rfl
    | cons n c =>
      have ha := a.first_lt_stop
      have hn : a.meets n n = a.contains n := by
        rw [Bool.eq_iff_iff, Interval.meets_eq_true, Interval.contains_eq_true, Interval.last]
        omega
      rw [boxMeets, boxContains, hn, ih]

namespace Paving

/-- The paving after passes that cut off one axis each, whatever their outcomes. -/
def tileAll (p : Paving) (passes : List (Nat × Nat)) : Paving :=
  passes.foldl (fun p pass => (p.tile pass.1 pass.2).1) p

@[simp] theorem dimension_tileAll (p : Paving) (passes : List (Nat × Nat)) :
    (p.tileAll passes).dimension = p.dimension := by
  induction passes generalizing p with
  | nil => rfl
  | cons pass passes ih =>
    rw [tileAll, List.foldl_cons]
    exact (ih _).trans (congrArg List.length (p.tile_species pass.1 pass.2))

theorem size_tile (p : Paving) (axis limit : Nat) : (p.tile axis limit).1.size = p.size :=
  (p.tile_within axis limit).length_eq

@[simp] theorem size_tileAll (p : Paving) (passes : List (Nat × Nat)) :
    (p.tileAll passes).size = p.size := by
  induction passes generalizing p with
  | nil => rfl
  | cons pass passes ih => exact (ih _).trans (p.size_tile pass.1 pass.2)

theorem Aligned.tileAll {p : Paving} (hp : p.Aligned) (passes : List (Nat × Nat)) :
    (p.tileAll passes).Aligned := by
  induction passes generalizing p with
  | nil => exact hp
  | cons pass passes ih => exact ih (hp.tile pass.1 pass.2)

theorem Aligned.meets_iff {p : Paving} (hp : p.Aligned) {r : Region} (hr : r ∈ p.regions)
    {lo hi : Composition} (hlo : lo.length = p.dimension) (hhi : hi.length = p.dimension) :
    r.meets lo hi = true ↔ ∀ (axis : Nat) (a : Interval), r.axes[axis]? = some a →
      a.meets (lo.getD axis 0) (hi.getD axis 0) = true :=
  boxMeets_iff (hlo.trans (hp.length_eq r hr).symm) (hhi.trans (hp.length_eq r hr).symm)

end Paving

namespace OverlapIndex

variable {p : Paving} {primary : Nat} {x : OverlapIndex} {lo hi : Composition}

theorem dimension_eq (hx : ofPaving p primary = .ok x) : x.dimension = p.dimension := by
  obtain ⟨hprimary, rfl⟩ := ofPaving_eq_ok_iff.mp hx
  exact Nat.sub_add_cancel (Nat.zero_lt_of_lt hprimary)

theorem query_of_length_lo (hx : ofPaving p primary = .ok x) (hlo : lo.length ≠ p.dimension) :
    x.query lo hi = .error (.axisMismatch p.dimension lo.length) := by
  rw [query, dimension_eq hx, if_pos hlo]

theorem query_of_length_hi (hx : ofPaving p primary = .ok x) (hlo : lo.length = p.dimension)
    (hhi : hi.length ≠ p.dimension) :
    x.query lo hi = .error (.axisMismatch p.dimension hi.length) := by
  rw [query, dimension_eq hx, if_neg (not_not.mpr hlo), if_pos hhi]

theorem find?_eq_head? (hp : p.Aligned) (hx : ofPaving p primary = .ok x) {c : Composition}
    (hc : c.length = p.dimension) : x.find? c = (p.meeting c c).head? := by
  rw [find?, query_eq_meeting hp hx hc hc]
  cases p.meeting c c <;> rfl

theorem contains_of_find? (hp : p.Aligned) (hx : ofPaving p primary = .ok x) {c : Composition}
    {id : Nat} (h : x.find? c = some id) :
    ∃ r, p.regions[id]? = some r ∧ r.contains c = true := by
  by_cases hc : c.length = p.dimension
  · rw [find?_eq_head? hp hx hc] at h
    obtain ⟨r, hr, hm⟩ := Paving.mem_meeting.mp (List.mem_of_head? h)
    exact ⟨r, hr, boxMeets_self.symm.trans hm⟩
  · rw [find?, query_of_length_lo hx hc] at h
    cases h

theorem exists_find? (hp : p.Aligned) (hx : ofPaving p primary = .ok x) {c : Composition}
    {r : Region} (hr : r ∈ p.regions) (hc : r.contains c = true) : ∃ id, x.find? c = some id := by
  obtain ⟨id, hid⟩ := List.mem_iff_getElem?.mp hr
  have hlength : c.length = p.dimension :=
    (Region.length_of_contains hc).trans (hp.length_eq r hr)
  have hmem : id ∈ p.meeting c c := Paving.mem_meeting.mpr ⟨r, hid, boxMeets_self.trans hc⟩
  rw [find?_eq_head? hp hx hlength]
  exact Option.isSome_iff_exists.mp (List.isSome_head?.mpr (List.ne_nil_of_mem hmem))

end OverlapIndex

end ClusterDynamics
