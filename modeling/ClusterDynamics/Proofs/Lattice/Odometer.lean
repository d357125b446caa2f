import ClusterDynamics.Proofs.Lattice.Partition

/-! The products of intervals as an odometer passes them. It has a wheel for each axis, which stands
on one of the intervals of the axis. The last wheel turns at each step; a wheel that has passed all
its intervals goes back to the first and lets the wheel before it turn. The odometer passes the
boxes of the axes, each once and in their order, and stops. -/

namespace ClusterDynamics

/-- The intervals of an axis and the position of one of them. -/
structure Wheel where
  choices : List Interval
  position : Nat
  position_lt : position < choices.length

namespace Wheel

/-- A wheel at its first interval, of which there must be one. -/
def start (choices : List Interval) : Except OutOfRange Wheel :=
  if h : 0 < choices.length then .ok ⟨choices, 0, h⟩ else .error ⟨0, choices.length⟩

def shown (w : Wheel) : Interval := w.choices.get ⟨w.position, w.position_lt⟩

/-- The wheel after a step, and whether the step took it back to its first interval. -/
def advance (w : Wheel) : Wheel × Bool :=
  if h : w.position + 1 < w.choices.length then (⟨w.choices, w.position + 1, h⟩, false)
  else (⟨w.choices, 0, Nat.zero_lt_of_lt w.position_lt⟩, true)

/-- The boxes from the one that the wheels stand on to the last. -/
def ahead : List Wheel → List (List Interval)
  | [] => [[]]
  | w :: wheels =>
    (ahead wheels).map (w.shown :: ·) ++
      (w.choices.drop (w.position + 1)).flatMap fun a =>
        (boxes (wheels.map choices)).map (a :: ·)

/-- One step of the odometer, and whether all wheels are back at their first intervals. -/
def turn : List Wheel → List Wheel × Bool
  | [] => ([], true)
  | w :: wheels =>
    match turn wheels with
    | (rest, false) => (w :: rest, false)
    | (rest, true) => (w.advance.1 :: rest, w.advance.2)

theorem shown_cons_drop (w : Wheel) :
    w.choices.drop w.position = w.shown :: w.choices.drop (w.position + 1) :=
  List.drop_eq_getElem_cons w.position_lt

@[simp] theorem advance_choices (w : Wheel) : w.advance.1.choices = w.choices := by
  unfold advance
  split <;> rfl

@[simp] theorem turn_choices (wheels : List Wheel) :
    (turn wheels).1.map choices = wheels.map choices := by
  induction wheels with
  | nil => rfl
  | cons w wheels ih =>
    unfold turn
    cases h : turn wheels with
    | mk rest carry =>
      rw [h] at ih
      cases carry <;> simp [ih]

/-- From their first intervals on, the wheels have all boxes ahead. -/
theorem ahead_of_position_eq_zero {wheels : List Wheel} (h : ∀ w ∈ wheels, w.position = 0) :
    ahead wheels = boxes (wheels.map choices) := by
  induction wheels with
  | nil => rfl
  | cons w wheels ih =>
    have hw : w.choices = w.shown :: w.choices.drop (w.position + 1) := by
      rw [← shown_cons_drop, h w (by simp), List.drop_zero]
    rw [ahead, ih fun v hv => h v (by simp [hv]), List.map_cons, boxes]
    conv_rhs => rw [hw]
    rw [List.flatMap_cons]

theorem advance_back {w v : Wheel} (h : w.advance = (v, true)) :
    w.choices.drop (w.position + 1) = [] ∧ v.position = 0 := by
  unfold advance at h
  split_ifs at h with hlast
  · simp at h
  · obtain ⟨rfl, -⟩ := Prod.mk.inj h
    exact ⟨List.drop_eq_nil_of_le (Nat.le_of_not_lt hlast), rfl⟩

theorem advance_on {w v : Wheel} (h : w.advance = (v, false)) :
    w.choices.drop (w.position + 1) = v.shown :: v.choices.drop (v.position + 1) := by
  unfold advance at h
  split_ifs at h with hnext
  · obtain ⟨rfl, -⟩ := Prod.mk.inj h
    exact shown_cons_drop ⟨w.choices, w.position + 1, hnext⟩
  · simp at h

/-- Wheels that all go back to their first intervals stand on the last box. -/
theorem turn_back {wheels rest : List Wheel} (h : turn wheels = (rest, true)) :
    ahead wheels = [wheels.map shown] ∧ ∀ w ∈ rest, w.position = 0 := by
  induction wheels generalizing rest with
  | nil =>
    obtain ⟨rfl, -⟩ := Prod.mk.inj h
    simp [ahead]
  | cons w wheels ih =>
    unfold turn at h
    cases ht : turn wheels with
    | mk others carry =>
      cases carry with
      | false => simp [ht] at h
      | true =>
        obtain ⟨hahead, hothers⟩ := ih ht
        cases ha : w.advance with
        | mk v back =>
          simp only [ht, ha, Prod.mk.injEq] at h
          obtain ⟨rfl, rfl⟩ := h
          obtain ⟨hdrop, hv⟩ := advance_back ha
          refine ⟨?_, ?_⟩
          · simp [ahead, hahead, hdrop]
          · simpa [hv] using hothers

/-- Any other step goes from one box to the next. -/
theorem turn_on {wheels rest : List Wheel} (h : turn wheels = (rest, false)) :
    ahead wheels = wheels.map shown :: ahead rest := by
  induction wheels generalizing rest with
  | nil => simp [turn] at h
  | cons w wheels ih =>
    have hchoices := turn_choices wheels
    unfold turn at h
    cases ht : turn wheels with
    | mk others carry =>
      rw [ht] at hchoices
      cases carry with
      | false =>
        simp only [ht, Prod.mk.injEq, and_true] at h
        subst h
        simp [ahead, ih ht, hchoices]
      | true =>
        obtain ⟨hahead, hothers⟩ := turn_back ht
        cases ha : w.advance with
        | mk v back =>
          simp only [ht, ha, Prod.mk.injEq] at h
          obtain ⟨rfl, rfl⟩ := h
          simp [ahead, hahead, advance_on ha, ahead_of_position_eq_zero hothers, hchoices]

theorem length_ahead_lt {wheels rest : List Wheel} (h : turn wheels = (rest, false)) :
    (ahead rest).length < (ahead wheels).length := by
  rw [turn_on h, List.length_cons]
  omega

/-- The regions of the boxes that the odometer passes, without the empty cluster. -/
def pass (wheels : List Wheel) : Except LatticeError (List Region) := do
  let r ← Region.ofAxes (wheels.map shown)
  let others ← match h : turn wheels with
    | (rest, false) =>
      have := length_ahead_lt h
      pass rest
    | (_, true) => .ok []
  return if r.isNull then others else r :: others
termination_by (ahead wheels).length

theorem pass_of_turn_back {wheels rest : List Wheel} (h : turn wheels = (rest, true)) :
    pass wheels = Region.ofAxes (wheels.map shown) >>= fun r =>
      .ok (if r.isNull then [] else [r]) := by
  rw [pass]
  split
  · simp_all
  · rfl

theorem pass_of_turn_on {wheels rest : List Wheel} (h : turn wheels = (rest, false)) :
    pass wheels = Region.ofAxes (wheels.map shown) >>= fun r => pass rest >>= fun others =>
      .ok (if r.isNull then others else r :: others) := by
  rw [pass]
  split
  · rename_i others ht
    obtain rfl : others = rest := by simpa [ht] using h
    rfl
  · simp_all

/-- The odometer passes the boxes that it has ahead, one after another. -/
theorem pass_eq (wheels : List Wheel) :
    pass wheels = (ahead wheels).mapM Region.ofAxes >>= fun all =>
      .ok (all.filter fun r => !r.isNull) := by
  induction hn : (ahead wheels).length using Nat.strong_induction_on generalizing wheels with
  | h n ih =>
    cases ht : turn wheels with
    | mk rest carry =>
      cases carry with
      | true =>
        rw [pass_of_turn_back ht, (turn_back ht).1]
        cases hr : Region.ofAxes (wheels.map shown) with
        | error e => simp [hr]
        | ok r => cases hnull : r.isNull <;> simp [hr, hnull]
      | false =>
        have hrest := ih _ (hn ▸ length_ahead_lt ht) rest rfl
        rw [pass_of_turn_on ht, turn_on ht, hrest]
        cases hr : Region.ofAxes (wheels.map shown) with
        | error e => simp [hr]
        | ok r =>
          cases hm : (ahead rest).mapM Region.ofAxes with
          | error e => simp [hr, hm]
          | ok all => cases hnull : r.isNull <;> simp [hr, hm, hnull]

theorem exists_start {cuts : List (List Interval)} (h : ∀ choices ∈ cuts, 0 < choices.length) :
    ∃ wheels, cuts.mapM start = .ok wheels ∧ wheels.map choices = cuts ∧
      ∀ w ∈ wheels, w.position = 0 := by
  induction cuts with
  | nil => exact ⟨[], rfl, rfl, by simp⟩
  | cons choices cuts ih =>
    obtain ⟨wheels, hwheels, hchoices, hzero⟩ := ih fun c hc => h c (by simp [hc])
    have hpos := h choices (by simp)
    refine ⟨⟨choices, 0, hpos⟩ :: wheels, ?_, by simp [hchoices], by simpa using hzero⟩
    simp [start, hpos, hwheels]

end Wheel

theorem Axis.length_pos_of_intervals {a : Axis} {cuts : List Interval}
    (h : a.intervals = .ok cuts) : 0 < cuts.length := by
  obtain ⟨⟨-, hmin⟩, groups, -, rfl⟩ := intervals_eq_ok_iff.mp h
  have hzero : 1 ≤ boundedAdd a.max 1 := by
    unfold boundedAdd countLimit
    omega
  simp only [List.length_append, List.length_map, List.length_range]
  omega

namespace Paving

/-- The paving of the regions that the odometer passes, from the first box of all on. -/
def ofOdometer (axes : List Axis) : Except LatticeError Paving := do
  let cuts ← cutsOf axes
  let wheels ← (cuts.mapM Wheel.start).mapError .outOfRange
  let regions ← Wheel.pass wheels
  if regions.isEmpty then throw .emptyPaving
  tileAxes axes 0 { regions, species := axes.map Axis.species, max := axes.map Axis.max }

theorem ofOdometer_eq_ofAxes (axes : List Axis) : ofOdometer axes = ofAxes axes := by
  cases hc : cutsOf axes with
  | error e => simp [ofOdometer, ofAxes, hc]
  | ok cuts =>
    have hpos : ∀ choices ∈ cuts, 0 < choices.length := by
      intro choices hchoices
      obtain ⟨a, -, ha⟩ := exists_mem_of_forall₂ (cutsOf_eq_ok_iff.mp hc).2.2.flip hchoices
      exact Axis.length_pos_of_intervals ha
    obtain ⟨wheels, hwheels, hchoices, hzero⟩ := Wheel.exists_start hpos
    have hstart : (cuts.mapM Wheel.start).mapError LatticeError.outOfRange = .ok wheels :=
      mapError_eq_ok_iff.mpr hwheels
    rw [ofOdometer, ofAxes, hc, ok_bind, ok_bind, hstart, ok_bind, Wheel.pass_eq,
      Wheel.ahead_of_position_eq_zero hzero, hchoices]
    cases (boxes cuts).mapM Region.ofAxes <;> rfl

end Paving

end ClusterDynamics
