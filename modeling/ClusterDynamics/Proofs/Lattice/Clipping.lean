import ClusterDynamics.Lattice.Paving
import ClusterDynamics.Proofs.Lattice.Cuts

/-! Cutting regions off. A cut moves no origin and makes no interval longer; where every region
begins below the limit, it keeps of each region exactly the compositions below the limit. -/

namespace ClusterDynamics

theorem forall₂_trans {α : Type} {R : α → α → Prop} (hR : ∀ a b c, R a b → R b c → R a c)
    {as bs cs : List α} (h : List.Forall₂ R as bs) (h' : List.Forall₂ R bs cs) :
    List.Forall₂ R as cs := by
  induction h generalizing cs with
  | nil => exact h'
  | cons hab _ ih =>
    cases h' with
    | cons hbc hrest => exact .cons (hR _ _ _ hab hbc) (ih hrest)

namespace Interval

/-- The counts below `limit`, or all of them if none is. -/
def cutOff (a : Interval) (limit : Nat) : Interval :=
  if h : a.first < limit then ⟨a.first, min a.stop limit, by have := a.first_lt_stop; omega⟩ else a

@[simp] theorem cutOff_first (a : Interval) (limit : Nat) : (a.cutOff limit).first = a.first := by
  unfold cutOff
  split <;> rfl

theorem cutOff_stop {a : Interval} {limit : Nat} (h : a.first < limit) :
    (a.cutOff limit).stop = min a.stop limit := by
  simp [cutOff, h]

theorem cutOff_of_stop_le {a : Interval} {limit : Nat} (h : a.stop ≤ limit) :
    a.cutOff limit = a := by
  have ha := a.first_lt_stop
  simp [cutOff, show a.first < limit by omega, Nat.min_eq_left h]

theorem clip_eq_ok {a : Interval} {limit : Nat} (h : a.first < limit) :
    a.clip limit = .ok (a.cutOff limit) := by
  have ha := a.first_lt_stop
  simp [clip, ofBounds, cutOff, h, ha]

theorem contains_cutOff {a : Interval} {limit : Nat} (h : a.first < limit) {n : Nat} :
    (a.cutOff limit).contains n = true ↔ a.contains n = true ∧ n < limit := by
  simp [cutOff_stop h, and_assoc]

end Interval

namespace Region

/-- A region cut off on one axis. -/
def cutOff (r : Region) (axis limit : Nat) : Region :=
  match r.axes[axis]? with
  | some a => r.setAxis axis (a.cutOff limit)
  | none => r

theorem cutOff_axes {r : Region} {before after : List Interval} {a : Interval}
    (h : r.axes = before ++ a :: after) (limit : Nat) :
    (r.cutOff before.length limit).axes = before ++ a.cutOff limit :: after := by
  simp [cutOff, setAxis, h]

/-- `r` begins where `s` does and is no longer on any axis. -/
def Within (r s : Region) : Prop :=
  List.Forall₂ (fun a b => a.first = b.first ∧ a.stop ≤ b.stop) r.axes s.axes

theorem Within.refl (r : Region) : r.Within r :=
  List.forall₂_same.mpr fun _ _ => ⟨rfl, le_rfl⟩

theorem Within.trans {r s t : Region} (h : r.Within s) (h' : s.Within t) : r.Within t :=
  forall₂_trans (fun _ _ _ hab hbc => ⟨hab.1.trans hbc.1, hab.2.trans hbc.2⟩) h h'

theorem Within.exists_axis {r s : Region} (h : r.Within s) {axis : Nat} {a : Interval}
    (ha : r.axes[axis]? = some a) :
    ∃ b, s.axes[axis]? = some b ∧ a.first = b.first ∧ a.stop ≤ b.stop :=
  exists_getElem?_of_forall₂ h ha

theorem cutOff_within (r : Region) (axis limit : Nat) : (r.cutOff axis limit).Within r := by
  unfold cutOff
  cases ha : r.axes[axis]? with
  | none => exact .refl r
  | some a =>
    obtain ⟨hi, rfl⟩ := List.getElem?_eq_some_iff.mp ha
    rw [Within, List.forall₂_iff_get]
    refine ⟨by simp [setAxis], fun i h₁ h₂ => ?_⟩
    simp only [setAxis, List.get_eq_getElem, List.getElem_set]
    split
    · subst i
      refine ⟨Interval.cutOff_first _ _, ?_⟩
      by_cases hl : r.axes[axis].first < limit
      · rw [Interval.cutOff_stop hl]
        exact Nat.min_le_left _ _
      · simp [Interval.cutOff, hl]
    · exact ⟨rfl, le_rfl⟩

/-- Whether a region begins below a limit on the given axis, if it has that axis. -/
def beginsBelow (axis limit : Nat) (r : Region) : Bool :=
  (r.axes[axis]?).all fun a => decide (a.first < limit)

theorem beginsBelow_iff {r : Region} {axis limit : Nat} :
    r.beginsBelow axis limit = true ↔ ∀ a, r.axes[axis]? = some a → a.first < limit := by
  unfold beginsBelow
  cases r.axes[axis]? <;> simp

end Region

section Pass

variable {axis limit : Nat} {r : Region} {rs : List Region}

theorem clipRegions_cons_of_beginsBelow (h : r.beginsBelow axis limit = true) :
    clipRegions axis limit (r :: rs) =
      (r.cutOff axis limit :: (clipRegions axis limit rs).1, (clipRegions axis limit rs).2) := by
  rw [clipRegions]
  unfold Region.cutOff
  cases ha : r.axes[axis]? with
  | none => rfl
  | some a =>
    have hfirst : a.first < limit := by simpa [Region.beginsBelow, ha] using h
    dsimp only
    split
    · rw [Interval.clip_eq_ok hfirst]
    · rename_i hstop
      obtain ⟨hi, rfl⟩ := List.getElem?_eq_some_iff.mp ha
      rw [Interval.cutOff_of_stop_le (by omega)]
      simp [Region.setAxis]

theorem clipRegions_cons_of_not_beginsBelow (h : r.beginsBelow axis limit = false) :
    ∃ a, r.axes[axis]? = some a ∧ limit ≤ a.first ∧
      clipRegions axis limit (r :: rs) = (r :: rs, .error (.degenerateInterval a.first limit)) := by
  cases ha : r.axes[axis]? with
  | none => simp [Region.beginsBelow, ha] at h
  | some a =>
    have hfirst : limit ≤ a.first := by simpa [Region.beginsBelow, ha] using h
    have hlt := a.first_lt_stop
    have hclip : a.clip limit = .error (.degenerateInterval a.first limit) := by
      simp only [Interval.clip, Interval.ofBounds, Nat.min_eq_right (by omega : limit ≤ a.stop)]
      rw [dif_neg (by omega)]
    refine ⟨a, rfl, hfirst, ?_⟩
    simp [clipRegions, ha, hclip, show limit < a.stop by omega]

theorem clipRegions_within (axis limit : Nat) (rs : List Region) :
    List.Forall₂ Region.Within (clipRegions axis limit rs).1 rs := by
  induction rs with
  | nil => exact .nil
  | cons r rs ih =>
    cases h : r.beginsBelow axis limit with
    | true =>
      rw [clipRegions_cons_of_beginsBelow h]
      exact .cons (r.cutOff_within axis limit) ih
    | false =>
      obtain ⟨a, -, -, hpass⟩ := @clipRegions_cons_of_not_beginsBelow axis limit r rs h
      rw [hpass]
      exact List.forall₂_same.mpr fun s _ => .refl s

theorem clipRegions_eq_ok (h : ∀ r ∈ rs, ∀ a, r.axes[axis]? = some a → a.first < limit) :
    clipRegions axis limit rs = (rs.map (·.cutOff axis limit), .ok ()) := by
  induction rs with
  | nil => rfl
  | cons r rs ih =>
    have hr := Region.beginsBelow_iff.mpr (h r (by simp))
    rw [clipRegions_cons_of_beginsBelow hr, ih fun s hs => h s (by simp [hs]), List.map_cons]

end Pass

/-- A region cut off behind the largest counts of some axes, which begin at the given one. -/
def Region.cutAxes : List Axis → Nat → Region → Region
  | [], _, r => r
  | a :: axes, axis, r => cutAxes axes (axis + 1) (r.cutOff axis (a.max + 1))

theorem Region.cutAxes_axes {axes : List Axis} {r : Region} {before after : List Interval}
    (h : r.axes = before ++ after) (hl : after.length = axes.length) :
    (r.cutAxes axes before.length).axes =
      before ++ List.zipWith (fun i a => i.cutOff (a.max + 1)) after axes := by
  induction axes generalizing r before after with
  | nil =>
    obtain rfl := List.eq_nil_of_length_eq_zero hl
    simpa [cutAxes] using h
  | cons a axes ih =>
    cases after with
    | nil => simp at hl
    | cons i after =>
      have hcut : (r.cutOff before.length (a.max + 1)).axes =
          (before ++ [i.cutOff (a.max + 1)]) ++ after := by
        rw [cutOff_axes h]
        simp
      have hrest := ih hcut (by simpa using hl)
      rw [List.length_append, List.length_singleton] at hrest
      simpa [cutAxes] using hrest

namespace Paving

@[simp] theorem tile_species (p : Paving) (axis limit : Nat) :
    (p.tile axis limit).1.species = p.species := by
  unfold tile
  split <;> rfl

@[simp] theorem tile_max (p : Paving) (axis limit : Nat) : (p.tile axis limit).1.max = p.max := by
  unfold tile
  split <;> rfl

theorem tile_within (p : Paving) (axis limit : Nat) :
    List.Forall₂ Region.Within (p.tile axis limit).1.regions p.regions := by
  unfold tile
  split
  · exact List.forall₂_same.mpr fun r _ => .refl r
  · exact clipRegions_within axis limit p.regions

theorem tile_eq_ok {p : Paving} {axis limit : Nat} (ha : axis < p.dimension)
    (h : ∀ r ∈ p.regions, ∀ a, r.axes[axis]? = some a → a.first < limit) :
    p.tile axis limit = ({ p with regions := p.regions.map (·.cutOff axis limit) }, .ok ()) := by
  rw [tile, if_neg (by omega), clipRegions_eq_ok h]

theorem tileAxes_eq_ok {axes : List Axis} {axis : Nat} {p : Paving}
    (hp : p.dimension = axis + axes.length) (hs : ∀ a ∈ axes, a.max < countLimit)
    (hr : ∀ r ∈ p.regions, ∃ before after, r.axes = before ++ after ∧ before.length = axis ∧
      List.Forall₂ (fun i a => i.first ≤ a.max) after axes) :
    tileAxes axes axis p = .ok { p with regions := p.regions.map (·.cutAxes axes axis) } := by
  induction axes generalizing axis p with
  | nil => simp [tileAxes, Region.cutAxes]
  | cons a axes ih =>
    -- The axes before the current one are cut off already; only its own interval is looked at.
    have hfirst : ∀ r ∈ p.regions, ∀ i, r.axes[axis]? = some i → i.first < a.max + 1 := by
      intro r hmem i hi
      obtain ⟨before, after, he, rfl, hf⟩ := hr r hmem
      cases hf with
      | cons hle _ =>
        rw [he, List.getElem?_append_right le_rfl, Nat.sub_self, List.getElem?_cons_zero] at hi
        obtain rfl := Option.some.inj hi
        omega
    have hax : axis < p.dimension := by
      rw [hp, List.length_cons]
      omega
    rw [tileAxes, Axis.boundedAdd_one (hs a (by simp)), tile_eq_ok hax hfirst]
    dsimp only
    rw [ih]
    · simp [Function.comp_def, Region.cutAxes]
    · change p.dimension = _
      rw [hp, List.length_cons]
      omega
    · exact fun b hb => hs b (by simp [hb])
    · intro r' hr'
      obtain ⟨r, hmem, rfl⟩ := List.mem_map.mp hr'
      obtain ⟨before, after, he, rfl, hf⟩ := hr r hmem
      cases hf with
      | @cons i _ after _ hle hrest =>
        exact ⟨before ++ [i.cutOff (a.max + 1)], after, by rw [Region.cutOff_axes he]; simp,
          by simp, hrest⟩

theorem tileAxes_within {axes : List Axis} {axis : Nat} {p q : Paving}
    (h : tileAxes axes axis p = .ok q) :
    List.Forall₂ Region.Within q.regions p.regions ∧ q.species = p.species ∧ q.max = p.max := by
  induction axes generalizing axis p with
  | nil =>
    obtain rfl := Except.ok.inj h
    exact ⟨List.forall₂_same.mpr fun r _ => .refl r, rfl, rfl⟩
  | cons a axes ih =>
    have hw := p.tile_within axis (boundedAdd a.max 1)
    have hs := p.tile_species axis (boundedAdd a.max 1)
    have hm := p.tile_max axis (boundedAdd a.max 1)
    rw [tileAxes] at h
    split at h
    · rename_i q' ht
      rw [ht] at hw hs hm
      obtain ⟨hw', hs', hm'⟩ := ih h
      exact ⟨forall₂_trans (fun _ _ _ => .trans) hw' hw, hs'.trans hs, hm'.trans hm⟩
    · cases h

end Paving

end ClusterDynamics
