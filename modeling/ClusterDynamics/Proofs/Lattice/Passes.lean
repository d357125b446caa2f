import ClusterDynamics.Proofs.Lattice.Ordering
import ClusterDynamics.Proofs.Lattice.Tiling

/-! Passes that cut regions off in place. A pass cuts one region after another until it comes to one
that does not begin below the limit; that one and those behind it stay as they were. So a pass that
fails is not undone, but whatever its outcome, each region is part of what it was, and as none has
moved its origin, regions that were disjoint are disjoint still. -/

namespace ClusterDynamics

namespace Region

/-- Whether a region ends by a limit on the given axis, if it has that axis. -/
def endsBy (axis limit : Nat) (r : Region) : Bool :=
  (r.axes[axis]?).all fun a => decide (a.stop ≤ limit)

theorem cutOff_eq_self_iff {r : Region} {axis limit : Nat} (h : r.beginsBelow axis limit = true) :
    r.cutOff axis limit = r ↔ r.endsBy axis limit = true := by
  unfold cutOff endsBy
  cases ha : r.axes[axis]? with
  | none => simp
  | some a =>
    obtain ⟨hi, rfl⟩ := List.getElem?_eq_some_iff.mp ha
    have hfirst := beginsBelow_iff.mp h _ ha
    simp only [Option.all_some, decide_eq_true_eq]
    constructor
    · intro he
      have haxes := congrArg (fun s : Region => (s.axes[axis]?).map Interval.stop) he
      simp [setAxis, hi, Interval.cutOff_stop hfirst] at haxes
      exact haxes
    · intro hstop
      rw [Interval.cutOff_of_stop_le hstop]
      simp [setAxis]

theorem Within.contains {r s : Region} (h : r.Within s) {c : Composition}
    (hc : r.contains c = true) : s.contains c = true := by
  rw [Region.contains, boxContains_iff] at hc ⊢
  refine forall₂_of_forall₂ h hc fun a _ b n hab hn => ?_
  rw [Interval.contains_eq_true] at hn ⊢
  omega

end Region

theorem boxContains_set_cutOff {as : List Interval} {axis limit : Nat} {a : Interval}
    (ha : as[axis]? = some a) (hlt : a.first < limit) {c : Composition} :
    boxContains (as.set axis (a.cutOff limit)) c = true ↔
      boxContains as c = true ∧ c.getD axis 0 < limit := by
  induction as generalizing axis c with
  | nil => simp at ha
  | cons b as ih =>
    cases c with
    | nil => cases axis <;> simp [boxContains]
    | cons n c =>
      cases axis with
      | zero =>
        obtain rfl : b = a := by simpa using ha
        have hcut := Interval.contains_cutOff (n := n) hlt
        simp only [List.set_cons_zero, boxContains, Bool.and_eq_true, hcut, List.getD_cons_zero]
        tauto
      | succ axis =>
        have hrest := ih (c := c) (by simpa using ha)
        simp only [List.set_cons_succ, boxContains, Bool.and_eq_true, hrest, List.getD_cons_succ]
        tauto

theorem Region.contains_cutOff {r : Region} {axis limit : Nat} (hi : axis < r.axes.length)
    (h : r.beginsBelow axis limit = true) {c : Composition} :
    (r.cutOff axis limit).contains c = true ↔ r.contains c = true ∧ c.getD axis 0 < limit := by
  have ha : r.axes[axis]? = some r.axes[axis] := List.getElem?_eq_getElem hi
  have hfirst := beginsBelow_iff.mp h _ ha
  have hcut := boxContains_set_cutOff ha hfirst (c := c)
  simpa [contains, cutOff, ha, setAxis] using hcut

section Pass

variable {axis limit : Nat} {r : Region} {rs : List Region}

theorem clipRegions_eq_ok_iff :
    (clipRegions axis limit rs).2 = .ok () ↔ ∀ r ∈ rs, r.beginsBelow axis limit = true := by
  induction rs with
  | nil => simp [clipRegions]
  | cons r rs ih =>
    cases h : r.beginsBelow axis limit with
    | true => simp [clipRegions_cons_of_beginsBelow h, h, ih]
    | false =>
      obtain ⟨a, -, -, hpass⟩ := @clipRegions_cons_of_not_beginsBelow axis limit r rs h
      simp [hpass, h]

/-- Where a pass stops: all regions in front are cut off, all others as they were. -/
theorem exists_stop_of_clipRegions {e : LatticeError}
    (h : (clipRegions axis limit rs).2 = .error e) :
    ∃ front r behind a, rs = front ++ r :: behind ∧
      (∀ s ∈ front, s.beginsBelow axis limit = true) ∧ r.axes[axis]? = some a ∧ limit ≤ a.first ∧
      e = .degenerateInterval a.first limit ∧
      (clipRegions axis limit rs).1 = front.map (Region.cutOff · axis limit) ++ r :: behind := by
  induction rs with
  | nil => simp [clipRegions] at h
  | cons r rs ih =>
    cases hr : r.beginsBelow axis limit with
    | true =>
      rw [clipRegions_cons_of_beginsBelow hr] at h ⊢
      obtain ⟨front, s, behind, a, rfl, hfront, ha, hlimit, he, hpass⟩ := ih h
      exact ⟨r :: front, s, behind, a, rfl, by simpa [hr] using hfront, ha, hlimit, he,
        by simp [hpass]⟩
    | false =>
      obtain ⟨a, ha, hlimit, hpass⟩ := @clipRegions_cons_of_not_beginsBelow axis limit r rs hr
      rw [hpass] at h ⊢
      exact ⟨[], r, rs, a, rfl, by simp, ha, hlimit, (Except.error.inj h).symm, rfl⟩

end Pass

namespace Paving

theorem map_origin_tileAll (p : Paving) (passes : List (Nat × Nat)) :
    (p.tileAll passes).regions.map Region.origin = p.regions.map Region.origin := by
  induction passes generalizing p with
  | nil => rfl
  | cons pass passes ih =>
    exact (ih _).trans (map_origin_of_within (p.tile_within pass.1 pass.2))

/-- Regions of aligned intervals share a composition only if they begin at the same one. -/
theorem Aligned.origin_eq_of_contains {p : Paving} (hp : p.Aligned) {r s : Region}
    (hr : r ∈ p.regions) (hs : s ∈ p.regions) {c : Composition} (hrc : r.contains c = true)
    (hsc : s.contains c = true) : r.origin = s.origin := by
  have hlength : r.axes.length = s.axes.length :=
    (hp.length_eq r hr).trans (hp.length_eq s hs).symm
  refine List.ext_getElem (by simp [Region.origin, hlength]) fun axis hi hj => ?_
  simp only [Region.origin, List.length_map] at hi hj
  have hra : r.axes[axis]? = some r.axes[axis] := List.getElem?_eq_getElem hi
  have hsa : s.axes[axis]? = some s.axes[axis] := List.getElem?_eq_getElem hj
  obtain ⟨n, hn, hrn⟩ := exists_getElem?_of_forall₂ (boxContains_iff.mp hrc) hra
  obtain ⟨m, hm, hsm⟩ := exists_getElem?_of_forall₂ (boxContains_iff.mp hsc) hsa
  obtain rfl := Option.some.inj (hn.symm.trans hm)
  rw [Interval.contains_eq_true] at hrn hsm
  have hrs := hp.stop_le_first r hr s hs axis _ _ hra hsa
  have hsr := hp.stop_le_first s hs r hr axis _ _ hsa hra
  simp only [Region.origin, List.getElem_map]
  omega

theorem Aligned.beginsBelow_iff {p : Paving} (hp : p.Aligned) {axis limit : Nat}
    (ha : axis < p.dimension) {r : Region} (hr : r ∈ p.regions) :
    r.beginsBelow axis limit = true ↔ ∃ a, r.axes[axis]? = some a ∧ a.first < limit := by
  have hi : axis < r.axes.length := by rwa [hp.length_eq r hr]
  simp [Region.beginsBelow, List.getElem?_eq_getElem hi]

theorem tile_eq_ok_iff {p : Paving} (hp : p.Aligned) {axis limit : Nat} :
    (p.tile axis limit).2 = .ok () ↔ axis < p.dimension ∧
      ∀ r ∈ p.regions, ∃ a, r.axes[axis]? = some a ∧ a.first < limit := by
  by_cases ha : axis < p.dimension
  · rw [tile, if_neg (by omega)]
    refine clipRegions_eq_ok_iff.trans ?_
    simp only [ha, true_and]
    exact forall₂_congr fun r hr => hp.beginsBelow_iff ha hr
  · simp [tile, Nat.le_of_not_lt ha, ha]

/-- After a pass that succeeds, the regions hold what they held below the limit. -/
theorem exists_contains_tile_iff {p : Paving} (hp : p.Aligned) {axis limit : Nat}
    (h : (p.tile axis limit).2 = .ok ()) {c : Composition} :
    (∃ r ∈ (p.tile axis limit).1.regions, r.contains c = true) ↔
      (∃ r ∈ p.regions, r.contains c = true) ∧ c.getD axis 0 < limit := by
  obtain ⟨ha, hfirst⟩ := (tile_eq_ok_iff hp).mp h
  have hcut : ∀ r ∈ p.regions, (r.cutOff axis limit).contains c = true ↔
      r.contains c = true ∧ c.getD axis 0 < limit := by
    intro r hr
    have hi : axis < r.axes.length := by rwa [hp.length_eq r hr]
    exact Region.contains_cutOff hi ((hp.beginsBelow_iff ha hr).mpr (hfirst r hr))
  have hbelow : ∀ r ∈ p.regions, ∀ a, r.axes[axis]? = some a → a.first < limit := by
    intro r hr a hra
    obtain ⟨b, hb, hlt⟩ := hfirst r hr
    obtain rfl := Option.some.inj (hra.symm.trans hb)
    exact hlt
  rw [tile_eq_ok ha hbelow]
  constructor
  · rintro ⟨_, hmem, hc⟩
    obtain ⟨r, hr, rfl⟩ := List.mem_map.mp hmem
    obtain ⟨hrc, hlt⟩ := (hcut r hr).mp hc
    exact ⟨⟨r, hr, hrc⟩, hlt⟩
  · rintro ⟨⟨r, hr, hc⟩, hlt⟩
    exact ⟨_, List.mem_map_of_mem hr, (hcut r hr).mpr ⟨hc, hlt⟩⟩

variable {axes : List Axis} {p : Paving}

/-- However a paving was cut off since its construction, by passes that succeeded or failed, none of
its regions is empty and no two of them share a composition. Another pass leaves each region within
what it was. It succeeds if and only if the axis exists and all regions begin below the limit on it,
and then the regions hold together what they held before below the limit. -/
theorem disjoint_after_passes (h : ofAxes? axes = .ok p) (passes : List (Nat × Nat)) :
    (∀ r ∈ (p.tileAll passes).regions, ∃ c, r.contains c = true) ∧
    (p.tileAll passes).regions.Pairwise
      (fun r s => ∀ c, ¬(r.contains c = true ∧ s.contains c = true)) ∧
    ∀ axis limit, ∃ q result, (p.tileAll passes).tile axis limit = (q, result) ∧
      q.size = (p.tileAll passes).size ∧
      (∀ (id : Nat) (r : Region), q.regions[id]? = some r →
        ∃ s, (p.tileAll passes).regions[id]? = some s ∧
          ∀ c, r.contains c = true → s.contains c = true) ∧
      (result = .ok () ↔ axis < (p.tileAll passes).dimension ∧
        ∀ r ∈ (p.tileAll passes).regions, ∃ a, r.axes[axis]? = some a ∧ a.first < limit) ∧
      (result = .ok () → ∀ c, (∃ r ∈ q.regions, r.contains c = true) ↔
        (∃ r ∈ (p.tileAll passes).regions, r.contains c = true) ∧ c.getD axis 0 < limit) := by
  have hp := ofAxes_of_ofAxes? h
  have haligned := (Aligned.of_ofAxes hp).tileAll passes
  have horigins : (p.tileAll passes).regions.Pairwise fun r s => r.origin < s.origin := by
    rw [← List.pairwise_map, map_origin_tileAll, List.pairwise_map]
    exact pairwise_origin hp
  refine ⟨fun r _ => ⟨r.origin, r.contains_origin⟩, ?_, fun axis limit => ?_⟩
  · refine horigins.imp_of_mem fun hr hs hlt c hc => ?_
    exact absurd (haligned.origin_eq_of_contains hr hs hc.1 hc.2) (ne_of_lt hlt)
  · refine ⟨_, _, rfl, size_tile _ axis limit, fun id r hr => ?_, tile_eq_ok_iff haligned,
      fun hok c => exists_contains_tile_iff haligned hok⟩
    obtain ⟨s, hs, hw⟩ := exists_getElem?_of_forall₂ (tile_within _ axis limit) hr
    exact ⟨s, hs, fun c => hw.contains⟩

/-- A pass that fails at the second of two runs of vacancies, and one that succeeds behind it. -/
theorem disjoint_after_passes_stopped :
    let p : Paving := ⟨[⟨[⟨1, 4, by omega⟩], by simp⟩, ⟨[⟨4, 7, by omega⟩], by simp⟩],
      [.vacancy], [6]⟩
    ofAxes? [⟨.vacancy, 6, 1, 3⟩] = .ok p ∧ (p.tile 0 3).2 = .error (.degenerateInterval 4 3) ∧
      ∃ q, (p.tileAll [(0, 3)]).tile 0 6 = (q, .ok ()) ∧
        (∃ r ∈ q.regions, r.contains [5] = true) ∧ ¬∃ r ∈ q.regions, r.contains [6] = true := by
  intro p
  have hp : ofAxes? [⟨.vacancy, 6, 1, 3⟩] = .ok p := by decide +kernel
  obtain ⟨-, -, hpass⟩ := disjoint_after_passes hp [(0, 3)]
  obtain ⟨q, result, htile, -, -, hok, hunion⟩ := hpass 0 6
  have hregions : (p.tileAll [(0, 3)]).regions =
      [⟨[⟨1, 3, by omega⟩], by simp⟩, ⟨[⟨4, 7, by omega⟩], by simp⟩] := rfl
  have hresult : result = .ok () := hok.mpr ⟨by decide, by simp [hregions]⟩
  rw [hresult] at htile
  refine ⟨hp, rfl, q, htile, (hunion hresult [5]).mpr ⟨by decide, by decide⟩, fun hsix => ?_⟩
  exact absurd ((hunion hresult [6]).mp hsix).2 (by decide)

/-- A pass that fails either names an axis that the paving does not have, and changes nothing, or
comes to a region that does not begin below the limit. Then the regions in front of it are cut off,
it and the regions behind it are as they were, and the error names its first count. So nothing has
changed if and only if all regions in front end by the limit anyway. -/
theorem tile_of_error {p : Paving} {axis limit : Nat} {e : LatticeError}
    (h : (p.tile axis limit).2 = .error e) :
    (p.dimension ≤ axis ∧ (p.tile axis limit).1 = p) ∨
    ∃ front r behind a, p.regions = front ++ r :: behind ∧
      (∀ s ∈ front, s.beginsBelow axis limit = true) ∧ r.axes[axis]? = some a ∧ limit ≤ a.first ∧
      e = .degenerateInterval a.first limit ∧
      (p.tile axis limit).1.regions = front.map (Region.cutOff · axis limit) ++ r :: behind ∧
      ((p.tile axis limit).1 = p ↔ ∀ s ∈ front, s.endsBy axis limit = true) := by
  by_cases ha : p.dimension ≤ axis
  · exact .inl ⟨ha, by rw [tile, if_pos ha]⟩
  · rw [tile, if_neg ha] at h ⊢
    obtain ⟨front, r, behind, a, hregions, hfront, hra, hlimit, he, hpass⟩ :=
      exists_stop_of_clipRegions h
    refine .inr ⟨front, r, behind, a, hregions, hfront, hra, hlimit, he, hpass, ?_⟩
    have hsame : ({ p with regions := (clipRegions axis limit p.regions).1 } : Paving) = p ↔
        (clipRegions axis limit p.regions).1 = p.regions :=
      ⟨congrArg regions, fun hr => by rw [hr]⟩
    rw [hsame, hpass, hregions, List.append_left_inj]
    nth_rewrite 2 [← List.map_id front]
    rw [List.map_inj_left]
    exact forall₂_congr fun s hs => Region.cutOff_eq_self_iff (hfront s hs)

/-- A pass that has left the first of three runs as it was, cuts off the second and stops at the
third. -/
theorem tile_of_error_runs : ∃ p, ofAxes? [⟨.vacancy, 6, 1, 2⟩] = .ok p ∧
    (p.tile 0 4).2 = .error (.degenerateInterval 5 4) ∧
    ∃ front r behind, p.regions = front ++ r :: behind ∧
      (p.tile 0 4).1.regions = front.map (Region.cutOff · 0 4) ++ r :: behind ∧
      ((p.tile 0 4).1 = p ↔ ∀ s ∈ front, s.endsBy 0 4 = true) := by
  let p : Paving := ⟨[⟨[⟨1, 3, by omega⟩], by simp⟩, ⟨[⟨3, 5, by omega⟩], by simp⟩,
    ⟨[⟨5, 7, by omega⟩], by simp⟩], [.vacancy], [6]⟩
  have hp : ofAxes? [⟨.vacancy, 6, 1, 2⟩] = .ok p := by decide +kernel
  have herror : (p.tile 0 4).2 = .error (.degenerateInterval 5 4) := rfl
  rcases tile_of_error herror with ⟨hdimension, -⟩ | ⟨front, r, behind, a, hregions, -, -, -, -, h⟩
  · exact absurd hdimension (by decide)
  · exact ⟨p, hp, herror, front, r, behind, hregions, h⟩

/-- A pass that fails is not undone: the run of one and two vacancies has been cut off when the pass
comes to the run of three. -/
theorem tile_not_atomic : ∃ p, ofAxes? [⟨.vacancy, 3, 1, 2⟩] = .ok p ∧
    (p.tile 0 2).2 = .error (.degenerateInterval 3 2) ∧ (p.tile 0 2).1 ≠ p := by
  refine ⟨⟨[⟨[⟨1, 3, by omega⟩], by simp⟩, ⟨[⟨3, 4, by omega⟩], by simp⟩], [.vacancy], [3]⟩, ?_⟩
  decide +kernel

end Paving

end ClusterDynamics
