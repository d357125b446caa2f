import ClusterDynamics.Lattice.OverlapIndex
import Mathlib.Data.List.Perm.Basic
import Mathlib.Tactic.Common

/-! Regions under their intervals. Grouping loses and repeats nothing, so the regions found under
the intervals that meet a box are those that meet it, each once. -/

namespace ClusterDynamics

namespace Interval

theorem precedes_iff {a b : Interval} :
    a.precedes b = true ↔ a.first < b.first ∨ a.first = b.first ∧ a.stop ≤ b.stop := by
  simp [precedes]

theorem precedes_trans (a b c : Interval) (hab : a.precedes b = true) (hbc : b.precedes c = true) :
    a.precedes c = true := by
  rw [precedes_iff] at *
  omega

theorem precedes_total (a b : Interval) : (a.precedes b || b.precedes a) = true := by
  rw [Bool.or_eq_true, precedes_iff, precedes_iff]
  omega

end Interval

section Groups

variable {α : Type}

/-- The entries of groups, one group after the other. -/
def ungroup (groups : List (Interval × List α)) : List (Interval × α) :=
  groups.flatMap fun g => g.2.map (g.1, ·)

@[simp] theorem ungroup_addToGroups (entry : Interval × α) (groups : List (Interval × List α)) :
    ungroup (addToGroups entry groups) = entry :: ungroup groups := by
  cases groups with
  | nil => rfl
  | cons g groups =>
    rw [addToGroups]
    split
    · rename_i he
      simp [ungroup, he]
    · rfl

theorem ungroup_foldr (entries : List (Interval × α)) :
    ungroup (entries.foldr addToGroups []) = entries := by
  induction entries with
  | nil => rfl
  | cons entry entries ih => rw [List.foldr_cons, ungroup_addToGroups, ih]

theorem ungroup_groupByInterval_perm (entries : List (Interval × α)) :
    (ungroup (groupByInterval entries)).Perm entries := by
  rw [groupByInterval, ungroup_foldr]
  exact List.mergeSort_perm _ _

theorem intervals_addToGroups (entry : Interval × α) (groups : List (Interval × List α)) :
    (addToGroups entry groups).map Prod.fst = groups.map Prod.fst ∨
      (addToGroups entry groups).map Prod.fst = entry.1 :: groups.map Prod.fst := by
  cases groups with
  | nil => exact .inr rfl
  | cons g groups =>
    rw [addToGroups]
    split
    · exact .inl rfl
    · exact .inr rfl

theorem intervals_foldr_sublist (entries : List (Interval × α)) :
    ((entries.foldr addToGroups []).map Prod.fst).Sublist (entries.map Prod.fst) := by
  induction entries with
  | nil => exact .slnil
  | cons entry entries ih =>
    rw [List.foldr_cons, List.map_cons]
    rcases intervals_addToGroups entry (entries.foldr addToGroups []) with h | h
    · rw [h]
      exact ih.cons _
    · rw [h]
      exact ih.cons_cons _

theorem intervals_groupByInterval_subset (entries : List (Interval × α)) :
    (groupByInterval entries).map Prod.fst ⊆ entries.map Prod.fst := by
  intro a ha
  have hsorted := (intervals_foldr_sublist _).subset ha
  exact ((List.mergeSort_perm entries _).map Prod.fst).subset hsorted

theorem pairwise_groupByInterval (entries : List (Interval × α)) :
    ((groupByInterval entries).map Prod.fst).Pairwise fun a b => a.precedes b = true := by
  refine List.Pairwise.sublist (intervals_foldr_sublist _) ?_
  rw [List.pairwise_map]
  exact List.pairwise_mergeSort (fun x y z => Interval.precedes_trans x.1 y.1 z.1)
    (fun x y => Interval.precedes_total x.1 y.1) entries

end Groups

namespace Shelf

theorem map_underFirst {regions : List (List Interval × Nat)} (h : ∀ x ∈ regions, x.1 ≠ []) :
    (regions.filterMap underFirst).map (fun x => (x.1 :: x.2.1, x.2.2)) = regions := by
  induction regions with
  | nil => rfl
  | cons x regions ih =>
    have hrest := ih fun y hy => h y (List.mem_cons_of_mem _ hy)
    rcases x with ⟨_ | ⟨a, as⟩, id⟩
    · exact absurd rfl (h ([], id) List.mem_cons_self)
    · simpa [underFirst] using hrest

theorem query_succ {axes : Nat} (parts : List (Interval × Shelf axes)) (l h : Nat)
    (lo hi : Composition) : query (axes + 1) parts (l :: lo) (h :: hi) =
      parts.flatMap fun (x : Interval × Shelf axes) =>
        if x.1.meets l h then query axes x.2 lo hi else [] :=
  rfl

/-- To pass over the intervals that miss the box first comes to the same. -/
theorem flatMap_filter_meets {axes : Nat} (parts : List (Interval × Shelf axes)) (l h : Nat)
    (lo hi : Composition) :
    ((parts.filter fun x => x.1.meets l h).flatMap fun x => query axes x.2 lo hi) =
      query (axes + 1) parts (l :: lo) (h :: hi) := by
  rw [query_succ]
  induction parts with
  | nil => rfl
  | cons x parts ih =>
    rw [List.flatMap_cons, ← ih, List.filter_cons]
    by_cases hx : x.1.meets l h = true
    · rw [if_pos hx, if_pos hx, List.flatMap_cons]
    · rw [if_neg hx, if_neg hx, List.nil_append]

theorem query_ofRegions_succ (axes : Nat) (regions : List (List Interval × Nat)) (l h : Nat)
    (lo hi : Composition) : query (axes + 1) (ofRegions (axes + 1) regions) (l :: lo) (h :: hi) =
      (groupByInterval (regions.filterMap underFirst)).flatMap fun g =>
        if g.1.meets l h then query axes (ofRegions axes g.2) lo hi else [] := by
  rw [ofRegions, query_succ]
  exact List.flatMap_map ..

/-- Whether a region meets a box, with its interval on the first axis apart from the others. -/
def entryMeets (l h : Nat) (lo hi : Composition) (e : Interval × List Interval × Nat) : Bool :=
  e.1.meets l h && boxMeets e.2.1 lo hi

theorem filter_entryMeets (a : Interval) (xs : List (List Interval × Nat)) (l h : Nat)
    (lo hi : Composition) :
    ((xs.map (a, ·)).filter (entryMeets l h lo hi)).map (fun e => e.2.2) =
      if a.meets l h then (xs.filter fun x => boxMeets x.1 lo hi).map Prod.snd else [] := by
  rw [List.filter_map, List.map_map]
  cases hm : a.meets l h with
  | true => simp [entryMeets, hm, Function.comp_def]
  | false => simp [entryMeets, hm, Function.comp_def]

/-- A query finds the regions that meet the box, each once. -/
theorem query_ofRegions_perm {axes : Nat} {regions : List (List Interval × Nat)}
    {lo hi : Composition} (hr : ∀ x ∈ regions, x.1.length = axes) (hlo : lo.length = axes)
    (hhi : hi.length = axes) :
    (query axes (ofRegions axes regions) lo hi).Perm
      ((regions.filter fun x => boxMeets x.1 lo hi).map Prod.snd) := by
  induction axes generalizing regions lo hi with
  | zero =>
    obtain rfl := List.eq_nil_of_length_eq_zero hlo
    obtain rfl := List.eq_nil_of_length_eq_zero hhi
    have hall : regions.filter (fun x => boxMeets x.1 [] []) = regions := by
      rw [List.filter_eq_self]
      intro x hx
      rw [List.eq_nil_of_length_eq_zero (hr x hx)]
      rfl
    rw [hall]
    exact .refl _
  | succ axes ih =>
    obtain ⟨l, lo, rfl⟩ := List.exists_cons_of_length_eq_add_one hlo
    obtain ⟨h, hi, rfl⟩ := List.exists_cons_of_length_eq_add_one hhi
    have hmap := map_underFirst fun x hx => List.ne_nil_of_length_eq_add_one (hr x hx)
    rw [query_ofRegions_succ]
    generalize regions.filterMap underFirst = entries at hmap ⊢
    subst hmap
    have hlength : ∀ e ∈ ungroup (groupByInterval entries), e.2.1.length = axes := by
      intro e he
      have he' := (ungroup_groupByInterval_perm entries).subset he
      exact Nat.succ.inj (hr (e.1 :: e.2.1, e.2.2) (List.mem_map.mpr ⟨e, he', rfl⟩))
    -- The regions of a group share their first interval, which is tested once for all of them.
    calc
      List.Perm _ ((groupByInterval entries).flatMap fun g =>
          ((g.2.map (g.1, ·)).filter (entryMeets l h lo hi)).map fun e => e.2.2) := by
        refine List.Perm.flatMap_left _ fun g hg => ?_
        rw [filter_entryMeets]
        split_ifs with hm
        · have hg' : ∀ x ∈ g.2, x.1.length = axes := fun x hx =>
            hlength (g.1, x) (List.mem_flatMap.mpr ⟨g, hg, List.mem_map_of_mem hx⟩)
          exact ih hg' (Nat.succ.inj hlo) (Nat.succ.inj hhi)
        · exact .refl _
      _ = ((ungroup (groupByInterval entries)).filter (entryMeets l h lo hi)).map fun e => e.2.2 := by
        rw [ungroup, List.filter_flatMap, List.map_flatMap]
      List.Perm _ ((entries.filter (entryMeets l h lo hi)).map fun e => e.2.2) :=
        ((ungroup_groupByInterval_perm entries).filter _).map _
      _ = _ := by
        rw [List.filter_map, List.map_map]
        rfl

end Shelf

end ClusterDynamics
