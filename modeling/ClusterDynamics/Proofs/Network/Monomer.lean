import ClusterDynamics.Network.Cluster
import ClusterDynamics.Proofs.Lattice.Partition

/-! Monomers. The test on a region's smallest composition finds the regions that hold one count on
one axis and nothing else. -/

namespace ClusterDynamics

/-- One count on the given axis and none on the others. -/
def unitComposition (dimension axis : Nat) : Composition := (List.replicate dimension 0).set axis 1

theorem filter_zipIdx_eq_singleton_iff {d : Composition} {axis : Nat} :
    (d.zipIdx.filter fun x => x.1 != 0) = [(1, axis)] ↔
      axis < d.length ∧ d = unitComposition d.length axis := by
  have hmem : ∀ i n, (n, i) ∈ d.zipIdx.filter (fun x => x.1 != 0) ↔ d[i]? = some n ∧ n ≠ 0 := by
    simp [List.mem_zipIdx_iff_getElem?]
  constructor
  · intro h
    rw [h] at hmem
    have hone : d[axis]? = some 1 := ((hmem axis 1).mp (by simp)).1
    have hlt : axis < d.length := (List.getElem?_eq_some_iff.mp hone).1
    refine ⟨hlt, List.ext_getElem? fun i => ?_⟩
    rw [unitComposition, List.getElem?_set, List.length_replicate]
    by_cases hi : axis = i
    · subst hi
      rw [hone, if_pos rfl, if_pos hlt]
    · rw [if_neg hi, List.getElem?_replicate]
      rcases Nat.lt_or_ge i d.length with hic | hic
      · rw [if_pos hic, List.getElem?_eq_getElem hic]
        by_contra hne
        have hmem' := (hmem i d[i]).mpr
          ⟨List.getElem?_eq_getElem hic, fun h0 => hne (congrArg some h0)⟩
        simp only [List.mem_singleton, Prod.mk.injEq] at hmem'
        exact hi hmem'.2.symm
      · rw [if_neg (by omega), List.getElem?_eq_none hic]
  · rintro ⟨hlt, hc⟩
    have hzeros : ∀ n k, ((List.replicate n 0).zipIdx k).filter (fun x => x.1 != 0) = [] := by
      intro n k
      rw [List.filter_eq_nil_iff]
      intro x hx
      simp [List.eq_of_mem_replicate (List.fst_mem_of_mem_zipIdx hx)]
    rw [hc, unitComposition, List.set_eq_take_append_cons_drop,
      if_pos (by simpa using hlt), List.take_replicate, List.drop_replicate, List.zipIdx_append,
      List.filter_append, hzeros, List.zipIdx_cons, List.filter_cons, hzeros]
    simp [Nat.min_eq_left hlt.le]

namespace Region

variable {r : Region}

theorem contains_iff_of_isSimplex (h : r.isSimplex = true) {c : Composition} :
    r.contains c = true ↔ c = r.origin := by
  refine ⟨fun hc => ?_, fun hc => hc ▸ r.contains_origin⟩
  have hf := boxContains_iff.mp hc
  rw [origin, ← List.forall₂_eq_eq_eq, List.forall₂_map_right_iff]
  refine List.Forall₂.flip ?_
  have hs := (List.forall₂_and_left _ _).mpr ⟨List.all_eq_true.mp h, hf⟩
  refine hs.imp fun a n ha => ?_
  obtain ⟨hw, hn⟩ := ha
  simp only [Interval.isSingleton, Interval.width, beq_iff_eq, Interval.contains_eq_true] at hw hn
  change n = a.first
  omega

theorem isSimplex_of_contains {c : Composition} (h : ∀ d, r.contains d = true → d = c) :
    r.isSimplex = true := by
  have he : r.origin = r.axes.map Interval.last :=
    (h _ r.contains_origin).trans (h _ r.contains_last).symm
  rw [isSimplex, List.all_eq_true]
  intro a ha
  have hfl := List.map_inj_left.mp he a ha
  have hlt := a.first_lt_stop
  rw [Interval.last] at hfl
  simp only [Interval.isSingleton, Interval.width, beq_iff_eq]
  omega

/-- The region holds one count of the given species and nothing else. -/
def IsMonomer (species : List Species) (s : Species) (r : Region) : Prop :=
  ∃ axis, species[axis]? = some s ∧ axis < r.dimension ∧
    ∀ c, r.contains c = true ↔ c = unitComposition r.dimension axis

theorem monomer?_eq_some_iff {species : List Species} {s : Species} :
    r.monomer? species = some s ↔ r.IsMonomer species s := by
  have hlength : r.origin.length = r.dimension := length_of_contains r.contains_origin
  constructor
  · intro h
    unfold monomer? at h
    split_ifs at h with hs
    split at h
    · rename_i axis hf
      obtain ⟨hlt, ho⟩ := filter_zipIdx_eq_singleton_iff.mp hf
      rw [hlength] at hlt ho
      exact ⟨axis, h, hlt, fun c => by rw [contains_iff_of_isSimplex hs, ho]⟩
    · cases h
  · rintro ⟨axis, hspecies, hlt, hc⟩
    have ho := (hc _).mp r.contains_origin
    have hf : (r.origin.zipIdx.filter fun x => x.1 != 0) = [(1, axis)] :=
      filter_zipIdx_eq_singleton_iff.mpr (by rw [hlength]; exact ⟨hlt, ho⟩)
    rw [monomer?, if_pos (isSimplex_of_contains fun d => (hc d).mp), hf]
    exact hspecies

theorem IsMonomer.exists_composition {species : List Species} {x : Species}
    (h : r.IsMonomer species x) : ∃ c, ∀ d, r.contains d = true ↔ d = c := by
  obtain ⟨axis, -, -, hc⟩ := h
  exact ⟨_, hc⟩

theorem IsMonomer.origin_eq {species : List Species} (hn : species.Nodup) {x : Species}
    {s : Region} (hr : r.IsMonomer species x) (hs : s.IsMonomer species x)
    (hdimension : r.dimension = s.dimension) : r.origin = s.origin := by
  obtain ⟨axis, ha, -, hrc⟩ := hr
  obtain ⟨axis', ha', -, hsc⟩ := hs
  obtain ⟨hx, rfl⟩ := List.getElem?_eq_some_iff.mp ha
  obtain ⟨hx', he⟩ := List.getElem?_eq_some_iff.mp ha'
  obtain rfl : axis' = axis := (List.Nodup.getElem_inj_iff hn).mp he
  rw [(hrc _).mp r.contains_origin, (hsc _).mp s.contains_origin, hdimension]

end Region

end ClusterDynamics
