import ClusterDynamics.Proofs.Network.Build
import ClusterDynamics.Proofs.OutOfRange

/-! Who takes part in the reactions of a built network: clusters of the network, as many of them as
the kind of the reaction has. -/

namespace ClusterDynamics

variable {K : Type}

namespace Reaction

theorem mem_pair {i j n : Nat} : n ∈ pair i j ↔ n = i ∨ n = j := by
  unfold pair
  by_cases hij : i ≤ j
  · simp [hij]
  · simp [hij, or_comm]

/-- A reaction with the participants of its kind, among the first `n` clusters. -/
inductive Formed [Scalar K] (n : Nat) : Reaction K → Prop
  | production {i j k w} (hi : i < n) (hj : j < n) (hk : k < n) : Formed n (.production i j k w)
  | dissociation {k i j w} (hk : k < n) (hi : i < n) (hj : j < n) :
      Formed n (.dissociation k i j w)
  | reSolution {k i j w} (hk : k < n) (hi : i < n) (hj : j < n) : Formed n (.reSolution k i j w)
  | sink {i} (hi : i < n) : Formed n (.sink i)
  | nucleation {i k} (hi : i < n) (hk : k < n) : Formed n (.nucleation i k)

theorem Formed.lt_of_mem_participants [Scalar K] {n i : Nat} {x : Reaction K} (h : x.Formed n)
    (hi : i ∈ x.participants) : i < n := by
  cases h with
  | production ha hb hc =>
    simp only [participants, reactants, products, Reaction.production, List.mem_append, mem_pair,
      List.mem_singleton] at hi
    omega
  | dissociation ha hb hc =>
    simp only [participants, reactants, products, Reaction.dissociation, List.mem_append,
      mem_pair, List.mem_singleton] at hi
    omega
  | reSolution ha hb hc =>
    simp only [participants, reactants, products, Reaction.reSolution, List.mem_append, mem_pair,
      List.mem_singleton] at hi
    omega
  | sink ha =>
    simp only [participants, reactants, products, Reaction.sink, List.append_nil,
      List.mem_singleton] at hi
    omega
  | nucleation ha hb =>
    simp only [participants, reactants, products, Reaction.nucleation, List.mem_append, List.mem_cons,
      List.not_mem_nil, or_false] at hi
    omega

end Reaction

section Generation

variable [Scalar K] {o : Overflow} {index : OverlapIndex} {table : ClusterTable K} {ch : Channels}
  {x : Reaction K}

theorem Channels.formed_of_mem_reactionsOf {i j k n : Nat} {a b c : Cluster K} {w : K}
    (hi : i < n) (hj : j < n) (hk : k < n) (hx : x ∈ ch.reactionsOf i j k a b c w) :
    x.Formed n := by
  simp only [reactionsOf, List.cons_append, List.mem_cons, List.mem_append] at hx
  rcases hx with hx | hx | hx
  · split_ifs at hx
    · exact hx ▸ .nucleation hi hk
    · exact hx ▸ .production hi hj hk
  · split_ifs at hx
    · exact List.mem_singleton.mp hx ▸ .dissociation hk hi hj
    · cases hx
  · split_ifs at hx
    · exact List.mem_singleton.mp hx ▸ .reSolution hk hi hj
    · cases hx

theorem formed_of_mem_mergerReactions {i j k : Nat} {a b : Cluster K} (hi : i < table.size)
    (hj : j < table.size) (hx : x ∈ mergerReactions table ch i j a b k) : x.Formed table.size := by
  rw [mergerReactions] at hx
  cases hc : table.clusters[k]? with
  | none => simp [hc] at hx
  | some c =>
    simp only [hc] at hx
    split_ifs at hx
    · cases hx
    · exact Channels.formed_of_mem_reactionsOf hi hj (Array.getElem?_eq_some_iff.mp hc).1 hx

theorem formed_of_mem_pairReactions {i j : Nat} {a b : Cluster K} {xs : List (Reaction K)}
    (hi : i < table.size) (hj : j < table.size)
    (h : pairReactions o index table ch i j a b = .ok xs) (hx : x ∈ xs) : x.Formed table.size := by
  obtain ⟨box, -, h⟩ := bind_eq_ok_iff.mp h
  obtain ⟨hits, -, h⟩ := bind_eq_ok_iff.mp h
  obtain rfl := Except.ok.inj h
  obtain ⟨k, -, hx⟩ := List.mem_flatMap.mp hx
  exact formed_of_mem_mergerReactions hi hj hx

omit [Scalar K] in
theorem lt_size_of_mem_zipIdx {a : Cluster K} {i : Nat}
    (h : (a, i) ∈ table.clusters.toList.zipIdx) : i < table.size := by
  rw [List.mem_zipIdx_iff_getElem?, Array.getElem?_toList] at h
  exact (Array.getElem?_eq_some_iff.mp h).1

theorem formed_of_mem_mergers {xs : List (Reaction K)} (h : mergers o index table ch = .ok xs)
    (hx : x ∈ xs) : x.Formed table.size := by
  obtain ⟨rows, hrows, h⟩ := bind_eq_ok_iff.mp h
  obtain rfl := Except.ok.inj h
  obtain ⟨ys, hys, hx⟩ := List.mem_flatten.mp hx
  obtain ⟨row, hrow, hys⟩ := List.mem_flatten.mp hys
  obtain ⟨⟨a, i⟩, ha, hpairs⟩ := exists_mem_of_forall₂ (mapM_eq_ok_iff.mp hrows).flip hrow
  obtain ⟨⟨b, j⟩, hb, hpair⟩ := exists_mem_of_forall₂ (mapM_eq_ok_iff.mp hpairs).flip hys
  exact formed_of_mem_pairReactions (lt_size_of_mem_zipIdx ha)
    (lt_size_of_mem_zipIdx (List.mem_of_mem_drop hb)) hpair hx

theorem ClusterTable.lt_size_of_mem_diffusing {i : Nat} (hi : i ∈ table.diffusing) :
    i < table.size :=
  List.mem_range.mp (List.mem_filter.mp hi).1

theorem formed_of_mem_reactionList {xs : List (Reaction K)}
    (h : reactionList index table ch o = .ok xs) (hx : x ∈ xs) : x.Formed table.size := by
  obtain ⟨merged, hmerged, h⟩ := bind_eq_ok_iff.mp h
  obtain rfl := Except.ok.inj h
  have hmem := List.mem_mergeSort.mp (mem_of_mem_keepFirst hx)
  rcases List.mem_append.mp hmem with hmem | hmem
  · exact formed_of_mem_mergers hmerged hmem
  · split_ifs at hmem
    · obtain ⟨i, hi, rfl⟩ := List.mem_map.mp hmem
      exact .sink (ClusterTable.lt_size_of_mem_diffusing hi)
    · cases hmem

end Generation

namespace Network.BuiltFrom

variable [Scalar K] {net : Network K} {spec : NetworkSpec K} {x : Reaction K}

theorem formed (h : net.BuiltFrom spec) (hx : x ∈ net.reactions.toList) : x.Formed net.size := by
  obtain ⟨o, -, hreactions⟩ := h.reactions
  exact formed_of_mem_reactionList hreactions hx

theorem lt_size_of_mem_participants (h : net.BuiltFrom spec) (hx : x ∈ net.reactions.toList)
    {i : Nat} (hi : i ∈ x.participants) : i < net.size :=
  (h.formed hx).lt_of_mem_participants hi

end Network.BuiltFrom

end ClusterDynamics
