import ClusterDynamics.Network.ReactionList
import ClusterDynamics.Proofs.Lattice.Counting
import ClusterDynamics.Proofs.Network.Monomer

/-! Mergers of clusters: compositions of two regions that add up to one of a third, and the
reactions that they bring about in a network with given channels. -/

namespace ClusterDynamics

/-- Sums of compositions of two boxes lie between the sums of their bounds. -/
theorem mergeCounts_bounds {as bs : List Interval} {c d : Composition}
    (hc : boxContains as c = true) (hd : boxContains bs d = true) :
    List.Forall₂ (· ≤ ·) (List.zipWith (fun a b => a.first + b.first) as bs) (mergeCounts c d) ∧
      List.Forall₂ (· ≤ ·) (mergeCounts c d)
        (List.zipWith (fun a b => a.last + b.last) as bs) := by
  rw [boxContains_iff] at hc hd
  induction hc generalizing bs d with
  | nil => exact ⟨.nil, .nil⟩
  | @cons a m as c hm _ ih =>
    cases hd with
    | nil => exact ⟨.nil, .nil⟩
    | @cons b n bs d hn hd =>
      obtain ⟨hlo, hhi⟩ := ih hd
      rw [Interval.contains_eq_true] at hm hn
      refine ⟨.cons ?_ hlo, .cons ?_ hhi⟩
      · change a.first + b.first ≤ m + n
        omega
      · change m + n ≤ a.last + b.last
        rw [Interval.last, Interval.last]
        omega

namespace Region

variable {r s t : Region}

theorem mergers_nonempty_iff : (r.mergers s t).Nonempty ↔
    ∃ c d, r.contains c = true ∧ s.contains d = true ∧ t.contains (mergeCounts c d) = true := by
  simp [Finset.Nonempty, mergers, and_assoc]

theorem mergerShare_pos_iff : 0 < r.mergerShare s t ↔ (r.mergers s t).Nonempty := by
  have hr : (0 : ℝ) < r.compositions.card := Nat.cast_pos.mpr r.card_compositions_pos
  have hs : (0 : ℝ) < s.compositions.card := Nat.cast_pos.mpr s.card_compositions_pos
  rw [mergerShare, div_pos_iff_of_pos_right (mul_pos hr hs), Nat.cast_pos, Finset.card_pos]

end Region

/-- Clusters `i ≤ j` with regions `r` and `s` merge into cluster `k` with region `t`. -/
structure Paving.Merger (p : Paving) (i j k : Nat) (r s t : Region) : Prop where
  le : i ≤ j
  first : p.regions[i]? = some r
  second : p.regions[j]? = some s
  product : p.regions[k]? = some t
  sum : ∃ c d, r.contains c = true ∧ s.contains d = true ∧ t.contains (mergeCounts c d) = true

theorem Paving.Merger.pair_eq {p : Paving} {i j k : Nat} {r s t : Region}
    (h : p.Merger i j k r s t) : Reaction.pair i j = [i, j] := if_pos h.le

theorem Paving.Merger.share_pos {p : Paving} {i j k : Nat} {r s t : Region}
    (h : p.Merger i j k r s t) : 0 < r.mergerShare s t :=
  Region.mergerShare_pos_iff.mpr (Region.mergers_nonempty_iff.mpr h.sum)

namespace Channels

/-- The region is the monomer of the primary species. -/
def PrimaryMonomer (ch : Channels) (species : List Species) (r : Region) : Prop :=
  ∃ s, ch.primary = some s ∧ r.IsMonomer species s

/-- The merger of the two regions counts as nucleation. -/
def Nucleates (ch : Channels) (species : List Species) (r s : Region) : Prop :=
  ch.nucleation = true ∧ ch.PrimaryMonomer species r ∧ ch.PrimaryMonomer species s

/-- The region is a monomer that clusters emit. -/
def Emitted (ch : Channels) (species : List Species) (r : Region) : Prop :=
  ∃ s ∈ ch.monomerAxes, r.IsMonomer species s

end Channels

/-- The reactions of a network: those that the mergers among its regions bring about, and the
absorption of mobile clusters. -/
inductive Listed (spec : NetworkSpec ℝ) (ch : Channels) (p : Paving) : Reaction ℝ → Prop
  | production {i j k r s t} (h : p.Merger i j k r s t)
      (hn : ¬ch.Nucleates spec.profile.species r s) :
      Listed spec ch p (.production i j k (r.mergerShare s t))
  | nucleation {i j k r s t} (h : p.Merger i j k r s t)
      (hn : ch.Nucleates spec.profile.species r s) : Listed spec ch p (.nucleation i k)
  | dissociation {i j k r s t} (h : p.Merger i j k r s t)
      (he : ch.Emitted spec.profile.species r ∨ ch.Emitted spec.profile.species s) :
      Listed spec ch p (.dissociation k i j (r.mergerShare s t))
  | reSolution {i j k r s t least} (h : p.Merger i j k r s t)
      (hm : ch.PrimaryMonomer spec.profile.species r ∨ ch.PrimaryMonomer spec.profile.species s)
      (hleast : ch.reSolutionFrom = some least)
      (hsize : (least : ℝ) ≤ spec.profile.meanCount t spec.profile.primary) :
      Listed spec ch p (.reSolution k i j (r.mergerShare s t))
  | sink {i r} (hs : ch.sinks = true) (hr : p.regions[i]? = some r)
      (hm : 0 < (Cluster.mobilityOf spec.mobility r).1) : Listed spec ch p (.sink i)

section

variable {spec : NetworkSpec ℝ} {ch : Channels} {p : Paving} {x : Reaction ℝ}

/-- The share of a merger by the positions of its clusters. -/
noncomputable def mergerWeight (p : Paving) (i j k : Nat) : ℝ :=
  match p.regions[i]?, p.regions[j]?, p.regions[k]? with
  | some r, some s, some t => r.mergerShare s t
  | _, _, _ => 0

/-- The coefficient that belongs to a key. -/
noncomputable def keyWeight (p : Paving) : ReactionKey → ℝ
  | ⟨.production, [i, j], [k]⟩ => mergerWeight p i j k
  | ⟨.dissociation, [k], [i, j]⟩ => mergerWeight p i j k
  | ⟨.reSolution, [k], [i, j]⟩ => mergerWeight p i j k
  | _ => 1

theorem Paving.Merger.weight_eq {i j k : Nat} {r s t : Region} (h : p.Merger i j k r s t) :
    mergerWeight p i j k = r.mergerShare s t := by
  rw [mergerWeight, h.first, h.second, h.product]

/-- A listed reaction has the coefficient of its key, so no two of them share a key. -/
theorem Listed.coefficient_eq (h : Listed spec ch p x) : x.coefficient = keyWeight p x.key := by
  cases h with
  | production h hn => simp [Reaction.production, h.pair_eq, keyWeight, h.weight_eq]
  | nucleation h hn => simp [Reaction.nucleation, keyWeight]
  | dissociation h he => simp [Reaction.dissociation, h.pair_eq, keyWeight, h.weight_eq]
  | reSolution h hm hleast hsize => simp [Reaction.reSolution, h.pair_eq, keyWeight, h.weight_eq]
  | sink hs hr hm => simp [Reaction.sink, keyWeight]

/-- A listed reaction names a pair in ascending order. -/
theorem Listed.pairwise_le (h : Listed spec ch p x) :
    x.reactants.Pairwise (· ≤ ·) ∧ x.products.Pairwise (· ≤ ·) := by
  cases h with
  | production h hn =>
    simp [Reaction.production, Reaction.reactants, Reaction.products, h.pair_eq, h.le]
  | nucleation h hn => simp [Reaction.nucleation, Reaction.reactants, Reaction.products]
  | dissociation h he =>
    simp [Reaction.dissociation, Reaction.reactants, Reaction.products, h.pair_eq, h.le]
  | reSolution h hm hleast hsize =>
    simp [Reaction.reSolution, Reaction.reactants, Reaction.products, h.pair_eq, h.le]
  | sink hs hr hm => simp [Reaction.sink, Reaction.reactants, Reaction.products]

theorem Listed.coefficient_pos (h : Listed spec ch p x) : 0 < x.coefficient := by
  have hone : (0 : ℝ) < @OfNat.ofNat ℝ 1 (Scalar.natLit 1) := by simp
  cases h with
  | production h hn => exact h.share_pos
  | nucleation h hn => exact hone
  | dissociation h he => exact h.share_pos
  | reSolution h hm hleast hsize => exact h.share_pos
  | sink hs hr hm => exact hone

theorem Listed.eq_of_key {y : Reaction ℝ} (hx : Listed spec ch p x) (hy : Listed spec ch p y)
    (h : x.key = y.key) : x = y := by
  have hc : x.coefficient = y.coefficient := by
    rw [hx.coefficient_eq, hy.coefficient_eq, h]
  cases x
  cases y
  simp_all

end

end ClusterDynamics
