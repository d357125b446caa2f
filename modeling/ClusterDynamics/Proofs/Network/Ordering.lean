import ClusterDynamics.Network.ReactionList
import Mathlib.Tactic.Common

/-! The order of reaction keys is linear, so a sorted list of reactions names each key once, and it
loses no reaction where equal keys mean equal reactions. -/

namespace ClusterDynamics

theorem lexLe_cons_iff {m n : Nat} {a b : List Nat} :
    lexLe (m :: a) (n :: b) = true ↔ m < n ∨ m = n ∧ lexLe a b = true := by
  simp [lexLe]

theorem lexLe_trans {a b c : List Nat} (hab : lexLe a b = true) (hbc : lexLe b c = true) :
    lexLe a c = true := by
  induction a generalizing b c with
  | nil => rfl
  | cons l a ih =>
    cases b with
    | nil => cases hab
    | cons m b =>
      cases c with
      | nil => cases hbc
      | cons n c =>
        rw [lexLe_cons_iff] at *
        rcases hab with hlm | ⟨rfl, hab⟩
        · exact .inl (by omega)
        · rcases hbc with hmn | ⟨rfl, hbc⟩
          · exact .inl hmn
          · exact .inr ⟨rfl, ih hab hbc⟩

theorem lexLe_total (a b : List Nat) : lexLe a b = true ∨ lexLe b a = true := by
  induction a generalizing b with
  | nil => exact .inl rfl
  | cons m a ih =>
    cases b with
    | nil => exact .inr rfl
    | cons n b =>
      rw [lexLe_cons_iff, lexLe_cons_iff]
      have hrest := ih b
      rcases Nat.lt_trichotomy m n with h | h | h
      · exact .inl (.inl h)
      · subst h
        exact hrest.imp (fun h => .inr ⟨rfl, h⟩) (fun h => .inr ⟨rfl, h⟩)
      · exact .inr (.inl h)

theorem lexLe_antisymm {a b : List Nat} (hab : lexLe a b = true) (hba : lexLe b a = true) :
    a = b := by
  induction a generalizing b with
  | nil =>
    cases b with
    | nil => rfl
    | cons n b => cases hba
  | cons m a ih =>
    cases b with
    | nil => cases hab
    | cons n b =>
      rw [lexLe_cons_iff] at hab hba
      have hmn : m = n := by omega
      subst hmn
      rw [ih (by simpa using hab) (by simpa using hba)]

theorem ReactionKind.rank_injective : Function.Injective ReactionKind.rank := by
  intro x y
  cases x <;> cases y <;> decide

namespace ReactionKey

theorem precedes_iff {x y : ReactionKey} : x.precedes y = true ↔
    x.kind.rank < y.kind.rank ∨ x.kind = y.kind ∧
      (x.reactants ≠ y.reactants ∧ lexLe x.reactants y.reactants = true ∨
        x.reactants = y.reactants ∧ lexLe x.products y.products = true) := by
  unfold precedes
  split_ifs with hk hr
  · simp [hk]
  · simp only [not_not] at hk
    simp [hk, hr]
  · simp only [not_not] at hk hr
    simp [hk, hr]

theorem precedes_trans {x y z : ReactionKey} (hxy : x.precedes y = true)
    (hyz : y.precedes z = true) : x.precedes z = true := by
  rw [precedes_iff] at *
  rcases hxy with hxy | ⟨hk, hxy⟩
  · rcases hyz with hyz | ⟨hk', -⟩
    · exact .inl (by omega)
    · exact .inl (hk' ▸ hxy)
  · rw [hk]
    refine hyz.imp_right fun ⟨hk', hyz⟩ => ⟨hk', ?_⟩
    rcases hxy with ⟨hne, hxy⟩ | ⟨he, hxy⟩
    · refine .inl ?_
      rcases hyz with ⟨hne', hyz⟩ | ⟨he', -⟩
      · exact ⟨fun h => hne (lexLe_antisymm hxy (h ▸ hyz)), lexLe_trans hxy hyz⟩
      · exact he' ▸ ⟨hne, hxy⟩
    · rw [he]
      exact hyz.imp_right fun ⟨he', hyz⟩ => ⟨he', lexLe_trans hxy hyz⟩

theorem precedes_total (x y : ReactionKey) : x.precedes y = true ∨ y.precedes x = true := by
  rw [precedes_iff, precedes_iff]
  rcases Nat.lt_trichotomy x.kind.rank y.kind.rank with h | h | h
  · exact .inl (.inl h)
  · have hk := ReactionKind.rank_injective h
    by_cases hr : x.reactants = y.reactants
    · rcases lexLe_total x.products y.products with hp | hp
      · exact .inl (.inr ⟨hk, .inr ⟨hr, hp⟩⟩)
      · exact .inr (.inr ⟨hk.symm, .inr ⟨hr.symm, hp⟩⟩)
    · rcases lexLe_total x.reactants y.reactants with hl | hl
      · exact .inl (.inr ⟨hk, .inl ⟨hr, hl⟩⟩)
      · exact .inr (.inr ⟨hk.symm, .inl ⟨Ne.symm hr, hl⟩⟩)
  · exact .inr (.inl h)

theorem precedes_antisymm {x y : ReactionKey} (hxy : x.precedes y = true)
    (hyx : y.precedes x = true) : x = y := by
  rw [precedes_iff] at hxy hyx
  obtain ⟨kx, rx, px⟩ := x
  obtain ⟨ky, ry, py⟩ := y
  dsimp only at hxy hyx
  rcases hxy with hlt | ⟨rfl, hxy⟩
  · rcases hyx with hgt | ⟨rfl, -⟩ <;> omega
  · rcases hyx with hlt | ⟨-, hyx⟩
    · omega
    · rcases hxy with ⟨hne, hxy⟩ | ⟨rfl, hxy⟩ <;> rcases hyx with ⟨hne', hyx⟩ | ⟨he, hyx⟩
      · exact absurd (lexLe_antisymm hxy hyx) hne
      · exact absurd he.symm hne
      · exact absurd rfl hne'
      · rw [lexLe_antisymm hxy hyx]

/-- The strict order of keys. -/
def Before (x y : ReactionKey) : Prop := x.precedes y = true ∧ x ≠ y

end ReactionKey

variable {K : Type}

/-- Sorted reactions with each key once. -/
def Ascending (rs : List (Reaction K)) : Prop := rs.Pairwise fun r s => r.key.Before s.key

theorem mem_of_mem_putFirst {r t : Reaction K} {rs : List (Reaction K)} (h : t ∈ putFirst r rs) :
    t = r ∨ t ∈ rs := by
  cases rs with
  | nil => simpa [putFirst] using h
  | cons s rs =>
    rw [putFirst] at h
    split_ifs at h
    · rcases List.mem_cons.mp h with rfl | h
      · exact .inl rfl
      · exact .inr (List.mem_cons_of_mem _ h)
    · exact List.mem_cons.mp h

theorem Ascending.putFirst {r : Reaction K} {rs : List (Reaction K)} (h : Ascending rs)
    (hr : ∀ s ∈ rs, r.key.precedes s.key = true) : Ascending (putFirst r rs) := by
  cases rs with
  | nil => exact List.pairwise_singleton _ _
  | cons s rs =>
    obtain ⟨hs, hrs⟩ := List.pairwise_cons.mp h
    rw [ClusterDynamics.putFirst]
    split_ifs with he
    · exact List.pairwise_cons.mpr ⟨fun t ht => he ▸ hs t ht, hrs⟩
    · refine List.pairwise_cons.mpr ⟨fun t ht => ⟨hr t ht, ?_⟩, h⟩
      have hrs := hr s List.mem_cons_self
      rcases List.mem_cons.mp ht with rfl | ht
      · exact Ne.symm he
      · intro heq
        exact he (ReactionKey.precedes_antisymm (heq ▸ (hs t ht).1) hrs)

theorem mem_of_mem_keepFirst {r : Reaction K} {rs : List (Reaction K)} (h : r ∈ keepFirst rs) :
    r ∈ rs := by
  induction rs with
  | nil => exact h
  | cons s rs ih =>
    rcases mem_of_mem_putFirst h with rfl | h
    · exact List.mem_cons_self
    · exact List.mem_cons_of_mem _ (ih h)

theorem ascending_keepFirst {rs : List (Reaction K)}
    (h : rs.Pairwise fun r s => r.key.precedes s.key = true) : Ascending (keepFirst rs) := by
  induction rs with
  | nil => exact List.Pairwise.nil
  | cons r rs ih =>
    obtain ⟨hr, hrs⟩ := List.pairwise_cons.mp h
    exact (ih hrs).putFirst fun s hs => hr s (mem_of_mem_keepFirst hs)

theorem mem_putFirst_self (r : Reaction K) (rs : List (Reaction K)) : r ∈ putFirst r rs := by
  cases rs with
  | nil => exact List.mem_cons_self
  | cons s rs =>
    rw [putFirst]
    split_ifs <;> exact List.mem_cons_self

theorem exists_mem_putFirst {r s : Reaction K} {rs : List (Reaction K)} (h : s ∈ rs) :
    ∃ t ∈ putFirst r rs, t.key = s.key := by
  cases rs with
  | nil => cases h
  | cons u rs =>
    by_cases he : u.key = r.key
    · rcases List.mem_cons.mp h with rfl | h
      · exact ⟨r, mem_putFirst_self r _, he.symm⟩
      · exact ⟨s, by simp [putFirst, he, h], rfl⟩
    · exact ⟨s, by simp [putFirst, he, List.mem_cons.mp h], rfl⟩

theorem exists_mem_keepFirst {r : Reaction K} {rs : List (Reaction K)} (h : r ∈ rs) :
    ∃ s ∈ keepFirst rs, s.key = r.key := by
  induction rs with
  | nil => cases h
  | cons t rs ih =>
    rcases List.mem_cons.mp h with rfl | h
    · exact ⟨r, mem_putFirst_self r _, rfl⟩
    · obtain ⟨s, hs, he⟩ := ih h
      obtain ⟨u, hu, he'⟩ := exists_mem_putFirst (r := t) hs
      exact ⟨u, hu, he'.trans he⟩

theorem pairwise_mergeSort_key (rs : List (Reaction K)) :
    (rs.mergeSort fun r s => r.key.precedes s.key).Pairwise fun r s =>
      r.key.precedes s.key = true := by
  refine List.pairwise_mergeSort ?_ ?_ rs
  · exact fun _ _ _ => ReactionKey.precedes_trans
  · intro r s
    rw [Bool.or_eq_true]
    exact ReactionKey.precedes_total r.key s.key

theorem ascending_sortReactions (rs : List (Reaction K)) : Ascending (sortReactions rs) :=
  ascending_keepFirst (pairwise_mergeSort_key rs)

/-- Where equal keys mean equal reactions, sorting loses no reaction. -/
theorem mem_sortReactions_iff {rs : List (Reaction K)}
    (h : ∀ r ∈ rs, ∀ s ∈ rs, r.key = s.key → r = s) {r : Reaction K} :
    r ∈ sortReactions rs ↔ r ∈ rs := by
  constructor
  · intro hr
    exact List.mem_mergeSort.mp (mem_of_mem_keepFirst hr)
  · intro hr
    obtain ⟨s, hs, he⟩ := exists_mem_keepFirst (List.mem_mergeSort.mpr hr)
    have hs' : s ∈ rs := List.mem_mergeSort.mp (mem_of_mem_keepFirst hs)
    rwa [← h s hs' r hr he]

end ClusterDynamics
