import ClusterDynamics.Lattice.Axis
import ClusterDynamics.Proofs.Outcome
import Mathlib.Algebra.Order.Floor.Div
import Mathlib.Data.List.Basic

/-! The intervals of one axis. They follow one another from zero without a gap and pass the largest
count with the last one, so each count of the axis lies in exactly one of them. -/

namespace ClusterDynamics

@[simp] theorem Interval.contains_eq_true {a : Interval} {n : Nat} :
    a.contains n = true ↔ a.first ≤ n ∧ n < a.stop := by
  simp [Interval.contains]

@[simp] theorem Interval.meets_eq_true {a : Interval} {lo hi : Nat} :
    a.meets lo hi = true ↔ a.first ≤ hi ∧ lo ≤ a.last := by
  simp [Interval.meets]

/-- The intervals begin at `first`, each where the one before it stops, and end at `stop`. -/
def Consecutive : Nat → List Interval → Nat → Prop
  | first, [], stop => first = stop
  | first, a :: as, stop => a.first = first ∧ Consecutive a.stop as stop

theorem Consecutive.append {m n k : Nat} {as bs : List Interval}
    (ha : Consecutive m as n) (hb : Consecutive n bs k) : Consecutive m (as ++ bs) k := by
  induction as generalizing m with
  | nil =>
    obtain rfl : m = n := ha
    exact hb
  | cons a as ih => exact ⟨ha.1, ih ha.2⟩

theorem Consecutive.le {m n : Nat} {as : List Interval} (h : Consecutive m as n) : m ≤ n := by
  induction as generalizing m with
  | nil => exact Nat.le_of_eq h
  | cons a as ih =>
    have hn := ih h.2
    have hm := h.1
    have ha := a.first_lt_stop
    omega

theorem Consecutive.first_ge {m n : Nat} {as : List Interval} (h : Consecutive m as n) :
    ∀ a ∈ as, m ≤ a.first := by
  induction as generalizing m with
  | nil => simp
  | cons a as ih =>
    intro b hb
    have hm := h.1
    have ha := a.first_lt_stop
    rcases List.mem_cons.mp hb with rfl | hb
    · omega
    · have hb' := ih h.2 b hb
      omega

theorem Consecutive.stop_le_first {m n : Nat} {as : List Interval} (h : Consecutive m as n)
    {a b : Interval} (ha : a ∈ as) (hb : b ∈ as) (hlt : a.first < b.first) : a.stop ≤ b.first := by
  induction as generalizing m with
  | nil => simp at ha
  | cons c as ih =>
    rcases List.mem_cons.mp ha with rfl | ha' <;> rcases List.mem_cons.mp hb with rfl | hb'
    · omega
    · exact h.2.first_ge b hb'
    · have hc := h.2.first_ge a ha'
      have hs := b.first_lt_stop
      omega
    · exact ih h.2 ha' hb'

theorem Consecutive.isChain {m n : Nat} {as : List Interval} (h : Consecutive m as n) :
    as.IsChain fun a b => a.stop = b.first := by
  induction as generalizing m with
  | nil => exact .nil
  | cons a as ih =>
    cases as with
    | nil => exact .singleton a
    | cons b as => exact .cons_cons h.2.1.symm (ih h.2)

theorem Consecutive.exists_head? {m n : Nat} {as : List Interval} (h : Consecutive m as n)
    (hlt : m < n) : ∃ a, as.head? = some a ∧ a.first = m := by
  cases as with
  | nil => exact absurd h hlt.ne
  | cons a as => exact ⟨a, rfl, h.1⟩

theorem Consecutive.exists_getLast? {m n : Nat} {as : List Interval} (h : Consecutive m as n)
    (hlt : m < n) : ∃ a, as.getLast? = some a ∧ a.stop = n := by
  induction as generalizing m with
  | nil => exact absurd h hlt.ne
  | cons a as ih =>
    cases as with
    | nil => exact ⟨a, rfl, h.2⟩
    | cons b as =>
      have hb := b.first_lt_stop
      have hfirst := h.2.1
      have hn := h.2.2.le
      rw [List.getLast?_cons_cons]
      exact ih h.2 (by omega)

theorem Consecutive.countP_contains {m n : Nat} {as : List Interval} (h : Consecutive m as n)
    (k : Nat) : as.countP (·.contains k) = if m ≤ k ∧ k < n then 1 else 0 := by
  induction as generalizing m with
  | nil =>
    obtain rfl : m = n := h
    simp
  | cons a as ih =>
    have hm := h.1
    have ha := a.first_lt_stop
    have hn := h.2.le
    rw [List.countP_cons, ih h.2]
    simp only [Interval.contains_eq_true]
    split_ifs <;> omega

theorem consecutive_singletons (n : Nat) :
    Consecutive 0 ((List.range n).map Interval.singleton) n := by
  induction n with
  | zero => rfl
  | succ n ih =>
    rw [List.range_succ, List.map_append]
    exact ih.append ⟨rfl, rfl⟩

namespace Axis

/-- Runs have a width, the zero count stands alone, and the counts leave room for a bound behind
the largest of them. -/
structure Sound (a : Axis) : Prop where
  width_pos : 1 ≤ a.groupWidth
  groupMin_pos : 1 ≤ a.groupMin
  max_lt : a.max < countLimit

/-- The number of intervals of an axis: the counts that stand alone, and the runs. -/
def cellCount (a : Axis) : Nat :=
  min a.groupMin (a.max + 1) + (a.max + 1 - a.groupMin) ⌈/⌉ a.groupWidth

/-- What the intervals of an axis are: consecutive from zero until the largest count is passed. -/
structure IsCut (a : Axis) (cuts : List Interval) : Prop where
  consecutive : ∃ stop, a.max < stop ∧ Consecutive 0 cuts stop
  first_le : ∀ c ∈ cuts, c.first ≤ a.max
  zero_alone : ∀ c ∈ cuts, c.first = 0 → c.stop = 1
  length_eq : cuts.length = a.cellCount

theorem validate_eq_ok_iff {a : Axis} :
    a.validate = .ok () ↔ 1 ≤ a.groupWidth ∧ 1 ≤ a.groupMin := by
  unfold validate
  split_ifs <;> simp <;> omega

theorem boundedAdd_one {n : Nat} (h : n < countLimit) : boundedAdd n 1 = n + 1 := by
  unfold boundedAdd
  omega

/-- One run less covers the counts behind the first run. -/
theorem ceilDiv_run {width count : Nat} (hw : 1 ≤ width) (hc : 1 ≤ count) :
    (count - width) ⌈/⌉ width + 1 = count ⌈/⌉ width := by
  simp only [Nat.ceilDiv_eq_add_pred_div]
  rcases Nat.le_total width count with h | h
  · rw [← Nat.add_div_right _ hw]
    congr 1
    omega
  · rw [Nat.sub_eq_zero_of_le h, Nat.div_eq_of_lt (by omega : 0 + width - 1 < width)]
    symm
    apply Nat.div_eq_of_lt_le <;> omega

/-- The runs from a count on are consecutive and pass the largest count. -/
theorem runs_spec {max width : Nat} (first : Nat) (hw : 1 ≤ width) (hm : max < countLimit) :
    ∃ groups stop, runs max width first = .ok groups ∧ Consecutive first groups stop ∧
      max < stop ∧ (∀ g ∈ groups, g.first ≤ max) ∧
      groups.length = (max + 1 - first) ⌈/⌉ width := by
  induction hd : max + 1 - first using Nat.strong_induction_on generalizing first with
  | h d ih =>
    rw [runs]
    by_cases hf : first ≤ max
    · have hs : first < boundedAdd first width := by unfold boundedAdd; omega
      obtain ⟨groups, stop, hr, hc, hx, hg, hl⟩ :=
        ih (max + 1 - boundedAdd first width) (by omega) (boundedAdd first width) rfl
      refine ⟨⟨first, boundedAdd first width, hs⟩ :: groups, stop, ?_, ⟨rfl, hc⟩, hx, ?_, ?_⟩
      · simp [hf, hs, hr]
      · rintro g hg'
        rcases List.mem_cons.mp hg' with rfl | hg'
        · exact hf
        · exact hg g hg'
      · have hstop : max + 1 - boundedAdd first width = max + 1 - first - width := by
          unfold boundedAdd
          omega
        rw [List.length_cons, hl, hstop, ← hd, ceilDiv_run hw (by omega)]
    · refine ⟨[], first, by simp [hf], rfl, by omega, by simp, ?_⟩
      rw [← hd, Nat.sub_eq_zero_of_le (by omega)]
      simp

/-- Where counts reach the limit, no bound passes the largest of them: the runs come to the limit, and
the next one is empty. -/
theorem runs_eq_error {max width first : Nat} (hw : 1 ≤ width) (hm : countLimit ≤ max)
    (hf : first ≤ countLimit) :
    runs max width first = .error (.degenerateInterval countLimit countLimit) := by
  induction hd : countLimit - first using Nat.strong_induction_on generalizing first with
  | h d ih =>
    have hstop : boundedAdd first width ≤ countLimit := Nat.min_le_right _ _
    rw [runs, if_pos (by omega)]
    by_cases hs : first < boundedAdd first width
    · simp [hs, ih _ (by omega) hstop rfl]
    · obtain ⟨rfl, hlimit⟩ : first = countLimit ∧ boundedAdd first width = countLimit := by
        unfold boundedAdd at hs ⊢
        omega
      simp [hlimit]

theorem intervals_eq_ok_iff {a : Axis} {cuts : List Interval} :
    a.intervals = .ok cuts ↔ (1 ≤ a.groupWidth ∧ 1 ≤ a.groupMin) ∧
      ∃ groups, runs a.max a.groupWidth a.groupMin = .ok groups ∧
        (List.range (min a.groupMin (boundedAdd a.max 1))).map Interval.singleton ++ groups =
          cuts := by
  unfold intervals
  rw [bind_eq_ok_iff]
  constructor
  · rintro ⟨⟨⟩, hv, h⟩
    obtain ⟨groups, hr, he⟩ := bind_eq_ok_iff.mp h
    exact ⟨validate_eq_ok_iff.mp hv, groups, hr, Except.ok.inj he⟩
  · rintro ⟨hv, groups, hr, rfl⟩
    exact ⟨(), validate_eq_ok_iff.mpr hv, bind_eq_ok_iff.mpr ⟨groups, hr, rfl⟩⟩

theorem Sound.of_intervals {a : Axis} {cuts : List Interval} (hg : a.groupMin ≤ countLimit)
    (h : a.intervals = .ok cuts) : a.Sound := by
  obtain ⟨hv, groups, hr, -⟩ := intervals_eq_ok_iff.mp h
  refine ⟨hv.1, hv.2, ?_⟩
  by_contra hm
  rw [runs_eq_error hv.1 (by omega) hg] at hr
  cases hr

theorem Sound.intervals_ok {a : Axis} (h : a.Sound) :
    ∃ cuts, a.intervals = .ok cuts ∧ a.IsCut cuts := by
  obtain ⟨groups, stop, hr, hc, hx, hg, hl⟩ := runs_spec a.groupMin h.width_pos h.max_lt
  have hone := boundedAdd_one h.max_lt
  have hmin := h.groupMin_pos
  refine ⟨_, intervals_eq_ok_iff.mpr ⟨⟨h.width_pos, hmin⟩, groups, hr, rfl⟩, ?_, ?_, ?_, ?_⟩
  · rcases Nat.lt_or_ge a.max a.groupMin with hm | hm
    · -- No count is left for a run.
      have hnil : groups = [] := by
        apply List.eq_nil_of_length_eq_zero
        rw [hl, Nat.sub_eq_zero_of_le hm]
        simp
      refine ⟨a.max + 1, by omega, ?_⟩
      rw [hnil, List.append_nil, hone, Nat.min_eq_right hm]
      exact consecutive_singletons _
    · refine ⟨stop, hx, ?_⟩
      rw [hone, Nat.min_eq_left (by omega)]
      exact (consecutive_singletons _).append hc
  · intro c hc'
    simp only [List.mem_append, List.mem_map, List.mem_range] at hc'
    rcases hc' with ⟨n, hn, rfl⟩ | hc'
    · simp only [Interval.singleton]
      omega
    · exact hg c hc'
  · intro c hc' hz
    simp only [List.mem_append, List.mem_map, List.mem_range] at hc'
    rcases hc' with ⟨n, hn, rfl⟩ | hc'
    · simp only [Interval.singleton] at hz ⊢
      omega
    · have hf := hc.first_ge c hc'
      omega
  · simp [cellCount, hl, hone]

theorem isCut_of_intervals {a : Axis} {cuts : List Interval} (hs : a.Sound)
    (h : a.intervals = .ok cuts) : a.IsCut cuts := by
  obtain ⟨cuts', h', hc⟩ := hs.intervals_ok
  obtain rfl : cuts' = cuts := Except.ok.inj (h'.symm.trans h)
  exact hc

theorem IsCut.countP_contains {a : Axis} {cuts : List Interval} (h : a.IsCut cuts) {n : Nat}
    (hn : n ≤ a.max) : cuts.countP (·.contains n) = 1 := by
  obtain ⟨stop, hs, hc⟩ := h.consecutive
  rw [hc.countP_contains, if_pos (by omega)]

theorem runs_eq_ok_cons {max width first : Nat} {g : Interval} {groups : List Interval}
    (h : runs max width first = .ok (g :: groups)) :
    g.first = first ∧ g.stop = boundedAdd first width ∧ runs max width g.stop = .ok groups := by
  rw [runs] at h
  split_ifs at h with hf
  · dsimp only at h
    split_ifs at h with hs
    obtain ⟨rest, hr, he⟩ := bind_eq_ok_iff.mp h
    obtain ⟨rfl, rfl⟩ := List.cons.inj (Except.ok.inj he)
    exact ⟨rfl, rfl, hr⟩
  · cases Except.ok.inj h

theorem runs_consecutive {max width first : Nat} {groups : List Interval}
    (h : runs max width first = .ok groups) : ∃ stop, Consecutive first groups stop := by
  induction groups generalizing first with
  | nil => exact ⟨first, rfl⟩
  | cons g groups ih =>
    obtain ⟨hfirst, -, hr⟩ := runs_eq_ok_cons h
    obtain ⟨stop, hc⟩ := ih hr
    exact ⟨stop, hfirst, hc⟩

theorem runs_stop_eq {max width first : Nat} {groups : List Interval}
    (h : runs max width first = .ok groups) : ∀ g ∈ groups, g.stop = boundedAdd g.first width := by
  induction groups generalizing first with
  | nil => simp
  | cons g groups ih =>
    obtain ⟨hfirst, hstop, hr⟩ := runs_eq_ok_cons h
    exact List.forall_mem_cons.mpr ⟨by rw [hfirst, hstop], ih hr⟩

theorem runs_stop_le {max width first : Nat} {groups : List Interval}
    (h : runs max width first = .ok groups) : ∀ g ∈ groups, g.stop ≤ g.first + width := by
  intro g hg
  rw [runs_stop_eq h g hg]
  exact Nat.min_le_left _ _

/-- An interval of one count, or of counts that the axis takes in runs. -/
def Holds (a : Axis) (i : Interval) : Prop :=
  i.stop = i.first + 1 ∨ a.groupMin ≤ i.first ∧ i.stop ≤ i.first + a.groupWidth

theorem holds_of_intervals {a : Axis} {cuts : List Interval} (h : a.intervals = .ok cuts) :
    ∀ i ∈ cuts, a.Holds i := by
  obtain ⟨-, groups, hr, rfl⟩ := intervals_eq_ok_iff.mp h
  obtain ⟨stop, hg⟩ := runs_consecutive hr
  intro i hi
  rcases List.mem_append.mp hi with hi | hi
  · obtain ⟨n, -, rfl⟩ := List.mem_map.mp hi
    exact .inl rfl
  · exact .inr ⟨hg.first_ge i hi, runs_stop_le hr i hi⟩

theorem stop_le_first_of_intervals {a : Axis} {cuts : List Interval} (h : a.intervals = .ok cuts)
    {c d : Interval} (hc : c ∈ cuts) (hd : d ∈ cuts) (hlt : c.first < d.first) :
    c.stop ≤ d.first := by
  obtain ⟨-, groups, hr, rfl⟩ := intervals_eq_ok_iff.mp h
  obtain ⟨stop, hg⟩ := runs_consecutive hr
  have hs := consecutive_singletons (min a.groupMin (boundedAdd a.max 1))
  rcases List.mem_append.mp hc with hc | hc <;> rcases List.mem_append.mp hd with hd | hd
  · exact hs.stop_le_first hc hd hlt
  · have hd' := hg.first_ge d hd
    obtain ⟨n, hn, rfl⟩ := List.mem_map.mp hc
    rw [List.mem_range] at hn
    simp only [Interval.singleton]
    omega
  · have hc' := hg.first_ge c hc
    obtain ⟨n, hn, rfl⟩ := List.mem_map.mp hd
    rw [List.mem_range] at hn
    simp only [Interval.singleton] at hlt
    omega
  · exact hg.stop_le_first hc hd hlt

end Axis

end ClusterDynamics
