import ClusterDynamics.Proofs.Lattice.Cuts

/-! The cutting of an axis, run by run. Bounds stop at the limit on counts, so a run there may be cut
short or have nothing left; the loop ends all the same, since each run that is cut off moves the next
one on. It fails at the limit only, and no other run but the last can reach it. -/

namespace ClusterDynamics

/-- An axis that is being cut. -/
structure Cutting where
  /-- The count that the next run begins at. -/
  start : Nat
  /-- The intervals so far, in order. -/
  cuts : List Interval

namespace Cutting

/-- Cut off one more run. -/
def turn (c : Cutting) (width : Nat) : Except LatticeError Cutting := do
  let run ← Interval.ofBounds c.start (boundedAdd c.start width)
  return ⟨run.stop, c.cuts ++ [run]⟩

/-- From `c` on, the loop ends after so many turns with this outcome. It goes on until the next run
would begin behind `max`, or a turn fails. -/
inductive Ends (max width : Nat) : Cutting → Nat → Except LatticeError (List Interval) → Prop
  | covered {c : Cutting} : max < c.start → Ends max width c 0 (.ok c.cuts)
  | failed {c : Cutting} {e : LatticeError} : c.start ≤ max → c.turn width = .error e →
      Ends max width c 1 (.error e)
  | turned {c d : Cutting} {turns : Nat} {outcome : Except LatticeError (List Interval)} :
      c.start ≤ max → c.turn width = .ok d → Ends max width d turns outcome →
      Ends max width c (turns + 1) outcome

variable {max width : Nat} {c : Cutting}

theorem turn_of_lt (h : c.start < boundedAdd c.start width) :
    c.turn width = .ok ⟨boundedAdd c.start width, c.cuts ++ [⟨c.start, _, h⟩]⟩ := by
  simp [turn, Interval.ofBounds, h]

theorem turn_of_not_lt (h : ¬c.start < boundedAdd c.start width) :
    c.turn width = .error (.degenerateInterval c.start (boundedAdd c.start width)) := by
  simp [turn, Interval.ofBounds, h]

/-- The loop cannot end in two ways. -/
theorem Ends.unique {m n : Nat} {r r' : Except LatticeError (List Interval)}
    (h : Ends max width c m r) (h' : Ends max width c n r') : n = m ∧ r' = r := by
  induction h generalizing n with
  | covered hstart =>
    cases h' with
    | covered => exact ⟨rfl, rfl⟩
    | failed hle => omega
    | turned hle => omega
  | failed hle hturn =>
    cases h' with
    | covered hstart => omega
    | failed _ hturn' =>
      rw [hturn] at hturn'
      obtain rfl := Except.error.inj hturn'
      exact ⟨rfl, rfl⟩
    | turned _ hturn' =>
      rw [hturn] at hturn'
      cases hturn'
  | turned hle hturn _ ih =>
    cases h' with
    | covered hstart => omega
    | failed _ hturn' =>
      rw [hturn] at hturn'
      cases hturn'
    | turned _ hturn' hrest =>
      obtain rfl := Except.ok.inj (hturn.symm.trans hturn')
      obtain ⟨rfl, rfl⟩ := ih hrest
      exact ⟨rfl, rfl⟩

/-- The loop cuts off the runs that are left, with at most one turn for each count that they cover. -/
theorem exists_ends (max width : Nat) (c : Cutting) : ∃ turns ≤ max + 1 - c.start,
    Ends max width c turns (Axis.runs max width c.start >>= fun rest => .ok (c.cuts ++ rest)) := by
  induction hd : max + 1 - c.start using Nat.strong_induction_on generalizing c with
  | h d ih =>
    rw [Axis.runs]
    by_cases hstart : c.start ≤ max
    · by_cases hs : c.start < boundedAdd c.start width
      · obtain ⟨turns, hturns, hends⟩ := ih _ (by simp only; omega)
          ⟨boundedAdd c.start width, c.cuts ++ [⟨c.start, _, hs⟩]⟩ rfl
        refine ⟨turns + 1, by simp only at hturns; omega, ?_⟩
        refine .turned hstart (turn_of_lt hs) ?_
        simpa [hstart, hs] using hends
      · refine ⟨1, by omega, ?_⟩
        simpa [hstart, hs] using Ends.failed hstart (turn_of_not_lt hs)
    · refine ⟨0, by omega, ?_⟩
      simpa [hstart] using Ends.covered (Nat.not_le.mp hstart)

end Cutting

namespace Axis

/-- The counts that stand alone. -/
def singles (a : Axis) : List Interval :=
  (List.range (min a.groupMin (boundedAdd a.max 1))).map Interval.singleton

/-- Cutting the axis ends after so many turns of the loop with this outcome. The axis is checked
before the loop. -/
def CuttingEnds (a : Axis) (turns : Nat) (outcome : Except LatticeError (List Interval)) : Prop :=
  match a.validate with
  | .error e => turns = 0 ∧ outcome = .error e
  | .ok () => Cutting.Ends a.max a.groupWidth ⟨a.groupMin, a.singles⟩ turns outcome

theorem exists_cuttingEnds_iff (a : Axis) : ∃ turns ≤ a.max + 1 - a.groupMin,
    ∀ n outcome, a.CuttingEnds n outcome ↔ n = turns ∧ outcome = a.intervals := by
  unfold CuttingEnds intervals
  cases a.validate with
  | error e => exact ⟨0, Nat.zero_le _, fun n outcome => Iff.rfl⟩
  | ok =>
    obtain ⟨turns, hturns, hends⟩ :=
      Cutting.exists_ends a.max a.groupWidth ⟨a.groupMin, a.singles⟩
    refine ⟨turns, hturns, fun n outcome => ⟨fun h => hends.unique h, ?_⟩⟩
    rintro ⟨rfl, rfl⟩
    exact hends

theorem stop_le_of_mem_singles {a : Axis} : ∀ c ∈ a.singles, c.stop ≤ countLimit := by
  intro c hc
  obtain ⟨n, hn, rfl⟩ := List.mem_map.mp hc
  have hone : boundedAdd a.max 1 ≤ countLimit := Nat.min_le_right _ _
  rw [List.mem_range] at hn
  simp only [Interval.singleton]
  omega

theorem stop_le_of_intervals {a : Axis} {cuts : List Interval} (h : a.intervals = .ok cuts) :
    ∀ c ∈ cuts, c.stop ≤ countLimit := by
  obtain ⟨-, groups, hr, rfl⟩ := intervals_eq_ok_iff.mp h
  intro c hc
  rcases List.mem_append.mp hc with hc | hc
  · exact stop_le_of_mem_singles c hc
  · rw [runs_stop_eq hr c hc]
    exact Nat.min_le_right _ _

/-- Intervals as an axis takes its counts: alone below the first run, and then in runs. -/
structure TakesInRuns (a : Axis) (cuts : List Interval) : Prop where
  head : ∃ c, cuts.head? = some c ∧ c.first = 0
  consecutive : cuts.IsChain fun c d => c.stop = d.first
  alone : ∀ n < min a.groupMin (a.max + 1), cuts[n]? = some (Interval.singleton n)
  /-- Only the last run may be of another width. -/
  width_eq : ∀ i, min a.groupMin (a.max + 1) ≤ i → (hi : i + 1 < cuts.length) →
    cuts[i].width = a.groupWidth
  last : ∃ c, cuts.getLast? = some c ∧ c.first ≤ a.max ∧ a.max < c.stop
  stop_le : ∀ c ∈ cuts, c.stop ≤ countLimit

theorem takesInRuns_of_intervals {a : Axis} {cuts : List Interval} (hs : a.Sound)
    (h : a.intervals = .ok cuts) : a.TakesInRuns cuts := by
  have hcut := isCut_of_intervals hs h
  have hwithin := stop_le_of_intervals h
  obtain ⟨stop, hmax, hconsecutive⟩ := hcut.consecutive
  obtain ⟨-, groups, hr, rfl⟩ := intervals_eq_ok_iff.mp h
  have hlimit := hs.max_lt
  rw [boundedAdd_one hlimit] at hcut hwithin hconsecutive ⊢
  refine ⟨hconsecutive.exists_head? (by omega), hconsecutive.isChain, ?_, ?_, ?_, hwithin⟩
  · intro n hn
    rw [List.getElem?_append_left (by simpa using hn)]
    simp only [List.getElem?_map, List.getElem?_range hn, Option.map_some]
  · intro i hle hi
    have hmem : ((List.range (min a.groupMin (a.max + 1))).map Interval.singleton ++ groups)[i] ∈
        groups := by
      rw [List.getElem_append_right (by simpa using hle)]
      exact List.getElem_mem _
    -- The next interval begins within the axis, so this one was not stopped by the limit.
    have hstop := runs_stop_eq hr _ hmem
    have hnext := List.isChain_iff_getElem.mp hconsecutive.isChain i hi
    have hbelow := hcut.first_le _ (List.getElem_mem hi)
    unfold boundedAdd at hstop
    unfold Interval.width
    omega
  · obtain ⟨c, hc, hstop⟩ := hconsecutive.exists_getLast? (by omega)
    exact ⟨c, hc, hcut.first_le c (List.mem_of_getLast? hc), by omega⟩

/-- Cutting an axis always ends, in one way only, and no bound passes the limit. It succeeds for the
axes with runs of some width, zero alone and room for a bound behind the largest count. Without that
room a run at the limit has nothing left. -/
theorem intervals_by_runs (a : Axis) (hgroup : a.groupMin ≤ countLimit) :
    (∃ turns ≤ a.max + 1 - a.groupMin,
      ∀ n outcome, a.CuttingEnds n outcome ↔ n = turns ∧ outcome = a.intervals) ∧
    (∀ c ∈ a.singles, c.stop ≤ countLimit) ∧
    ((∃ cuts, a.intervals = .ok cuts) ↔
      1 ≤ a.groupWidth ∧ 1 ≤ a.groupMin ∧ a.max < countLimit) ∧
    (∀ cuts, a.intervals = .ok cuts → a.TakesInRuns cuts) ∧
    (1 ≤ a.groupWidth → 1 ≤ a.groupMin → countLimit ≤ a.max →
      a.intervals = .error (.degenerateInterval countLimit countLimit)) := by
  refine ⟨exists_cuttingEnds_iff a, stop_le_of_mem_singles, ⟨?_, ?_⟩, ?_, ?_⟩
  · rintro ⟨cuts, h⟩
    have hs := Sound.of_intervals hgroup h
    exact ⟨hs.width_pos, hs.groupMin_pos, hs.max_lt⟩
  · rintro ⟨hwidth, hmin, hmax⟩
    obtain ⟨cuts, h, -⟩ := Sound.intervals_ok ⟨hwidth, hmin, hmax⟩
    exact ⟨cuts, h⟩
  · intro cuts h
    exact takesInRuns_of_intervals (Sound.of_intervals hgroup h) h
  · intro hwidth hmin hmax
    rw [intervals, validate_eq_ok_iff.mpr ⟨hwidth, hmin⟩, ok_bind, runs_eq_error hwidth hmax hgroup]
    rfl

/-- Two runs of four, the last of which reaches past the largest count. -/
theorem intervals_by_runs_xenon :
    ∃ cuts : List Interval, cuts.map (fun c => (c.first, c.stop)) =
        [(0, 1), (1, 2), (2, 3), (3, 4), (4, 8), (8, 12)] ∧
      (∃ turns ≤ 7, (⟨.xenon, 10, 4, 4⟩ : Axis).CuttingEnds turns (.ok cuts)) ∧
      (⟨.xenon, 10, 4, 4⟩ : Axis).TakesInRuns cuts := by
  obtain ⟨⟨turns, hturns, hends⟩, -, -, hruns, -⟩ :=
    intervals_by_runs ⟨.xenon, 10, 4, 4⟩ (by decide)
  have hcuts : (⟨.xenon, 10, 4, 4⟩ : Axis).intervals =
      .ok [⟨0, 1, by decide⟩, ⟨1, 2, by decide⟩, ⟨2, 3, by decide⟩, ⟨3, 4, by decide⟩,
        ⟨4, 8, by decide⟩, ⟨8, 12, by decide⟩] := by
    simp [intervals, validate, runs, boundedAdd, countLimit, List.range_succ, Interval.singleton]
  exact ⟨_, rfl, ⟨turns, hturns, (hends _ _).mpr ⟨rfl, hcuts.symm⟩⟩, hruns _ hcuts⟩

end Axis

end ClusterDynamics
