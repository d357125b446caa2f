import ClusterDynamics.Proofs.Outcome
import ClusterDynamics.Report

/-! Computations that report along the way: when a chain of them returns a result, and which events
it reports. -/

namespace ClusterDynamics

namespace Reported

variable {K ε α β : Type} {x : Reported K ε α} {j j' : Journal K} {a : α}

/-- Started with a journal, the computation returns a result and leaves another journal. -/
def Returns (x : Reported K ε α) (j : Journal K) (a : α) (j' : Journal K) : Prop :=
  x.run j = (.ok a, j')

theorem value_eq_ok_iff : x.value = .ok a ↔ ∃ j', x.Returns {} a j' := by
  unfold value report Returns
  constructor
  · intro h
    exact ⟨_, Prod.ext h rfl⟩
  · rintro ⟨j', h⟩
    exact congrArg Prod.fst h

theorem run_bind {f : α → Reported K ε β} : (x >>= f).run j = match x.run j with
    | (.ok a, i) => (f a).run i
    | (.error e, i) => (.error e, i) := by
  rw [ExceptT.run_bind]
  change (match (x.run j).1 with
    | .ok a => (f a).run
    | .error e => pure (.error e)) (x.run j).2 = _
  rcases x.run j with ⟨_ | _, i⟩ <;> rfl

theorem returns_bind_iff {f : α → Reported K ε β} {b : β} :
    Returns (x >>= f) j b j' ↔ ∃ a i, x.Returns j a i ∧ (f a).Returns i b j' := by
  unfold Returns
  rw [run_bind]
  rcases x.run j with ⟨e | a, i⟩
  · constructor
    · exact fun h => nomatch (Prod.mk.inj h).1
    · rintro ⟨a, i', h, -⟩
      exact nomatch (Prod.mk.inj h).1
  · constructor
    · exact fun h => ⟨a, i, rfl, h⟩
    · rintro ⟨a', i', h, h'⟩
      obtain ⟨ha, rfl⟩ := Prod.mk.inj h
      obtain rfl := Except.ok.inj ha
      exact h'

theorem returns_pure_iff {b : α} : Returns (pure b : Reported K ε α) j a j' ↔ a = b ∧ j' = j := by
  unfold Returns
  rw [ExceptT.run_pure]
  change ((.ok b, j) : Except ε α × Journal K) = (.ok a, j') ↔ _
  simp [eq_comm]

theorem returns_ofExcept_iff {y : Except ε α} :
    Returns (ofExcept y : Reported K ε α) j a j' ↔ y = .ok a ∧ j' = j := by
  cases y with
  | error e =>
    change ((.error e, j) : Except ε α × Journal K) = (.ok a, j') ↔ _
    simp
  | ok b =>
    change ((.ok b, j) : Except ε α × Journal K) = (.ok a, j') ↔ _
    simp [eq_comm]

theorem returns_event (e : Event K) (j : Journal K) :
    Returns (event e : Reported K ε Unit) j () { j with events := j.events ++ [e] } :=
  rfl

theorem returns_log (r : LogRecord) (j : Journal K) :
    Returns (log r : Reported K ε Unit) j () { j with log := j.log ++ [r] } :=
  rfl

theorem returns_mapError_iff {ε' : Type} {f : ε → ε'} :
    Returns (x.mapError f) j a j' ↔ x.Returns j a j' := by
  unfold Returns
  change ((x.run j).1.mapError f, (x.run j).2) = (.ok a, j') ↔ _
  rcases x.run j with ⟨e | b, i⟩
  · change ((.error (f e), i) : Except ε' α × Journal K) = (.ok a, j') ↔
      ((.error e, i) : Except ε α × Journal K) = (.ok a, j')
    simp
  · change ((.ok b, i) : Except ε' α × Journal K) = (.ok a, j') ↔
      ((.ok b, i) : Except ε α × Journal K) = (.ok a, j')
    simp

theorem returns_logged {y : Except ε α} {r : α → LogRecord} (h : y = .ok a) (j : Journal K) :
    Returns (do let a ← ofExcept y; log (r a); return a : Reported K ε α) j a
      { j with log := j.log ++ [r a] } :=
  returns_bind_iff.mpr ⟨a, j, returns_ofExcept_iff.mpr ⟨h, rfl⟩,
    returns_bind_iff.mpr ⟨(), _, returns_log _ _, returns_pure_iff.mpr ⟨rfl, rfl⟩⟩⟩

/-- A computation that tells of its result in the log. -/
theorem exists_returns_logged_iff {y : Except ε α} {r : α → LogRecord} :
    (∃ j', Returns (do let a ← ofExcept y; log (r a); return a : Reported K ε α) j a j') ↔
      y = .ok a := by
  constructor
  · rintro ⟨j', h⟩
    obtain ⟨b, i, hb, h⟩ := returns_bind_iff.mp h
    obtain ⟨⟨⟩, i', -, h⟩ := returns_bind_iff.mp h
    obtain ⟨rfl, -⟩ := returns_pure_iff.mp h
    exact (returns_ofExcept_iff.mp hb).1
  · exact fun h => ⟨_, returns_logged h j⟩

/-- A pass that writes one record for each entry of a list. -/
theorem returns_forIn_log (r : β → LogRecord) (xs : List β) (j : Journal K) :
    Returns (forIn xs PUnit.unit fun b _ => do log (r b); return .yield PUnit.unit :
      Reported K ε PUnit) j PUnit.unit { j with log := j.log ++ xs.map r } := by
  induction xs generalizing j with
  | nil => exact returns_pure_iff.mpr ⟨rfl, by simp⟩
  | cons b xs ih =>
    have hrest := ih { j with log := j.log ++ [r b] }
    rw [List.append_assoc, List.singleton_append, ← List.map_cons] at hrest
    rw [List.forIn_cons, returns_bind_iff]
    refine ⟨.yield ⟨⟩, _, ?_, hrest⟩
    exact returns_bind_iff.mpr ⟨_, _, returns_log _ _, returns_pure_iff.mpr ⟨rfl, rfl⟩⟩

/-- Started with a journal, the computation fails and leaves another journal. -/
def Fails (x : Reported K ε α) (j : Journal K) (e : ε) (j' : Journal K) : Prop :=
  x.run j = (.error e, j')

theorem Fails.bind {f : α → Reported K ε β} {e : ε} (h : x.Fails j e j') :
    (x >>= f).Fails j e j' := by
  unfold Fails
  rw [run_bind, h]

theorem Returns.bind_fails {f : α → Reported K ε β} {e : ε} {i : Journal K} (h : x.Returns j a i)
    (hf : (f a).Fails i e j') : (x >>= f).Fails j e j' := by
  unfold Fails
  rw [run_bind, h]
  exact hf

theorem fails_ofExcept {y : Except ε α} {e : ε} (h : y = .error e) (j : Journal K) :
    (ofExcept y : Reported K ε α).Fails j e j := by
  subst h
  rfl

theorem Fails.mapError {ε' : Type} {f : ε → ε'} {e : ε} (h : x.Fails j e j') :
    (x.mapError f).Fails j (f e) j' := by
  unfold Fails
  change ((x.run j).1.mapError f, (x.run j).2) = _
  rw [h]
  rfl

/-- The events of a result, and none of a failure. -/
def eventsOf (es : α → List (Event K)) : Except ε α → List (Event K)
  | .ok a => es a
  | .error _ => []

/-- Whatever was reported before, the computation reports the events of its result. -/
def Tells (x : Reported K ε α) (es : α → List (Event K)) : Prop :=
  ∀ j, (x.run j).2.events = j.events ++ eventsOf es (x.run j).1

/-- The computation reports no event. -/
def Silent (x : Reported K ε α) : Prop := x.Tells fun _ => []

section Tells

variable {es : β → List (Event K)}

theorem silent_iff : x.Silent ↔ ∀ j, (x.run j).2.events = j.events := by
  refine forall_congr' fun j => ?_
  rcases x.run j with ⟨_ | _, i⟩ <;> simp [eventsOf]

theorem Silent.bind {f : α → Reported K ε β} (hx : x.Silent) (hf : ∀ a, (f a).Tells es) :
    (x >>= f).Tells es := by
  intro j
  have hj := silent_iff.mp hx j
  rw [run_bind]
  rcases hrun : x.run j with ⟨e | a, i⟩
  · simpa [eventsOf, hrun] using hj
  · have hi := hf a i
    rw [hrun] at hj
    rwa [show i.events = j.events from hj] at hi

theorem Returns.bind_tells {f : α → Reported K ε β} {i : Journal K} (h : x.Returns j a i)
    (hf : (f a).Tells es) :
    ((x >>= f).run j).2.events = i.events ++ eventsOf es ((x >>= f).run j).1 := by
  rw [run_bind, h]
  exact hf i

theorem tells_pure {b : β} (h : es b = []) : (pure b : Reported K ε β).Tells es := by
  intro j
  change j.events = j.events ++ es b
  rw [h, List.append_nil]

theorem tells_event {e : Event K} {b : β} (h : es b = [e]) :
    (do event e; return b : Reported K ε β).Tells es := by
  intro j
  change j.events ++ [e] = j.events ++ es b
  rw [h]

theorem silent_ofExcept (y : Except ε α) : (ofExcept y : Reported K ε α).Silent := by
  rw [silent_iff]
  intro j
  cases y <;> rfl

theorem silent_log (r : LogRecord) : (log r : Reported K ε Unit).Silent :=
  silent_iff.mpr fun _ => rfl

/-- A computation that tells of its result in the log. -/
theorem silent_logged (y : Except ε α) (r : α → LogRecord) :
    (do let a ← ofExcept y; log (r a); return a : Reported K ε α).Silent :=
  (silent_ofExcept y).bind fun _ => (silent_log _).bind fun _ => tells_pure rfl

theorem Silent.mapError {ε' : Type} {f : ε → ε'} (h : x.Silent) : (x.mapError f).Silent := by
  have hx := silent_iff.mp h
  exact silent_iff.mpr hx

theorem silent_forIn {f : β → Reported K ε PUnit} (hf : ∀ b, (f b).Silent) (xs : List β) :
    Silent (forIn xs PUnit.unit fun b _ => do f b; return .yield PUnit.unit) := by
  induction xs with
  | nil => exact tells_pure rfl
  | cons b xs ih =>
    rw [List.forIn_cons]
    refine Silent.bind ((hf b).bind fun _ => tells_pure rfl) fun step => ?_
    cases step with
    | done => exact tells_pure rfl
    | yield => exact ih

end Tells

end Reported

end ClusterDynamics
