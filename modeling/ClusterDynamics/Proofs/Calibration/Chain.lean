import ClusterDynamics.Proofs.Calibration.Expansion
import ClusterDynamics.Proofs.Calibration.Slots
import ClusterDynamics.Proofs.Reported

/-! Which posteriors are accepted, and what a state of the chain reaches. Every entry of an accepted
chain has a slot of its own or is the noise, so a state decides the parameters at all slots, and the
fixed ones decide the others. -/

namespace ClusterDynamics

namespace Surrogate

variable {K : Type} [Scalar K] {s : Surrogate}

theorem Sound.exists_evaluate (hs : s.Sound) (coefficients x : List K) :
    ∃ y, s.evaluate coefficients x = .ok y := by
  have hterms : ∃ ys, (s.multiIndices.zip coefficients).mapM (fun q => do
      return q.2 * (← term (s.tables x) q.1) : List Nat × K → Except OutOfRange K) = .ok ys := by
    rw [exists_mapM_eq_ok_iff]
    intro q hq
    refine exists_bind_eq_ok (exists_bind_eq_ok ?_ fun ys _ => ⟨_, rfl⟩) fun y _ => ⟨_, rfl⟩
    rw [exists_mapM_eq_ok_iff]
    rintro ⟨n, table⟩ hn
    obtain ⟨v, -, rfl⟩ := List.mem_map.mp (List.of_mem_zip hn).2
    have hdegree := hs.le_maxDegree q.1 (List.of_mem_zip hq).1 n (List.of_mem_zip hn).1
    exact ⟨_, Basis.entryAt_table hdegree⟩
  exact exists_bind_eq_ok hterms fun ys _ => ⟨_, rfl⟩

theorem evaluate?_of_lt (h : tableLimit < s.maxDegree + 1) (coefficients x : List K) :
    s.evaluate? coefficients x = .error ⟨s.maxDegree + 1, tableLimit⟩ := by
  rw [evaluate?, checkRoom, ClusterDynamics.checkRoom, Nat.mul_one, if_neg (Nat.not_le.mpr h)]
  rfl

theorem Sound.exists_evaluate?_iff (hs : s.Sound) (coefficients x : List K) :
    (∃ y, s.evaluate? coefficients x = .ok y) ↔ s.maxDegree + 1 ≤ tableLimit := by
  simp only [evaluate?, bind_unit_eq_ok_iff, exists_and_left, hs.exists_evaluate, and_true]
  rw [checkRoom, checkRoom_eq_ok_iff, Nat.mul_one]

end Surrogate

theorem checkDeviation_eq_ok_iff {v : ℝ} : checkDeviation v = .ok () ↔ 0 < v := by
  unfold checkDeviation
  rw [← Scalar.isPositive_real]
  split_ifs with h <;> simp [h]

namespace Posterior

variable {K M : Type} {x : Posterior K M} {m : List K}

theorem checkState_eq_ok_iff : x.checkState m = .ok () ↔ m.length = x.priors.length := by
  unfold checkState
  split_ifs with h <;> simp [h]

theorem checkState_of_ne (h : m.length ≠ x.priors.length) :
    x.checkState m = .error (.wrongLength .chainState x.priors.length m.length) :=
  if_neg h

section Accepted

variable [Scalar K] [ForwardModel K M]

/-- The parts of a posterior are sound and fit together. -/
@[mk_iff]
structure Consistent (x : Posterior K M) : Prop where
  priors : ∀ p ∈ x.priors, p.validate = .ok ()
  noise : x.noise.validate = .ok ()
  priors_ne_nil : x.noise.isInferred = true → x.priors ≠ []
  length_chainIndex : x.chainIndex.length = x.slotCount
  size_fixed : x.fixed.size = x.parameterCount
  slots : x.chainIndex.Nodup ∧ ∀ slot ∈ x.chainIndex, slot < x.parameterCount
  length_inputs : ∀ o ∈ x.data, o.inputs.length = x.inputCount

theorem validate_eq_ok_iff : x.validate = .ok () ↔ x.Consistent := by
  have hslots : firstBadSlot x.fixed.size [] x.chainIndex = none ↔
      x.chainIndex.Nodup ∧ ∀ slot ∈ x.chainIndex, slot < x.fixed.size := by
    simp [firstBadSlot_eq_none_iff]
  have hinputs : (x.data.find? fun o => o.inputs.length != x.inputCount) = none ↔
      ∀ o ∈ x.data, o.inputs.length = x.inputCount := by
    simp
  unfold validate
  simp only [bind_unit_eq_ok_iff, forM_eq_ok_iff, throw_eq_error, error_bind,
    ite_error_else_eq_ok_iff, consistent_iff, not_and, not_not, List.isEmpty_iff, ne_eq]
  -- The slots are compared with the number of fixed values, which was checked before.
  refine and_congr_right' <| and_congr_right' <| and_congr_right' <| and_congr_right' <|
    and_congr_right fun hsize => ?_
  rw [← hsize, ← hslots, ← hinputs]
  cases firstBadSlot x.fixed.size [] x.chainIndex with
  | some slot => simp
  | none =>
    cases x.data.find? fun o => o.inputs.length != x.inputCount with
    | some o => simp
    | none => simp [pure, Except.pure]

theorem build_eq_ok_iff {y : Posterior K M} : x.build.value = .ok y ↔ y = x ∧ x.Consistent := by
  rw [Reported.value_eq_ok_iff, build]
  simp only [Reported.returns_bind_iff, Reported.returns_ofExcept_iff, Reported.returns_pure_iff]
  constructor
  · rintro ⟨-, ⟨⟩, -, ⟨hvalid, -⟩, -, -, -, rfl, -⟩
    exact ⟨rfl, validate_eq_ok_iff.mp hvalid⟩
  · rintro ⟨rfl, hx⟩
    exact ⟨_, (), _, ⟨validate_eq_ok_iff.mpr hx, rfl⟩, (), _, Reported.returns_log _ _, rfl, rfl⟩

theorem Consistent.length_of_inferred (hx : x.Consistent) (h : x.noise.isInferred = true) :
    x.chainIndex.length = x.priors.length - 1 := by
  rw [hx.length_chainIndex, slotCount, if_pos h]

theorem Consistent.length_le (hx : x.Consistent) : x.chainIndex.length ≤ x.priors.length := by
  rw [hx.length_chainIndex]
  exact Nat.sub_le _ _

end Accepted

section Outcome

variable [Scalar K]

theorem logPrior_eq (h : m.length = x.priors.length) : x.logPrior m = .ok (x.logPriorSum m) := by
  rw [logPrior, checkState_eq_ok_iff.mpr h]
  rfl

theorem logPrior_of_ne (h : m.length ≠ x.priors.length) :
    x.logPrior m = .error (.wrongLength .chainState x.priors.length m.length) := by
  rw [logPrior, checkState_of_ne h]
  rfl

variable [ForwardModel K M]

/-- What the model gives for an observation in a state of the chain. -/
def runAt (x : Posterior K M) (m : List K) (o : Observation K) : Except OutOfRange K :=
  ForwardModel.run x.model (x.modelParameters m) o.inputs

/-- The model gives a value for every observation. -/
def Runs (x : Posterior K M) (m : List K) : Prop := ∀ o ∈ x.data, ∃ y, x.runAt m o = .ok y

/-- The standard deviation of an observation for which the model gives `y`. -/
def deviationAt (x : Posterior K M) (m : List K) (y : K) : K :=
  x.noise.sigma y (m.getLast?.getD 0)

/-- What an observation contributes to the likelihood. -/
def termAt (x : Posterior K M) (m : List K) (o : Observation K) :
    Except (CalibrationError K) K := do
  let y ← (x.runAt m o).mapError .outOfRange
  return logDensityAround y (x.deviationAt m y) o.value

theorem logLikelihood_eq (h : m.length = x.priors.length) :
    x.logLikelihood m = (x.data.mapM (x.termAt m)).map Scalar.sum := by
  rw [logLikelihood, checkState_eq_ok_iff.mpr h, ok_bind]
  change x.data.mapM (x.termAt m) >>= _ = _
  cases x.data.mapM (x.termAt m) <;> rfl

theorem logLikelihood_of_ne (h : m.length ≠ x.priors.length) :
    x.logLikelihood m = .error (.wrongLength .chainState x.priors.length m.length) := by
  rw [logLikelihood, checkState_of_ne h]
  rfl

theorem logPosterior_eq (h : m.length = x.priors.length) :
    x.logPosterior m = if x.logPriorSum m == outOfSupport then .ok outOfSupport
      else (x.logLikelihood m).map (x.logPriorSum m + ·) := by
  rw [logPosterior, logPrior_eq h, ok_bind]
  split_ifs
  · rfl
  · cases x.logLikelihood m <;> rfl

theorem logPosterior_of_ne (h : m.length ≠ x.priors.length) :
    x.logPosterior m = .error (.wrongLength .chainState x.priors.length m.length) := by
  rw [logPosterior, logPrior_of_ne h]
  rfl

theorem exists_logLikelihood_iff (h : m.length = x.priors.length) :
    (∃ v, x.logLikelihood m = .ok v) ↔ x.Runs m := by
  rw [logLikelihood_eq h, exists_map_eq_ok_iff, exists_mapM_eq_ok_iff]
  refine forall₂_congr fun o _ => ?_
  cases hrun : x.runAt m o <;> simp [termAt, hrun, Except.mapError, pure, Except.pure]

theorem exists_logPosterior_iff (h : m.length = x.priors.length) :
    (∃ v, x.logPosterior m = .ok v) ↔
      (x.logPriorSum m == outOfSupport) = true ∨ x.Runs m := by
  rw [logPosterior_eq h]
  split_ifs with hout
  · simp [hout]
  · rw [exists_map_eq_ok_iff, exists_logLikelihood_iff h]
    simp [hout]

/-- When the densities of a state are found, and what happens to states of a wrong length. -/
structure Answers (x : Posterior K M) (m : List K) : Prop where
  logPrior_iff : (∃ v, x.logPrior m = .ok v) ↔ m.length = x.priors.length
  logLikelihood_iff : (∃ v, x.logLikelihood m = .ok v) ↔ m.length = x.priors.length ∧ x.Runs m
  logPosterior_iff : (∃ v, x.logPosterior m = .ok v) ↔
    m.length = x.priors.length ∧ ((x.logPriorSum m == outOfSupport) = true ∨ x.Runs m)
  refused : m.length ≠ x.priors.length →
    let e := CalibrationError.wrongLength .chainState x.priors.length m.length
    x.logPrior m = .error e ∧ x.logLikelihood m = .error e ∧ x.logPosterior m = .error e

theorem answers (x : Posterior K M) (m : List K) : x.Answers m := by
  by_cases h : m.length = x.priors.length
  · refine ⟨?_, ?_, ?_, fun hne => absurd h hne⟩
    · simp [logPrior_eq h, h]
    · simp [exists_logLikelihood_iff h, h]
    · simp [exists_logPosterior_iff h, h]
  · refine ⟨?_, ?_, ?_, fun _ => ⟨logPrior_of_ne h, logLikelihood_of_ne h, logPosterior_of_ne h⟩⟩
    · simp [logPrior_of_ne h, h]
    · simp [logLikelihood_of_ne h, h]
    · simp [logPosterior_of_ne h, h]

/-- Two posteriors, which may be about different models, that agree on a state. -/
structure Agree {N : Type} [ForwardModel K N] (x : Posterior K M) (y : Posterior K N)
    (m : List K) : Prop where
  logPrior : y.logPrior m = x.logPrior m
  logLikelihood : y.logLikelihood m = x.logLikelihood m
  logPosterior : y.logPosterior m = x.logPosterior m

/-- A posterior depends on its model only through the runs for its observations. -/
theorem agree_of_runAt {N : Type} [ForwardModel K N] {y : Posterior K N} (hdata : y.data = x.data)
    (hpriors : y.priors = x.priors) (hnoise : y.noise = x.noise)
    (hruns : ∀ o ∈ x.data, y.runAt m o = x.runAt m o) : Agree x y m := by
  have hprior : y.logPriorSum m = x.logPriorSum m := by
    rw [logPriorSum, hpriors]
    rfl
  have hterms : y.data.mapM (y.termAt m) = x.data.mapM (x.termAt m) := by
    rw [hdata]
    refine mapM_congr fun o ho => ?_
    rw [termAt, hruns o ho]
    simp only [deviationAt, hnoise]
    rfl
  by_cases h : m.length = x.priors.length
  · have h' : m.length = y.priors.length := h.trans (congrArg _ hpriors.symm)
    have hlikelihood : y.logLikelihood m = x.logLikelihood m := by
      rw [logLikelihood_eq h, logLikelihood_eq h', hterms]
    refine ⟨?_, hlikelihood, ?_⟩
    · rw [logPrior_eq h, logPrior_eq h', hprior]
    · rw [logPosterior_eq h, logPosterior_eq h', hprior, hlikelihood]
  · have h' : m.length ≠ y.priors.length := fun heq => h (heq.trans (congrArg _ hpriors))
    refine ⟨?_, ?_, ?_⟩
    · rw [logPrior_of_ne h, logPrior_of_ne h', hpriors]
    · rw [logLikelihood_of_ne h, logLikelihood_of_ne h', hpriors]
    · rw [logPosterior_of_ne h, logPosterior_of_ne h', hpriors]

end Outcome

section Routes

variable [Scalar K] [ForwardModel K M]

/-- The way of a state into the model. -/
structure Routes (x : Posterior K M) (m : List K) : Prop where
  /-- The values can be written in any order, and every slot is there. -/
  written : ∀ pairs, pairs.Perm (x.chainIndex.zip m) →
    (writeSlots? x.fixed pairs).map Array.toList = .ok (x.modelParameters m)
  length_parameters : (x.modelParameters m).length = x.parameterCount
  chained : ∀ i slot : Nat, x.chainIndex[i]? = some slot →
    ∃ v, m[i]? = some v ∧ (x.modelParameters m)[slot]? = some v
  unchained : ∀ slot, slot ∉ x.chainIndex → (x.modelParameters m)[slot]? = x.fixed[slot]?
  /-- The model is run on these parameters only. -/
  consulted : ∀ {N : Type} [ForwardModel K N] (model : N),
    (∀ o ∈ x.data, ForwardModel.run model (x.modelParameters m) o.inputs =
      ForwardModel.run x.model (x.modelParameters m) o.inputs) →
    Agree x ⟨model, x.data, x.priors, x.noise, x.chainIndex, x.fixed⟩ m
  /-- What is fixed at a slot of the chain makes no difference. -/
  fixed : ∀ fixed : Array K, fixed.size = x.fixed.size →
    (∀ slot, slot ∉ x.chainIndex → fixed[slot]? = x.fixed[slot]?) →
    Agree x { x with fixed } m
  /-- Neither does the last entry for the model, if it is the noise. -/
  last : x.noise.isInferred = true → ∀ v,
    x.modelParameters (m.dropLast ++ [v]) = x.modelParameters m

theorem Consistent.routes (hx : x.Consistent) (h : m.length = x.priors.length) : x.Routes m := by
  have hlength : x.chainIndex.length ≤ m.length := hx.length_le.trans_eq h.symm
  have hslots : (x.chainIndex.zip m).map Prod.fst = x.chainIndex := List.map_fst_zip hlength
  have hnodup : ((x.chainIndex.zip m).map Prod.fst).Nodup := by
    rw [hslots]
    exact hx.slots.1
  have hlt : ∀ slot ∈ x.chainIndex, slot < x.fixed.size := by
    rw [hx.size_fixed]
    exact hx.slots.2
  constructor
  case written =>
    intro pairs hpairs
    have hwrite : writeSlots? x.fixed pairs = .ok (writeSlots x.fixed pairs) :=
      writeSlots?_eq fun p hp => hlt p.1 (List.of_mem_zip (hpairs.mem_iff.mp hp)).1
    rw [hwrite, writeSlots_perm hnodup hpairs.symm]
    rfl
  case length_parameters =>
    exact (size_writeSlots x.fixed _).trans hx.size_fixed
  case chained =>
    intro i slot hi
    obtain ⟨hi', rfl⟩ := List.getElem?_eq_some_iff.mp hi
    have him : i < m.length := hi'.trans_le hlength
    have hmem : (x.chainIndex[i], m[i]) ∈ x.chainIndex.zip m :=
      List.mem_iff_getElem.mpr ⟨i, by simp [hi', him], List.getElem_zip⟩
    refine ⟨m[i], List.getElem?_eq_getElem him, ?_⟩
    exact Array.getElem?_toList.trans
      (getElem?_writeSlots hnodup hmem (hlt _ (List.getElem_mem hi')))
  case unchained =>
    intro slot hslot
    exact Array.getElem?_toList.trans
      (getElem?_writeSlots_of_notMem (by rwa [hslots]))
  case consulted =>
    intro N _ model hruns
    exact agree_of_runAt rfl rfl rfl hruns
  case fixed =>
    intro fixed hsize hfixed
    have hparameters : { x with fixed }.modelParameters m = x.modelParameters m := by
      refine congrArg Array.toList (writeSlots_congr hnodup hsize ?_)
      rwa [hslots]
    refine agree_of_runAt rfl rfl rfl fun o _ => ?_
    rw [runAt, hparameters]
    rfl
  case last =>
    intro hinferred v
    have hm : m ≠ [] := by
      rw [← List.length_pos_iff, h, List.length_pos_iff]
      exact hx.priors_ne_nil hinferred
    have hinit : x.chainIndex.length = m.dropLast.length := by
      rw [hx.length_of_inferred hinferred, List.length_dropLast, h]
    have hzip : ∀ v, x.chainIndex.zip (m.dropLast ++ [v]) = x.chainIndex.zip m.dropLast := by
      intro v
      simpa using @List.zip_append _ _ x.chainIndex [] m.dropLast [v] hinit
    have hwhole := hzip (m.getLast hm)
    rw [List.dropLast_concat_getLast] at hwhole
    rw [modelParameters, modelParameters, hzip, hwhole]

end Routes

section Expansion

theorem runs_iff [Scalar K] {x : Posterior K} (hs : x.model.Sound) :
    x.Runs m ↔ x.data = [] ∨ x.model.maxDegree + 1 ≤ tableLimit := by
  have hrun : ∀ o ∈ x.data, (∃ y, x.runAt m o = .ok y) ↔ x.model.maxDegree + 1 ≤ tableLimit :=
    fun o _ => hs.exists_evaluate?_iff _ _
  by_cases hdata : x.data = []
  · simp [Runs, hdata]
  · obtain ⟨o, ho⟩ := List.exists_mem_of_ne_nil _ hdata
    rw [or_iff_right hdata]
    exact ⟨fun h => (hrun o ho).mp (h o ho), fun h o ho => (hrun o ho).mpr h⟩

/-- A posterior is accepted if its parts are sound and fit together; marks in a table find the same
slots as a list of those seen. For an accepted one, the prior density is found for states of the
right length, the likelihood where the model has its values besides, and the posterior density where
either it has them or the state is out of the support. The model sees the state at the slots of the
chain and the fixed parameters elsewhere, and nothing more. An expansion has its values if there is
room for its tables. -/
theorem accepted_and_routed [Scalar K] :
    (∀ {M : Type} [ForwardModel K M] (x : Posterior K M),
      (∀ y, x.build.value = .ok y ↔ y = x ∧ x.Consistent) ∧
      firstTaken (Array.replicate x.fixed.size false) x.chainIndex =
        firstBadSlot x.fixed.size [] x.chainIndex ∧
      (x.Consistent → ∀ m, x.Answers m ∧ (m.length = x.priors.length → x.Routes m))) ∧
    ∀ x : Posterior K, Surrogate.Built x.model → ∀ m,
      x.Runs m ↔ x.data = [] ∨ x.model.maxDegree + 1 ≤ tableLimit := by
  refine ⟨fun x => ⟨fun y => build_eq_ok_iff, firstTaken_eq (marks_replicate _), ?_⟩, ?_⟩
  · exact fun hx m => ⟨x.answers m, hx.routes⟩
  · exact fun x hbuilt m => runs_iff hbuilt.sound

/-- A line, whose coefficients are in the chain in reverse, and noise that is sought as well. -/
theorem accepted_and_routed_line : ∃ x : Posterior ℝ, x.build.value = .ok x ∧
    x.modelParameters [1, 2, 3] = [2, 1] ∧ ∃ v, x.logPosterior [1, 2, 3] = .ok v := by
  let x : Posterior ℝ := ⟨Surrogate.ofTotalDegree .legendre 1 1, [⟨[1], 3⟩],
    [.uniform (-10) 10, .uniform (-10) 10, .normal 0 1], .inferred, [1, 0], #[0, 0]⟩
  have hmodel : Surrogate.ofTotalDegree? .legendre 1 1 = .ok x.model := rfl
  have hpriors : ∀ p ∈ x.priors, p.validate = .ok () := by
    simp [x, Prior.validate, checkDeviation_eq_ok_iff]
  have hinputs : ∀ o ∈ x.data, o.inputs.length = x.inputCount := by
    simp only [x, List.mem_singleton, forall_eq]
    rfl
  have hx : x.Consistent := ⟨hpriors, rfl, by simp [x], rfl, rfl, by decide, hinputs⟩
  obtain ⟨hgeneral, hexpansion⟩ := @accepted_and_routed ℝ _
  obtain ⟨haccepted, -, hstates⟩ := hgeneral x
  obtain ⟨hanswers, hroutes⟩ := hstates hx [1, 2, 3]
  refine ⟨x, (haccepted x).mpr ⟨rfl, hx⟩, ?_, ?_⟩
  · obtain ⟨v, hv, hsecond⟩ := (hroutes rfl).chained 0 1 rfl
    obtain ⟨w, hw, hfirst⟩ := (hroutes rfl).chained 1 0 rfl
    obtain rfl : 1 = v := Option.some.inj hv
    obtain rfl : 2 = w := Option.some.inj hw
    obtain ⟨a, b, hab⟩ := List.length_eq_two.mp (hroutes rfl).length_parameters
    rw [hab] at hfirst hsecond ⊢
    rw [Option.some.inj hfirst, Option.some.inj hsecond]
  · have hruns := (hexpansion x (.ofTotalDegree hmodel) [1, 2, 3]).mpr (.inr (by decide))
    exact hanswers.logPosterior_iff.mpr ⟨rfl, .inr hruns⟩

/-- There is no room for a table of the polynomials up to the degree `2 ^ 60 - 1`. -/
theorem logLikelihood_without_room :
    let x : Posterior ℝ := ⟨⟨.legendre, 1, [[1152921504606846975]], 1152921504606846975⟩,
      [⟨[1], 1⟩], [.normal 0 1], .deviation 1, [0], #[0]⟩
    Surrogate.ofIndices (K := ℝ) .legendre 1 [[1152921504606846975]] = .ok x.model ∧
      x.build.value = .ok x ∧ x.priors.length = 1 ∧
      x.logLikelihood [1] = .error (.outOfRange ⟨x.model.maxDegree + 1, tableLimit⟩) := by
  intro x
  have hone : checkDeviation (1 : ℝ) = .ok () := checkDeviation_eq_ok_iff.mpr one_pos
  have hpriors : ∀ p ∈ x.priors, p.validate = .ok () := by
    simpa [x, Prior.validate] using hone
  have hinputs : ∀ o ∈ x.data, o.inputs.length = x.inputCount := by
    simp only [x, List.mem_singleton, forall_eq]
    rfl
  have hroom : tableLimit < x.model.maxDegree + 1 := by decide
  have hrun : x.runAt [1] ⟨[1], 1⟩ = .error ⟨x.model.maxDegree + 1, tableLimit⟩ :=
    Surrogate.evaluate?_of_lt hroom (x.modelParameters [1]) [1]
  have hterm : x.termAt [1] ⟨[1], 1⟩ = .error (.outOfRange ⟨x.model.maxDegree + 1, tableLimit⟩) := by
    rw [termAt, hrun]
    rfl
  refine ⟨rfl, build_eq_ok_iff.mpr ⟨rfl, hpriors, hone, ?_, rfl, rfl, by decide, hinputs⟩, rfl, ?_⟩
  · simp [x]
  · rw [logLikelihood_eq rfl]
    change ([_].mapM (x.termAt [1])).map _ = _
    rw [List.mapM_cons, hterm]
    rfl

end Expansion

end Posterior

end ClusterDynamics
