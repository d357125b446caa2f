import ClusterDynamics.Proofs.Calibration.Chain
import Mathlib.Probability.Distributions.Gaussian.Real

/-! The densities of a posterior in exact arithmetic. The standard deviation of an observation is
positive but for noise that is a ratio of a model's value of zero. The posterior density of a state
in the support of the priors is the sum of its parts, unless the prior part is the number that stands
for a density of zero. -/

namespace ClusterDynamics

theorem outOfSupport_real : (outOfSupport : ℝ) = -10 ^ 180 := by
  rw [outOfSupport]
  norm_num

section Option

variable {α β : Type} {f : α → Option β} {xs : List α}

theorem mapM_eq_some_map {g : α → β} (h : ∀ a ∈ xs, f a = some (g a)) :
    xs.mapM f = some (xs.map g) := by
  induction xs with
  | nil => rfl
  | cons a xs ih =>
    have hrest := ih fun b hb => h b (List.mem_cons_of_mem a hb)
    rw [List.mapM_cons, h a List.mem_cons_self, hrest]
    rfl

theorem mapM_eq_none (h : ∃ a ∈ xs, f a = none) : xs.mapM f = none := by
  induction xs with
  | nil => simp at h
  | cons a xs ih =>
    rw [List.mapM_cons]
    cases hfa : f a with
    | none => rfl
    | some b =>
      obtain ⟨a', ha', hnone⟩ := h
      have hmem : a' ∈ xs := by
        rcases List.mem_cons.mp ha' with rfl | hmem
        · simp [hfa] at hnone
        · exact hmem
      rw [ih ⟨a', hmem, hnone⟩]
      rfl

end Option

namespace Prior

variable {K : Type} [Scalar K] {p : Prior K} {v : K}

/-- The values that have a density. A normal prior excludes none. -/
def Supports : Prior K → K → Prop
  | uniform lower upper, v => lower < v ∧ v < upper
  | normal _ _, _ => True

theorem logDensity?_of_supports (h : p.Supports v) : p.logDensity? v = some (p.logDensity v) := by
  cases p with
  | uniform lower upper =>
    have hbounds : lower < v ∧ v < upper := h
    rw [logDensity, logDensity?, if_pos hbounds]
    rfl
  | normal mean deviation => rfl

theorem logDensity?_of_not_supports (h : ¬p.Supports v) : p.logDensity? v = none := by
  cases p with
  | uniform lower upper => exact if_neg h
  | normal mean deviation => exact absurd trivial h

theorem logDensity_normal (mean deviation v : ℝ) : (normal mean deviation).logDensity v =
    -(1 / 2) * Real.log (2 * Real.pi * deviation * deviation) -
      1 / 2 * ((v - mean) / deviation) * ((v - mean) / deviation) := by
  change -0.5 * Real.log (@OfNat.ofNat ℝ 2 (Scalar.natLit 2) * Real.pi * deviation * deviation) -
    0.5 * ((v - mean) / deviation) * ((v - mean) / deviation) = _
  rw [Scalar.natLit_ofNat_real]
  norm_num

end Prior

namespace Noise

variable {noise : Noise ℝ} {y s : ℝ}

theorem validate_ratio {r : ℝ} : (ratio r).validate = .ok () ↔ 0 < r :=
  checkDeviation_eq_ok_iff

theorem validate_deviation {d : ℝ} : (deviation d).validate = .ok () ↔ 0 < d :=
  checkDeviation_eq_ok_iff

theorem sigma_nonneg (h : noise.validate = .ok ()) (y s : ℝ) : 0 ≤ noise.sigma y s := by
  cases noise with
  | ratio r => exact mul_nonneg (validate_ratio.mp h).le (abs_nonneg y)
  | deviation d => exact (validate_deviation.mp h).le
  | inferred => exact (Real.exp_pos s).le

/-- Only a ratio of zero is zero. -/
theorem sigma_eq_zero_iff (h : noise.validate = .ok ()) :
    noise.sigma y s = 0 ↔ (∃ r, noise = .ratio r) ∧ y = 0 := by
  cases noise with
  | ratio r =>
    change r * |y| = 0 ↔ _
    simp [(validate_ratio.mp h).ne']
  | deviation d =>
    change d = 0 ↔ _
    simp [(validate_deviation.mp h).ne']
  | inferred =>
    change Real.exp s = 0 ↔ _
    simp

end Noise

namespace Posterior

open ProbabilityTheory

variable {M : Type} {x : Posterior ℝ M} {m : List ℝ}

/-- No entry of a state is out of the support of its prior. -/
def Supported (x : Posterior ℝ M) (m : List ℝ) : Prop := ∀ q ∈ x.priors.zip m, q.1.Supports q.2

/-- The sum of the logarithms of the priors' densities. -/
noncomputable def densitySum (x : Posterior ℝ M) (m : List ℝ) : ℝ :=
  ((x.priors.zip m).map fun q => q.1.logDensity q.2).sum

theorem logPriorSum_of_supported (h : x.Supported m) : x.logPriorSum m = x.densitySum m := by
  have hdensities : (x.priors.zip m).mapM (fun (p, v) => p.logDensity? v) =
      some ((x.priors.zip m).map fun q => q.1.logDensity q.2) :=
    mapM_eq_some_map fun q hq => Prior.logDensity?_of_supports (h q hq)
  rw [logPriorSum, hdensities]
  exact Scalar.sum_real _

theorem logPriorSum_of_not_supported (h : ¬x.Supported m) : x.logPriorSum m = outOfSupport := by
  have hdensities : (x.priors.zip m).mapM (fun (p, v) => p.logDensity? v) = none := by
    simp only [Supported, not_forall] at h
    obtain ⟨q, hq, hout⟩ := h
    exact mapM_eq_none ⟨q, hq, Prior.logDensity?_of_not_supports hout⟩
  rw [logPriorSum, hdensities]

theorem logDensityAround_real (y sigma observed : ℝ) : logDensityAround y sigma observed =
    -(1 / 2) * Real.log (2 * Real.pi) - 1 / 2 * Real.log (sigma * sigma) -
      (observed - y) * (observed - y) / (2 * (sigma * sigma)) := by
  change -0.5 * Real.log (@OfNat.ofNat ℝ 2 (Scalar.natLit 2) * Real.pi) -
    0.5 * Real.log (sigma * sigma) - (observed - y) * (observed - y) /
      (@OfNat.ofNat ℝ 2 (Scalar.natLit 2) * (sigma * sigma)) = _
  rw [Scalar.natLit_ofNat_real]
  norm_num

/-- With a positive standard deviation it is the logarithm of a normal density. -/
theorem logDensityAround_eq_log {sigma : ℝ} (h : 0 < sigma) (y observed : ℝ) :
    logDensityAround y sigma observed =
      Real.log (gaussianPDFReal y (sigma * sigma).toNNReal observed) := by
  have hpi : 0 < 2 * Real.pi := Real.two_pi_pos
  have hvariance : 0 < sigma * sigma := mul_pos h h
  have hroot : (√(2 * Real.pi * (sigma * sigma)))⁻¹ ≠ 0 :=
    inv_ne_zero (Real.sqrt_ne_zero'.mpr (mul_pos hpi hvariance))
  rw [logDensityAround_real, gaussianPDFReal, Real.coe_toNNReal _ hvariance.le,
    Real.log_mul hroot (Real.exp_ne_zero _), Real.log_exp, Real.log_inv,
    Real.log_sqrt (mul_pos hpi hvariance).le, Real.log_mul hpi.ne' hvariance.ne']
  ring

section Constant

/-- One observation of a constant, which is sought. -/
noncomputable def constant (noise : Noise ℝ) (observed : ℝ) : Posterior ℝ :=
  ⟨Surrogate.ofTotalDegree .legendre 1 0, [⟨[0], observed⟩], [.normal 0 1], noise, [0], #[0]⟩

variable {noise : Noise ℝ}

theorem build_constant (h : noise.validate = .ok ()) (hfixed : noise.isInferred = false)
    (observed : ℝ) : (constant noise observed).build.value = .ok (constant noise observed) := by
  have hpriors : ∀ p ∈ (constant noise observed).priors, p.validate = .ok () := by
    simp [constant, Prior.validate, checkDeviation_eq_ok_iff]
  have hslots : ∀ slot ∈ (constant noise observed).chainIndex, slot < 1 := by
    simp [constant]
  have hinputs : ∀ o ∈ (constant noise observed).data, o.inputs.length = 1 := by
    simp [constant]
  refine build_eq_ok_iff.mpr
    ⟨rfl, hpriors, h, ?_, ?_, rfl, ⟨List.nodup_singleton 0, hslots⟩, hinputs⟩
  · simp [constant]
  · simp [constant, slotCount, hfixed]

theorem runAt_constant (noise : Noise ℝ) (c observed : ℝ) :
    (constant noise observed).runAt [c] ⟨[0], observed⟩ = .ok c := by
  have hbuilt : Surrogate.ofTotalDegree? .legendre 1 0 =
    .ok (Surrogate.ofTotalDegree .legendre 1 0) := rfl
  have hroom : (Surrogate.ofTotalDegree .legendre 1 0).checkRoom = .ok () := rfl
  have hterms : (Surrogate.ofTotalDegree .legendre 1 0).multiIndices = [[0]] := rfl
  change (Surrogate.ofTotalDegree .legendre 1 0).evaluate? [c] [0] = _
  rw [Surrogate.evaluate?, hroom, ok_bind, (Surrogate.sound_ofTotalDegree? hbuilt).evaluate_eq,
    hterms]
  simp [Basis.polynomial_zero]

theorem densitySum_constant (noise : Noise ℝ) (c observed : ℝ) :
    (constant noise observed).densitySum [c] =
      -(1 / 2) * Real.log (2 * Real.pi) - 1 / 2 * (c * c) := by
  simp [densitySum, constant, Prior.logDensity_normal, mul_assoc]

theorem logLikelihood_constant (c : ℝ) : (constant (.deviation 1) c).logLikelihood [c] =
    .ok (-(1 / 2) * Real.log (2 * Real.pi)) := by
  have hterm : (constant (.deviation 1) c).termAt [c] ⟨[0], c⟩ =
      .ok (-(1 / 2) * Real.log (2 * Real.pi)) := by
    rw [termAt, runAt_constant]
    change Except.ok (logDensityAround c 1 c) = _
    rw [logDensityAround_real]
    simp
  rw [logLikelihood_eq rfl]
  change ([_].mapM ((constant (.deviation 1) c).termAt [c])).map _ = _
  rw [List.mapM_cons, hterm]
  simp [pure, Except.pure, Except.map]

theorem supported_constant (noise : Noise ℝ) (c observed : ℝ) :
    (constant noise observed).Supported [c] := by
  simp [Supported, constant, Prior.Supports]

end Constant

section Deviation

variable [ForwardModel ℝ M]

/-- The likelihood adds up what the observations contribute. Their standard deviations are positive
but for a model's value of zero with noise that is a ratio of it; each contribution is then the
logarithm of a normal density around the model's value. -/
theorem deviation_eq_zero_iff (h : x.build.value = .ok x) (hm : m.length = x.priors.length) :
    x.logLikelihood m = (x.data.mapM (x.termAt m)).map Scalar.sum ∧
    ∀ o ∈ x.data, ∀ y, x.runAt m o = .ok y →
      x.termAt m o = .ok (logDensityAround y (x.deviationAt m y) o.value) ∧
      0 ≤ x.deviationAt m y ∧
      (x.deviationAt m y = 0 ↔ (∃ r, x.noise = .ratio r) ∧ y = 0) ∧
      (0 < x.deviationAt m y → logDensityAround y (x.deviationAt m y) o.value =
        Real.log (gaussianPDFReal y (x.deviationAt m y * x.deviationAt m y).toNNReal o.value)) := by
  have hnoise : x.noise.validate = .ok () := (build_eq_ok_iff.mp h).2.noise
  refine ⟨logLikelihood_eq hm, fun o _ y hy => ⟨?_, ?_, ?_, ?_⟩⟩
  · rw [termAt, hy]
    rfl
  · exact Noise.sigma_nonneg hnoise y _
  · exact Noise.sigma_eq_zero_iff hnoise
  · exact fun hpos => logDensityAround_eq_log hpos y o.value

/-- A constant of two, measured with a relative error of a tenth. -/
theorem deviation_eq_zero_iff_constant :
    let x := constant (.ratio 0.1) 1
    x.build.value = .ok x ∧ [(2 : ℝ)].length = x.priors.length ∧ ⟨[0], 1⟩ ∈ x.data ∧
      x.runAt [2] ⟨[0], 1⟩ = .ok 2 ∧ 0 < x.deviationAt [2] 2 := by
  intro x
  have hbuild : x.build.value = .ok x :=
    build_constant (Noise.validate_ratio.mpr (by norm_num)) rfl 1
  have hlength : [(2 : ℝ)].length = x.priors.length := rfl
  have hrun : x.runAt [2] ⟨[0], 1⟩ = .ok 2 := runAt_constant _ 2 1
  obtain ⟨-, hmeasured⟩ := deviation_eq_zero_iff hbuild hlength
  obtain ⟨-, hnonneg, hzero, -⟩ := hmeasured ⟨[0], 1⟩ List.mem_cons_self 2 hrun
  have hne : x.deviationAt [2] 2 ≠ 0 := fun h => two_ne_zero (hzero.mp h).2
  exact ⟨hbuild, hlength, List.mem_cons_self, hrun, hnonneg.lt_of_ne' hne⟩

/-- A constant of zero then has no error at all. -/
theorem deviationAt_eq_zero :
    let x := constant (.ratio 0.1) 1
    x.build.value = .ok x ∧ [(0 : ℝ)].length = x.priors.length ∧ ⟨[0], 1⟩ ∈ x.data ∧
      x.runAt [0] ⟨[0], 1⟩ = .ok 0 ∧ x.deviationAt [0] 0 = 0 := by
  intro x
  have hnoise : (Noise.ratio (0.1 : ℝ)).validate = .ok () :=
    Noise.validate_ratio.mpr (by norm_num)
  refine ⟨build_constant hnoise rfl 1, rfl, List.mem_cons_self, runAt_constant _ 0 1, ?_⟩
  exact (Noise.sigma_eq_zero_iff hnoise).mpr ⟨⟨_, rfl⟩, rfl⟩

end Deviation

section Support

variable [ForwardModel ℝ M]

/-- In the support of all priors the posterior density is the sum of the prior density and the
likelihood, but for a prior density that equals the number for a density of zero. That number is the
answer there, and out of the support whatever the other entries are. -/
theorem logPosterior_by_support (hm : m.length = x.priors.length) :
    (x.Supported m → x.logPrior m = .ok (x.densitySum m) ∧
      ∀ v, x.logLikelihood m = .ok v → x.logPosterior m =
        .ok (if x.densitySum m = outOfSupport then outOfSupport else x.densitySum m + v)) ∧
    (¬x.Supported m → x.logPrior m = .ok outOfSupport ∧ x.logPosterior m = .ok outOfSupport) ∧
    (x.Runs m → ∃ v, x.logLikelihood m = .ok v) := by
  refine ⟨fun h => ⟨?_, fun v hv => ?_⟩, fun h => ⟨?_, ?_⟩, (exists_logLikelihood_iff hm).mpr⟩
  · rw [logPrior_eq hm, logPriorSum_of_supported h]
  · rw [logPosterior_eq hm, logPriorSum_of_supported h, hv]
    by_cases hout : x.densitySum m = outOfSupport
    · rw [if_pos hout, if_pos (beq_iff_eq.mpr hout)]
    · rw [if_neg hout, if_neg fun heq => hout (beq_iff_eq.mp heq)]
      rfl
  · rw [logPrior_eq hm, logPriorSum_of_not_supported h]
  · rw [logPosterior_eq hm, logPriorSum_of_not_supported h, if_pos (beq_iff_eq.mpr rfl)]

theorem log_two_pi_mem : Real.log (2 * Real.pi) ∈ Set.Ioc 0 7 := by
  have hlow := Real.two_le_pi
  have hhigh := Real.pi_le_four
  refine ⟨Real.log_pos (by linarith), ?_⟩
  have hlog := Real.log_le_sub_one_of_pos Real.two_pi_pos
  linarith

/-- A constant of zero, observed as zero. -/
theorem logPosterior_by_support_constant :
    let x := constant (.deviation 1) 0
    ∃ v, x.logLikelihood [0] = .ok v ∧
      x.logPosterior [0] = .ok (-(1 / 2) * Real.log (2 * Real.pi) + v) := by
  intro x
  obtain ⟨hinside, -, -⟩ := logPosterior_by_support (x := x) (m := [0]) rfl
  have hsum : x.densitySum [0] = -(1 / 2) * Real.log (2 * Real.pi) :=
    (densitySum_constant _ 0 0).trans (by ring)
  have hne : x.densitySum [0] ≠ outOfSupport := by
    obtain ⟨-, hlog⟩ := log_two_pi_mem
    rw [hsum, outOfSupport_real]
    linarith
  obtain ⟨-, hposterior⟩ := hinside (supported_constant _ 0 0)
  refine ⟨_, logLikelihood_constant 0, ?_⟩
  rw [hposterior _ (logLikelihood_constant 0), if_neg hne, hsum]

/-- An entry so far out in a normal prior that its density equals the number that stands for none. -/
theorem logPosterior_ne_add :
    let z := √(2 * 10 ^ 180 - Real.log (2 * Real.pi))
    let x := constant (.deviation 1) z
    x.build.value = .ok x ∧ [z].length = x.priors.length ∧ x.Supported [z] ∧
      ∃ p v, x.logPrior [z] = .ok p ∧ x.logLikelihood [z] = .ok v ∧
        x.logPosterior [z] = .ok p ∧ p ≠ p + v := by
  intro z x
  obtain ⟨hpos, hlog⟩ := log_two_pi_mem
  have hsum : x.densitySum [z] = outOfSupport := by
    rw [densitySum_constant, Real.mul_self_sqrt (by linarith), outOfSupport_real]
    ring
  have hprior := logPriorSum_of_supported (supported_constant (.deviation 1) z z)
  refine ⟨build_constant (Noise.validate_deviation.mpr one_pos) rfl z, rfl, supported_constant _ z z, outOfSupport, _, ?_,
    logLikelihood_constant z, ?_, ?_⟩
  · rw [logPrior_eq rfl, hprior, hsum]
  · rw [logPosterior_eq rfl, hprior, hsum, if_pos (beq_iff_eq.mpr rfl)]
  · linarith

end Support

end Posterior

end ClusterDynamics
