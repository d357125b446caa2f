import ClusterDynamics.Proofs.Reported
import ClusterDynamics.Proofs.Transport.Reads

/-! The stages of the heat equation under calls in place. Such a call writes one field after another
and takes nothing back when it fails. A call that fails has changed nothing all the same, since all
its checks come before its first write. -/

namespace ClusterDynamics

open Reported

section InPlace

variable {σ ε α β : Type}

/-- A computation that looks at a state. Where it fails, what comes after it is left out, and the
state stays as it is by then. -/
def attempt (f : σ → Except ε α) : ExceptT ε (StateM σ) α := ExceptT.mk fun s => (f s, s)

theorem run_attempt_bind (f : σ → Except ε α) (g : α → ExceptT ε (StateM σ) β) (s : σ) :
    (attempt f >>= g).run s = match f s with
      | .ok a => (g a).run s
      | .error e => (.error e, s) := by
  change ExceptT.bindCont g (f s) s = _
  cases f s <;> rfl

theorem mapError_bind_eq_error {ε' : Type} {x : Except ε α} {f : ε → ε'} {g : α → Except ε' β}
    {e : ε'} (h : x.mapError f >>= g = .error e) :
    (∃ o, e = f o) ∨ ∃ a, x = .ok a ∧ g a = .error e := by
  cases x with
  | error o => exact .inl ⟨o, (Except.error.inj h).symm⟩
  | ok a => exact .inr ⟨a, rfl, h⟩

end InPlace

/-- How far a stage is along the set-up. -/
def HeatStage.rank : HeatStage → Nat
  | .uninitialized => 0
  | .configured => 1
  | .evaluating => 2

namespace Stencil

variable {K : Type} {st : Stencil K} {axes dof : Nat}

/-- The points along depth have the degree of freedom. -/
structure ShowsAlongDepth (st : Stencil K) (dof : Nat) : Prop where
  center : dof < st.center.size
  right : dof < st.right.size
  left : ∀ values ∈ st.left, dof < values.size

/-- So have the pairs of at most `axes` transverse axes. -/
def ShowsAcross (st : Stencil K) (axes dof : Nat) : Prop :=
  ∀ x ∈ (st.transverse.zip st.factorList).take axes, dof < x.1.1.size ∧ dof < x.1.2.size

theorem exists_transverseValues_iff :
    (∃ xs, st.transverseValues axes dof = .ok xs) ↔ st.ShowsAcross axes dof := by
  rw [transverseValues, exists_mapM_eq_ok_iff]
  refine forall₂_congr fun x _ => ?_
  obtain ⟨⟨before, behind⟩, factor⟩ := x
  rw [← exists_entryAt_iff, ← exists_entryAt_iff]
  constructor
  · rintro ⟨x, hx⟩
    obtain ⟨minus, hminus, hx⟩ := bind_eq_ok_iff.mp hx
    obtain ⟨plus, hplus, -⟩ := bind_eq_ok_iff.mp hx
    exact ⟨⟨minus, hminus⟩, plus, hplus⟩
  · rintro ⟨⟨minus, hminus⟩, plus, hplus⟩
    exact ⟨(minus, plus, factor), by simp only [hminus, hplus, ok_bind]; rfl⟩

theorem exists_mapM_left_iff : (∃ a, (st.left.mapM fun values => entryAt values dof) = .ok a) ↔
    ∀ values ∈ st.left, dof < values.size := by
  cases st.left with
  | none => exact ⟨fun _ => nofun, fun _ => ⟨none, rfl⟩⟩
  | some values =>
    simp only [Option.mapM_some, Option.mem_some, forall_eq']
    rw [← exists_entryAt_iff]
    constructor
    · rintro ⟨a, ha⟩
      obtain ⟨b, hb, -⟩ := bind_eq_ok_iff.mp ha
      exact ⟨b, hb⟩
    · rintro ⟨b, hb⟩
      exact ⟨some b, by rw [hb]; rfl⟩

end Stencil

namespace HeatEquation

variable {K : Type} [Scalar K] {h : HeatEquation K} {y : HeatEquation K × Journal K}
  {st : Stencil K} {out : K}

section Calls

/-- A heat equation and a journal as a call has left them so far. -/
abbrev InPlace (K : Type) := ExceptT (SetupError K) (StateM (HeatEquation K × Journal K))

def write (f : HeatEquation K → HeatEquation K) : InPlace K Unit := modify fun y => (f y.1, y.2)

def tell (f : HeatEquation K → Event K) : InPlace K Unit :=
  modify fun y => (y.1, { y.2 with events := y.2.events ++ [f y.1] })

/-- `configure` in place. -/
def configureInPlace (x : HeatSettings K) (dof : Nat) : InPlace K Unit := do
  attempt fun y => if y.1.stage = .evaluating then .error (.heatStage y.1.stage) else .ok ()
  let material ← attempt fun _ => (Material.ofName x.material).mapError .unknownMaterial
  let parameters := x.parameters.getD (HeatParameters.ofMaterial material)
  attempt fun _ => parameters.validate.mapError .heat
  write ({ · with material := some material })
  write ({ · with parameters })
  write ({ · with interface := x.interface })
  write ({ · with dof })
  write ({ · with stage := .configured })
  tell fun h => .heatConfigured material h.flux h.bulkTemperature

/-- `begin` in place. -/
def beginInPlace : InPlace K Unit := do
  attempt fun y => if y.1.stage = .uninitialized then .error (.heatStage y.1.stage) else .ok ()
  write ({ · with stage := .evaluating })

inductive Call (K : Type) where
  | configure (x : HeatSettings K) (dof : Nat)
  | begin

def perform : Call K → InPlace K Unit
  | .configure x dof => configureInPlace x dof
  | .begin => beginInPlace

/-- The heat equation and the journal after calls, each of which may succeed or fail. -/
def performAll (calls : List (Call K)) (y : HeatEquation K × Journal K) :
    HeatEquation K × Journal K :=
  calls.foldl (fun y c => ((perform c).run y).2) y

/-- What a call comes to: it fails for one of four reasons, or gives another heat equation and
reports events. -/
inductive Step (h : HeatEquation K) :
    Call K → Except (SetupError K) (HeatEquation K × List (Event K)) → Prop
  | tooLate {x : HeatSettings K} {dof : Nat} (hstage : h.stage = .evaluating) :
      Step h (.configure x dof) (.error (.heatStage .evaluating))
  | unknownMaterial {x : HeatSettings K} {dof : Nat} {e : UnknownName}
      (hstage : h.stage ≠ .evaluating) (hmaterial : Material.ofName x.material = .error e) :
      Step h (.configure x dof) (.error (.unknownMaterial e))
  | badParameters {x : HeatSettings K} {dof : Nat} {material : Material} {e : HeatFault K}
      (hstage : h.stage ≠ .evaluating) (hmaterial : Material.ofName x.material = .ok material)
      (hvalid : (x.parameters.getD (HeatParameters.ofMaterial material)).validate = .error e) :
      Step h (.configure x dof) (.error (.heat e))
  | configured {x : HeatSettings K} {dof : Nat} {material : Material}
      (hstage : h.stage ≠ .evaluating) (hmaterial : Material.ofName x.material = .ok material)
      (hvalid : (x.parameters.getD (HeatParameters.ofMaterial material)).validate = .ok ()) :
      Step h (.configure x dof) (.ok
        ({ h with
            stage := .configured, material := some material
            parameters := x.parameters.getD (HeatParameters.ofMaterial material)
            interface := x.interface, dof },
          [.heatConfigured material h.flux h.bulkTemperature]))
  | notConfigured (hstage : h.stage = .uninitialized) :
      Step h .begin (.error (.heatStage .uninitialized))
  | begun (hstage : h.stage ≠ .uninitialized) :
      Step h .begin (.ok ({ h with stage := .evaluating }, []))

/-- The outcome of a call in place and what it leaves: all as it was, if the call fails. -/
def settle (y : HeatEquation K × Journal K) :
    Except (SetupError K) (HeatEquation K × List (Event K)) →
      Except (SetupError K) Unit × HeatEquation K × Journal K
  | .ok (h, es) => (.ok (), h, { y.2 with events := y.2.events ++ es })
  | .error e => (.error e, y)

theorem exists_step (c : Call K) (y : HeatEquation K × Journal K) :
    ∃ r, y.1.Step c r ∧ (perform c).run y = settle y r := by
  cases c with
  | configure x dof =>
    simp only [perform, configureInPlace]
    by_cases hstage : y.1.stage = .evaluating
    · refine ⟨_, .tooLate hstage, ?_⟩
      rw [run_attempt_bind, if_pos hstage, hstage]
      rfl
    rw [run_attempt_bind, if_neg hstage]
    dsimp only
    cases hmaterial : Material.ofName x.material with
    | error e =>
      refine ⟨_, .unknownMaterial hstage hmaterial, ?_⟩
      rw [run_attempt_bind]
      rfl
    | ok material =>
      rw [run_attempt_bind]
      dsimp only [Except.mapError]
      cases hvalid : (x.parameters.getD (HeatParameters.ofMaterial material)).validate with
      | error e =>
        refine ⟨_, .badParameters hstage hmaterial hvalid, ?_⟩
        rw [run_attempt_bind]
        rfl
      | ok =>
        refine ⟨_, .configured hstage hmaterial hvalid, ?_⟩
        rw [run_attempt_bind]
        rfl
  | begin =>
    simp only [perform, beginInPlace]
    by_cases hstage : y.1.stage = .uninitialized
    · refine ⟨_, .notConfigured hstage, ?_⟩
      rw [run_attempt_bind, if_pos hstage, hstage]
      rfl
    · refine ⟨_, .begun hstage, ?_⟩
      rw [run_attempt_bind, if_neg hstage, settle, List.append_nil]
      rfl

/-- A call that returns another heat equation, with the old one kept where there is none. -/
def keeping (h : HeatEquation K) : Except (SetupError K) (HeatEquation K) × Journal K →
    Except (SetupError K) Unit × HeatEquation K × Journal K
  | (.ok h', j) => (.ok (), h', j)
  | (.error e, j) => (.error e, h, j)

theorem returns_configure {x : HeatSettings K} {material : Material}
    (hstage : h.stage ≠ .evaluating)
    (hmaterial : Material.ofName x.material = .ok material)
    (hvalid : (x.parameters.getD (HeatParameters.ofMaterial material)).validate = .ok ())
    (dof : Nat) (j : Journal K) :
    (h.configure x dof).Returns j
      { h with
        stage := .configured, material := some material
        parameters := x.parameters.getD (HeatParameters.ofMaterial material)
        interface := x.interface, dof }
      { j with events := j.events ++ [.heatConfigured material h.flux h.bulkTemperature] } := by
  unfold configure
  rw [if_neg hstage]
  exact returns_bind_iff.mpr ⟨material, j,
    returns_ofExcept_iff.mpr ⟨mapError_eq_ok_iff.mpr hmaterial, rfl⟩,
    returns_bind_iff.mpr ⟨(), j, returns_ofExcept_iff.mpr ⟨mapError_eq_ok_iff.mpr hvalid, rfl⟩,
    returns_bind_iff.mpr ⟨(), _, returns_event _ _, returns_pure_iff.mpr ⟨rfl, rfl⟩⟩⟩⟩

theorem run_configureInPlace (x : HeatSettings K) (dof : Nat) (y : HeatEquation K × Journal K) :
    (configureInPlace x dof).run y = keeping y.1 ((y.1.configure x dof).run y.2) := by
  obtain ⟨r, hr, hrun⟩ := exists_step (.configure x dof) y
  refine hrun.trans ?_
  cases hr with
  | tooLate hstage =>
    rw [configure, if_pos hstage, hstage]
    rfl
  | unknownMaterial hstage hmaterial =>
    rw [configure, if_neg hstage, hmaterial]
    rfl
  | badParameters hstage hmaterial hvalid =>
    rw [configure, if_neg hstage, hmaterial]
    have hfails := fails_ofExcept (congrArg (Except.mapError SetupError.heat) hvalid) y.2
    exact congrArg (keeping y.1) hfails.bind.symm
  | configured hstage hmaterial hvalid =>
    exact congrArg (keeping y.1) (returns_configure hstage hmaterial hvalid dof y.2).symm

theorem run_beginInPlace (y : HeatEquation K × Journal K) :
    beginInPlace.run y = keeping y.1 (y.1.begin, y.2) := by
  obtain ⟨r, hr, hrun⟩ := exists_step .begin y
  refine hrun.trans ?_
  unfold begin
  cases hr with
  | notConfigured hstage => rw [hstage]; rfl
  | begun hstage =>
    rw [settle, List.append_nil]
    cases hy : y.1.stage with
    | uninitialized => exact absurd hy hstage
    | configured => rfl
    | evaluating => rfl

/-- From the first successful call on, there is a material, and parameters that pass their check. -/
def Settled (h : HeatEquation K) : Prop :=
  h.stage ≠ .uninitialized → h.material.isSome = true ∧ h.parameters.validate = .ok ()

theorem Step.settled {c : Call K} {h' : HeatEquation K} {es : List (Event K)}
    (hstep : h.Step c (.ok (h', es))) (hs : h.Settled) : h'.Settled := by
  cases hstep with
  | configured _ _ hvalid => exact fun _ => ⟨rfl, hvalid⟩
  | begun hstage => exact fun _ => hs hstage

theorem Step.rank_le {c : Call K} {h' : HeatEquation K} {es : List (Event K)}
    (hstep : h.Step c (.ok (h', es))) : h.stage.rank ≤ h'.stage.rank := by
  cases hstep with
  | configured hstage _ _ =>
    change h.stage.rank ≤ 1
    cases hh : h.stage with
    | uninitialized => decide
    | configured => decide
    | evaluating => exact absurd hh hstage
  | begun _ =>
    change h.stage.rank ≤ 2
    cases h.stage <;> decide

/-- A property of heat equations that every step keeps holds after any calls. -/
theorem performAll_of_step {P : HeatEquation K → Prop}
    (hstep : ∀ (h h' : HeatEquation K) (c : Call K) (es : List (Event K)),
      P h → h.Step c (.ok (h', es)) → P h')
    (calls : List (Call K)) (hy : P y.1) : P (performAll calls y).1 := by
  induction calls generalizing y with
  | nil => exact hy
  | cons c calls ih =>
    refine ih (y := ((perform c).run y).2) ?_
    obtain ⟨r, hr, hrun⟩ := exists_step c y
    rw [hrun]
    cases r with
    | error e => exact hy
    | ok z => exact hstep _ _ _ _ hy hr

end Calls

section Evaluation

/-- The temperatures of a transverse pair, and its factor. -/
def readPair (dof : Nat) : (Array K × Array K) × K → Except OutOfRange (K × K × K)
  | ((minus, plus), factor) => do return (← entryAt minus dof, ← entryAt plus dof, factor)

/-- Add what transverse pairs contribute, reading one pair after another. -/
def addPairs (dof : Nat) (diffusivity center : K) :
    List ((Array K × Array K) × K) → ExceptT (EvalError K) (StateM K) Unit
  | [] => pure ()
  | pair :: pairs => do
    let (minus, plus, factor) ← attempt fun _ => (readPair dof pair).mapError .outOfRange
    modify (· + diffusivity * factor * (minus + plus - 2 * center))
    addPairs dof diffusivity center pairs

/-- `addFlux` in place: the two parts along depth are added before the pairs are read. -/
def addFluxInPlace (h : HeatEquation K) (s : Stencil K) :
    ExceptT (EvalError K) (StateM K) Unit := do
  attempt fun _ => h.checkReady
  if h.isZeroFlux then return
  let x ← attempt fun _ => (h.pointOf s).mapError .outOfRange
  let l := h.localAt s.depth x.center
  let (flow, correction) := depthTerms h.flux l x
  modify (· + flow)
  modify (· + correction)
  addPairs h.dof l.diffusivity x.center ((s.transverse.zip s.factorList).take (h.dimension - 1))

theorem run_addPairs_of_ok {dof : Nat} {m c : K} {pairs : List ((Array K × Array K) × K)}
    {xs : List (K × K × K)} (hxs : pairs.mapM (readPair dof) = .ok xs) (out : K) :
    (addPairs dof m c pairs).run out = (.ok (), xs.foldl (fun out (minus, plus, factor) =>
      out + m * factor * (minus + plus - 2 * c)) out) := by
  have hforall := mapM_eq_ok_iff.mp hxs
  clear hxs
  induction hforall generalizing out with
  | nil => rfl
  | cons hx _ ih =>
    rw [addPairs, run_attempt_bind, hx]
    exact ih _

theorem run_addPairs_of_error {dof : Nat} {m c : K} {pairs : List ((Array K × Array K) × K)}
    {e : OutOfRange} (he : pairs.mapM (readPair dof) = .error e) (out : K) :
    ∃ left, (addPairs dof m c pairs).run out = (.error (.outOfRange e), left) := by
  induction pairs generalizing out with
  | nil => cases he
  | cons pair pairs ih =>
    rw [List.mapM_cons] at he
    rw [addPairs, run_attempt_bind]
    cases hpair : readPair dof pair with
    | error e' =>
      rw [hpair] at he
      exact ⟨out, by rw [Except.error.inj he]; rfl⟩
    | ok x =>
      rw [hpair, ok_bind] at he
      cases hpairs : pairs.mapM (readPair dof) with
      | error e' =>
        rw [hpairs] at he
        exact ih (hpairs.trans he) _
      | ok xs =>
        rw [hpairs] at he
        cases he

/-- In place, the outcome is that of `addFlux`, and so is the output on success. -/
theorem exists_run_addFluxInPlace (h : HeatEquation K) (st : Stencil K) (out : K) :
    ∃ left, (h.addFluxInPlace st).run out = ((h.addFlux st out).map fun _ => (), left) ∧
      ∀ out', h.addFlux st out = .ok out' → left = out' := by
  unfold addFluxInPlace addFlux
  rw [run_attempt_bind]
  cases h.checkReady with
  | error e => exact ⟨out, rfl, nofun⟩
  | ok =>
    dsimp only
    rw [ok_bind]
    cases h.isZeroFlux with
    | true => exact ⟨out, rfl, fun out' hout => Except.ok.inj hout⟩
    | false =>
      simp only [Bool.false_eq_true, if_false]
      rw [run_attempt_bind]
      cases h.pointOf st with
      | error e => exact ⟨out, rfl, nofun⟩
      | ok x =>
        dsimp only [Except.mapError]
        rw [ok_bind]
        cases hpairs : st.transverseValues (h.dimension - 1) h.dof with
        | error e =>
          obtain ⟨left, hleft⟩ := run_addPairs_of_error hpairs _
          exact ⟨left, hleft, nofun⟩
        | ok xs =>
          exact ⟨_, run_addPairs_of_ok hpairs _, fun out' hout => Except.ok.inj hout⟩

omit [Scalar K] in
theorem exists_pointOf_iff : (∃ x, h.pointOf st = .ok x) ↔ st.ShowsAlongDepth h.dof := by
  constructor
  · rintro ⟨x, hx⟩
    obtain ⟨center, hcenter, hx⟩ := bind_eq_ok_iff.mp hx
    obtain ⟨right, hright, hx⟩ := bind_eq_ok_iff.mp hx
    obtain ⟨left, hleft, -⟩ := bind_eq_ok_iff.mp hx
    exact ⟨exists_entryAt_iff.mp ⟨center, hcenter⟩, exists_entryAt_iff.mp ⟨right, hright⟩,
      Stencil.exists_mapM_left_iff.mp ⟨left, hleft⟩⟩
  · intro hs
    obtain ⟨center, hcenter⟩ := exists_entryAt_iff.mpr hs.center
    obtain ⟨right, hright⟩ := exists_entryAt_iff.mpr hs.right
    obtain ⟨left, hleft⟩ := Stencil.exists_mapM_left_iff.mpr hs.left
    rw [← Stencil.centerValue] at hcenter
    rw [← Stencil.rightValue] at hright
    exact ⟨_, by rw [pointOf, hcenter, hright, ok_bind, ok_bind, hleft]; rfl⟩

omit [Scalar K] in
theorem checkReady_of_ne (hstage : h.stage ≠ .evaluating) : h.checkReady = .error .heatNotReady :=
  if_neg hstage

theorem exists_addFlux_iff (out : K) : (∃ out', h.addFlux st out = .ok out') ↔
    h.stage = .evaluating ∧ (h.isZeroFlux = true ∨
      st.ShowsAlongDepth h.dof ∧ st.ShowsAcross (h.dimension - 1) h.dof) := by
  by_cases hstage : h.stage = .evaluating
  · rw [addFlux, checkReady_eq hstage, ok_bind, ← exists_pointOf_iff,
      ← Stencil.exists_transverseValues_iff]
    cases h.isZeroFlux with
    | true => exact ⟨fun _ => ⟨hstage, .inl rfl⟩, fun _ => ⟨out, rfl⟩⟩
    | false =>
      simp only [hstage, true_and, Bool.false_eq_true, if_false, false_or]
      constructor
      · rintro ⟨out', hout⟩
        obtain ⟨x, hx, hout⟩ := bind_eq_ok_iff.mp hout
        obtain ⟨xs, hxs, -⟩ := bind_eq_ok_iff.mp hout
        exact ⟨⟨x, mapError_eq_ok_iff.mp hx⟩, xs, mapError_eq_ok_iff.mp hxs⟩
      · rintro ⟨⟨x, hx⟩, xs, hxs⟩
        exact ⟨_, by rw [hx, hxs]; rfl⟩
  · rw [addFlux, checkReady_of_ne hstage]
    refine ⟨?_, fun hready => absurd hready.1 hstage⟩
    rintro ⟨_, hout⟩
    cases hout

theorem exists_partials_iff : (∃ es, h.partials st = .ok es) ↔
    h.stage = .evaluating ∧ (h.isZeroFlux = true ∨ st.ShowsAlongDepth h.dof) := by
  by_cases hstage : h.stage = .evaluating
  · rw [partials, checkReady_eq hstage, ok_bind, ← exists_pointOf_iff]
    cases h.isZeroFlux with
    | true => exact ⟨fun _ => ⟨hstage, .inl rfl⟩, fun _ => ⟨none, rfl⟩⟩
    | false =>
      simp only [hstage, true_and, Bool.false_eq_true, if_false, false_or]
      constructor
      · rintro ⟨es, hes⟩
        obtain ⟨x, hx, -⟩ := bind_eq_ok_iff.mp hes
        exact ⟨x, mapError_eq_ok_iff.mp hx⟩
      · rintro ⟨x, hx⟩
        exact ⟨_, by rw [hx]; rfl⟩
  · rw [partials, checkReady_of_ne hstage]
    refine ⟨?_, fun hready => absurd hready.1 hstage⟩
    rintro ⟨_, hes⟩
    cases hes

/-- What fails once evaluation is open is a look-up in the stencil. -/
theorem exists_outOfRange_of_addFlux {e : EvalError K} (hstage : h.stage = .evaluating)
    (he : h.addFlux st out = .error e) : ∃ o, e = .outOfRange o := by
  rw [addFlux, checkReady_eq hstage, ok_bind] at he
  split_ifs at he
  · cases he
  · obtain he | ⟨x, -, hx⟩ := mapError_bind_eq_error he
    · exact he
    · obtain hx | ⟨xs, -, hxs⟩ := mapError_bind_eq_error hx
      · exact hx
      · cases hxs

theorem exists_outOfRange_of_partials {e : EvalError K} (hstage : h.stage = .evaluating)
    (he : h.partials st = .error e) : ∃ o, e = .outOfRange o := by
  rw [partials, checkReady_eq hstage, ok_bind] at he
  split_ifs at he
  · cases he
  · obtain he | ⟨x, -, hx⟩ := mapError_bind_eq_error he
    · exact he
    · cases hx

end Evaluation

/-- What holds of a heat equation and its journal after any calls. -/
structure Lifecycle (y : HeatEquation K × Journal K) : Prop where
  configure_eq : ∀ x dof,
    (configureInPlace x dof).run y = keeping y.1 ((y.1.configure x dof).run y.2)
  begin_eq : beginInPlace.run y = keeping y.1 (y.1.begin, y.2)
  settled : y.1.Settled
  step : ∀ c, ∃ r, y.1.Step c r ∧ (perform c).run y = settle y r
  /-- A call that fails leaves the heat equation and the journal as they were. -/
  unchanged : ∀ c e z, (perform c).run y = (.error e, z) → z = y
  forward : ∀ calls, y.1.stage.rank ≤ (performAll calls y).1.stage.rank
  closed : y.1.stage = .evaluating → ∀ x dof,
    (configureInPlace x dof).run y = (.error (.heatStage .evaluating), y)
  addFlux_eq : ∀ st out, ∃ left,
    (y.1.addFluxInPlace st).run out = ((y.1.addFlux st out).map fun _ => (), left) ∧
      ∀ out', y.1.addFlux st out = .ok out' → left = out'
  addFlux_iff : ∀ st out, (∃ out', (y.1.addFluxInPlace st).run out = (.ok (), out')) ↔
    y.1.stage = .evaluating ∧ (y.1.isZeroFlux = true ∨
      st.ShowsAlongDepth y.1.dof ∧ st.ShowsAcross (y.1.dimension - 1) y.1.dof)
  partials_iff : ∀ st, (∃ es, y.1.partials st = .ok es) ↔
    y.1.stage = .evaluating ∧ (y.1.isZeroFlux = true ∨ st.ShowsAlongDepth y.1.dof)
  notReady : y.1.stage ≠ .evaluating → ∀ st out,
    (y.1.addFluxInPlace st).run out = (.error .heatNotReady, out) ∧
      y.1.partials st = .error .heatNotReady
  /-- There is no other error that evaluation returns: beyond it, only a look-up can fail. -/
  lookUp : y.1.stage = .evaluating → ∀ st out e,
    ((y.1.addFluxInPlace st).run out).1 = .error e ∨ y.1.partials st = .error e →
      ∃ o, e = .outOfRange o
  idle : y.1.stage = .evaluating → y.1.isZeroFlux = true → ∀ st out,
    (y.1.addFluxInPlace st).run out = (.ok (), out) ∧ y.1.partials st = .ok none

theorem Settled.lifecycle (hs : y.1.Settled) : Lifecycle y := by
  constructor
  · exact fun x dof => run_configureInPlace x dof y
  · exact run_beginInPlace y
  · exact hs
  · exact fun c => exists_step c y
  · intro c e z hz
    obtain ⟨r, -, hrun⟩ := exists_step c y
    rw [hrun] at hz
    cases r with
    | error e' => exact (Prod.mk.inj hz).2.symm
    | ok z' => cases (Prod.mk.inj hz).1
  · exact fun calls => performAll_of_step (P := fun h => y.1.stage.rank ≤ h.stage.rank)
      (fun _ _ _ _ hle hstep => hle.trans hstep.rank_le) calls le_rfl
  · intro hstage x dof
    obtain ⟨r, hr, hrun⟩ := exists_step (.configure x dof) y
    cases hr with
    | tooLate _ => exact hrun
    | unknownMaterial hne _ => exact absurd hstage hne
    | badParameters hne _ _ => exact absurd hstage hne
    | configured hne _ _ => exact absurd hstage hne
  · exact fun st out => exists_run_addFluxInPlace y.1 st out
  · intro st out
    obtain ⟨left, hrun, -⟩ := exists_run_addFluxInPlace y.1 st out
    rw [hrun, ← exists_addFlux_iff out]
    cases y.1.addFlux st out with
    | error e =>
      constructor
      · rintro ⟨_, hx⟩
        cases (Prod.mk.inj hx).1
      · rintro ⟨_, hx⟩
        cases hx
    | ok out' => exact ⟨fun _ => ⟨out', rfl⟩, fun _ => ⟨left, rfl⟩⟩
  · exact fun st => exists_partials_iff
  · intro hstage st out
    rw [addFluxInPlace, run_attempt_bind, partials, checkReady_of_ne hstage]
    exact ⟨rfl, rfl⟩
  · rintro hstage st out e (he | he)
    · obtain ⟨left, hrun, -⟩ := exists_run_addFluxInPlace y.1 st out
      rw [hrun] at he
      cases hout : y.1.addFlux st out with
      | error e' =>
        rw [hout] at he
        exact exists_outOfRange_of_addFlux hstage (hout.trans (congrArg _ (Except.error.inj he)))
      | ok out' =>
        rw [hout] at he
        cases he
    · exact exists_outOfRange_of_partials hstage he
  · intro hstage hzero st out
    rw [addFluxInPlace, run_attempt_bind, partials, checkReady_eq hstage, hzero]
    exact ⟨rfl, rfl⟩

/-- Whatever calls are made in whatever order, the set-up only goes forward, calls that fail change
nothing, and evaluation is open at the last stage alone. -/
theorem lifecycle_after_calls (flux bulk : K) (dimension : Nat) (j : Journal K)
    (calls : List (Call K)) : Lifecycle (performAll calls (ofFlux flux bulk dimension, j)) := by
  have hstart : (ofFlux flux bulk dimension).Settled := fun hstage => absurd rfl hstage
  exact Settled.lifecycle
    (performAll_of_step (fun _ _ _ _ hs hstep => hstep.settled hs) calls hstart)

/-- A name that no material has leaves nothing behind. -/
example (flux bulk : K) (j : Journal K) :
    performAll [.begin, .configure (.ofMaterial flux bulk "Zr") 0] (ofFlux flux bulk 1, j) =
      (ofFlux flux bulk 1, j) := rfl

end HeatEquation

end ClusterDynamics
