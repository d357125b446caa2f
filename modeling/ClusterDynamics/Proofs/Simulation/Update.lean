import ClusterDynamics.Proofs.Simulation.Readiness

/-! An update of the rates from a state. Every point below the surface takes a temperature that the
settings choose, vacuum keeps its own, and the update writes all points or, if one of the
temperatures admits no rates, nothing at all. -/

namespace ClusterDynamics.Simulation

open Reported

variable {K : Type} [Scalar K] {x : Simulation K} {s s' : GridState K} {time t : K} {p : Nat}

/-- The temperature that a point takes from a state at a time. -/
inductive Takes (x : Simulation K) (s : GridState K) (time : K) (p : Nat) : K → Prop
  | kept {rates : PointRates K} (hvacuum : x.isVacuum p = true)
      (hrates : x.tables.points[p]? = some rates) : Takes x s time p rates.temperature
  | constant (hvacuum : x.isVacuum p = false) (hheat : x.config.heat = none) :
      Takes x s time p x.config.temperature
  | bulk {settings : HeatSettings K} (hvacuum : x.isVacuum p = false)
      (hheat : x.config.heat = some settings) (hstill : (settings.flux == 0 || time == 0) = true) :
      Takes x s time p settings.bulkTemperature
  /-- The value behind the concentrations. -/
  | own {settings : HeatSettings K} {t : K} (hvacuum : x.isVacuum p = false)
      (hheat : x.config.heat = some settings) (hmoves : (settings.flux == 0 || time == 0) = false)
      (ht : s.values[p * x.dofs + x.net.size]? = some t) : Takes x s time p t

/-- The simulation after an update in place, and the outcome of the update. -/
def updateInPlace (x : Simulation K) (s : GridState K) (time : K) :
    Simulation K × Except (EvalError K) Nat :=
  match x.checkState s with
  | .error e => (x, .error e)
  | .ok () =>
    match (List.range s.points).mapM (x.nextTemperature s time) with
    | .error e => (x, .error e)
    | .ok ts =>
      match x.tables.update x.net ts with
      | (tables, .error e) => ({ x with tables }, .error e)
      | (tables, .ok n) => ({ x with tables, recomputed := n }, .ok n)

theorem value_updateTemperatures (x : Simulation K) (s : GridState K) (time : K) :
    (x.updateTemperatures s time).value =
      (x.updateInPlace s time).2.map fun n => ((x.updateInPlace s time).1, n) := by
  unfold updateTemperatures updateInPlace
  cases x.checkState s with
  | error e => rfl
  | ok =>
    cases (List.range s.points).mapM (x.nextTemperature s time) with
    | error e => rfl
    | ok ts =>
      change (x.tables.setTemperatures x.net ts >>= fun y =>
        pure ({ x with tables := y.1, recomputed := y.2 }, y.2) :
          Reported K (EvalError K) (Simulation K × Nat)).value = _
      unfold RateTables.setTemperatures
      dsimp only
      generalize x.tables.update x.net ts = updated
      rcases updated with ⟨tables, e | n⟩
      · rfl
      · rfl

theorem Sound.heat_cases (h : x.Sound) : x.heat = none ∧ x.config.heat = none ∨
    ∃ y settings, x.heat = some y ∧ x.config.heat = some settings ∧
      x.pattern.temperature? = some x.net.size ∧ ∀ time own, y.temperatureAt time own =
        if settings.flux == 0 || time == 0 then settings.bulkTemperature else own := by
  have hsettings := h.settings
  cases hheat : x.heat with
  | none =>
    rw [hheat] at hsettings
    exact .inl ⟨rfl, Option.map_eq_none_iff.mp hsettings.symm⟩
  | some y =>
    rw [hheat] at hsettings
    obtain ⟨settings, hconfig, hsame⟩ := Option.map_eq_some_iff.mp hsettings.symm
    obtain ⟨hflux, hbulk⟩ := Prod.mk.inj hsame
    refine .inr ⟨y, settings, rfl, hconfig, ?_, fun time own => ?_⟩
    · exact h.temperature?_eq (h.hasTemperature_of_heat hheat)
    · rw [HeatEquation.temperatureAt, HeatEquation.isZeroFlux, hflux, hbulk]

theorem Sound.takes_of_nextTemperature (h : x.Sound) (hs : x.Fits s)
    (hnext : x.nextTemperature s time p = .ok t) : x.Takes s time p t := by
  unfold nextTemperature at hnext
  cases hvacuum : x.isVacuum p with
  | true =>
    rw [hvacuum, if_pos rfl] at hnext
    obtain ⟨rates, hrates, ht⟩ := bind_eq_ok_iff.mp hnext
    obtain rfl := Except.ok.inj ht
    exact .kept hvacuum (RateTables.get_eq_ok_iff.mp hrates)
  | false =>
    rw [hvacuum, if_neg nofun] at hnext
    rcases h.heat_cases with ⟨hheat, hconfig⟩ | ⟨y, settings, hheat, hconfig, htemperature, hat⟩
    · split at hnext
      · next hno =>
        rw [hheat] at hno
        cases hno
      · obtain rfl := Except.ok.inj hnext
        exact .constant hvacuum hconfig
    · rw [htemperature, hheat] at hnext
      obtain ⟨values, hvalues, hnext⟩ := bind_eq_ok_iff.mp hnext
      obtain ⟨own, hown, hnext⟩ := bind_eq_ok_iff.mp hnext
      obtain rfl := Except.ok.inj hnext
      have hdof : x.net.size < s.dofs := hs.dofs ▸ h.size_lt (h.hasTemperature_of_heat hheat)
      have hvalue := GridState.getElem?_of_point (mapError_eq_ok_iff.mp hvalues) hdof
      rw [entryAt_eq_ok_iff.mp (mapError_eq_ok_iff.mp hown), hs.dofs] at hvalue
      rw [hat]
      by_cases hstill : (settings.flux == 0 || time == 0) = true
      · rw [if_pos hstill]
        exact .bulk hvacuum hconfig hstill
      · rw [if_neg hstill]
        exact .own hvacuum hconfig (Bool.eq_false_iff.mpr hstill) hvalue.symm

theorem Takes.eq {t' : K} (h : x.Takes s time p t) (h' : x.Takes s time p t') : t = t' := by
  cases h <;> cases h' <;> simp_all

theorem Sound.isPositive_temperature (h : x.Sound) {rates : PointRates K}
    (hrates : x.tables.points[p]? = some rates) : Scalar.isPositive rates.temperature = true := by
  have hmem := Array.mem_toList_iff.mpr (Array.mem_of_getElem? hrates)
  exact (h.tables.fresh _ hmem).isPositive_temperature

/-- What an update that succeeds does to a simulation: it changes the tables and the counter alone,
and every point has the rates of a new computation at the temperature that it takes. -/
structure Updated (x : Simulation K) (s : GridState K) (time : K) (y : Simulation K) (n : Nat) :
    Prop where
  frame : y = { x with tables := y.tables, recomputed := n }
  generation : y.tables.generation = x.tables.generation + 1
  size : y.tables.points.size = x.tables.points.size
  moved : n = RateTables.moved x.tables.points.toList
    (y.tables.points.toList.map PointRates.temperature)
  point : ∀ p < x.shape.points, ∃ rates t computed, y.tables.points[p]? = some rates ∧
    x.Takes s time p t ∧ rates.temperature = t ∧ PointRates.compute x.net p t = .ok computed ∧
    rates = { computed with generation := y.tables.generation }

/-- A state that an update accepts: it fits, and each point takes a temperature with rates. -/
structure Accepts (x : Simulation K) (s : GridState K) (time : K) : Prop where
  fits : x.Fits s
  positive : ∀ p < x.shape.points, ∀ t, x.Takes s time p t → Scalar.isPositive t = true

theorem Sound.updated_of_refreshed (h : x.Sound) {ts : List K} {qs : List (PointRates K)} {n : Nat}
    (htakes : ∀ p < x.shape.points, ∃ t, ts[p]? = some t ∧ x.Takes s time p t)
    (hpoints : qs.map PointRates.point = x.tables.points.toList.map PointRates.point)
    (hfresh : ∀ q ∈ qs, q.Fresh x.net (x.tables.generation + 1))
    (hmoved : n = RateTables.moved x.tables.points.toList ts)
    (htemperatures : qs.map PointRates.temperature = ts) :
    x.Updated s time { x with
      tables := { points := qs.toArray, generation := x.tables.generation + 1 }
      recomputed := n } n := by
  have hlength : qs.length = x.tables.points.size := by
    simpa using congrArg List.length hpoints
  refine ⟨rfl, rfl, hlength, htemperatures ▸ hmoved, fun p hp => ?_⟩
  obtain ⟨t, ht, htake⟩ := htakes p hp
  have hp' : p < qs.length := by rw [hlength, h.points]; exact hp
  have htemperature : qs[p].temperature = t := by
    rw [← htemperatures, List.getElem?_map, List.getElem?_eq_getElem hp'] at ht
    exact Option.some.inj ht
  have hpoint : qs[p].point = p := by
    have hall := congrArg (·[p]?) (hpoints.trans h.tables.points)
    simpa [hp', hlength ▸ hp'] using hall
  obtain ⟨computed, hcomputed, hrates⟩ := hfresh qs[p] (List.getElem_mem hp')
  rw [hpoint, htemperature] at hcomputed
  exact ⟨qs[p], t, computed, by simp [hp'], htake, htemperature, hcomputed, hrates⟩

/-- An update is accepted and done, or refused and undone. -/
theorem Sound.updateInPlace_cases (h : x.Sound) (hK : Scalar.ExactEquality K) (s : GridState K)
    (time : K) :
    (∃ y n, x.updateInPlace s time = (y, .ok n) ∧ x.Updated s time y n ∧ x.Accepts s time) ∨
      ∃ e, x.updateInPlace s time = (x, .error e) ∧ ¬x.Accepts s time := by
  unfold updateInPlace
  cases hstate : x.checkState s with
  | error e =>
    refine .inr ⟨e, rfl, fun hno => ?_⟩
    rw [checkState_eq_ok_iff.mpr hno.fits] at hstate
    cases hstate
  | ok =>
    have hs := checkState_eq_ok_iff.mp hstate
    obtain ⟨ts, hts⟩ := h.exists_nextTemperatures hs time
    have hall := mapM_eq_ok_iff.mp hts
    have htakes : ∀ p < x.shape.points, ∃ t, ts[p]? = some t ∧ x.Takes s time p t := by
      intro p hp
      have hrange : (List.range s.points)[p]? = some p := by
        rw [hs.points]
        exact List.getElem?_range hp
      obtain ⟨t, ht, hnext⟩ := exists_getElem?_of_forall₂ hall hrange
      exact ⟨t, ht, h.takes_of_nextTemperature hs hnext⟩
    have hpositive : x.Accepts s time ↔ ∀ t ∈ ts, Scalar.isPositive t = true := by
      constructor
      · intro haccepts t ht
        obtain ⟨p, hp, hnext⟩ := exists_mem_of_forall₂ hall.flip ht
        have hp' : p < x.shape.points := hs.points ▸ List.mem_range.mp hp
        exact haccepts.positive p hp' t (h.takes_of_nextTemperature hs hnext)
      · refine fun hpositive => ⟨hs, fun p hp t htake => ?_⟩
        obtain ⟨t', ht', htake'⟩ := htakes p hp
        exact htake.eq htake' ▸ hpositive t' (List.mem_of_getElem? ht')
    have hlength : ts.length = x.tables.points.size := by
      rw [← hall.length_eq, List.length_range, hs.points, h.points]
    rw [hts]
    dsimp only
    rcases RateTables.update_of_coherent h.tables ts with
      ⟨⟨qs, n, hqs, hpoints, hfresh, hset⟩, hcheck⟩ | ⟨e, he, hcheck⟩
    · obtain ⟨hmoved, htemperatures⟩ := hset hK
      rw [hqs]
      refine .inl ⟨_, n, rfl, ?_, ?_⟩
      · exact h.updated_of_refreshed htakes hpoints hfresh hmoved htemperatures
      · exact hpositive.mpr (RateTables.checkTemperatures_eq_ok_iff.mp hcheck).2
    · rw [he]
      refine .inr ⟨e, rfl, fun haccepts => ?_⟩
      rw [RateTables.checkTemperatures_eq_ok_iff.mpr ⟨hlength, hpositive.mp haccepts⟩] at hcheck
      cases hcheck

/-- The values of vacuum are not read. -/
theorem updateInPlace_congr (hs : x.Fits s) (hs' : x.Fits s') (hsame : x.AgreeOnMaterial s s')
    (time : K) :
    x.updateInPlace s time = x.updateInPlace s' time := by
  have hnext : (List.range s.points).mapM (x.nextTemperature s time) =
      (List.range s'.points).mapM (x.nextTemperature s' time) := by
    rw [hs.points, hs'.points]
    refine mapM_congr fun p hp => ?_
    unfold nextTemperature
    cases hvacuum : x.isVacuum p with
    | true => rfl
    | false => rw [hsame p (List.mem_range.mp hp) hvacuum]
  rw [updateInPlace, updateInPlace, checkState_eq_ok_iff.mpr hs, checkState_eq_ok_iff.mpr hs', hnext]

/-- Whatever calls a simulation has seen, an update is done as a whole or not at all. It is done for
a state that fits and gives every point of the material a temperature with rates. What the state
holds in vacuum makes no difference. -/
theorem updateInPlace_after_calls {spec : NetworkSpec K} {net : Network K} {grid : DepthGrid K}
    {config : SimulationConfig K} {start : Simulation K} (hK : Scalar.ExactEquality K)
    (hnet : (Network.build spec).value = .ok net)
    (hstart : (build net grid config).value = .ok start) (calls : List (Call K)) :
    let x := start.performAll calls
    ∀ s time, let (y, result) := x.updateInPlace s time
      (x.updateTemperatures s time).value = result.map (fun n => (y, n)) ∧
      ((∃ n, result = .ok n) ↔ x.Accepts s time) ∧
      (∀ n, result = .ok n → x.Updated s time y n) ∧
      (∀ e, result = .error e → y = x) ∧
      ∀ s', x.Fits s → x.Fits s' → x.AgreeOnMaterial s s' →
        x.updateInPlace s' time = (y, result) := by
  intro x s time
  obtain ⟨h, -⟩ := sound_after_calls hnet hstart calls
  have hvalue := x.value_updateTemperatures s time
  rcases h.updateInPlace_cases hK s time with
    ⟨y, n, hupdate, hupdated, haccepts⟩ | ⟨e, hupdate, hrefuses⟩
  · rw [hupdate] at hvalue ⊢
    refine ⟨hvalue, ⟨fun _ => haccepts, fun _ => ⟨n, rfl⟩⟩, ?_, nofun, fun s' hs hs' hsame => ?_⟩
    · rintro _ ⟨⟩
      exact hupdated
    · rw [← updateInPlace_congr hs hs' hsame, hupdate]
  · rw [hupdate] at hvalue ⊢
    refine ⟨hvalue, ⟨nofun, fun hno => absurd hno hrefuses⟩, nofun, fun _ _ => rfl,
      fun s' hs hs' hsame => ?_⟩
    rw [← updateInPlace_congr hs hs' hsame, hupdate]

/-- Heated tungsten, with the surface at the middle one of three nodes. A state at 950 K in the
material is accepted, whatever it holds in vacuum; a state of zeros is refused. -/
theorem updateInPlace_after_calls_heated :
    ∃ net start, (Network.build (.xenon 2 : NetworkSpec ℝ)).value = .ok net ∧
      (build net ⟨#[0, 1, 3], 1, 1, 1⟩ { SimulationConfig.standard with
        heat := some (.ofMaterial 1 900 "W100") }).value = .ok start ∧
      let x := start.performAll [.setSurface 0 0 1]
      let zeros := GridState.zeros x.shape x.dofs
      (∃ s y n, (∀ i < x.dofs, s.values[i]? = some 0) ∧ x.updateInPlace s 1 = (y, .ok n) ∧
        x.Updated s 1 y n) ∧ ∃ e, x.updateInPlace zeros 1 = (x, .error e) := by
  obtain ⟨net, hnet, -⟩ := Network.exists_build_xenon
  obtain ⟨start, hstart⟩ := exists_build_heated (Network.builtFrom_of_build hnet)
  refine ⟨net, start, hnet, hstart, ?_⟩
  intro x zeros
  obtain ⟨h, -, -, hconfig⟩ := sound_after_calls hnet hstart [.setSurface 0 0 1]
  obtain ⟨hshape, hvacuum⟩ : x.shape = _ ∧ _ :=
    isVacuum_of_setSurface hnet hstart rfl rfl (show 1 < 3 by decide)
  have hupdates := updateInPlace_after_calls Scalar.exactEquality_real hnet hstart
    [.setSurface 0 0 1]
  have hpoints : x.shape.points = 3 := by
    rw [hshape]
    rfl
  have hpositive : 0 < x.dofs := by
    obtain ⟨spec, hb⟩ := h.network
    exact hb.size_pos.trans_le h.size_le
  have hheat : x.config.heat = some (.ofMaterial 1 900 "W100") := by rw [hconfig]
  have hdof : x.net.size < x.dofs := by
    rcases h.heat_cases with ⟨-, hno⟩ | ⟨y, -, hy, -⟩
    · exact absurd (hheat.symm.trans hno) nofun
    · exact h.size_lt (h.hasTemperature_of_heat hy)
  let warm : GridState ℝ := ⟨x.shape, x.dofs,
    Array.ofFn fun i : Fin (x.shape.points * x.dofs) => if i.1 < x.dofs then 0 else 950, by simp⟩
  have hwarm : x.Accepts warm 1 := by
    refine ⟨⟨rfl, rfl⟩, fun p hp t ht => ?_⟩
    cases ht with
    | kept _ hrates => exact h.isPositive_temperature hrates
    | constant _ hno => exact absurd (hheat.symm.trans hno) nofun
    | bulk _ hsame _ =>
      obtain rfl := Option.some.inj (hheat.symm.trans hsame)
      exact Scalar.isPositive_real.mpr (by norm_num [HeatSettings.ofMaterial])
    | own hv _ _ ht =>
      have hp' : p < 3 := hpoints ▸ hp
      rw [hvacuum p hp', decide_eq_false_iff_not, Nat.not_lt] at hv
      have hbelow : ¬p * x.dofs + x.net.size < x.dofs := by
        have hblock := Nat.mul_le_mul_right x.dofs hv
        omega
      obtain ⟨hlt, rfl⟩ := Array.getElem?_eq_some_iff.mp ht
      rw [Array.getElem_ofFn, if_neg hbelow]
      exact Scalar.isPositive_real.mpr (by norm_num)
  have hzeros : ¬x.Accepts zeros 1 := by
    intro haccepts
    have hfits : x.Fits zeros := ⟨rfl, rfl⟩
    have hp : 1 < x.shape.points := by omega
    have hplace : zeros.values[1 * x.dofs + x.net.size]? = some 0 := by
      rw [Array.getElem?_eq_getElem (hfits.lt_size_values hp hdof)]
      simp [zeros, GridState.zeros]
    have hbad := haccepts.positive 1 hp 0
      (.own (hvacuum 1 (by decide)) hheat (by simp [HeatSettings.ofMaterial]) hplace)
    exact lt_irrefl 0 (Scalar.isPositive_real.mp hbad)
  constructor
  · have hupdate := hupdates warm 1
    rcases hresult : x.updateInPlace warm 1 with ⟨y, result⟩
    rw [hresult] at hupdate
    obtain ⟨-, hiff, hupdated, -⟩ := hupdate
    obtain ⟨n, rfl⟩ := hiff.mpr hwarm
    refine ⟨warm, y, n, fun i hi => ?_, hresult, hupdated n rfl⟩
    have hlt : i < x.shape.points * x.dofs := by
      rw [hpoints]
      omega
    simp [warm, hlt, hi]
  · have hupdate := hupdates zeros 1
    rcases hresult : x.updateInPlace zeros 1 with ⟨y, result⟩
    rw [hresult] at hupdate
    obtain ⟨-, hiff, -, hsame, -⟩ := hupdate
    cases result with
    | error e => exact ⟨e, by rw [hsame e rfl]⟩
    | ok n => exact absurd (hiff.mp ⟨n, rfl⟩) hzeros

end ClusterDynamics.Simulation
