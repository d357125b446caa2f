import ClusterDynamics.Proofs.Rates.Evaluation
import ClusterDynamics.Rates.Tables

/-! Rate tables stay coherent. Whatever updates are tried, each point holds the rates that a new
computation at its temperature gives, stamped with the generation of the tables. An update fails
before it writes or not at all: once a network has rates at one point, no point can fail. -/

namespace ClusterDynamics

/-- Positive scalars that compare equal are the same, as real numbers and finite floats are. -/
def Scalar.ExactEquality (K : Type) [Scalar K] : Prop :=
  ∀ a b : K, isPositive a = true → isPositive b = true → ((a == b) = true ↔ a = b)

theorem Scalar.exactEquality_real : ExactEquality ℝ := fun _ _ _ _ => beq_iff_eq

variable {K : Type} [Scalar K] {net : Network K} {g g' : Nat} {t : K} {ts initial : List K}

/-- The rates are those computed at the point's temperature, stamped with a generation. -/
def PointRates.Fresh (net : Network K) (g : Nat) (p : PointRates K) : Prop :=
  ∃ q, compute net p.point p.temperature = .ok q ∧ p = { q with generation := g }

namespace PointRates.Fresh

variable {p : PointRates K}

theorem generation_eq (h : p.Fresh net g) : p.generation = g := by
  obtain ⟨q, -, hp⟩ := h
  rw [hp]

theorem isPositive_temperature (h : p.Fresh net g) : Scalar.isPositive p.temperature = true := by
  obtain ⟨q, hq, -⟩ := h
  exact (compute_eq_ok_iff.mp hq).1

theorem stamp (h : p.Fresh net g) (g' : Nat) : Fresh net g' { p with generation := g' } := by
  obtain ⟨q, hq, hp⟩ := h
  refine ⟨q, hq, ?_⟩
  rw [hp]

theorem of_compute {i : Nat} (h : compute net i t = .ok p) (g : Nat) :
    Fresh net g { p with generation := g } := by
  obtain ⟨-, rates, -, hp⟩ := compute_eq_ok_iff.mp h
  refine ⟨p, ?_, rfl⟩
  rw [← h, hp]

end PointRates.Fresh

namespace RateTables

variable {tables start : RateTables K}

omit [Scalar K] in
theorem get_eq_ok_iff {i : Nat} {p : PointRates K} :
    tables.get i = .ok p ↔ tables.points[i]? = some p := by
  unfold get
  cases tables.points[i]? <;> simp

omit [Scalar K] in
theorem checked_eq_ok_iff {i generation : Nat} {p : PointRates K} :
    tables.checked i generation = .ok p ↔
      tables.points[i]? = some p ∧ p.generation = generation := by
  constructor
  · intro h
    obtain ⟨q, hq, h⟩ := bind_eq_ok_iff.mp h
    split_ifs at h with hstale
    · cases h
    · obtain rfl := Except.ok.inj h
      exact ⟨get_eq_ok_iff.mp hq, not_not.mp hstale⟩
  · rintro ⟨hget, hcurrent⟩
    rw [checked, get_eq_ok_iff.mpr hget, ok_bind, if_neg (not_not.mpr hcurrent)]
    rfl

theorem checkTemperatures_eq_ok_iff : tables.checkTemperatures ts = .ok () ↔
    ts.length = tables.points.size ∧ ∀ t ∈ ts, Scalar.isPositive t = true := by
  have hfind : (ts.zipIdx.find? fun x => !Scalar.isPositive x.1) = none ↔
      ∀ t ∈ ts, Scalar.isPositive t = true := by
    rw [List.find?_eq_none]
    constructor
    · intro h t ht
      obtain ⟨i, hi⟩ := List.mem_iff_getElem?.mp ht
      simpa using h (t, i) (List.mem_zipIdx_iff_getElem?.mpr hi)
    · intro h x hx
      simpa using h x.1 (List.fst_mem_of_mem_zipIdx hx)
  rw [← hfind, checkTemperatures]
  by_cases hlen : ts.length = tables.points.size
  · cases hbad : ts.zipIdx.find? fun x => !Scalar.isPositive x.1 with
    | none => simp [hlen, pure, Except.pure]
    | some x => simp [hlen]
  · simp [hlen]

/-- Of as many temperatures as points, the first that is not positive is reported. -/
theorem badTemperature_of_checkTemperatures {e : EvalError K} (hlen : ts.length = tables.points.size)
    (h : tables.checkTemperatures ts = .error e) :
    ∃ i t, ts[i]? = some t ∧ Scalar.isPositive t = false ∧ e = .badTemperature i t := by
  rw [checkTemperatures] at h
  cases hbad : ts.zipIdx.find? fun x => !Scalar.isPositive x.1 with
  | none => simp [hlen, hbad, pure, Except.pure] at h
  | some x =>
    simp [hlen, hbad] at h
    have hpositive := List.find?_some hbad
    have hmem := List.mem_zipIdx_iff_getElem?.mp (List.mem_of_find?_eq_some hbad)
    exact ⟨x.2, x.1, hmem, by simpa using hpositive, h.symm⟩

open Classical in
/-- The number of points whose temperature is not the given one. -/
noncomputable def moved (ps : List (PointRates K)) (ts : List K) : Nat :=
  (ps.zip ts).countP fun x => x.1.temperature ≠ x.2

theorem exists_refresh {p : PointRates K} (hp : p.Fresh net g)
    (ht : Scalar.isPositive t = true) (g' : Nat) : ∃ q, refresh net g' p t = .ok q ∧
      q.point = p.point ∧ q.Fresh net g' ∧ (Scalar.ExactEquality K → q.temperature = t) := by
  cases hsame : p.temperature == t with
  | true =>
    refine ⟨{ p with generation := g' }, ?_, rfl, hp.stamp g', fun hK => ?_⟩
    · rw [refresh, if_pos hsame]
      rfl
    · exact (hK _ _ hp.isPositive_temperature ht).mp hsame
  | false =>
    obtain ⟨q₀, hq₀, -⟩ := hp
    obtain ⟨q, hq⟩ := PointRates.exists_compute_of_compute hq₀ p.point ht
    obtain ⟨-, rates, -, hq'⟩ := PointRates.compute_eq_ok_iff.mp hq
    refine ⟨{ q with generation := g' }, ?_, by rw [hq'], .of_compute hq g', fun _ => by rw [hq']⟩
    rw [refresh, if_neg (by simp [hsame]), hq]
    rfl

/-- A pass over fresh points to as many positive temperatures does not fail on the way. Where equal
temperatures are the same, it sets and counts them. -/
theorem exists_refreshAll {ps : List (PointRates K)} (hlen : ts.length = ps.length)
    (hps : ∀ p ∈ ps, p.Fresh net g) (hts : ∀ t ∈ ts, Scalar.isPositive t = true) (g' : Nat) :
    ∃ qs n, refreshAll net g' ps ts = (qs, .ok n) ∧
      qs.map PointRates.point = ps.map PointRates.point ∧ (∀ q ∈ qs, q.Fresh net g') ∧
      (Scalar.ExactEquality K → n = moved ps ts ∧ qs.map PointRates.temperature = ts) := by
  induction ps generalizing ts with
  | nil =>
    obtain rfl := List.length_eq_zero_iff.mp hlen
    exact ⟨[], 0, rfl, rfl, by simp, fun _ => ⟨rfl, rfl⟩⟩
  | cons p ps ih =>
    obtain ⟨t, ts, rfl⟩ := List.exists_cons_of_length_eq_add_one hlen
    have hp := hps p List.mem_cons_self
    have ht := hts t List.mem_cons_self
    obtain ⟨q, hq, hpoint, hfresh, htemperature⟩ := exists_refresh hp ht g'
    obtain ⟨qs, n, hqs, hpoints, hfreshes, hset⟩ := ih (Nat.succ.inj hlen)
      (fun p hp => hps p (List.mem_cons_of_mem _ hp))
      (fun t ht => hts t (List.mem_cons_of_mem _ ht))
    refine ⟨q :: qs, if p.temperature == t then n else n + 1, ?_, by simp [hpoint, hpoints], ?_, ?_⟩
    · simp only [refreshAll, hq, hqs, Except.map]
    · intro q' hq'
      rcases List.mem_cons.mp hq' with rfl | hq'
      · exact hfresh
      · exact hfreshes q' hq'
    · intro hK
      obtain ⟨hn, htemperatures⟩ := hset hK
      have hbeq := hK _ _ hp.isPositive_temperature ht
      refine ⟨?_, by simp [htemperature hK, htemperatures]⟩
      simp only [moved, List.zip_cons_cons, List.countP_cons]
      by_cases hsame : p.temperature = t
      · rw [if_pos (hbeq.mpr hsame), hn]
        simp [hsame, moved]
      · rw [if_neg (mt hbeq.mp hsame), hn]
        simp [hsame, moved]

/-- Each point has its own position, and rates fresh at its temperature. -/
structure Coherent (net : Network K) (tables : RateTables K) : Prop where
  points : tables.points.toList.map PointRates.point = List.range tables.points.size
  fresh : ∀ p ∈ tables.points.toList, p.Fresh net tables.generation

theorem Coherent.point_eq (h : tables.Coherent net) {i : Nat} {p : PointRates K}
    (hp : tables.points[i]? = some p) : p.point = i := by
  obtain ⟨hi, rfl⟩ := Array.getElem?_eq_some_iff.mp hp
  simpa [hi] using congrArg (·[i]?) h.points

theorem coherent_ofTemperatures (h : ofTemperatures net initial = .ok tables) :
    tables.Coherent net ∧ tables.points.toList.map PointRates.temperature = initial := by
  obtain ⟨ps, hps, htables⟩ := bind_eq_ok_iff.mp h
  obtain rfl := Except.ok.inj htables
  rw [mapM_eq_ok_iff] at hps
  have hfields : ∀ (x : K × Nat) p, PointRates.compute net x.2 x.1 = .ok p →
      p.point = x.2 ∧ p.temperature = x.1 ∧ p.Fresh net 0 := by
    intro x p hp
    obtain ⟨-, rates, -, hp'⟩ := PointRates.compute_eq_ok_iff.mp hp
    refine ⟨by rw [hp'], by rw [hp'], p, ?_, by rw [hp']⟩
    rw [← hp, hp']
  have hpoints : ps.map PointRates.point = initial.zipIdx.map Prod.snd :=
    map_eq_map_of_forall₂ hps fun x p hp => (hfields x p hp).1
  have htemperatures : ps.map PointRates.temperature = initial.zipIdx.map Prod.fst :=
    map_eq_map_of_forall₂ hps fun x p hp => (hfields x p hp).2.1
  have hlen : ps.length = initial.length := by
    simpa using congrArg List.length htemperatures
  refine ⟨⟨?_, fun p hp => ?_⟩, by simpa using htemperatures⟩
  · simp [hpoints, hlen, List.range_eq_range']
  · obtain ⟨x, -, hx⟩ := exists_mem_of_forall₂ hps.flip hp
    exact (hfields x p hx).2.2

/-- An update of coherent tables writes all points or none. -/
theorem update_of_coherent (h : tables.Coherent net) (ts : List K) :
    (∃ (qs : List (PointRates K)) (n : Nat), tables.update net ts =
        ({ points := qs.toArray, generation := tables.generation + 1 }, .ok n) ∧
      qs.map PointRates.point = tables.points.toList.map PointRates.point ∧
      (∀ q ∈ qs, q.Fresh net (tables.generation + 1)) ∧
      (Scalar.ExactEquality K → n = moved tables.points.toList ts ∧
        qs.map PointRates.temperature = ts)) ∧
      tables.checkTemperatures ts = .ok () ∨
    ∃ e, tables.update net ts = (tables, .error e) ∧ tables.checkTemperatures ts = .error e := by
  cases hcheck : tables.checkTemperatures ts with
  | error e => exact .inr ⟨e, by rw [update, hcheck], rfl⟩
  | ok =>
    obtain ⟨hlen, hpositive⟩ := checkTemperatures_eq_ok_iff.mp hcheck
    obtain ⟨qs, n, hqs, hrest⟩ := exists_refreshAll (hlen.trans (Array.length_toList).symm)
      h.fresh hpositive (tables.generation + 1)
    refine .inl ⟨⟨qs, n, ?_, hrest⟩, rfl⟩
    simp only [update, hcheck, hqs]

theorem Coherent.update (h : tables.Coherent net) (ts : List K) :
    (tables.update net ts).1.Coherent net ∧
      (tables.update net ts).1.points.size = tables.points.size := by
  rcases update_of_coherent h ts with ⟨⟨qs, n, hqs, hpoint, hfresh, -⟩, -⟩ | ⟨e, he, -⟩
  · have hlen : qs.length = tables.points.size := by simpa using congrArg List.length hpoint
    rw [hqs]
    refine ⟨⟨?_, hfresh⟩, hlen⟩
    rw [List.size_toArray, hlen]
    exact hpoint.trans h.points
  · rw [he]
    exact ⟨h, rfl⟩

/-- The temperatures of the points, with another one at point `i`. -/
def temperaturesWith (tables : RateTables K) (i : Nat) (t : K) : List K :=
  (tables.points.toList.map PointRates.temperature).set i t

/-- An update that changes one temperature succeeds, and gives the point its rates there. -/
theorem Coherent.exists_update_temperaturesWith (hK : Scalar.ExactEquality K)
    (h : tables.Coherent net) {i : Nat} (hi : i < tables.points.size)
    (ht : Scalar.isPositive t = true) : ∃ updated n q,
      tables.update net (tables.temperaturesWith i t) = (updated, .ok n) ∧
      PointRates.compute net i t = .ok q ∧
      updated.checked i updated.generation =
        .ok { q with generation := updated.generation } := by
  have hlen : (tables.temperaturesWith i t).length = tables.points.size := by
    simp [temperaturesWith]
  have hpositive : ∀ u ∈ tables.temperaturesWith i t, Scalar.isPositive u = true := by
    intro u hu
    rcases List.mem_or_eq_of_mem_set hu with hu | rfl
    · obtain ⟨p, hp, rfl⟩ := List.mem_map.mp hu
      exact (h.fresh p hp).isPositive_temperature
    · exact ht
  have hcoherent := (h.update (tables.temperaturesWith i t)).1
  rcases update_of_coherent h (tables.temperaturesWith i t) with
    ⟨⟨qs, n, hqs, hpoint, hfresh, hset⟩, -⟩ | ⟨e, -, he⟩
  · have hsize : qs.length = tables.points.size := by simpa using congrArg List.length hpoint
    have hi' : i < qs.length := hi.trans_eq hsize.symm
    have htemperature : qs[i].temperature = t := by
      have hget := congrArg (·[i]?) (hset hK).2
      simpa [temperaturesWith, hi, hi'] using hget
    rw [hqs] at hcoherent
    have hposition : qs[i].point = i := hcoherent.point_eq (by simp [hi'])
    obtain ⟨q, hq, hstamp⟩ := hfresh _ (List.getElem_mem hi')
    rw [hposition, htemperature] at hq
    refine ⟨_, n, q, hqs, hq, ?_⟩
    exact hstamp ▸ checked_eq_ok_iff.mpr
      ⟨by simp [hi'], (hfresh _ (List.getElem_mem hi')).generation_eq⟩
  · rw [checkTemperatures_eq_ok_iff.mpr ⟨hlen, hpositive⟩] at he
    cases he

/-- The tables after a sequence of updates, some of which may fail. -/
def updateAll (tables : RateTables K) (net : Network K) (calls : List (List K)) : RateTables K :=
  calls.foldl (fun tables ts => (tables.update net ts).1) tables

theorem Coherent.updateAll (h : tables.Coherent net) (calls : List (List K)) :
    (tables.updateAll net calls).Coherent net ∧
      (tables.updateAll net calls).points.size = tables.points.size := by
  induction calls generalizing tables with
  | nil => exact ⟨h, rfl⟩
  | cons ts calls ih =>
    obtain ⟨hstep, hsize⟩ := h.update ts
    obtain ⟨hrun, hsize'⟩ := ih hstep
    exact ⟨hrun, hsize'.trans hsize⟩

/-- After any sequence of updates each point has its own position and the rates, stamped with the
generation of the tables, that a new computation at its temperature gives. Another update succeeds
for one positive temperature per point; it then sets all of them, opens one new generation and
counts the points that were at another temperature. An update that fails changes nothing. -/
theorem fresh_after_updates (hK : Scalar.ExactEquality K)
    (h : ofTemperatures net initial = .ok start) (calls : List (List K)) :
    let tables := start.updateAll net calls
    tables.points.size = initial.length ∧
      (∀ i p, tables.points[i]? = some p → p.point = i ∧
        ∃ q, PointRates.compute net i p.temperature = .ok q ∧
          p = { q with generation := tables.generation }) ∧
      ∀ ts, ((∃ n, (tables.update net ts).2 = .ok n) ↔
            ts.length = tables.points.size ∧ ∀ t ∈ ts, Scalar.isPositive t = true) ∧
        (∀ n, (tables.update net ts).2 = .ok n → n = moved tables.points.toList ts ∧
          (tables.update net ts).1.generation = tables.generation + 1 ∧
          (tables.update net ts).1.points.toList.map PointRates.temperature = ts) ∧
        ∀ e, (tables.update net ts).2 = .error e → (tables.update net ts).1 = tables := by
  intro tables
  obtain ⟨hstart, htemperatures⟩ := coherent_ofTemperatures h
  obtain ⟨hcoherent, hsize⟩ := hstart.updateAll calls
  refine ⟨?_, fun i p hp => ?_, fun ts => ?_⟩
  · rw [hsize, ← htemperatures, List.length_map, Array.length_toList]
  · have hpoint : p.point = i := hcoherent.point_eq hp
    obtain ⟨q, hq, hfresh⟩ := hcoherent.fresh p (Array.mem_toList_iff.mpr (Array.mem_of_getElem? hp))
    rw [hpoint] at hq
    exact ⟨hpoint, q, hq, hfresh⟩
  · rcases update_of_coherent hcoherent ts with ⟨⟨qs, n, hqs, -, -, hset⟩, hcheck⟩ | ⟨e, he, hcheck⟩
    · obtain ⟨hn, hts⟩ := hset hK
      rw [hqs]
      refine ⟨⟨fun _ => checkTemperatures_eq_ok_iff.mp hcheck, fun _ => ⟨_, rfl⟩⟩, ?_, ?_⟩
      · intro n' hn'
        obtain rfl := Except.ok.inj hn'
        exact ⟨hn, rfl, hts⟩
      · exact fun e he => nomatch he
    · rw [he]
      refine ⟨⟨?_, fun hts => ?_⟩, ?_, fun _ _ => rfl⟩
      · rintro ⟨n, hn⟩
        cases hn
      · rw [checkTemperatures_eq_ok_iff.mpr hts] at hcheck
        cases hcheck
      · exact fun n hn => nomatch hn

end RateTables

theorem Network.BuiltFrom.exists_ofTemperatures {net : Network ℝ} {spec : NetworkSpec ℝ}
    (h : net.BuiltFrom spec) {ts : List ℝ} (hts : ∀ t ∈ ts, Scalar.isPositive t = true) :
    ∃ tables, RateTables.ofTemperatures net ts = .ok tables := by
  obtain ⟨points, hpoints⟩ : ∃ points, ts.zipIdx.mapM
      (fun (t, i) => PointRates.compute net i t) = .ok points := by
    rw [exists_mapM_eq_ok_iff]
    rintro ⟨t, i⟩ ht
    exact h.exists_compute i (hts t (List.fst_mem_of_mem_zipIdx ht))
  exact ⟨_, by rw [RateTables.ofTemperatures, hpoints]; rfl⟩

/-- Two points of a xenon network: an update of one of them, then one that is refused. -/
theorem RateTables.fresh_after_updates_xenon :
    ∃ net start, (Network.build (.xenon 2 : NetworkSpec ℝ)).value = .ok net ∧
      ofTemperatures net [1000, 1200] = .ok start ∧
      (start.update net [1000, 900]).2 = .ok 1 ∧
      start.updateAll net [[1000, 900], [0, 900]] = start.updateAll net [[1000, 900]] ∧
      (start.updateAll net [[1000, 900], [0, 900]]).generation = start.generation + 1 := by
  obtain ⟨net, hnet, -⟩ := Network.exists_build_xenon
  have hpositive : ∀ t ∈ [(1000 : ℝ), 1200], Scalar.isPositive t = true := by
    simp [Scalar.isPositive_real]
  obtain ⟨start, hstart⟩ := (Network.builtFrom_of_build hnet).exists_ofTemperatures hpositive
  obtain ⟨hsize, -, hnext⟩ := fresh_after_updates Scalar.exactEquality_real hstart []
  obtain ⟨hiff, hdone, -⟩ := hnext [1000, 900]
  obtain ⟨n, hn⟩ := hiff.mpr ⟨hsize.symm, by simp [Scalar.isPositive_real]⟩
  obtain ⟨hmoved, hgeneration, -⟩ := hdone n hn
  have hone : n = 1 := by
    obtain ⟨-, htemperatures⟩ := coherent_ofTemperatures hstart
    obtain ⟨p, ps, hps, hp, hrest⟩ := List.map_eq_cons_iff.mp htemperatures
    obtain ⟨q, qs, rfl, hq, hnil⟩ := List.map_eq_cons_iff.mp hrest
    rw [hmoved]
    norm_num [updateAll, moved, hps, hp, hq]
  obtain ⟨-, -, hlast⟩ := fresh_after_updates Scalar.exactEquality_real hstart [[1000, 900]]
  obtain ⟨hiff', -, hfail⟩ := hlast [0, 900]
  have hrefused : start.updateAll net [[1000, 900], [0, 900]] = start.updateAll net [[1000, 900]] := by
    cases hresult : ((start.updateAll net [[1000, 900]]).update net [0, 900]).2 with
    | ok m =>
      obtain ⟨-, hzero⟩ := hiff'.mp ⟨m, hresult⟩
      simpa [Scalar.isPositive_real] using hzero 0 List.mem_cons_self
    | error e => exact hfail e hresult
  refine ⟨net, start, hnet, hstart, hone ▸ hn, hrefused, ?_⟩
  rw [hrefused]
  exact hgeneration

end ClusterDynamics
