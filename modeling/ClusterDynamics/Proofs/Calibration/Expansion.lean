import ClusterDynamics.Proofs.Calibration.Polynomials
import ClusterDynamics.Proofs.Calibration.TotalDegree
import Mathlib.Data.List.Fold
import Mathlib.Data.List.GetD
import Mathlib.Data.List.MinMax

/-! The value of an expansion: the sum of its coefficients times products of classical polynomials.
The terms of an expansion have a degree per coordinate, and none is above the degrees in the tables,
so every look-up finds its entry. -/

namespace ClusterDynamics

open Finset (range)

section Zip

variable {α β : Type} {xs : List α} {ys : List β}

theorem zip_eq_map_range (h : ys.length = xs.length) (a : α) (b : β) :
    xs.zip ys = (List.range xs.length).map fun k => (xs.getD k a, ys.getD k b) := by
  refine List.ext_getElem (by simp [h]) fun k hk hk' => ?_
  have hxs : k < xs.length := by simpa using hk'
  rw [List.getElem_zip, List.getElem_map, List.getElem_range, List.getD_eq_getElem _ _ hxs,
    List.getD_eq_getElem _ _ (h ▸ hxs)]

theorem sum_zip (h : ys.length = xs.length) (f : α × β → ℝ) (a : α) (b : β) :
    ((xs.zip ys).map f).sum = ∑ k ∈ range xs.length, f (xs.getD k a, ys.getD k b) := by
  rw [zip_eq_map_range h a b, List.map_map]
  rfl

theorem prod_zip (h : ys.length = xs.length) (f : α × β → ℝ) (a : α) (b : β) :
    ((xs.zip ys).map f).prod = ∏ k ∈ range xs.length, f (xs.getD k a, ys.getD k b) := by
  rw [zip_eq_map_range h a b, List.map_map]
  rfl

end Zip

namespace Surrogate

section InPlace

variable {K : Type} [Scalar K]

/-- The tables of the polynomials at all coordinates. -/
def tables (s : Surrogate) (x : List K) : List (Array K) :=
  x.map fun x => s.basis.table x s.maxDegree

/-- The sum of all terms over the given tables. -/
def sumTerms (s : Surrogate) (coefficients : List K) (tables : List (Array K)) :
    Except OutOfRange K := do
  return Scalar.sum (← (s.multiIndices.zip coefficients).mapM fun (degrees, c) => do
    return c * (← term tables degrees))

/-- Fill the buffer for one more coordinate, and keep a copy. -/
def fillNext (s : Surrogate) (filled : Array K × List (Array K)) (x : K) :
    Except OutOfRange (Array K × List (Array K)) := do
  let buffer ← s.basis.fill x s.maxDegree filled.1
  return (buffer, filled.2 ++ [buffer])

/-- `evaluate?`, with one buffer in which all tables are filled in turn. -/
def evaluateInPlace (s : Surrogate) (coefficients x : List K) : Except OutOfRange K := do
  s.checkRoom
  let (_, tables) ← x.foldlM s.fillNext (#[], [])
  s.sumTerms coefficients tables

theorem exists_foldlM_fillNext (s : Surrogate) (x : List K) (buffer : Array K)
    (copies : List (Array K)) :
    ∃ last, x.foldlM s.fillNext (buffer, copies) = .ok (last, copies ++ s.tables x) := by
  induction x generalizing buffer copies with
  | nil => exact ⟨buffer, by rw [tables, List.map_nil, List.append_nil]; rfl⟩
  | cons x xs ih =>
    obtain ⟨last, hlast⟩ := ih (s.basis.table x s.maxDegree)
      (copies ++ [s.basis.table x s.maxDegree])
    refine ⟨last, ?_⟩
    rw [List.foldlM_cons, fillNext, Basis.fill_eq, ok_bind]
    refine hlast.trans ?_
    rw [List.append_assoc]
    rfl

theorem evaluateInPlace_eq (s : Surrogate) (coefficients x : List K) :
    s.evaluateInPlace coefficients x = s.evaluate? coefficients x := by
  obtain ⟨last, hlast⟩ := s.exists_foldlM_fillNext x #[] []
  rw [evaluateInPlace, hlast]
  rfl

end InPlace

/-- Every term has a degree per coordinate, and a table has its degrees. -/
structure Sound (s : Surrogate) : Prop where
  length_eq : ∀ m ∈ s.multiIndices, m.length = s.inputs
  le_maxDegree : ∀ m ∈ s.multiIndices, ∀ n ∈ m, n ≤ s.maxDegree

/-- How expansions come about. -/
inductive Built : Surrogate → Prop
  | ofIndices {basis : Basis} {inputs : Nat} {multiIndices : List (List Nat)} {s : Surrogate} :
    ofIndices (K := ℝ) basis inputs multiIndices = .ok s → Built s
  | ofTotalDegree {basis : Basis} {inputs degree : Nat} {s : Surrogate} :
    ofTotalDegree? basis inputs degree = .ok s → Built s

theorem sound_ofIndices {K : Type} {basis : Basis} {inputs : Nat}
    {multiIndices : List (List Nat)} {s : Surrogate}
    (h : ofIndices (K := K) basis inputs multiIndices = .ok s) : s.Sound := by
  unfold ofIndices at h
  split at h
  · cases h
  · rename_i hlengths
    rw [List.find?_eq_none] at hlengths
    obtain rfl := Except.ok.inj h
    refine ⟨fun m hm => by simpa using hlengths m hm, fun m hm n hn => ?_⟩
    rw [List.foldl_eq_foldr]
    exact List.le_max_of_le' 0 (List.mem_flatten_of_mem hm hn) le_rfl

theorem sound_ofTotalDegree? {basis : Basis} {inputs degree : Nat} {s : Surrogate}
    (h : ofTotalDegree? basis inputs degree = .ok s) : s.Sound := by
  obtain ⟨-, h⟩ := bind_unit_eq_ok_iff.mp h
  obtain rfl := Except.ok.inj h
  exact ⟨fun m hm => (mem_multiIndices_ofTotalDegree.mp hm).1,
    fun m hm n hn => le_maxDegree_ofTotalDegree hm hn⟩

theorem Built.sound {s : Surrogate} (h : Built s) : s.Sound := by
  cases h with
  | ofIndices h => exact sound_ofIndices h
  | ofTotalDegree h => exact sound_ofTotalDegree? h

section Exact

variable {s : Surrogate} {coefficients x : List ℝ}

theorem term_eq {b : Basis} {degree : Nat} {m : List Nat} (hm : ∀ n ∈ m, n ≤ degree)
    (x : List ℝ) :
    term (x.map fun x => b.table x degree) m =
      .ok ((m.zip x).map fun p => b.polynomial p.1 p.2).prod := by
  have hentries : (m.zip (x.map fun x => b.table x degree)).mapM
      (fun (n, table) => entryAt table n) = .ok ((m.zip x).map fun p => b.polynomial p.1 p.2) := by
    rw [mapM_eq_ok_iff, List.zip_map_right, List.forall₂_map_left_iff, List.forall₂_map_right_iff,
      List.forall₂_same]
    rintro ⟨n, x⟩ hp
    change entryAt (b.table x degree) n = _
    rw [Basis.entryAt_table (hm n (List.of_mem_zip hp).1), Basis.value_eq_polynomial]
  rw [term, hentries, ok_bind, Scalar.product_real]
  rfl

theorem Sound.evaluate_eq (hs : s.Sound) (coefficients x : List ℝ) :
    s.evaluate coefficients x = .ok ((s.multiIndices.zip coefficients).map fun p =>
      p.2 * ((p.1.zip x).map fun q => s.basis.polynomial q.1 q.2).prod).sum := by
  have hterms : (s.multiIndices.zip coefficients).mapM (fun (degrees, c) => do
      return c * (← term (s.tables x) degrees) : List Nat × ℝ → Except OutOfRange ℝ) =
      .ok ((s.multiIndices.zip coefficients).map fun p =>
        p.2 * ((p.1.zip x).map fun q => s.basis.polynomial q.1 q.2).prod) := by
    rw [mapM_eq_ok_iff, List.forall₂_map_right_iff, List.forall₂_same]
    rintro ⟨m, c⟩ hp
    change (do return c * (← term (s.tables x) m)) = _
    rw [tables, term_eq (hs.le_maxDegree m (List.of_mem_zip hp).1)]
    rfl
  change s.sumTerms coefficients (s.tables x) = _
  rw [sumTerms, hterms, ok_bind, Scalar.sum_real]
  rfl

/-- Coefficients and coordinates may be taken by their positions where there are as many of them as
terms and as entries of a term. -/
theorem Sound.sum_eq (hs : s.Sound) (hc : coefficients.length = s.parameters)
    (hx : x.length = s.inputs) :
    ((s.multiIndices.zip coefficients).map fun p =>
      p.2 * ((p.1.zip x).map fun q => s.basis.polynomial q.1 q.2).prod).sum =
    ∑ k ∈ range s.parameters, coefficients.getD k 0 * ∏ d ∈ range s.inputs,
      s.basis.polynomial ((s.multiIndices.getD k []).getD d 0) (x.getD d 0) := by
  rw [sum_zip hc _ [] 0]
  refine Finset.sum_congr rfl fun k hk => ?_
  have hlength : (s.multiIndices.getD k []).length = s.inputs := by
    rw [List.getD_eq_getElem _ _ (Finset.mem_range.mp hk)]
    exact hs.length_eq _ (List.getElem_mem _)
  rw [prod_zip (hx.trans hlength.symm) _ 0 0, hlength]

/-- An expansion that was accepted has a value for as many coefficients as it has terms and as many
coordinates as it was made for, if there is room for a table of its polynomials: the sum of the
coefficients times products of classical polynomials. The look-ups are all in range, and one buffer
that is filled in place for one coordinate after another gives the same. -/
theorem evaluate_classical (h : Built s) (hc : coefficients.length = s.parameters)
    (hx : x.length = s.inputs) :
    s.evaluateInPlace coefficients x = s.evaluate? coefficients x ∧
    s.evaluate? coefficients x =
      if s.maxDegree + 1 ≤ tableLimit then
        .ok (∑ k ∈ range s.parameters, coefficients.getD k 0 * ∏ d ∈ range s.inputs,
          s.basis.polynomial ((s.multiIndices.getD k []).getD d 0) (x.getD d 0))
      else .error ⟨s.maxDegree + 1, tableLimit⟩ := by
  refine ⟨evaluateInPlace_eq s coefficients x, ?_⟩
  rw [evaluate?, checkRoom, ClusterDynamics.checkRoom, Nat.mul_one]
  split_ifs
  · rw [ok_bind, h.sound.evaluate_eq, h.sound.sum_eq hc hx]
  · rfl

/-- One plus twice `x` plus three times the second Legendre polynomial. -/
theorem evaluate_classical_quadratic : ∃ s,
    ofTotalDegree? .legendre 1 2 = .ok s ∧
      s.evaluate? [1, 2, 3] [(1 / 2 : ℝ)] = .ok (1 + 1 + 3 * (-1 / 8)) := by
  have hs : ofTotalDegree? .legendre 1 2 = .ok (ofTotalDegree .legendre 1 2) := rfl
  obtain ⟨-, hvalue⟩ := @evaluate_classical _ [1, 2, 3] [1 / 2] (.ofTotalDegree hs) rfl rfl
  rw [if_pos (by decide)] at hvalue
  refine ⟨_, hs, hvalue.trans (congrArg _ ?_)⟩
  have hterms : (ofTotalDegree .legendre 1 2).multiIndices = [[0], [1], [2]] := rfl
  have hsecond : Basis.legendre.polynomial 2 (1 / 2) = -1 / 8 := by
    norm_num [Basis.polynomial, legendrePolynomial, Finset.sum_range_succ, Nat.choose]
  simp only [parameters, hterms]
  norm_num [Finset.sum_range_succ, Basis.polynomial_zero, Basis.polynomial_one, ofTotalDegree,
    hsecond]

/-- There is no room for a table of the polynomials up to the degree `2 ^ 60 - 1`. -/
theorem evaluate?_without_room :
    let s : Surrogate := ⟨.legendre, 1, [[1152921504606846975]], 1152921504606846975⟩
    Surrogate.ofIndices (K := ℝ) .legendre 1 [[1152921504606846975]] = .ok s ∧
      s.evaluate? [(1 : ℝ)] [1] = .error ⟨1152921504606846976, tableLimit⟩ :=
  ⟨rfl, rfl⟩

end Exact

end Surrogate

end ClusterDynamics
