import ClusterDynamics.Proofs.Depth.Reads
import Mathlib.Data.Real.Basic

/-! Stencils in which a value is replaced at one of the points: what a rate of change is
differentiated along. -/

namespace ClusterDynamics.Stencil

variable {K : Type}

/-- The values at one of the points; none at a point that the stencil does not have. -/
def valuesAt (st : Stencil K) : Offset → Option (Array K)
  | .center => some st.center
  | .left => st.left
  | .right => some st.right
  | .minus axis => st.transverse[axis]?.map Prod.fst
  | .plus axis => st.transverse[axis]?.map Prod.snd

/-- The stencil with another value at one of its points. Nothing changes where there is no such
point. -/
def replaceAt (st : Stencil K) (o : Offset) (i : Nat) (y : K) : Stencil K :=
  match o with
  | .center => { st with center := st.center.setIfInBounds i y }
  | .left => { st with left := st.left.map (·.setIfInBounds i y) }
  | .right => { st with right := st.right.setIfInBounds i y }
  | .minus axis =>
    { st with transverse := st.transverse.modify axis (Prod.map (·.setIfInBounds i y) id) }
  | .plus axis =>
    { st with transverse := st.transverse.modify axis (Prod.map id (·.setIfInBounds i y)) }

/-- The stencil without its transverse pairs. -/
def alongDepth (st : Stencil K) : Stencil K := { st with transverse := [] }

@[simp] theorem depth_replaceAt (st : Stencil K) (o : Offset) (i : Nat) (y : K) :
    (st.replaceAt o i y).depth = st.depth := by
  cases o <;> rfl

theorem mem_modify {α : Type} {f : α → α} {xs : List α} {k : Nat} {y : α}
    (h : y ∈ xs.modify k f) : y ∈ xs ∨ ∃ x ∈ xs, y = f x := by
  obtain ⟨j, hj⟩ := List.mem_iff_getElem?.mp h
  rw [List.getElem?_modify, Option.map_eq_map, Option.map_eq_some_iff] at hj
  obtain ⟨x, hx, rfl⟩ := hj
  have hmem := List.mem_of_getElem? hx
  split_ifs with hk
  · exact .inr ⟨x, hmem, rfl⟩
  · exact .inl hmem

theorem Wide.replaceAt {st : Stencil K} {n : Nat} (h : st.Wide n) (o : Offset) (i : Nat) (y : K) :
    (st.replaceAt o i y).Wide n := by
  obtain ⟨hcenter, hleft, hright, htransverse, haxes⟩ := h
  cases o with
  | center => exact ⟨by simpa [Stencil.replaceAt], hleft, hright, htransverse, haxes⟩
  | left =>
    refine ⟨hcenter, fun values hvalues => ?_, hright, htransverse, haxes⟩
    obtain ⟨values, hmem, rfl⟩ := Option.mem_map.mp hvalues
    simpa using hleft values hmem
  | right => exact ⟨hcenter, hleft, by simpa [Stencil.replaceAt], htransverse, haxes⟩
  | minus axis =>
    refine ⟨hcenter, hleft, hright, fun x hx => ?_, by simpa [Stencil.replaceAt]⟩
    obtain hmem | ⟨x, hmem, rfl⟩ := mem_modify hx
    · exact htransverse x hmem
    · simpa using htransverse x hmem
  | plus axis =>
    refine ⟨hcenter, hleft, hright, fun x hx => ?_, by simpa [Stencil.replaceAt]⟩
    obtain hmem | ⟨x, hmem, rfl⟩ := mem_modify hx
    · exact htransverse x hmem
    · simpa using htransverse x hmem

theorem Wide.alongDepth {st : Stencil K} {n : Nat} (h : st.Wide n) : st.alongDepth.Wide n :=
  ⟨h.center, h.left, h.right, fun _ hx => absurd hx List.not_mem_nil, Nat.zero_le 2⟩

/-- The value of a degree of freedom at one of the points; zero where there is none. -/
def valueAt (st : Stencil ℝ) (o : Offset) (i : Nat) : ℝ := (st.valuesAt o).elim 0 (·.getD i 0)

/-- The values along at most `axes` transverse axes, each pair with its factor. -/
def acrossAt (st : Stencil ℝ) (axes i : Nat) : List (ℝ × ℝ × ℝ) :=
  ((st.transverse.zip st.factorList).take axes).map fun x =>
    (x.1.1.getD i 0, x.1.2.getD i 0, x.2)

theorem entryAt_of_lt {values : Array ℝ} {i : Nat} (hi : i < values.size) :
    entryAt values i = .ok (values.getD i 0) := by
  rw [entryAt_eq_ok_iff, Array.getElem?_eq_getElem hi, Array.getD_eq_getD_getElem?,
    Array.getElem?_eq_getElem hi, Option.getD_some]

namespace Wide

variable {st : Stencil ℝ} {n i : Nat}

theorem centerValue_eq (h : st.Wide n) (hi : i < n) :
    st.centerValue i = .ok (st.valueAt .center i) := entryAt_of_lt (hi.trans_le h.center)

theorem rightValue_eq (h : st.Wide n) (hi : i < n) :
    st.rightValue i = .ok (st.valueAt .right i) := entryAt_of_lt (hi.trans_le h.right)

theorem mapM_left_eq (h : st.Wide n) (hi : i < n) :
    (st.left.mapM fun values => entryAt values i) = .ok (st.left.map (·.getD i 0)) := by
  cases hleft : st.left with
  | none => rfl
  | some values =>
    rw [Option.mapM_some, entryAt_of_lt (hi.trans_le (h.left values hleft))]
    rfl

theorem transverseValues_eq (h : st.Wide n) (hi : i < n) (axes : Nat) :
    st.transverseValues axes i = .ok (st.acrossAt axes i) := by
  rw [transverseValues, mapM_eq_ok_iff, acrossAt, List.forall₂_map_right_iff, List.forall₂_same]
  rintro ⟨⟨minus, plus⟩, factor⟩ hx
  obtain ⟨hminus, hplus⟩ := h.transverse _ (List.of_mem_zip (List.mem_of_mem_take hx)).1
  simp only [entryAt_of_lt (hi.trans_le hminus), entryAt_of_lt (hi.trans_le hplus), ok_bind]
  rfl

end Wide

section Across

variable {st : Stencil ℝ} {n i : Nat}

theorem map_take_zip_modify {α β γ : Type} {f : α → α} {g : γ → γ} {r : α × β → γ} {xs : List α}
    (h : ∀ x ∈ xs, ∀ y, r (f x, y) = g (r (x, y))) (ys : List β) (axis axes : Nat) :
    (((xs.modify axis f).zip ys).take axes).map r =
      (((xs.zip ys).take axes).map r).modify axis g := by
  induction xs generalizing ys axis axes with
  | nil => simp
  | cons x xs ih =>
    cases ys with
    | nil => simp
    | cons y ys =>
      cases axes with
      | zero => simp
      | succ axes =>
        cases axis with
        | zero => simp [h x List.mem_cons_self]
        | succ axis => simp [ih (fun x hx => h x (List.mem_cons_of_mem _ hx))]

theorem getD_setIfInBounds_self {values : Array ℝ} (hi : i < values.size) (y : ℝ) :
    (values.setIfInBounds i y).getD i 0 = y := by
  simp [Array.getD_eq_getD_getElem?, hi]

theorem acrossAt_replaceAt_minus (h : st.Wide n) (hi : i < n) (axis axes : Nat) (y : ℝ) :
    (st.replaceAt (.minus axis) i y).acrossAt axes i =
      (st.acrossAt axes i).modify axis fun x => (y, x.2) := by
  refine map_take_zip_modify (fun x hx factor => ?_) _ axis axes
  rw [Prod.map_fst, getD_setIfInBounds_self (hi.trans_le (h.transverse x hx).1)]
  rfl

theorem acrossAt_replaceAt_plus (h : st.Wide n) (hi : i < n) (axis axes : Nat) (y : ℝ) :
    (st.replaceAt (.plus axis) i y).acrossAt axes i =
      (st.acrossAt axes i).modify axis fun x => (x.1, y, x.2.2) := by
  refine map_take_zip_modify (fun x hx factor => ?_) _ axis axes
  rw [Prod.map_snd, getD_setIfInBounds_self (hi.trans_le (h.transverse x hx).2)]
  rfl

/-- The factors along the axes, in order. -/
theorem map_acrossAt (st : Stencil ℝ) (axes i : Nat) : (st.acrossAt axes i).map (·.2.2) =
    st.factorList.take (min st.transverse.length axes) := by
  refine List.ext_getElem ?_ fun k hk hk' => ?_
  · simp only [acrossAt, List.length_map, List.length_take, List.length_zip]
    omega
  · simp [acrossAt]

end Across

end ClusterDynamics.Stencil
