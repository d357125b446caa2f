import Mathlib.Data.List.Forall2

/-! Computations that may fail: when a chain of them succeeds, and when a pass over a list does. -/

namespace ClusterDynamics

variable {ε α β : Type}

theorem bind_eq_ok_iff {x : Except ε α} {f : α → Except ε β} {b : β} :
    x >>= f = .ok b ↔ ∃ a, x = .ok a ∧ f a = .ok b := by
  cases x <;> simp [bind, Except.bind]

theorem bind_eq_error_iff {x : Except ε α} {f : α → Except ε β} {e : ε} :
    x >>= f = .error e ↔ x = .error e ∨ ∃ a, x = .ok a ∧ f a = .error e := by
  cases x <;> simp [bind, Except.bind]

theorem exists_bind_eq_ok {x : Except ε α} {f : α → Except ε β} (hx : ∃ a, x = .ok a)
    (hf : ∀ a, x = .ok a → ∃ b, f a = .ok b) : ∃ b, x >>= f = .ok b := by
  obtain ⟨a, ha⟩ := hx
  obtain ⟨b, hb⟩ := hf a ha
  exact ⟨b, bind_eq_ok_iff.mpr ⟨a, ha, hb⟩⟩

theorem bind_unit_eq_ok_iff {x : Except ε Unit} {f : Unit → Except ε β} {b : β} :
    x >>= f = .ok b ↔ x = .ok () ∧ f () = .ok b := by
  cases x <;> simp [bind, Except.bind]

@[simp] theorem ok_bind (a : α) (f : α → Except ε β) : (.ok a : Except ε α) >>= f = f a :=
  rfl

@[simp] theorem error_bind (e : ε) (f : α → Except ε β) :
    (.error e : Except ε α) >>= f = .error e := rfl

@[simp] theorem throw_eq_error (e : ε) : (throw e : Except ε α) = .error e := rfl

theorem ite_error_eq_ok_iff {c : Prop} [Decidable c] {e : ε} :
    (if c then .error e else pure () : Except ε Unit) = .ok () ↔ ¬c := by
  split_ifs with h <;> simp [h, pure, Except.pure]

theorem ite_error_else_eq_ok_iff {c : Prop} [Decidable c] {e : ε} {x : Except ε α} {a : α} :
    (if c then .error e else x) = .ok a ↔ ¬c ∧ x = .ok a := by
  split_ifs with h <;> simp [h]

theorem mapError_ok {ε' : Type} (g : ε → ε') (a : α) : (.ok a : Except ε α).mapError g = .ok a :=
  rfl

@[simp] theorem mapError_eq_ok_iff {ε' : Type} {g : ε → ε'} {x : Except ε α} {a : α} :
    x.mapError g = .ok a ↔ x = .ok a := by
  cases x <;> simp [Except.mapError]

theorem mapError_eq_error_iff {ε' : Type} {g : ε → ε'} {x : Except ε α} {e : ε'} :
    x.mapError g = .error e ↔ ∃ e', x = .error e' ∧ g e' = e := by
  cases x <;> simp [Except.mapError]

theorem exists_map_eq_ok_iff {f : α → β} {x : Except ε α} :
    (∃ b, x.map f = .ok b) ↔ ∃ a, x = .ok a := by
  cases x <;> simp [Except.map]

theorem mapM_eq_ok_iff {f : α → Except ε β} {xs : List α} {ys : List β} :
    xs.mapM f = .ok ys ↔ List.Forall₂ (fun x y => f x = .ok y) xs ys := by
  induction xs generalizing ys with
  | nil => cases ys <;> simp [pure, Except.pure]
  | cons x xs ih =>
    rw [List.mapM_cons, bind_eq_ok_iff]
    constructor
    · rintro ⟨y, hy, h⟩
      obtain ⟨rest, hr, he⟩ := bind_eq_ok_iff.mp h
      obtain rfl : y :: rest = ys := Except.ok.inj he
      exact .cons hy (ih.mp hr)
    · intro h
      cases h with
      | cons hy hr => exact ⟨_, hy, bind_eq_ok_iff.mpr ⟨_, ih.mpr hr, rfl⟩⟩

theorem exists_of_mapM_eq_error {f : α → Except ε β} {xs : List α} {e : ε}
    (h : xs.mapM f = .error e) : ∃ x ∈ xs, f x = .error e := by
  induction xs with
  | nil => cases h
  | cons x xs ih =>
    rw [List.mapM_cons, bind_eq_error_iff] at h
    rcases h with hx | ⟨y, -, h⟩
    · exact ⟨x, List.mem_cons_self, hx⟩
    · rcases bind_eq_error_iff.mp h with hrest | ⟨rest, -, h⟩
      · obtain ⟨x', hx', he⟩ := ih hrest
        exact ⟨x', List.mem_cons_of_mem _ hx', he⟩
      · cases h

theorem mapM_congr {f g : α → Except ε β} {xs : List α} (h : ∀ x ∈ xs, f x = g x) :
    xs.mapM f = xs.mapM g := by
  induction xs with
  | nil => rfl
  | cons x xs ih =>
    have hrest := ih fun y hy => h y (List.mem_cons_of_mem _ hy)
    rw [List.mapM_cons, List.mapM_cons, h x List.mem_cons_self, hrest]

/-- A pass whose steps all succeed maps the list. -/
theorem mapM_eq_ok_map {f : α → Except ε β} {g : α → β} {xs : List α}
    (h : ∀ x ∈ xs, f x = .ok (g x)) : xs.mapM f = .ok (xs.map g) := by
  rw [mapM_eq_ok_iff, List.forall₂_map_right_iff, List.forall₂_same]
  exact h

theorem mapM_map {γ : Type} {f : α → Except ε β} {g : β → γ} {xs : List α} :
    (xs.mapM fun x => (f x).map g) = (xs.mapM f).map (List.map g) := by
  induction xs with
  | nil => rfl
  | cons x xs ih =>
    rw [List.mapM_cons, List.mapM_cons, ih]
    cases f x with
    | error e => rfl
    | ok y => cases xs.mapM f <;> rfl

theorem foldlM_congr {f g : β → α → Except ε β} {xs : List α} (h : ∀ x ∈ xs, ∀ b, f b x = g b x)
    (b : β) : xs.foldlM f b = xs.foldlM g b := by
  induction xs generalizing b with
  | nil => rfl
  | cons x xs ih =>
    have hrest := ih fun y hy => h y (List.mem_cons_of_mem _ hy)
    simp only [List.foldlM_cons, h x List.mem_cons_self, hrest]

theorem arrayMapM_eq_ok_iff {f : α → Except ε β} {xs : Array α} {ys : Array β} :
    xs.mapM f = .ok ys ↔ List.Forall₂ (fun x y => f x = .ok y) xs.toList ys.toList := by
  rw [← mapM_eq_ok_iff, ← Array.toList_mapM]
  cases hm : xs.mapM f with
  | error e => simp
  | ok zs => simp [Array.toList_inj]

theorem forall₂_of_mapM_eq_ok {f : α → Except ε β} {R : α → β → Prop} {xs : List α} {ys : List β}
    (h : xs.mapM f = .ok ys) (hR : ∀ x ∈ xs, ∀ y, f x = .ok y → R x y) : List.Forall₂ R xs ys := by
  rw [mapM_eq_ok_iff] at h
  induction h with
  | nil => exact .nil
  | cons hy _ ih =>
    exact .cons (hR _ List.mem_cons_self _ hy) (ih fun x hx => hR x (List.mem_cons_of_mem _ hx))

theorem exists_mapM_eq_ok {f : α → Except ε β} {R : α → β → Prop} {xs : List α}
    (h : ∀ x ∈ xs, ∃ y, f x = .ok y ∧ R x y) :
    ∃ ys, xs.mapM f = .ok ys ∧ List.Forall₂ R xs ys := by
  induction xs with
  | nil => exact ⟨[], rfl, .nil⟩
  | cons x xs ih =>
    obtain ⟨y, hy, hR⟩ := h x List.mem_cons_self
    obtain ⟨ys, hys, hRs⟩ := ih fun x' hx' => h x' (List.mem_cons_of_mem _ hx')
    refine ⟨y :: ys, ?_, .cons hR hRs⟩
    rw [mapM_eq_ok_iff] at hys ⊢
    exact .cons hy hys

/-- A pass that folds up what its steps give is a pass and then a fold. -/
theorem foldlM_eq_map_mapM {γ : Type} {f : α → Except ε β} {g : γ → β → γ}
    {step : γ → α → Except ε γ} (h : ∀ c x, step c x = (f x).map (g c)) (xs : List α) (c : γ) :
    xs.foldlM step c = (xs.mapM f).map (List.foldl g c) := by
  induction xs generalizing c with
  | nil => rfl
  | cons x xs ih =>
    rw [List.foldlM_cons, List.mapM_cons, h]
    cases f x with
    | error e => rfl
    | ok y =>
      have hrest := ih (g c y)
      cases hf : xs.mapM f <;> rw [hf] at hrest <;> exact hrest

/-- A pass each of whose steps succeeds and keeps a property is a fold. -/
theorem foldlM_eq_ok_foldl {step : β → α → Except ε β} {f : β → α → β} {P : β → Prop}
    {xs : List α} (h : ∀ x ∈ xs, ∀ b, P b → step b x = .ok (f b x) ∧ P (f b x)) {b : β}
    (hb : P b) : xs.foldlM step b = .ok (xs.foldl f b) ∧ P (xs.foldl f b) := by
  induction xs generalizing b with
  | nil => exact ⟨rfl, hb⟩
  | cons x xs ih =>
    obtain ⟨hstep, hf⟩ := h x List.mem_cons_self b hb
    rw [List.foldlM_cons, hstep, ok_bind, List.foldl_cons]
    exact ih (fun y hy => h y (List.mem_cons_of_mem _ hy)) hf

/-- A pass each of whose steps succeeds and keeps a property succeeds and keeps it. -/
theorem exists_foldlM_eq_ok {f : β → α → Except ε β} {P : β → Prop} {xs : List α}
    (h : ∀ x ∈ xs, ∀ b, P b → ∃ b', f b x = .ok b' ∧ P b') {b : β} (hb : P b) :
    ∃ b', xs.foldlM f b = .ok b' ∧ P b' := by
  induction xs generalizing b with
  | nil => exact ⟨b, rfl, hb⟩
  | cons x xs ih =>
    obtain ⟨b', hstep, hb'⟩ := h x List.mem_cons_self b hb
    obtain ⟨b'', hpass, hb''⟩ := ih (fun y hy => h y (List.mem_cons_of_mem _ hy)) hb'
    exact ⟨b'', by rw [List.foldlM_cons, hstep, ok_bind, hpass], hb''⟩

theorem exists_getElem?_of_forall₂ {R : α → β → Prop} {xs : List α} {ys : List β}
    (h : List.Forall₂ R xs ys) {i : Nat} {x : α} (hx : xs[i]? = some x) :
    ∃ y, ys[i]? = some y ∧ R x y := by
  obtain ⟨hi, rfl⟩ := List.getElem?_eq_some_iff.mp hx
  have hi' : i < ys.length := h.length_eq ▸ hi
  exact ⟨ys[i], List.getElem?_eq_getElem hi', (List.forall₂_iff_get.mp h).2 i hi hi'⟩

theorem exists_mem_of_forall₂ {R : α → β → Prop} {xs : List α} {ys : List β}
    (h : List.Forall₂ R xs ys) {x : α} (hx : x ∈ xs) : ∃ y ∈ ys, R x y := by
  obtain ⟨i, hi⟩ := List.mem_iff_getElem?.mp hx
  obtain ⟨y, hy, hR⟩ := exists_getElem?_of_forall₂ h hi
  exact ⟨y, List.mem_of_getElem? hy, hR⟩

theorem map_eq_map_of_forall₂ {γ : Type} {R : α → β → Prop} {xs : List α} {ys : List β}
    (h : List.Forall₂ R xs ys) {f : β → γ} {g : α → γ} (hfg : ∀ x y, R x y → f y = g x) :
    ys.map f = xs.map g := by
  induction h with
  | nil => rfl
  | cons hxy _ ih => rw [List.map_cons, List.map_cons, hfg _ _ hxy, ih]

/-- Two lists that both stand beside a third one stand beside each other. -/
theorem forall₂_of_forall₂ {γ : Type} {R : α → β → Prop} {R' : α → γ → Prop} {S : β → γ → Prop}
    {xs : List α} {ys : List β} {zs : List γ} (h : List.Forall₂ R xs ys)
    (h' : List.Forall₂ R' xs zs) (hS : ∀ x ∈ xs, ∀ y z, R x y → R' x z → S y z) :
    List.Forall₂ S ys zs := by
  induction h generalizing zs with
  | nil =>
    cases h'
    exact .nil
  | cons hxy _ ih =>
    cases h' with
    | cons hxz hrest =>
      exact .cons (hS _ List.mem_cons_self _ _ hxy hxz)
        (ih hrest fun x hx => hS x (List.mem_cons_of_mem _ hx))

theorem exists_mapM_eq_ok_iff {f : α → Except ε β} {xs : List α} :
    (∃ ys, xs.mapM f = .ok ys) ↔ ∀ x ∈ xs, ∃ y, f x = .ok y := by
  constructor
  · rintro ⟨ys, h⟩ x hx
    obtain ⟨y, -, hy⟩ := exists_mem_of_forall₂ (mapM_eq_ok_iff.mp h) hx
    exact ⟨y, hy⟩
  · intro h
    obtain ⟨ys, hys, -⟩ := @exists_mapM_eq_ok _ _ _ f (fun x y => f x = .ok y) xs fun x hx => by
      obtain ⟨y, hy⟩ := h x hx
      exact ⟨y, hy, hy⟩
    exact ⟨ys, hys⟩

theorem mem_flatten_iff_of_forall₂ {P : α → β → Prop} {xs : List α} {yss : List (List β)}
    (h : List.Forall₂ (fun x ys => ∀ y, y ∈ ys ↔ P x y) xs yss) {y : β} :
    y ∈ yss.flatten ↔ ∃ x ∈ xs, P x y := by
  induction h with
  | nil => simp
  | cons hx _ ih => simp [hx, ih]

theorem forM_eq_ok_iff {f : α → Except ε Unit} {xs : List α} :
    xs.forM f = .ok () ↔ ∀ x ∈ xs, f x = .ok () := by
  induction xs with
  | nil => simp [pure, Except.pure]
  | cons x xs ih =>
    rw [List.forM, bind_eq_ok_iff]
    constructor
    · rintro ⟨⟨⟩, hx, h⟩
      simpa [hx] using ih.mp h
    · intro h
      exact ⟨(), h x (by simp), ih.mpr fun y hy => h y (by simp [hy])⟩

end ClusterDynamics
