import ClusterDynamics.Text.Blank
import Mathlib.Data.List.Basic
import Mathlib.Data.List.TakeWhile

/-! Splitting text at blanks and at marks, and numbers in decimal digits. A text has the words it was
put together from, however many blanks stand between them. -/

namespace ClusterDynamics.Text

variable {s w before after : List Char} {ws : List (List Char)}

/-- A text of at least one character and no blank. -/
structure IsWord (w : List Char) : Prop where
  ne_nil : w ≠ []
  solid : ∀ c ∈ w, isBlank c = false

theorem solid_of_ascii {c : Char} (hlow : 33 ≤ c.toNat) (hhigh : c.toNat ≤ 126) :
    isBlank c = false := by
  simp only [isBlank, Bool.or_eq_false_iff, Bool.and_eq_false_iff, decide_eq_false_iff_not,
    beq_eq_false_iff_ne]
  omega

section Words

/-- The text is made of the words in their order. Blanks stand between any two, and can stand in front
of the first and behind the last. -/
inductive Spaced : List (List Char) → List Char → Prop
  | nil : Spaced [] []
  | blank {c : Char} {ws : List (List Char)} {s : List Char} (hc : isBlank c = true)
      (h : Spaced ws s) : Spaced ws (c :: s)
  | word {w : List Char} {ws : List (List Char)} {s : List Char} (hw : IsWord w)
      (hend : ∀ c ∈ s.head?, isBlank c = true) (h : Spaced ws s) : Spaced (w :: ws) (w ++ s)

theorem isWord_singleton {c : Char} (hc : isBlank c = false) : IsWord [c] :=
  ⟨List.cons_ne_nil _ _, by simpa using hc⟩

theorem words_blank {c : Char} (hc : isBlank c = true) (s : List Char) :
    words (c :: s) = words s := by
  cases s <;> simp [words, hc]

theorem words_append (hw : IsWord w) (hend : ∀ c ∈ s.head?, isBlank c = true) :
    words (w ++ s) = w :: words s := by
  obtain ⟨hne, hsolid⟩ := hw
  induction w with
  | nil => exact absurd rfl hne
  | cons c w ih =>
    obtain ⟨hc, hsolid⟩ := List.forall_mem_cons.mp hsolid
    cases w with
    | nil =>
      cases s with
      | nil => simp [words, hc]
      | cons d s => simp [words, hc, show isBlank d = true from hend d rfl]
    | cons d w =>
      have hd := hsolid d List.mem_cons_self
      have hrest := ih (List.cons_ne_nil d w) hsolid
      simp only [List.cons_append] at hrest ⊢
      rw [words, hrest]
      simp [hc, hd]

/-- A character in front of a word becomes part of it. -/
theorem Spaced.extend {c d : Char} (hc : isBlank c = false) (hd : isBlank d = false)
    (h : Spaced ws (d :: s)) : ∃ w rest, ws = w :: rest ∧ Spaced ((c :: w) :: rest) (c :: d :: s) := by
  generalize hs : d :: s = t at h
  cases h with
  | nil => cases hs
  | blank hd' h =>
    obtain ⟨rfl, -⟩ := List.cons.inj hs
    exact absurd hd' (by simp [hd])
  | @word w rest u hw hend h =>
    have hword : IsWord (c :: w) :=
      ⟨List.cons_ne_nil c w, List.forall_mem_cons.mpr ⟨hc, hw.solid⟩⟩
    refine ⟨w, rest, rfl, ?_⟩
    rw [← List.cons_append]
    exact .word hword hend h

theorem spaced_words (s : List Char) : Spaced (words s) s := by
  induction s with
  | nil => exact .nil
  | cons c s ih =>
    cases hc : isBlank c with
    | true =>
      rw [words_blank hc]
      exact .blank hc ih
    | false =>
      cases s with
      | nil =>
        have hwords : words [c] = [[c]] := by simp [words, hc]
        exact hwords ▸ .word (isWord_singleton hc) (by simp) .nil
      | cons d s =>
        cases hd : isBlank d with
        | true =>
          have hwords : words (c :: d :: s) = [c] :: words (d :: s) :=
            words_append (isWord_singleton hc) (by simpa using hd)
          exact hwords ▸ .word (isWord_singleton hc) (by simpa using hd) ih
        | false =>
          obtain ⟨w, rest, hrest, hspaced⟩ := ih.extend hc hd
          have hwords : words (c :: d :: s) = (c :: w) :: rest := by
            rw [words, hrest]
            simp [hc, hd]
          exact hwords ▸ hspaced

theorem words_eq_iff : words s = ws ↔ Spaced ws s := by
  constructor
  · rintro rfl
    exact spaced_words s
  · intro h
    induction h with
    | nil => rfl
    | blank hc h ih => rw [words_blank hc, ih]
    | word hw hend h ih => rw [words_append hw hend, ih]

theorem Spaced.isWord (h : Spaced ws s) : ∀ w ∈ ws, IsWord w := by
  induction h with
  | nil => simp
  | blank hc h ih => exact ih
  | word hw hend h ih => exact List.forall_mem_cons.mpr ⟨hw, ih⟩

end Words

section Trim

theorem trimEnd_blanks (h : ∀ c ∈ after, isBlank c = true) : trimEnd after = [] := by
  induction after with
  | nil => rfl
  | cons c after ih =>
    obtain ⟨hc, hafter⟩ := List.forall_mem_cons.mp h
    simp [trimEnd, ih hafter, hc]

theorem trimEnd_append (hw : ∀ c ∈ w, isBlank c = false) (h : ∀ c ∈ after, isBlank c = true) :
    trimEnd (w ++ after) = w := by
  induction w with
  | nil => exact trimEnd_blanks h
  | cons c w ih =>
    obtain ⟨hc, hw⟩ := List.forall_mem_cons.mp hw
    rw [List.cons_append, trimEnd, ih hw]
    cases w <;> simp [hc]

/-- Blanks around a text without blanks are taken off, and nothing else. -/
theorem trim_padded (hbefore : ∀ c ∈ before, isBlank c = true) (hw : ∀ c ∈ w, isBlank c = false)
    (hafter : ∀ c ∈ after, isBlank c = true) : trim (before ++ w ++ after) = w := by
  rw [trim, List.append_assoc, List.dropWhile_append_of_pos hbefore]
  cases w with
  | nil =>
    rw [List.nil_append, List.dropWhile_eq_nil_iff.mpr hafter]
    rfl
  | cons c w =>
    have hc : ¬isBlank c = true := by simp [hw c List.mem_cons_self]
    rw [List.cons_append, List.dropWhile_cons_of_neg hc, ← List.cons_append,
      trimEnd_append hw hafter]

theorem trim_eq_self (hw : ∀ c ∈ w, isBlank c = false) : trim w = w := by
  have hnone : ∀ c ∈ ([] : List Char), isBlank c = true := nofun
  simpa using trim_padded hnone hw hnone

theorem exists_eq_trimEnd_append (s : List Char) :
    ∃ after, (∀ c ∈ after, isBlank c = true) ∧ s = trimEnd s ++ after := by
  induction s with
  | nil => exact ⟨[], by simp, rfl⟩
  | cons c s ih =>
    obtain ⟨after, hafter, hs⟩ := ih
    cases hend : trimEnd s with
    | nil =>
      rw [hend, List.nil_append] at hs
      subst hs
      cases hc : isBlank c with
      | true => exact ⟨c :: s, by simpa [hc] using hafter, by simp [trimEnd, hend, hc]⟩
      | false => exact ⟨s, hafter, by simp [trimEnd, hend, hc]⟩
    | cons d rest =>
      refine ⟨after, hafter, ?_⟩
      rw [trimEnd, hend, List.cons_append, ← hend, ← hs]

/-- Only blanks are taken off. -/
theorem exists_padding (s : List Char) : ∃ before after, (∀ c ∈ before, isBlank c = true) ∧
    (∀ c ∈ after, isBlank c = true) ∧ s = before ++ trim s ++ after := by
  obtain ⟨after, hafter, hend⟩ := exists_eq_trimEnd_append (s.dropWhile isBlank)
  refine ⟨s.takeWhile isBlank, after, fun c hc => List.mem_takeWhile_imp hc, hafter, ?_⟩
  rw [List.append_assoc, trim, ← hend, List.takeWhile_append_dropWhile]

end Trim

section Marks

variable {m : Char} (mark : List Char)

/-- A mark is looked for behind all text in which its first character does not occur. -/
theorem splitOnce_append (h : m ∉ before) (s : List Char) : splitOnce (m :: mark) (before ++ s) =
    (splitOnce (m :: mark) s).map fun x => (before ++ x.1, x.2) := by
  induction before with
  | nil => simp
  | cons c before ih =>
    obtain ⟨hc, hbefore⟩ := not_or.mp (mt List.mem_cons.mpr h)
    have hno : (m :: mark).isPrefixOf? (c :: (before ++ s)) = none := by
      simp [List.isPrefixOf?, hc]
    rw [List.cons_append, splitOnce, hno, ih hbefore]
    simp [Function.comp_def]

theorem splitOnce_mark (h : m ∉ before) (after : List Char) :
    splitOnce (m :: mark) (before ++ m :: mark ++ after) = some (before, after) := by
  have hmark : (m :: mark).isPrefixOf? (m :: (mark ++ after)) = some after :=
    List.isPrefixOf?_eq_some_iff_append_eq.mpr rfl
  rw [List.append_assoc, splitOnce_append mark h, List.cons_append, splitOnce, hmark]
  simp

theorem splitOnce_eq_none (h : m ∉ s) : splitOnce (m :: mark) s = none := by
  simpa [splitOnce] using splitOnce_append mark h []

theorem eq_append_of_splitOnce {mark : List Char} (h : splitOnce mark s = some (before, after)) :
    s = before ++ mark ++ after := by
  induction s generalizing before with
  | nil => simp [splitOnce] at h
  | cons c s ih =>
    unfold splitOnce at h
    split at h
    · rename_i rest hprefix
      obtain ⟨rfl, rfl⟩ := Prod.mk.inj (Option.some.inj h)
      exact (List.isPrefixOf?_eq_some_iff_append_eq.mp hprefix).symm
    · obtain ⟨⟨before', after'⟩, hrest, hparts⟩ := Option.map_eq_some_iff.mp h
      obtain ⟨rfl, rfl⟩ := Prod.mk.inj hparts
      rw [ih hrest]
      rfl

end Marks

section Digits

variable {limit n : Nat}

/-- Decimal digits with the value of the number, with or without a plus sign in front. -/
def Spells (n : Nat) (s : List Char) : Prop :=
  ∃ digits, (s = digits ∨ s = '+' :: digits) ∧ digits ≠ [] ∧ digits.all Char.isDigit = true ∧
    digitsValue digits = n

/-- The text behind a plus sign, and all of it where there is none in front. -/
def unsigned : List Char → List Char
  | '+' :: rest => rest
  | s => s

theorem unsigned_eq_iff {digits : List Char} (hdigits : digits.all Char.isDigit = true) :
    unsigned s = digits ↔ s = digits ∨ s = '+' :: digits := by
  have hplus : ∀ rest : List Char, '+' :: rest ≠ digits := by
    rintro rest rfl
    simp at hdigits
  unfold unsigned
  split
  · simp [hplus]
  · rename_i hs
    exact ⟨.inl, fun h => h.resolve_right (hs digits)⟩

theorem readNat_eq (limit : Nat) (s : List Char) : readNat limit s =
    if unsigned s ≠ [] ∧ (unsigned s).all Char.isDigit ∧ digitsValue (unsigned s) ≤ limit then
      some (digitsValue (unsigned s))
    else none := by
  unfold readNat
  fun_cases unsigned s <;> simp

theorem readNat_eq_some_iff : readNat limit s = some n ↔ Spells n s ∧ n ≤ limit := by
  rw [readNat_eq]
  constructor
  · intro h
    split_ifs at h with hs
    obtain ⟨hne, hdigits, hle⟩ := hs
    obtain rfl := Option.some.inj h
    exact ⟨⟨_, (unsigned_eq_iff hdigits).mp rfl, hne, hdigits, rfl⟩, hle⟩
  · rintro ⟨⟨digits, hform, hne, hdigits, rfl⟩, hle⟩
    rw [(unsigned_eq_iff hdigits).mpr hform]
    exact if_pos ⟨hne, hdigits, hle⟩

theorem spells_toDigits (n : Nat) : Spells n (Nat.toDigits 10 n) := by
  refine ⟨_, .inl rfl, Nat.toDigits_ne_nil, ?_, ?_⟩
  · exact List.all_eq_true.mpr fun c hc => Nat.isDigit_of_mem_toDigits (by decide) (by decide) hc
  · have hvalue := Nat.ofDigitChars_ten_toDigits (n := n)
    rw [Nat.ofDigitChars_eq_foldl] at hvalue
    simpa [digitsValue] using hvalue

theorem solid_of_isDigit {c : Char} (h : c.isDigit = true) : isBlank c = false := by
  simp only [Char.isDigit, Bool.and_eq_true, decide_eq_true_eq] at h
  have hlow : 48 ≤ c.toNat := h.1
  have hhigh : c.toNat ≤ 57 := h.2
  exact solid_of_ascii (by omega) (by omega)

theorem Spells.isWord (h : Spells n s) : IsWord s := by
  obtain ⟨digits, hform, hne, hdigits, -⟩ := h
  have hsolid : ∀ c ∈ digits, isBlank c = false := fun c hc =>
    solid_of_isDigit (List.all_eq_true.mp hdigits c hc)
  rcases hform with rfl | rfl
  · exact ⟨hne, hsolid⟩
  · exact ⟨List.cons_ne_nil _ _, List.forall_mem_cons.mpr ⟨rfl, hsolid⟩⟩

end Digits

end ClusterDynamics.Text
