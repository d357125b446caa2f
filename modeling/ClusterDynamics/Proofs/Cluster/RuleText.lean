import ClusterDynamics.Cluster.Rule
import ClusterDynamics.Proofs.Outcome
import ClusterDynamics.Proofs.Text.Words

/-! Rules as text. The conditions that a word can be read as are told apart by their marks, because
no symbol of a species contains one: a word has one reading at most. -/

namespace ClusterDynamics

open Text

namespace Species

theorem ofSymbol_eq_ok_iff {text : String} {s : Species} :
    ofSymbol text = .ok s ↔ text = s.symbol := by
  unfold ofSymbol lookupName
  constructor
  · intro h
    split at h
    · rename_i s' hfind
      have hsymbol := List.find?_some hfind
      rw [← Except.ok.inj h]
      exact (beq_iff_eq.mp hsymbol).symm
    · cases h
  · rintro rfl
    cases s <;> rfl

/-- Neither blanks nor marks occur in a symbol. -/
theorem plain_symbol (s : Species) : (∀ c ∈ s.symbol.toList, isBlank c = false) ∧
    '^' ∉ s.symbol.toList ∧ '>' ∉ s.symbol.toList := by
  cases s <;> simp [symbol, isBlank]

end Species

namespace Condition

variable {c : Condition} {w : List Char} {s : Species}

/-- The words that a condition can be written as. A count can have a plus sign and zeros in front. -/
inductive Spelled : Condition → List Char → Prop
  | zero (s : Species) : Spelled (.zero s) (s.symbol.toList ++ ['=', '0'])
  | positive (s : Species) : Spelled (.positive s) (s.symbol.toList ++ ['>', '0'])
  | atLeast (s : Species) {n : Nat} {count : List Char} (hcount : Spells n count)
      (hn : n ≤ countLimit) : Spelled (.atLeast s n) (s.symbol.toList ++ ['>', '='] ++ count)
  | dominant (s : Species) : Spelled (.dominant s) ('^' :: s.symbol.toList)

theorem Spelled.isWord (h : c.Spelled w) : IsWord w := by
  have hsymbol := fun s : Species => s.plain_symbol.1
  cases h with
  | zero s | positive s =>
    exact ⟨by simp, List.forall_mem_append.mpr ⟨hsymbol s, by simp [isBlank]⟩⟩
  | atLeast s hcount hn =>
    refine ⟨by simp, List.forall_mem_append.mpr ⟨?_, hcount.isWord.solid⟩⟩
    exact List.forall_mem_append.mpr ⟨hsymbol s, by simp [isBlank]⟩
  | dominant s => exact ⟨by simp, List.forall_mem_cons.mpr ⟨rfl, hsymbol s⟩⟩

theorem readSpecies_eq_ok_iff {symbol : List Char} (h : ∀ c ∈ symbol, isBlank c = false) :
    readSpecies symbol = .ok s ↔ symbol = s.symbol.toList := by
  rw [readSpecies, mapError_eq_ok_iff, Species.ofSymbol_eq_ok_iff, trim_eq_self h]
  constructor
  · intro hs
    rw [← hs, String.toList_ofList]
  · rintro rfl
    exact String.ofList_toList

section Read

theorem read_caret {symbol : List Char} (h : ∀ c ∈ symbol, isBlank c = false) :
    read ('^' :: symbol) = (readSpecies symbol).map .dominant := by
  unfold read
  rw [trim_eq_self (List.forall_mem_cons.mpr ⟨rfl, h⟩)]
  rfl

/-- How a word without a caret in front is read. -/
theorem read_word (hw : ∀ c ∈ w, isBlank c = false) (hcaret : w.head? ≠ some '^') :
    read w = match splitOnce ['>', '='] w with
      | some (symbol, count) => match readNat countLimit (trim count) with
        | some n => (readSpecies symbol).map fun s => .atLeast s n
        | none => .error (.badCount (String.ofList w))
      | none => match ['>', '0'].isSuffixOf? w with
        | some symbol => (readSpecies symbol).map .positive
        | none => match ['=', '0'].isSuffixOf? w with
          | some symbol => (readSpecies symbol).map .zero
          | none => .error (.unrecognised (String.ofList w)) := by
  unfold read
  rw [trim_eq_self hw]
  dsimp only
  split
  · exact absurd rfl hcaret
  · rfl

theorem map_readSpecies_eq_ok_iff {f : Species → Condition} {symbol : List Char}
    (h : ∀ c ∈ symbol, isBlank c = false) : (readSpecies symbol).map f = .ok c ↔
      ∃ s, symbol = s.symbol.toList ∧ c = f s := by
  have hmap : (readSpecies symbol).map f = .ok c ↔ ∃ s, readSpecies symbol = .ok s ∧ c = f s := by
    cases readSpecies symbol <;> simp [Except.map, eq_comm]
  simp only [hmap, readSpecies_eq_ok_iff h]

theorem spelled_of_read (hw : ∀ c ∈ w, isBlank c = false) (h : read w = .ok c) : c.Spelled w := by
  by_cases hcaret : w.head? = some '^'
  · obtain ⟨symbol, rfl⟩ := List.head?_eq_some_iff.mp hcaret
    obtain ⟨-, hsymbol⟩ := List.forall_mem_cons.mp hw
    rw [read_caret hsymbol, map_readSpecies_eq_ok_iff hsymbol] at h
    obtain ⟨s, rfl, rfl⟩ := h
    exact .dominant s
  rw [read_word hw hcaret] at h
  split at h
  · rename_i symbol count hsplit
    obtain rfl := eq_append_of_splitOnce hsplit
    simp only [List.forall_mem_append] at hw
    rw [trim_eq_self hw.2] at h
    split at h
    · rename_i n hn
      obtain ⟨hcount, hle⟩ := readNat_eq_some_iff.mp hn
      obtain ⟨s, rfl, rfl⟩ := (map_readSpecies_eq_ok_iff hw.1.1).mp h
      exact .atLeast s hcount hle
    · cases h
  · split at h
    · rename_i symbol hsuffix
      obtain rfl := List.append_eq_of_isSuffixOf?_eq_some hsuffix
      obtain ⟨s, rfl, rfl⟩ := (map_readSpecies_eq_ok_iff (List.forall_mem_append.mp hw).1).mp h
      exact .positive s
    · split at h
      · rename_i symbol hsuffix
        obtain rfl := List.append_eq_of_isSuffixOf?_eq_some hsuffix
        obtain ⟨s, rfl, rfl⟩ := (map_readSpecies_eq_ok_iff (List.forall_mem_append.mp hw).1).mp h
        exact .zero s
      · cases h

/-- A word that begins with a symbol does not begin with a caret. -/
theorem head?_symbol_append (s : Species) (t : List Char) :
    (s.symbol.toList ++ t).head? ≠ some '^' := by
  cases s <;> simp [Species.symbol]

theorem read_of_spelled (h : c.Spelled w) : read w = .ok c := by
  have hw := h.isWord.solid
  cases h with
  | zero s =>
    have hsplit : splitOnce ['>', '='] (s.symbol.toList ++ ['=', '0']) = none := by
      rw [splitOnce_append ['='] s.plain_symbol.2.2]
      rfl
    have hpositive : ['>', '0'].isSuffixOf? (s.symbol.toList ++ ['=', '0']) = none := by
      rw [Option.eq_none_iff_forall_not_mem]
      intro symbol hsymbol
      have hends := List.append_eq_of_isSuffixOf?_eq_some hsymbol
      exact absurd (List.append_inj' hends rfl).2 (by decide)
    have hzero : ['=', '0'].isSuffixOf? (s.symbol.toList ++ ['=', '0']) =
        some s.symbol.toList := List.isSuffixOf?_eq_some_iff_append_eq.mpr rfl
    rw [read_word hw (head?_symbol_append s _), hsplit, hpositive, hzero]
    exact (map_readSpecies_eq_ok_iff s.plain_symbol.1).mpr ⟨s, rfl, rfl⟩
  | positive s =>
    have hsplit : splitOnce ['>', '='] (s.symbol.toList ++ ['>', '0']) = none := by
      rw [splitOnce_append ['='] s.plain_symbol.2.2]
      rfl
    have hsuffix : ['>', '0'].isSuffixOf? (s.symbol.toList ++ ['>', '0']) =
        some s.symbol.toList := List.isSuffixOf?_eq_some_iff_append_eq.mpr rfl
    rw [read_word hw (head?_symbol_append s _), hsplit, hsuffix]
    exact (map_readSpecies_eq_ok_iff s.plain_symbol.1).mpr ⟨s, rfl, rfl⟩
  | @atLeast s n count hcount hn =>
    have hsplit := splitOnce_mark ['='] s.plain_symbol.2.2 count
    have hnumber := readNat_eq_some_iff.mpr ⟨hcount, hn⟩
    rw [read_word hw (by rw [List.append_assoc]; exact head?_symbol_append s _), hsplit]
    simp only [List.forall_mem_append] at hw
    dsimp only
    rw [trim_eq_self hw.2, hnumber]
    exact (map_readSpecies_eq_ok_iff s.plain_symbol.1).mpr ⟨s, rfl, rfl⟩
  | dominant s =>
    rw [read_caret s.plain_symbol.1]
    exact (map_readSpecies_eq_ok_iff s.plain_symbol.1).mpr ⟨s, rfl, rfl⟩

end Read

theorem read_eq_ok_iff (hw : ∀ c ∈ w, isBlank c = false) : read w = .ok c ↔ c.Spelled w :=
  ⟨spelled_of_read hw, read_of_spelled⟩

section Text

/-- How a condition is written: `He=0`, `He>0`, `I>=2` or `^I`. -/
def text : Condition → String
  | zero s => s.symbol ++ "=0"
  | positive s => s.symbol ++ ">0"
  | atLeast s n => s.symbol ++ ">=" ++ toString n
  | dominant s => "^" ++ s.symbol

/-- The number in the condition, if it has one, is a count. -/
def InRange (c : Condition) : Prop := ∀ s n, c = .atLeast s n → n ≤ countLimit

theorem Spelled.inRange (h : c.Spelled w) : c.InRange := by
  cases h with
  | atLeast s hcount hn =>
    rintro s n ⟨⟩
    exact hn
  | _ => nofun

theorem spelled_text (h : c.InRange) : c.Spelled c.text.toList := by
  cases c with
  | zero s => simpa [text] using Spelled.zero s
  | positive s => simpa [text] using Spelled.positive s
  | atLeast s n =>
    have hspelled := Spelled.atLeast s (spells_toDigits n) (h s n rfl)
    simpa [text] using hspelled
  | dominant s => simpa [text] using Spelled.dominant s

end Text

end Condition

namespace Geometry

variable {g : Geometry} {s : List Char}

/-- The text names the geometry, in letters of either case, with or without blanks around. -/
def Named (g : Geometry) (s : List Char) : Prop :=
  ∃ before name after, (∀ c ∈ before, isBlank c = true) ∧ (∀ c ∈ after, isBlank c = true) ∧
    sameLetters g.name (String.ofList name) = true ∧ s = before ++ name ++ after

theorem ofName_eq_ok_iff {text : String} :
    ofName text = .ok g ↔ sameLetters g.name text = true := by
  unfold ofName lookupName
  constructor
  · intro h
    split at h
    · rename_i g' hfind
      have hname := List.find?_some hfind
      rw [← Except.ok.inj h]
      exact hname
    · cases h
  · intro h
    simp only [sameLetters, beq_iff_eq] at h ⊢
    rw [← h]
    cases g <;> rfl

theorem lower_name (g : Geometry) : ∀ c ∈ g.name.toList.map Char.toLower, c.isLower = true := by
  cases g <;> simp [name]

/-- Neither a blank nor a colon is a letter. -/
theorem plain_of_isLower {c : Char} (h : c.toLower.isLower = true) :
    isBlank c = false ∧ c ≠ ':' := by
  have hletter : 65 ≤ c.toNat ∧ c.toNat ≤ 122 := by
    unfold Char.toLower at h
    split_ifs at h with hupper
    · have hlow : 65 ≤ c.toNat := hupper.1
      have hhigh : c.toNat ≤ 90 := hupper.2
      omega
    · obtain ⟨hleft, hright⟩ := (Bool.and_eq_true _ _).mp h
      have hlow : 97 ≤ c.toNat := of_decide_eq_true hleft
      have hhigh : c.toNat ≤ 122 := of_decide_eq_true hright
      omega
  refine ⟨solid_of_ascii (by omega) (by omega), ?_⟩
  rintro rfl
  simp at hletter

theorem plain_of_sameLetters {name : List Char}
    (h : sameLetters g.name (String.ofList name) = true) :
    ∀ c ∈ name, isBlank c = false ∧ c ≠ ':' := by
  intro c hc
  refine plain_of_isLower (g.lower_name _ ?_)
  rw [beq_iff_eq.mp h, String.toList_ofList]
  exact List.mem_map_of_mem hc

theorem ofName_trim_eq_ok_iff : ofName (String.ofList (trim s)) = .ok g ↔ g.Named s := by
  rw [ofName_eq_ok_iff]
  constructor
  · intro h
    obtain ⟨before, after, hbefore, hafter, hs⟩ := exists_padding s
    exact ⟨before, _, after, hbefore, hafter, h, hs⟩
  · rintro ⟨before, name, after, hbefore, hafter, hname, rfl⟩
    rwa [trim_padded hbefore (fun c hc => (plain_of_sameLetters hname c hc).1) hafter]

theorem Named.colon_not_mem (h : g.Named s) : ':' ∉ s := by
  obtain ⟨before, name, after, hbefore, hafter, hname, rfl⟩ := h
  simp only [List.mem_append, not_or]
  refine ⟨⟨fun hc => ?_, fun hc => (plain_of_sameLetters hname _ hc).2 rfl⟩, fun hc => ?_⟩
  · exact absurd (hbefore _ hc) (by decide)
  · exact absurd (hafter _ hc) (by decide)

theorem named_name (g : Geometry) : g.Named g.name.toList :=
  ⟨[], g.name.toList, [], by simp, by simp, by simp [sameLetters], by simp⟩

end Geometry

namespace ShapeRule

variable {rule : ShapeRule}

/-- The texts that a rule can be written as: the name of its geometry, a colon and words for its
conditions. Without conditions the colon can be left out. -/
inductive Written (rule : ShapeRule) : List Char → Prop
  | listed {name rest : List Char} {ws : List (List Char)} (hname : rule.geometry.Named name)
      (hws : List.Forall₂ Condition.Spelled rule.conditions ws) (hrest : Spaced ws rest) :
      Written rule (name ++ ':' :: rest)
  | bare {name : List Char} (hname : rule.geometry.Named name) (hnone : rule.conditions = []) :
      Written rule name

theorem mapM_read_eq_ok_iff {ws : List (List Char)} {cs : List Condition}
    (hws : ∀ w ∈ ws, IsWord w) :
    ws.mapM Condition.read = .ok cs ↔ List.Forall₂ Condition.Spelled cs ws := by
  rw [mapM_eq_ok_iff]
  constructor
  · intro h
    refine List.Forall₂.flip (((List.forall₂_and_left _ _).mpr ⟨hws, h⟩).imp ?_)
    rintro w c ⟨hw, hread⟩
    exact (Condition.read_eq_ok_iff hw.solid).mp hread
  · intro h
    refine ((List.forall₂_and_left _ _).mpr ⟨hws, h.flip⟩).imp ?_
    rintro w c ⟨hw, hspelled⟩
    exact (Condition.read_eq_ok_iff hw.solid).mpr hspelled

theorem read_parts {text : String} {name rest : List Char}
    (h : (splitOnce [':'] text.toList).getD (text.toList, []) = (name, rest)) :
    read text = .ok rule ↔ rule.geometry.Named name ∧
      List.Forall₂ Condition.Spelled rule.conditions (words rest) := by
  have hparts : read text = (do
      let geometry ← (Geometry.ofName (String.ofList (trim name))).mapError .unknownGeometry
      let conditions ← (words rest).mapM Condition.read
      return { geometry, conditions }) := by
    unfold read
    dsimp only
    rw [h]
  have hwords := (spaced_words rest).isWord
  simp only [hparts, bind_eq_ok_iff, mapError_eq_ok_iff, Geometry.ofName_trim_eq_ok_iff,
    mapM_read_eq_ok_iff hwords, pure, Except.pure, Except.ok.injEq]
  constructor
  · rintro ⟨geometry, hname, conditions, hconditions, rfl⟩
    exact ⟨hname, hconditions⟩
  · rintro ⟨hname, hconditions⟩
    exact ⟨_, hname, _, hconditions, rfl⟩

/-- A text is read as a rule if and only if the rule can be written so. -/
theorem read_eq_ok_iff {text : String} : read text = .ok rule ↔ rule.Written text.toList := by
  constructor
  · intro h
    cases hsplit : splitOnce [':'] text.toList with
    | none =>
      obtain ⟨hname, hwords⟩ := (read_parts (congrArg (Option.getD · _) hsplit)).mp h
      exact .bare hname (List.forall₂_nil_right_iff.mp hwords)
    | some parts =>
      obtain ⟨hname, hwords⟩ := (read_parts (congrArg (Option.getD · _) hsplit)).mp h
      rw [eq_append_of_splitOnce hsplit, List.append_assoc]
      exact .listed hname hwords (spaced_words parts.2)
  · intro h
    generalize htext : text.toList = s at h
    cases h with
    | @listed name rest ws hname hws hrest =>
      have hsplit := splitOnce_mark [] hname.colon_not_mem rest
      rw [List.append_assoc, List.singleton_append, ← htext] at hsplit
      refine (read_parts (congrArg (Option.getD · _) hsplit)).mpr ⟨hname, ?_⟩
      rwa [words_eq_iff.mpr hrest]
    | bare hname hnone =>
      rw [← htext] at hname
      have hsplit := splitOnce_eq_none [] hname.colon_not_mem
      refine (read_parts (congrArg (Option.getD · _) hsplit)).mpr ⟨hname, ?_⟩
      rw [hnone]
      exact .nil

/-- How a rule is written: `Trap: He>0 V>0`. -/
def text (rule : ShapeRule) : String :=
  rule.geometry.name ++ ":" ++ String.join (rule.conditions.map fun c => " " ++ c.text)

theorem spaced_text {cs : List Condition} (hrange : ∀ c ∈ cs, c.InRange) :
    Spaced (cs.map fun c => c.text.toList)
      (String.join (cs.map fun c => " " ++ c.text)).toList := by
  induction cs with
  | nil => exact .nil
  | cons c cs ih =>
    obtain ⟨hc, hcs⟩ := List.forall_mem_cons.mp hrange
    have hword := (Condition.spelled_text hc).isWord
    have hend : ∀ d ∈ (String.join (cs.map fun c => " " ++ c.text)).toList.head?,
        isBlank d = true := by
      cases cs with
      | nil => simp
      | cons => simp [isBlank]
    simpa using Spaced.blank (c := ' ') rfl (.word hword hend (ih hcs))

theorem written_of_spaced {rest : List Char} (hrange : ∀ c ∈ rule.conditions, c.InRange)
    (hrest : Spaced (rule.conditions.map fun c => c.text.toList) rest) :
    rule.Written (rule.geometry.name.toList ++ ':' :: rest) := by
  refine .listed rule.geometry.named_name ?_ hrest
  rw [List.forall₂_map_right_iff, List.forall₂_same]
  exact fun c hc => Condition.spelled_text (hrange c hc)

theorem Written.inRange {s : List Char} (h : rule.Written s) :
    ∀ c ∈ rule.conditions, c.InRange := by
  intro c hc
  cases h with
  | listed hname hws hrest =>
    obtain ⟨w, -, hw⟩ := exists_mem_of_forall₂ hws hc
    exact hw.inRange
  | bare hname hnone =>
    rw [hnone] at hc
    cases hc

/-- A rule is read back from the name of its geometry, a colon and its conditions in their order, with
whatever blanks between them. What a text was read as is also read from the text of the result. -/
theorem text_reads_back :
    (∀ (rule : ShapeRule) (rest : String), (∀ c ∈ rule.conditions, c.InRange) →
      Spaced (rule.conditions.map fun c => c.text.toList) rest.toList →
        read (rule.geometry.name ++ ":" ++ rest) = .ok rule) ∧
    ∀ (text : String) (rule : ShapeRule), read text = .ok rule → read rule.text = .ok rule := by
  have hread : ∀ (rule : ShapeRule) (rest : String), (∀ c ∈ rule.conditions, c.InRange) →
      Spaced (rule.conditions.map fun c => c.text.toList) rest.toList →
        read (rule.geometry.name ++ ":" ++ rest) = .ok rule := by
    intro rule rest hrange hrest
    rw [read_eq_ok_iff]
    simpa using written_of_spaced hrange hrest
  refine ⟨hread, fun text rule h => ?_⟩
  have hrange := (read_eq_ok_iff.mp h).inRange
  exact hread rule _ hrange (spaced_text hrange)

/-- All kinds of conditions, the largest count, and several kinds of blanks. -/
theorem text_reads_back_trap :
    let rule : ShapeRule := ⟨.trap, [.positive .helium, .atLeast .vacancy 4294967295,
      .zero .interstitial, .dominant .vacancy]⟩
    let rest := " He>0\t V>=4294967295\nI=0 ^V "
    (∀ c ∈ rule.conditions, c.InRange) ∧
      Spaced (rule.conditions.map fun c => c.text.toList) rest.toList ∧
      read ("Trap" ++ ":" ++ rest) = .ok rule ∧
      read " tRAP :He>0 V>=+004294967295 I=0 ^V" = .ok rule ∧ read rule.text = .ok rule := by
  intro rule rest
  have hrange : ∀ c ∈ rule.conditions, c.InRange := by
    simp [rule, Condition.InRange, countLimit]
  have hspaced : Spaced (rule.conditions.map fun c => c.text.toList) rest.toList :=
    words_eq_iff.mp (by decide +kernel)
  have hloose : read " tRAP :He>0 V>=+004294967295 I=0 ^V" = .ok rule := by decide +kernel
  exact ⟨hrange, hspaced, text_reads_back.1 rule rest hrange hspaced, hloose,
    text_reads_back.2 _ rule hloose⟩

end ShapeRule

end ClusterDynamics
