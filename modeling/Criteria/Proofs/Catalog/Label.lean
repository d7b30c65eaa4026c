import Criteria.Catalog.Label
import Mathlib.Data.List.Chain
import Mathlib.Data.List.Forall2

/-!
# The words of a name

A label spells the words of a name. Which words those are is told without reading the name from left
to right: a word is a maximal run of characters (`Label.Words`) with no gap in it, which is an
underscore, a hyphen or a blank, and no hump, where a capital follows a small letter or a digit.
Every name has such words, and `Label.ofName` spells just them (`Label.spells_iff`).
-/

namespace Criteria.Label

/-- The character stands between words. -/
def IsGap (c : Char) : Prop := c = '_' ∨ c = '-' ∨ Text.isBlank c = true

/-- A capital follows a small letter or a digit, all of ASCII: a word ends between the two. -/
def Hump (c d : Char) : Prop := (c.isLower = true ∨ c.isDigit = true) ∧ d.isUpper = true

/-- A run of characters without a gap or a hump. -/
structure IsRun (run : List Char) : Prop where
  ne_nil : run ≠ []
  noGap : ∀ c ∈ run, ¬IsGap c
  noHump : run.IsChain fun c d => ¬Hump c d

/-- The run does not go on: what follows is the end, a gap, or a capital that makes a hump. -/
def EndsBefore (run rest : List Char) : Prop :=
  ∀ c ∈ run.getLast?, ∀ d ∈ rest.head?, IsGap d ∨ Hump c d

/-- The words of some characters. -/
inductive Words : List Char → List (List Char) → Prop
  | nil : Words [] []
  | gap {c : Char} {rest : List Char} {words : List (List Char)} (hgap : IsGap c)
      (h : Words rest words) : Words (c :: rest) words
  | word {word rest : List Char} {words : List (List Char)} (hrun : IsRun word)
      (hend : EndsBefore word rest) (h : Words rest words) : Words (word ++ rest) (word :: words)

/-- The text is the word with its first letter in upper case. -/
def Capitalized (word : List Char) (text : String) : Prop :=
  ∃ c rest, word = c :: rest ∧ text = String.ofList (Text.upperChar c ++ rest)

/-- The label is made of the words of the name, capitalized, with a blank between each two. -/
def Spells (name label : String) : Prop :=
  ∃ words texts, Words name.toList words ∧ List.Forall₂ Capitalized words texts ∧
    label = " ".intercalate texts

/-! ## Every name has words -/

/-- A run goes on to the front with any character that makes no gap and no hump. -/
theorem IsRun.cons {c : Char} {run : List Char} (h : IsRun run) (hgap : ¬IsGap c)
    (hhump : ∀ d ∈ run.head?, ¬Hump c d) : IsRun (c :: run) where
  ne_nil := List.cons_ne_nil _ _
  noGap := List.forall_mem_cons.2 ⟨hgap, h.noGap⟩
  noHump := List.isChain_cons.2 ⟨hhump, h.noHump⟩

theorem exists_words (cs : List Char) : ∃ words, Words cs words := by
  induction cs with
  | nil => exact ⟨[], .nil⟩
  | cons c rest ih =>
    obtain ⟨words, h⟩ := ih
    by_cases hgap : IsGap c
    · exact ⟨words, .gap hgap h⟩
    by_cases hend : EndsBefore [c] rest
    · have hrun : IsRun [c] := ⟨List.cons_ne_nil _ _, List.forall_mem_singleton.2 hgap, .singleton c⟩
      exact ⟨[c] :: words, .word hrun hend h⟩
    -- otherwise the character belongs to the first word of the rest, which begins at once
    cases h with
    | nil => exact absurd (by simp [EndsBefore]) hend
    | gap hd h =>
      refine absurd (fun _ _ d hmem => .inl ?_) hend
      obtain rfl := Option.some.inj hmem
      exact hd
    | @word word rest words hrun hword h =>
      obtain ⟨d, word, rfl⟩ := List.exists_cons_of_ne_nil hrun.ne_nil
      have hhump : ¬Hump c d := by
        refine fun hhump => hend fun c' hc d' hd => .inr ?_
        obtain rfl := Option.some.inj hc
        obtain rfl := Option.some.inj hd
        exact hhump
      refine ⟨(c :: d :: word) :: words, .word (hrun.cons hgap fun d' hd => ?_) ?_ h⟩
      · obtain rfl := Option.some.inj hd
        exact hhump
      · rw [EndsBefore, List.getLast?_cons_cons]
        exact hword

/-! ## The words that are read -/

theorem wordsFrom_blank {c : Char} (hc : Text.isBlank c = true) (run cs : List Char) :
    Text.wordsFrom run (c :: cs) =
      (if run.isEmpty then [] else [run.reverse]) ++ Text.wordsFrom [] cs := by
  rw [Text.wordsFrom, if_pos hc]
  split <;> rfl

/-- Behind a character the rest is expanded, perhaps after a blank. -/
theorem exists_expand_cons (c : Char) (rest : List Char) : ∃ more,
    expand (c :: rest) = (if c = '_' ∨ c = '-' then ' ' else c) :: more ∧
      Text.wordsFrom [] more = Text.wordsFrom [] (expand rest) := by
  cases rest with
  | nil => exact ⟨[], rfl, rfl⟩
  | cons d rest =>
    rw [expand]
    split
    · exact ⟨' ' :: expand (d :: rest), rfl, wordsFrom_blank rfl ..⟩
    · exact ⟨expand (d :: rest), rfl, rfl⟩

/-- A gap ends the word before it. -/
theorem wordsFrom_expand_gap {c : Char} (hgap : IsGap c) (run rest : List Char) :
    Text.wordsFrom run (expand (c :: rest)) =
      (if run.isEmpty then [] else [run.reverse]) ++ Text.wordsFrom [] (expand rest) := by
  obtain ⟨more, hexpand, hmore⟩ := exists_expand_cons c rest
  have hblank : Text.isBlank (if c = '_' ∨ c = '-' then ' ' else c) = true := by
    split
    · rfl
    · rename_i hother
      rcases hgap with hc | hc | hc
      · exact absurd (.inl hc) hother
      · exact absurd (.inr hc) hother
      · exact hc
  rw [hexpand, wordsFrom_blank hblank, hmore]

/-- A character that makes no gap belongs to the word that is being read. -/
theorem wordsFrom_of_not_isGap {c : Char} (hgap : ¬IsGap c) (run cs : List Char) :
    Text.wordsFrom run ((if c = '_' ∨ c = '-' then ' ' else c) :: cs) =
      Text.wordsFrom (c :: run) cs := by
  obtain ⟨hunderscore, hhyphen, hblank⟩ : ¬c = '_' ∧ ¬c = '-' ∧ Text.isBlank c = false := by
    simpa [IsGap] using hgap
  rw [if_neg (not_or.2 ⟨hunderscore, hhyphen⟩), Text.wordsFrom, hblank, if_neg Bool.false_ne_true]

theorem hump_iff {c d : Char} :
    ((c.isLower || c.isDigit) && d.isUpper) = true ↔ Hump c d := by
  simp [Hump]

/-- Without a hump behind it the word goes on. -/
theorem wordsFrom_expand_cons {c d : Char} (hgap : ¬IsGap c) (hhump : ¬Hump c d)
    (run rest : List Char) :
    Text.wordsFrom run (expand (c :: d :: rest)) = Text.wordsFrom (c :: run) (expand (d :: rest)) := by
  rw [expand, if_neg (mt hump_iff.1 hhump), wordsFrom_of_not_isGap hgap]

/-- With the last character of a run the word ends. -/
theorem wordsFrom_expand_last {c : Char} {rest : List Char} (hgap : ¬IsGap c)
    (hend : EndsBefore [c] rest) (run : List Char) :
    Text.wordsFrom run (expand (c :: rest)) =
      (run.reverse ++ [c]) :: Text.wordsFrom [] (expand rest) := by
  cases rest with
  | nil =>
    change Text.wordsFrom run [if c = '_' ∨ c = '-' then ' ' else c] = _
    rw [wordsFrom_of_not_isGap hgap]
    simp [Text.wordsFrom, expand]
  | cons d rest =>
    by_cases hhump : Hump c d
    · rw [expand, if_pos (hump_iff.2 hhump), wordsFrom_of_not_isGap hgap, wordsFrom_blank rfl]
      simp
    · have hd : IsGap d := (hend c rfl d rfl).resolve_right hhump
      rw [wordsFrom_expand_cons hgap hhump, wordsFrom_expand_gap hd, wordsFrom_expand_gap hd]
      simp

/-- A run that does not go on is read as one word. -/
theorem wordsFrom_expand_run {word rest : List Char} (hrun : IsRun word)
    (hend : EndsBefore word rest) (run : List Char) :
    Text.wordsFrom run (expand (word ++ rest)) =
      (run.reverse ++ word) :: Text.wordsFrom [] (expand rest) := by
  obtain ⟨hne, hgaps, hhumps⟩ := hrun
  induction word generalizing run with
  | nil => exact absurd rfl hne
  | cons c word ih =>
    obtain ⟨hgap, hgaps⟩ := List.forall_mem_cons.1 hgaps
    cases word with
    | nil => exact wordsFrom_expand_last hgap hend run
    | cons d word =>
      obtain ⟨hhump, hhumps⟩ := List.isChain_cons_cons.1 hhumps
      rw [EndsBefore, List.getLast?_cons_cons] at hend
      have hword := ih hend (c :: run) (List.cons_ne_nil _ _) hgaps hhumps
      rw [List.cons_append, List.cons_append, wordsFrom_expand_cons hgap hhump,
        ← List.cons_append, hword]
      simp

/-- The words of a name are those that its label is made of. -/
theorem Words.words_eq {cs : List Char} {words : List (List Char)} (h : Words cs words) :
    Text.words (expand cs) = words := by
  rw [Text.words]
  induction h with
  | nil => rfl
  | gap hgap _ ih =>
    rw [wordsFrom_expand_gap hgap, ih]
    rfl
  | word hrun hend _ ih =>
    rw [wordsFrom_expand_run hrun hend, ih]
    rfl

theorem Words.ne_nil {cs : List Char} {words : List (List Char)} (h : Words cs words) :
    ∀ word ∈ words, word ≠ [] := by
  induction h with
  | nil => simp
  | gap _ _ ih => exact ih
  | word hrun _ _ ih => exact List.forall_mem_cons.2 ⟨hrun.ne_nil, ih⟩

theorem capitalized_iff {words : List (List Char)} (h : ∀ word ∈ words, word ≠ [])
    {texts : List String} : List.Forall₂ Capitalized words texts ↔
      words.map (fun word => String.ofList (capitalize word)) = texts := by
  induction words generalizing texts with
  | nil => simp [eq_comm]
  | cons word rest ih =>
    obtain ⟨hword, hrest⟩ := List.forall_mem_cons.1 h
    obtain ⟨c, cs, rfl⟩ := List.exists_cons_of_ne_nil hword
    have hcapitalized : ∀ text, Capitalized (c :: cs) text ↔
        String.ofList (capitalize (c :: cs)) = text := by
      simp [Capitalized, capitalize, eq_comm]
    cases texts with
    | nil => simp
    | cons text texts =>
      rw [List.forall₂_cons, hcapitalized, ih hrest, List.map_cons, List.cons_eq_cons]

/-- **The label of a name spells its words.** -/
theorem spells_iff {name label : String} : Spells name label ↔ ofName name = label := by
  obtain ⟨words, hwords⟩ := exists_words name.toList
  constructor
  · rintro ⟨words, texts, hwords, htexts, rfl⟩
    rw [ofName, hwords.words_eq, (capitalized_iff hwords.ne_nil).1 htexts]
  · rintro rfl
    exact ⟨words, _, hwords, (capitalized_iff hwords.ne_nil).2 rfl, by rw [ofName, hwords.words_eq]⟩

example : Spells "planKnobs_v2Max" "Plan Knobs V2 Max" := spells_iff.2 (by decide +kernel)

end Criteria.Label
