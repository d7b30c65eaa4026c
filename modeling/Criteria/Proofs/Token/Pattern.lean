import Criteria.Proofs.Token.Positions
import Mathlib.Computability.Language

/-!
# Patterns of lexemes

The pieces that condition text falls into, as languages: a table of patterns, to be tried in order
at every point of a text. A blank run separates lexemes, the other patterns are lexemes.

Reading a lexeme takes the longest match of the first pattern that applies, as what that pattern
says of it, and nothing where no pattern applies (`Pattern.answers_lexeme?`). So a lexeme stays the
same when the text behind it is cut off (`Pattern.lexeme?_take`).
-/

namespace Criteria

open Lexeme
open scoped Computability

/-! ## Languages -/

/-- The words of one character of a class. -/
def oneOf (p : Char → Bool) : Language Char := {w | ∃ c, p c = true ∧ w = [c]}

/-- The words of one or more characters of a class. -/
def run (p : Char → Bool) : Language Char := oneOf p * (oneOf p)∗

/-- The words of a list. -/
def anyOf (words : List (List Char)) : Language Char := {w | w ∈ words}

theorem mem_oneOf {p : Char → Bool} {w : List Char} : w ∈ oneOf p ↔ ∃ c, p c = true ∧ w = [c] :=
  Iff.rfl

theorem mem_anyOf {words : List (List Char)} {w : List Char} : w ∈ anyOf words ↔ w ∈ words := Iff.rfl

theorem mem_kstar_oneOf {p : Char → Bool} {w : List Char} :
    w ∈ (oneOf p)∗ ↔ ∀ c ∈ w, p c = true := by
  rw [Language.mem_kstar]
  constructor
  · rintro ⟨words, rfl, hwords⟩ c hc
    obtain ⟨word, hword, hc⟩ := List.mem_flatten.1 hc
    obtain ⟨d, hd, rfl⟩ := hwords word hword
    rwa [List.mem_singleton.1 hc]
  · intro h
    refine ⟨w.map fun c => [c], (List.flatMap_singleton' w).symm, fun word hword => ?_⟩
    obtain ⟨c, hc, rfl⟩ := List.mem_map.1 hword
    exact ⟨c, h c hc, rfl⟩

theorem mem_oneOf_mul {p : Char → Bool} {l : Language Char} {w : List Char} :
    w ∈ oneOf p * l ↔ ∃ c rest, w = c :: rest ∧ p c = true ∧ rest ∈ l := by
  rw [Language.mem_mul]
  constructor
  · rintro ⟨_, ⟨c, hc, rfl⟩, rest, hrest, rfl⟩
    exact ⟨c, rest, rfl, hc, hrest⟩
  · rintro ⟨c, rest, rfl, hc, hrest⟩
    exact ⟨[c], ⟨c, hc, rfl⟩, rest, hrest, rfl⟩

theorem mem_run {p : Char → Bool} {w : List Char} : w ∈ run p ↔ w ≠ [] ∧ ∀ c ∈ w, p c = true := by
  rw [run, mem_oneOf_mul]
  constructor
  · rintro ⟨c, rest, rfl, hc, hrest⟩
    exact ⟨List.cons_ne_nil _ _, List.forall_mem_cons.2 ⟨hc, mem_kstar_oneOf.1 hrest⟩⟩
  · rintro ⟨hne, hall⟩
    obtain ⟨c, rest, rfl⟩ := List.exists_cons_of_ne_nil hne
    obtain ⟨hc, hrest⟩ := List.forall_mem_cons.1 hall
    exact ⟨c, rest, rfl, hc, mem_kstar_oneOf.2 hrest⟩

/-! ## The table -/

/-- A pattern of the pieces that condition text falls into. -/
inductive Pattern
  | blanks
  /-- A parenthesis. -/
  | bracket
  | comma
  /-- An operator of two characters. -/
  | sign
  /-- An operator of one character. -/
  | angle
  /-- The sign of negation. -/
  | bang
  /-- A string between two of a quote. -/
  | string (quote : Char)
  | number
  | word

namespace Pattern

/-- The patterns in the order in which they are tried. -/
def table : List Pattern :=
  [.blanks, .bracket, .comma, .sign, .angle, .bang, .string '"', .string '\'', .number, .word]

/-- The units of a string: a character that is neither its quote nor a backslash, or a backslash and
any character. -/
def unit (quote : Char) : Language Char :=
  oneOf (fun c => c ≠ quote ∧ c ≠ '\\') + oneOf (· = '\\') * oneOf fun _ => true

/-- The texts of a pattern. -/
def language : Pattern → Language Char
  | .blanks => run Text.isBlank
  | .bracket => anyOf [['('], [')']]
  | .comma => anyOf [[',']]
  | .sign => anyOf [['&', '&'], ['|', '|'], ['=', '='], ['!', '='], ['>', '='], ['<', '=']]
  | .angle => anyOf [['<'], ['>']]
  | .bang => anyOf [['!']]
  | .string quote => oneOf (· = quote) * ((unit quote)∗ * oneOf (· = quote))
  | .number => run Char.isDigit * (1 + oneOf (· = '.') * run Char.isDigit) +
      oneOf (· = '.') * run Char.isDigit
  | .word => oneOf isNameStart * (oneOf isNameChar)∗

/-- The first characters of a text are a text of the pattern. -/
def Matches (p : Pattern) (cs : List Char) (n : Nat) : Prop :=
  n ≤ cs.length ∧ cs.take n ∈ p.language

/-- The pattern matches at the front of a text. -/
def Applies (p : Pattern) (cs : List Char) : Prop := ∃ n, p.Matches cs n

/-- The pattern matches so many characters at the front of a text, and not more. -/
def IsLongest (p : Pattern) (cs : List Char) (n : Nat) : Prop :=
  p.Matches cs n ∧ ∀ m, p.Matches cs m → m ≤ n

/-- The pattern is the first of the table to apply at the front of a text. -/
def IsFirst (p : Pattern) (cs : List Char) : Prop :=
  p.Applies cs ∧ ∃ before after, table = before ++ p :: after ∧ ∀ q ∈ before, ¬q.Applies cs

/-- What a unit of a string stands for. A backslash that starts no escape stands for itself. -/
def unitValue : List Char → List Char
  | ['\\', c] => (escapeValue? c).elim ['\\', c] fun value => [value]
  | u => u

/-- The lexeme is of a kind, and its text is the given one. -/
def Spelled (kind : String) (w : List Char) (l : Lexeme) : Prop :=
  l.kind = kind ∧ l.text.toList = w

/-- What the pattern says of a text of it: a lexeme of a kind with the same text, but for a string,
which stands for what its units stand for. -/
def Says (w : List Char) (l : Lexeme) : Pattern → Prop
  | .blanks => False
  | .bracket => Spelled "paren" w l
  | .comma => Spelled "comma" w l
  | .sign => Spelled "operator" w l
  | .angle => Spelled "operator" w l
  | .bang => Spelled "not" w l
  | .string quote => ∃ units : List (List Char), (∀ u ∈ units, u ∈ unit quote) ∧
      w = quote :: (units.flatten ++ [quote]) ∧ Spelled "string" (units.flatMap unitValue) l
  | .number => Spelled "number" w l
  | .word =>
    Spelled (if w ∈ ["true".toList, "false".toList] then "boolean" else "identifier") w l

/-! ## What a match starts with -/

/-- The characters that texts of the pattern start with. -/
def starts (c : Char) : Pattern → Bool
  | .blanks => Text.isBlank c
  | .bracket => c ∈ ['(', ')']
  | .comma => c = ','
  | .sign => c ∈ ['&', '|', '=', '!', '>', '<']
  | .angle => c ∈ ['<', '>']
  | .bang => c = '!'
  | .string quote => c = quote
  | .number => c.isDigit || c = '.'
  | .word => isNameStart c

theorem starts_of_mem {p : Pattern} {w : List Char} (h : w ∈ p.language) :
    ∃ c rest, w = c :: rest ∧ p.starts c = true := by
  have hany : ∀ {words : List (List Char)} {q : Pattern}, w ∈ anyOf words →
      (∀ word ∈ words, ∃ c rest, word = c :: rest ∧ q.starts c = true) →
        ∃ c rest, w = c :: rest ∧ q.starts c = true := fun hw hall => hall w hw
  cases p with
  | blanks =>
    obtain ⟨c, rest, rfl, hc, -⟩ := mem_oneOf_mul.1 h
    exact ⟨c, rest, rfl, hc⟩
  | bracket | comma | sign | angle | bang => exact hany h (by simp [starts])
  | string quote =>
    obtain ⟨c, rest, rfl, hc, -⟩ := mem_oneOf_mul.1 h
    exact ⟨c, rest, rfl, hc⟩
  | number =>
    rcases h with h | h
    · obtain ⟨digits, hdigits, rest, -, rfl⟩ := Language.mem_mul.1 h
      obtain ⟨c, more, rfl, hc, -⟩ := mem_oneOf_mul.1 hdigits
      exact ⟨c, _, rfl, by simp [starts, hc]⟩
    · obtain ⟨c, rest, rfl, hc, -⟩ := mem_oneOf_mul.1 h
      exact ⟨c, rest, rfl, by simp [starts, of_decide_eq_true hc]⟩
  | word =>
    obtain ⟨c, rest, rfl, hc, -⟩ := mem_oneOf_mul.1 h
    exact ⟨c, rest, rfl, hc⟩

theorem Matches.pos {p : Pattern} {cs : List Char} {n : Nat} (h : p.Matches cs n) : 0 < n := by
  obtain ⟨c, rest, htake, -⟩ := starts_of_mem h.2
  rcases n with _ | n
  · rw [List.take_zero] at htake
    cases htake
  · exact Nat.succ_pos n

theorem Applies.starts {p : Pattern} {c : Char} {rest : List Char} (h : p.Applies (c :: rest)) :
    p.starts c = true := by
  obtain ⟨n, hn⟩ := h
  obtain ⟨d, more, htake, hd⟩ := starts_of_mem hn.2
  obtain ⟨n, rfl⟩ := Nat.exists_eq_succ_of_ne_zero hn.pos.ne'
  rw [List.take_succ_cons] at htake
  rwa [(List.cons.inj htake).1]

/-- Only one pattern is the first to apply. -/
theorem IsFirst.unique {p q : Pattern} {cs : List Char} (hp : p.IsFirst cs) (hq : q.IsFirst cs) :
    p = q := by
  obtain ⟨happlies, before, after, htable, hbefore⟩ := hp
  obtain ⟨happlies', before', after', htable', hbefore'⟩ := hq
  rw [htable] at htable'
  rcases List.append_eq_append_iff.1 htable' with ⟨skipped, rfl, heq⟩ | ⟨skipped, rfl, heq⟩
  · cases skipped with
    | nil => exact (List.cons.inj heq).1
    | cons r skipped =>
      obtain ⟨rfl, -⟩ := List.cons.inj heq
      exact absurd happlies (hbefore' p (by simp))
  · cases skipped with
    | nil => exact (List.cons.inj heq).1.symm
    | cons r skipped =>
      obtain ⟨rfl, -⟩ := List.cons.inj heq
      exact absurd happlies' (hbefore q (by simp))

theorem IsLongest.unique {p : Pattern} {cs : List Char} {m n : Nat} (hm : p.IsLongest cs m)
    (hn : p.IsLongest cs n) : m = n :=
  Nat.le_antisymm (hn.2 m hm.1) (hm.2 n hn.1)

/-! ## Signs -/

variable {cs rest : List Char} {c : Char} {n : Nat}

theorem matches_anyOf {words : List (List Char)} :
    (n ≤ cs.length ∧ cs.take n ∈ anyOf words) ↔ ∃ w ∈ words, w <+: cs ∧ n = w.length := by
  constructor
  · rintro ⟨hn, hw⟩
    exact ⟨cs.take n, hw, List.take_prefix .., (List.length_take_of_le hn).symm⟩
  · rintro ⟨w, hw, hfront, rfl⟩
    exact ⟨hfront.length_le, by rwa [← List.prefix_iff_eq_take.1 hfront]⟩

/-- Of signs of one length, the one that stands at the front is the longest match. -/
theorem isLongest_anyOf {p : Pattern} {words : List (List Char)} {w : List Char}
    (hp : p.language = anyOf words) (hw : w ∈ words) (hlength : ∀ v ∈ words, v.length = w.length)
    (hfront : w <+: cs) : p.IsLongest cs w.length := by
  rw [IsLongest]
  simp only [Matches, hp]
  refine ⟨matches_anyOf.2 ⟨w, hw, hfront, rfl⟩, fun m hm => ?_⟩
  obtain ⟨v, hv, -, rfl⟩ := matches_anyOf.1 hm
  exact (hlength v hv).le

/-! ## Runs -/

/-- Characters of a class at the front are part of the run of the class there. -/
theorem le_length_takeWhile {p : Char → Bool} (hn : n ≤ cs.length)
    (h : ∀ c ∈ cs.take n, p c = true) : n ≤ (cs.takeWhile p).length := by
  rw [← List.take_append_drop n cs, List.takeWhile_append_of_pos h, List.length_append,
    List.length_take_of_le hn]
  exact Nat.le_add_right ..

theorem isLongest_word (h : isNameStart c = true) :
    word.IsLongest (c :: rest) ((c :: rest).takeWhile isNameChar).length := by
  have hrun := List.takeWhile_prefix isNameChar (l := c :: rest)
  have hcons := List.takeWhile_cons_of_pos (isNameChar_of_isNameStart h) (l := rest)
  refine ⟨⟨hrun.length_le, ?_⟩, fun m hm => le_length_takeWhile hm.1 ?_⟩
  · rw [← List.prefix_iff_eq_take.1 hrun, hcons]
    exact mem_oneOf_mul.2 ⟨c, _, rfl, h, mem_kstar_oneOf.2 fun d hd => List.mem_takeWhile_imp hd⟩
  · obtain ⟨d, more, htake, hd, hmore⟩ := mem_oneOf_mul.1 hm.2
    rw [htake]
    exact List.forall_mem_cons.2 ⟨isNameChar_of_isNameStart hd, mem_kstar_oneOf.1 hmore⟩

/-! ## Numbers -/

/-- A number: digits, perhaps with a point and digits after them, or a point and digits. -/
theorem mem_number {w : List Char} :
    w ∈ number.language ↔ ∃ whole : List Char, (∀ d ∈ whole, d.isDigit = true) ∧
      (w = whole ∧ whole ≠ [] ∨ ∃ places : List Char, (∀ d ∈ places, d.isDigit = true) ∧
        places ≠ [] ∧ w = whole ++ '.' :: places) := by
  have hpoint : ∀ {w : List Char}, w ∈ oneOf (· = '.') * run Char.isDigit ↔
      ∃ places : List Char, (∀ d ∈ places, d.isDigit = true) ∧ places ≠ [] ∧ w = '.' :: places := by
    intro w
    rw [mem_oneOf_mul]
    constructor
    · rintro ⟨c, places, rfl, hc, hplaces⟩
      obtain rfl := of_decide_eq_true hc
      exact ⟨places, (mem_run.1 hplaces).2, (mem_run.1 hplaces).1, rfl⟩
    · rintro ⟨places, hall, hne, rfl⟩
      exact ⟨'.', places, rfl, rfl, mem_run.2 ⟨hne, hall⟩⟩
  constructor
  · rintro (h | h)
    · obtain ⟨whole, hwhole, after, hafter, rfl⟩ := Language.mem_mul.1 h
      obtain ⟨hne, hall⟩ := mem_run.1 hwhole
      rcases hafter with hnil | hafter
      · obtain rfl := (Language.mem_one _).1 hnil
        exact ⟨whole, hall, .inl ⟨List.append_nil _, hne⟩⟩
      · obtain ⟨places, hplaces, hsome, rfl⟩ := hpoint.1 hafter
        exact ⟨whole, hall, .inr ⟨places, hplaces, hsome, rfl⟩⟩
    · obtain ⟨places, hplaces, hsome, rfl⟩ := hpoint.1 h
      exact ⟨[], by simp, .inr ⟨places, hplaces, hsome, rfl⟩⟩
  · rintro ⟨whole, hall, ⟨rfl, hne⟩ | ⟨places, hplaces, hsome, rfl⟩⟩
    · exact .inl (Language.mem_mul.2
        ⟨w, mem_run.2 ⟨hne, hall⟩, [], .inl Language.nil_mem_one, List.append_nil _⟩)
    · by_cases hne : whole = []
      · subst hne
        exact .inr (hpoint.2 ⟨places, hplaces, hsome, rfl⟩)
      · exact .inl (Language.mem_mul.2 ⟨whole, mem_run.2 ⟨hne, hall⟩, _,
          .inr (hpoint.2 ⟨places, hplaces, hsome, rfl⟩), rfl⟩)

/-- Digits end where the point is. -/
theorem takeWhile_isDigit_point {whole : List Char} (h : ∀ d ∈ whole, d.isDigit = true)
    (rest : List Char) : (whole ++ '.' :: rest).takeWhile Char.isDigit = whole := by
  rw [List.takeWhile_append_of_pos h]
  simp

theorem numberLength_point {whole : List Char} (h : ∀ d ∈ whole, d.isDigit = true)
    (rest : List Char) : numberLength (whole ++ '.' :: rest) =
      if (rest.takeWhile Char.isDigit).length = 0 then whole.length
      else whole.length + 1 + (rest.takeWhile Char.isDigit).length := by
  simp only [numberLength, takeWhile_isDigit_point h, List.drop_left]

theorem length_takeWhile_le_numberLength (cs : List Char) :
    (cs.takeWhile Char.isDigit).length ≤ numberLength cs := by
  simp only [numberLength]
  split
  · split <;> omega
  · exact Nat.le_refl _

theorem le_numberLength (h : number.Matches cs n) : n ≤ numberLength cs := by
  obtain ⟨hn, hmem⟩ := h
  obtain ⟨whole, hwhole, ⟨htake, -⟩ | ⟨places, hplaces, hsome, htake⟩⟩ := mem_number.1 hmem
  · exact (le_length_takeWhile hn (htake ▸ hwhole)).trans (length_takeWhile_le_numberLength cs)
  · have hrun : places.length ≤ ((places ++ cs.drop n).takeWhile Char.isDigit).length := by
      rw [List.takeWhile_append_of_pos hplaces, List.length_append]
      exact Nat.le_add_right ..
    have hpos := List.length_pos_iff.2 hsome
    have hlength := congrArg List.length htake
    rw [List.length_take_of_le hn, List.length_append, List.length_cons] at hlength
    rw [← List.take_append_drop n cs, htake, List.append_assoc, List.cons_append,
      numberLength_point hwhole, if_neg (by omega)]
    omega

/-- The number at the front is a run of digits, or such a run and digits behind a point. -/
theorem numberLength_cases (cs : List Char) :
    numberLength cs = (cs.takeWhile Char.isDigit).length ∨
      ∃ rest, cs = cs.takeWhile Char.isDigit ++ '.' :: rest ∧ rest.takeWhile Char.isDigit ≠ [] ∧
        numberLength cs =
          (cs.takeWhile Char.isDigit).length + 1 + (rest.takeWhile Char.isDigit).length := by
  simp only [numberLength]
  split
  · rename_i rest hrest
    have hcs : cs = cs.takeWhile Char.isDigit ++ '.' :: rest := by
      conv_lhs => rw [← List.take_append_drop (cs.takeWhile Char.isDigit).length cs, hrest,
        ← List.prefix_iff_eq_take.1 (List.takeWhile_prefix _)]
    split
    · exact .inl rfl
    · rename_i hplaces
      exact .inr ⟨rest, hcs, fun hnil => hplaces (congrArg List.length hnil), rfl⟩
  · exact .inl rfl

theorem matches_numberLength (h : numberLength cs ≠ 0) : number.Matches cs (numberLength cs) := by
  have hdigits : ∀ cs : List Char, ∀ d ∈ cs.takeWhile Char.isDigit, d.isDigit = true :=
    fun cs d hd => List.mem_takeWhile_imp hd
  refine ⟨numberLength_le cs, mem_number.2 ⟨cs.takeWhile Char.isDigit, hdigits cs, ?_⟩⟩
  rcases numberLength_cases cs with hlength | ⟨rest, hcs, hplaces, hlength⟩
  · rw [hlength] at h ⊢
    exact .inl ⟨(List.prefix_iff_eq_take.1 (List.takeWhile_prefix _)).symm,
      List.length_pos_iff.1 (Nat.pos_of_ne_zero h)⟩
  · refine .inr ⟨rest.takeWhile Char.isDigit, hdigits rest, hplaces, ?_⟩
    have hfront : cs.takeWhile Char.isDigit ++ '.' :: rest.takeWhile Char.isDigit <+: cs := by
      conv_rhs => rw [hcs]
      exact (List.prefix_append_right_inj _).2
        ((List.prefix_cons_inj _).2 (List.takeWhile_prefix _))
    rw [List.prefix_iff_eq_take.1 hfront, hlength, List.length_append, List.length_cons]
    congr 1
    omega

theorem isLongest_number (h : numberLength cs ≠ 0) : number.IsLongest cs (numberLength cs) :=
  ⟨matches_numberLength h, fun _ => le_numberLength⟩

theorem not_applies_number (h : numberLength cs = 0) : ¬number.Applies cs := by
  rintro ⟨n, hn⟩
  have hpos := hn.pos
  have hle := le_numberLength hn
  omega

/-! ## Strings -/

section Strings

variable {quote : Char} (hquote : quote ≠ '\\')

theorem mem_unit {u : List Char} :
    u ∈ unit quote ↔ (∃ c, c ≠ quote ∧ c ≠ '\\' ∧ u = [c]) ∨ ∃ c, u = ['\\', c] := by
  rw [unit, Language.mem_add, mem_oneOf, mem_oneOf_mul]
  refine or_congr (exists_congr fun c => ?_) ⟨?_, ?_⟩
  · rw [decide_eq_true_eq, and_assoc]
  · rintro ⟨c, rest, rfl, hc, d, -, rfl⟩
    exact ⟨d, by rw [of_decide_eq_true hc]⟩
  · rintro ⟨c, rfl⟩
    exact ⟨'\\', [c], rfl, rfl, c, rfl, rfl⟩

include hquote in
/-- A string is closed by the first of its quotes that no backslash stands before. -/
theorem closing?_eq_some_iff {n : Nat} :
    closing? quote cs = some n ↔ ∃ (units : List (List Char)) (rest : List Char),
      (∀ u ∈ units, u ∈ unit quote) ∧ cs = units.flatten ++ quote :: rest ∧
        n = units.flatten.length + 1 := by
  constructor
  · intro h
    fun_induction closing? quote cs generalizing n with
    | case1 => cases h
    | case2 c rest ih =>
      obtain ⟨m, hm, rfl⟩ := Option.map_eq_some_iff.1 h
      obtain ⟨units, rest', hunits, rfl, rfl⟩ := ih hm
      exact ⟨['\\', c] :: units, rest', List.forall_mem_cons.2 ⟨mem_unit.2 (.inr ⟨c, rfl⟩), hunits⟩,
        rfl, rfl⟩
    | case3 rest =>
      cases h
      exact ⟨[], rest, by simp, rfl, rfl⟩
    | case4 => cases h
    | case5 c rest _ hc hescape ih =>
      obtain ⟨m, hm, rfl⟩ := Option.map_eq_some_iff.1 h
      obtain ⟨units, rest', hunits, rfl, rfl⟩ := ih hm
      exact ⟨[c] :: units, rest',
        List.forall_mem_cons.2 ⟨mem_unit.2 (.inl ⟨c, hc, hescape, rfl⟩), hunits⟩, rfl, rfl⟩
  · rintro ⟨units, rest, hall, rfl, rfl⟩
    induction units with
    | nil =>
      rw [List.flatten_nil, List.nil_append, closing?.eq_3 _ _ _ fun _ _ heq => absurd heq hquote,
        if_pos rfl]
      rfl
    | cons u units ih =>
      obtain ⟨hu, hunits⟩ := List.forall_mem_cons.1 hall
      rcases mem_unit.1 hu with ⟨c, hc, hescape, rfl⟩ | ⟨c, rfl⟩
      · rw [List.flatten_cons, List.append_assoc, List.singleton_append,
          closing?.eq_3 _ _ _ fun _ _ heq => absurd heq hescape, if_neg hc, if_neg hescape,
          ih hunits]
        rfl
      · rw [List.flatten_cons, List.append_assoc, List.cons_append, List.singleton_append, closing?,
          ih hunits]
        rfl

/-- A string stands for what its units stand for. -/
theorem unescape_flatten {units : List (List Char)} (h : ∀ u ∈ units, u ∈ unit quote) :
    unescape units.flatten = units.flatMap unitValue := by
  induction units with
  | nil => rfl
  | cons u units ih =>
    obtain ⟨hu, hunits⟩ := List.forall_mem_cons.1 h
    rw [List.flatten_cons, List.flatMap_cons, ← ih hunits]
    rcases mem_unit.1 hu with ⟨c, -, hescape, rfl⟩ | ⟨c, rfl⟩
    · rw [List.singleton_append, unescape.eq_3 _ _ fun _ _ heq => absurd heq hescape]
      simp [unitValue]
    · rw [List.cons_append, List.singleton_append, unescape, unitValue]
      cases escapeValue? c <;> rfl

theorem take_closed (quote : Char) (body after : List Char) :
    (quote :: (body ++ quote :: after)).take (body.length + 1 + 1) = quote :: (body ++ [quote]) := by
  rw [List.append_cons, List.take_succ_cons, List.take_left' (by simp)]

include hquote in
theorem matches_string {m : Nat} :
    (string quote).Matches (quote :: rest) m ↔ ∃ n, closing? quote rest = some n ∧ m = n + 1 := by
  constructor
  · rintro ⟨hm, hmem⟩
    obtain ⟨c, more, htake, -, hmore⟩ := mem_oneOf_mul.1 hmem
    obtain ⟨body, hbody, _, ⟨d, hd, rfl⟩, rfl⟩ := Language.mem_mul.1 hmore
    obtain ⟨units, rfl, hunits⟩ := Language.mem_kstar.1 hbody
    obtain rfl := of_decide_eq_true hd
    rcases m with _ | m
    · cases htake
    rw [List.take_succ_cons] at htake
    obtain ⟨-, htake⟩ := List.cons.inj htake
    have hlength := congrArg List.length htake
    rw [List.length_take_of_le (Nat.le_of_succ_le_succ hm), List.length_append] at hlength
    refine ⟨m, (closing?_eq_some_iff hquote).2 ⟨units, rest.drop m, hunits, ?_, hlength⟩, rfl⟩
    rw [← List.singleton_append, ← List.append_assoc, ← htake, List.take_append_drop]
  · rintro ⟨n, hn, rfl⟩
    obtain ⟨units, after, hunits, rfl, rfl⟩ := (closing?_eq_some_iff hquote).1 hn
    refine ⟨by simp, mem_oneOf_mul.2 ⟨quote, units.flatten ++ [quote], ?_, by simp, ?_⟩⟩
    · exact take_closed quote _ after
    · exact Language.mem_mul.2 ⟨_, Language.mem_kstar.2 ⟨units, rfl, hunits⟩, _,
        ⟨quote, by simp, rfl⟩, rfl⟩

include hquote in
theorem isLongest_string {l : Lexeme} (h : string? quote rest = some (l, n)) :
    (string quote).IsLongest (quote :: rest) n ∧
      (string quote).Says ((quote :: rest).take n) l := by
  simp only [string?, Option.bind_eq_bind, Option.bind_eq_some_iff, Option.pure_def,
    Option.some.injEq, Prod.mk.injEq] at h
  obtain ⟨m, hm, rfl, rfl⟩ := h
  refine ⟨⟨(matches_string hquote).2 ⟨m, hm, rfl⟩, fun k hk => ?_⟩, ?_⟩
  · obtain ⟨_, hm', rfl⟩ := (matches_string hquote).1 hk
    rw [hm] at hm'
    exact (congrArg (· + 1) (Option.some.inj hm')).ge
  · obtain ⟨units, after, hunits, rfl, rfl⟩ := (closing?_eq_some_iff hquote).1 hm
    refine ⟨units, hunits, take_closed quote _ after, rfl, ?_⟩
    rw [text, String.toList_ofList, Nat.add_sub_cancel, List.take_left, unescape_flatten hunits]

include hquote in
theorem not_applies_string (h : string? quote rest = none) :
    ¬(string quote).Applies (quote :: rest) := by
  rintro ⟨n, hn⟩
  obtain ⟨m, hm, -⟩ := (matches_string hquote).1 hn
  rw [string?, hm] at h
  cases h

end Strings

/-! ## Reading -/

/-- What the table answers at the front of a text: the longest match of the first pattern that
applies, or nothing. -/
def Answers (cs : List Char) : Option (Lexeme × Nat) → Prop
  | some (l, n) => ∃ p : Pattern, p.IsFirst cs ∧ p.IsLongest cs n ∧ p.Says (cs.take n) l
  | none => ∀ p ∈ table, ¬p.Applies cs

theorem not_applies_of_starts {p : Pattern} (h : p.starts c = false) : ¬p.Applies (c :: rest) := by
  intro happlies
  rw [happlies.starts] at h
  cases h

theorem answers_some {p : Pattern} {l : Lexeme} (before : List Pattern) {after : List Pattern}
    (htable : table = before ++ p :: after) (hlongest : p.IsLongest cs n)
    (htold : p.Says (cs.take n) l) (hbefore : ∀ q ∈ before, ¬q.Applies cs) :
    Answers cs (some (l, n)) :=
  ⟨p, ⟨⟨n, hlongest.1⟩, before, after, htable, hbefore⟩, hlongest, htold⟩

/-- A lexeme of one character. -/
theorem answers_single (p : Pattern) {words : List (List Char)} {l : Lexeme}
    {before after : List Pattern} (htable : table = before ++ p :: after)
    (hp : p.language = anyOf words) (hw : [c] ∈ words) (hlength : ∀ v ∈ words, v.length = 1)
    (htold : p.Says [c] l) (hbefore : ∀ q ∈ before, ¬q.Applies (c :: rest)) :
    Answers (c :: rest) (some (l, 1)) :=
  answers_some before htable (isLongest_anyOf (w := [c]) hp hw hlength ⟨rest, rfl⟩) htold hbefore

theorem answers_string (h : c = '"' ∨ c = '\'') :
    Answers (c :: rest) (string? c rest) := by
  have hescape : c ≠ '\\' := by
    rcases h with rfl | rfl <;> decide
  have hsigns : ∀ q ∈ [blanks, .bracket, .comma, .sign, .angle, .bang], ¬q.Applies (c :: rest) := by
    intro q hq
    refine not_applies_of_starts ?_
    revert q
    rcases h with rfl | rfl <;> decide
  cases hread : string? c rest with
  | none =>
    have hstring := not_applies_string hescape hread
    have hothers : ∀ q ∈ table, q.starts c = true → q = .string c := by
      rcases h with rfl | rfl <;> simp [table, starts] <;> decide
    intro p hp happlies
    rw [hothers p hp happlies.starts] at happlies
    exact hstring happlies
  | some answer =>
    obtain ⟨hlongest, htold⟩ := isLongest_string hescape hread
    rcases h with rfl | rfl
    · exact answers_some _ rfl hlongest htold hsigns
    · refine answers_some ([.blanks, .bracket, .comma, .sign, .angle, .bang] ++ [.string '"']) rfl
        hlongest htold (List.forall_mem_append.2 ⟨hsigns, ?_⟩)
      simpa using not_applies_of_starts (p := string '"') rfl

/-- In a sign, its own second character stands behind the first. -/
theorem applies_sign {d : Char} {double single : Option (Lexeme × Nat)}
    (hsign : (c, d, double, single) ∈ signs) (h : sign.Applies (c :: rest)) :
    rest.head? = some d := by
  obtain ⟨n, hn⟩ := h
  obtain ⟨w, hw, ⟨t, ht⟩, -⟩ := matches_anyOf.1 hn
  simp only [List.mem_cons, List.not_mem_nil, or_false] at hw
  rcases hw with rfl | rfl | rfl | rfl | rfl | rfl <;> cases ht <;> simp [signs] at hsign <;>
    simp [hsign]

theorem answers_sign {d : Char} {double single : Option (Lexeme × Nat)}
    (hsign : (c, d, double, single) ∈ signs) : Answers (c :: rest) (lexeme? (c :: rest)) := by
  have hbefore : ∀ q ∈ [blanks, .bracket, .comma], ¬q.Applies (c :: rest) := by
    intro q hq
    refine not_applies_of_starts ?_
    revert q
    simp only [signs, List.mem_cons, Prod.mk.injEq, List.not_mem_nil, or_false] at hsign
    rcases hsign with h | h | h | h | h | h <;> obtain ⟨rfl, -⟩ := h <;> decide
  rw [lexeme?_of_mem_signs hsign]
  split
  · rename_i hd
    obtain ⟨tail, rfl⟩ := List.head?_eq_some_iff.1 hd
    obtain ⟨l, rfl, htold, hw⟩ : ∃ l, double = some (l, 2) ∧ sign.Says [c, d] l ∧
        [c, d] ∈ sign.language := by
      simp only [signs, List.mem_cons, Prod.mk.injEq, List.not_mem_nil, or_false] at hsign
      rcases hsign with h | h | h | h | h | h <;> obtain ⟨rfl, rfl, rfl, -⟩ := h <;>
        exact ⟨_, rfl, ⟨rfl, rfl⟩, mem_anyOf.2 (by decide)⟩
    exact answers_some _ rfl (isLongest_anyOf rfl hw (by simp) ⟨tail, rfl⟩) htold hbefore
  · rename_i hd
    have hpair : ¬sign.Applies (c :: rest) := mt (applies_sign hsign) hd
    -- a character that starts no other pattern starts nothing by itself
    have hnone : (∀ p ∈ table, p.starts c = true → p = sign) → Answers (c :: rest) none := by
      intro honly p hp happlies
      rw [honly p hp happlies.starts] at happlies
      exact hpair happlies
    have hbefore' : ∀ q ∈ [blanks, .bracket, .comma] ++ [.sign], ¬q.Applies (c :: rest) :=
      List.forall_mem_append.2 ⟨hbefore, by simpa using hpair⟩
    simp only [signs, List.mem_cons, Prod.mk.injEq, List.not_mem_nil, or_false] at hsign
    rcases hsign with h | h | h | h | h | h <;> obtain ⟨rfl, rfl, rfl, rfl⟩ := h
    · exact hnone (by simp [table, starts]; decide)
    · exact hnone (by simp [table, starts]; decide)
    · exact hnone (by simp [table, starts]; decide)
    · have hangle : ∀ q ∈ [angle], ¬q.Applies ('!' :: rest) := by
        simpa using not_applies_of_starts (p := angle) rfl
      exact answers_single .bang rfl rfl (by decide) (by decide) ⟨rfl, rfl⟩
        (List.forall_mem_append.2 ⟨hbefore', hangle⟩)
    · exact answers_single .angle rfl rfl (by decide) (by decide) ⟨rfl, rfl⟩ hbefore'
    · exact answers_single .angle rfl rfl (by decide) (by decide) ⟨rfl, rfl⟩ hbefore'

theorem says_ofName (w : List Char) : word.Says w (ofName w) := by
  unfold ofName
  split_ifs with htrue hfalse
  · subst htrue
    exact ⟨rfl, rfl⟩
  · subst hfalse
    exact ⟨rfl, rfl⟩
  · refine ⟨?_, String.toList_ofList⟩
    rw [if_neg]
    · rfl
    · simpa using ⟨htrue, hfalse⟩

theorem starts_number_of_isNameStart (h : isNameStart c = true) : number.starts c = false := by
  rw [← Bool.not_eq_true]
  intro hstarts
  simp only [starts, Bool.or_eq_true, decide_eq_true_eq] at hstarts
  rcases hstarts with hdigit | rfl
  · rw [isNameStart_of_isDigit hdigit] at h
    cases h
  · exact absurd h (by decide)

/-- **Reading answers as the table does.** -/
theorem answers_lexeme? (rest : List Char) (hblank : Text.isBlank c = false) :
    Answers (c :: rest) (lexeme? (c :: rest)) := by
  by_cases hquote : c = '"' ∨ c = '\''
  · have hread : lexeme? (c :: rest) = string? c rest := by
      rcases hquote with rfl | rfl <;> rfl
    rw [hread]
    exact answers_string hquote
  by_cases hsign : c ∈ signs.map Prod.fst
  · obtain ⟨⟨c, d, double, single⟩, hmem, rfl⟩ := List.mem_map.1 hsign
    exact answers_sign hmem
  by_cases hbracket : c = '(' ∨ c = ')' ∨ c = ','
  · have hblanks : ∀ q ∈ [blanks], ¬q.Applies (c :: rest) := by
      simpa using not_applies_of_starts (p := blanks) hblank
    have hbracket' : c = ',' → ∀ q ∈ [blanks] ++ [bracket], ¬q.Applies (c :: rest) := by
      rintro rfl
      exact List.forall_mem_append.2
        ⟨hblanks, by simpa using not_applies_of_starts (p := bracket) rfl⟩
    rcases hbracket with rfl | rfl | rfl
    · exact answers_single .bracket rfl rfl (by decide) (by decide) ⟨rfl, rfl⟩ hblanks
    · exact answers_single .bracket rfl rfl (by decide) (by decide) ⟨rfl, rfl⟩ hblanks
    · exact answers_single .comma rfl rfl (by decide) (by decide) ⟨rfl, rfl⟩ (hbracket' rfl)
  have hbefore : ∀ q ∈ [blanks, .bracket, .comma, .sign, .angle, .bang, .string '"', .string '\''],
      ¬q.Applies (c :: rest) := by
    intro q hq
    refine not_applies_of_starts ?_
    revert q
    simp only [signs, List.map_cons, List.map_nil, List.mem_cons, List.not_mem_nil, or_false,
      not_or] at hsign hbracket hquote
    simp [starts, hblank, hsign, hbracket, hquote]
  have hsymbol : c ∉ ['(', ')', ',', '"', '\'', '&', '|', '=', '!', '>', '<'] := by
    simp only [signs, List.map_cons, List.map_nil, List.mem_cons, List.not_mem_nil, or_false,
      not_or] at hsign hbracket hquote ⊢
    simp [hsign, hbracket, hquote]
  rw [lexeme?_of_not_symbol hsymbol]
  split
  · rename_i hstart
    refine answers_some ([.blanks, .bracket, .comma, .sign, .angle, .bang, .string '"',
      .string '\''] ++ [.number]) rfl (isLongest_word hstart) ?_
      (List.forall_mem_append.2 ⟨hbefore, ?_⟩)
    · rw [← List.prefix_iff_eq_take.1 (List.takeWhile_prefix _)]
      exact says_ofName _
    · simpa using not_applies_of_starts (p := number) (starts_number_of_isNameStart hstart)
  · rename_i hstart
    split
    · rename_i hzero
      have hrest : ∀ q ∈ [number, word], ¬q.Applies (c :: rest) := by
        have hword : ¬word.Applies (c :: rest) :=
          not_applies_of_starts (Bool.not_eq_true _ ▸ hstart)
        simpa using ⟨not_applies_number hzero, hword⟩
      exact List.forall_mem_append.2 ⟨hbefore, hrest⟩
    · rename_i hlength
      exact answers_some _ rfl (isLongest_number hlength) ⟨rfl, String.toList_ofList⟩ hbefore

/-! ## Cutting a text off -/

theorem matches_take {p : Pattern} {m k : Nat} :
    p.Matches (cs.take k) m ↔ p.Matches cs m ∧ m ≤ k := by
  rw [Matches, Matches, List.length_take]
  constructor
  · rintro ⟨hm, hmem⟩
    rw [List.take_take, Nat.min_eq_left (by omega)] at hmem
    exact ⟨⟨by omega, hmem⟩, by omega⟩
  · rintro ⟨⟨hm, hmem⟩, hk⟩
    rw [List.take_take, Nat.min_eq_left hk]
    exact ⟨by omega, hmem⟩

theorem Applies.of_take {p : Pattern} {k : Nat} (h : p.Applies (cs.take k)) : p.Applies cs :=
  h.imp fun _ hm => (matches_take.1 hm).1

/-- A pattern says one thing of a text of it. -/
theorem Says.unique {p : Pattern} {w : List Char} {l l' : Lexeme} (h : p.Says w l)
    (h' : p.Says w l') : l = l' := by
  have hspelled : ∀ {kind : String} {v : List Char}, Spelled kind v l → Spelled kind v l' →
      l = l' := fun h h' => Lexeme.eq_of_kind_of_text (h.1.trans h'.1.symm)
    (String.toList_inj.1 (h.2.trans h'.2.symm))
  cases p with
  | blanks => exact h.elim
  | string quote =>
    obtain ⟨units, hunits, rfl, hl⟩ := h
    obtain ⟨units', hunits', heq, hl'⟩ := h'
    have hbody : units.flatten = units'.flatten := List.append_cancel_right (List.cons.inj heq).2
    rw [← unescape_flatten hunits, hbody, unescape_flatten hunits'] at hl
    exact hspelled hl hl'
  | _ => exact hspelled h h'

/-- **A lexeme stays the same when the text is cut off behind it.** -/
theorem lexeme?_take {l : Lexeme} {k : Nat} (hblank : Text.isBlank c = false)
    (h : lexeme? (c :: rest) = some (l, n)) (hk : n ≤ k) :
    lexeme? ((c :: rest).take k) = some (l, n) := by
  have hanswers := answers_lexeme? rest hblank
  rw [h] at hanswers
  obtain ⟨p, hfirst, hlongest, htold⟩ := hanswers
  obtain ⟨-, before, after, htable, hbefore⟩ := hfirst
  -- the same pattern is first, with the same match
  have hmatches : p.Matches ((c :: rest).take k) n := matches_take.2 ⟨hlongest.1, hk⟩
  have hfirst' : p.IsFirst ((c :: rest).take k) :=
    ⟨⟨n, hmatches⟩, before, after, htable, fun q hq happlies => hbefore q hq happlies.of_take⟩
  have hlongest' : p.IsLongest ((c :: rest).take k) n :=
    ⟨hmatches, fun m hm => hlongest.2 m (matches_take.1 hm).1⟩
  obtain ⟨k, rfl⟩ := Nat.exists_eq_succ_of_ne_zero (hlongest.1.pos.trans_le hk).ne'
  rw [List.take_succ_cons] at hfirst' hlongest' ⊢
  have hread := answers_lexeme? (rest.take k) hblank
  rcases hcut : lexeme? (c :: rest.take k) with _ | ⟨l', n'⟩
  · rw [hcut] at hread
    exact absurd hfirst'.1 (hread p (htable ▸ by simp))
  · rw [hcut] at hread
    obtain ⟨q, hq, hqlongest, hqsays⟩ := hread
    obtain rfl := hfirst'.unique hq
    obtain rfl := hlongest'.unique hqlongest
    rw [← List.take_succ_cons, List.take_take, Nat.min_eq_left hk] at hqsays
    rw [htold.unique hqsays]

end Pattern

end Criteria
