import Criteria.Expr.Text
import Criteria.Proofs.Number.Numeral
import Criteria.Token.Lexer

/-!
# Texts and the lexemes they are read as

`Lexes cs rest lexemes` says that the characters `cs`, where `rest` follows them, are read as the
given lexemes, wherever they stand. Pieces of a text are read one after another (`Lexes.append`), a
blank is read as nothing (`Lexes.blank`), and what `lexeme?` takes whole is read as that lexeme
(`Lexes.of_lexeme?`). Names, numerals and written strings are each taken whole, when what follows
does not continue them (`Ends`).
-/

namespace Criteria

open Lexeme

/-! ## What a lexeme is known by -/

/-- An operator is known by its symbol. -/
theorem BinaryOp.symbol_injective : Function.Injective symbol := by
  rintro (⟨⟨⟩⟩ | ⟨⟨⟩⟩) (⟨⟨⟩⟩ | ⟨⟨⟩⟩) h <;> first | rfl | exact absurd h (by decide)

/-- A lexeme is known by its kind and its text. -/
theorem Lexeme.eq_of_kind_of_text {a b : Lexeme} (hkind : a.kind = b.kind)
    (htext : a.text = b.text) : a = b := by
  cases a <;> cases b
  case bool.bool a b => cases a <;> cases b <;> first | rfl | exact absurd htext (by decide)
  case operator.operator a b => rw [BinaryOp.symbol_injective htext]
  all_goals simp_all [kind, text]

/-! ## Reading a text piece by piece -/

/-- The characters are read as these lexemes, where `rest` follows them. -/
def Lexes (cs rest : List Char) (lexemes : List Lexeme) : Prop :=
  ∀ offset, ∃ tokens : List Token, tokens.map (·.lexeme) = lexemes ∧
    scan 0 offset (cs ++ rest) =
      (tokens ++ (scan 0 (offset + cs.length) rest).1, (scan 0 (offset + cs.length) rest).2)

/-- The characters inside a token are skipped. -/
theorem scan_inside (cs rest : List Char) (offset : Nat) :
    scan cs.length offset (cs ++ rest) = scan 0 (offset + cs.length) rest := by
  induction cs generalizing offset with
  | nil => rfl
  | cons c cs ih =>
    rw [List.cons_append, scan, if_pos (by simp), List.length_cons, Nat.add_sub_cancel, ih]
    congr 1
    omega

namespace Lexes

variable {cs ds rest : List Char} {ls ms : List Lexeme}

theorem nil (rest : List Char) : Lexes [] rest [] := fun _ => ⟨[], rfl, rfl⟩

/-- Pieces of a text are read one after another. -/
theorem append (h : Lexes cs (ds ++ rest) ls) (h' : Lexes ds rest ms) :
    Lexes (cs ++ ds) rest (ls ++ ms) := by
  intro offset
  obtain ⟨ts, rfl, hscan⟩ := h offset
  obtain ⟨us, rfl, hscan'⟩ := h' (offset + cs.length)
  refine ⟨ts ++ us, List.map_append, ?_⟩
  rw [List.append_assoc, hscan, hscan', List.length_append, Nat.add_assoc, List.append_assoc]

theorem blank {c : Char} (h : Text.isBlank c = true) (rest : List Char) : Lexes [c] rest [] := by
  intro offset
  refine ⟨[], rfl, ?_⟩
  rw [List.singleton_append, scan, if_neg (by simp), if_pos h]
  rfl

/-- What `lexeme?` takes whole is read as that lexeme. -/
theorem of_lexeme? {c : Char} {l : Lexeme} (hblank : Text.isBlank c = false)
    (h : lexeme? (c :: cs ++ rest) = some (l, cs.length + 1)) : Lexes (c :: cs) rest [l] := by
  intro offset
  refine ⟨[⟨l, offset, offset + (cs.length + 1)⟩], rfl, ?_⟩
  rw [List.cons_append] at h ⊢
  rw [scan, if_neg (by simp), if_neg (by simp [hblank]), h]
  simp only [Nat.add_sub_cancel, scan_inside, List.length_cons, List.singleton_append,
    Nat.add_assoc, Nat.add_comm 1]

theorem cons {l : Lexeme} (h : Lexes cs (ds ++ rest) [l]) (h' : Lexes ds rest ms) :
    Lexes (cs ++ ds) rest (l :: ms) := h.append h'

theorem skip (h : Lexes ds rest ms) : Lexes (' ' :: ds) rest ms :=
  (blank (by decide) (ds ++ rest)).append h

/-- A character that is a lexeme by itself is read as that lexeme. -/
theorem symbol {c : Char} {l : Lexeme} (h : Lexes ds rest ms) (hblank : Text.isBlank c = false)
    (hsymbol : ∀ more, lexeme? (c :: more) = some (l, 1)) :
    Lexes (c :: ds) rest (l :: ms) := by
  have hc : Lexes [c] (ds ++ rest) [l] := of_lexeme? hblank (hsymbol (ds ++ rest))
  exact hc.cons h

theorem opening (h : Lexes ds rest ms) : Lexes ('(' :: ds) rest (.opening :: ms) :=
  h.symbol (by decide) fun _ => rfl

theorem closing (h : Lexes ds rest ms) : Lexes (')' :: ds) rest (.closing :: ms) :=
  h.symbol (by decide) fun _ => rfl

theorem comma (h : Lexes ds rest ms) : Lexes (',' :: ds) rest (.comma :: ms) :=
  h.symbol (by decide) fun _ => rfl

/-- A text that is read as lexemes to its end is tokenized. -/
theorem tokenizeList (h : Lexes cs [] ls) :
    ∃ tokens, tokenizeList cs = .ok tokens ∧ tokens.map (·.lexeme) = ls := by
  obtain ⟨ts, rfl, hscan⟩ := h 0
  rw [List.append_nil] at hscan
  refine ⟨ts, ?_, rfl⟩
  rw [Criteria.tokenizeList, hscan]
  simp [scan]

end Lexes

/-! ## Names and numerals -/

/-- A name or numeral before this text ends here. -/
def Ends (rest : List Char) : Prop := ∀ c ∈ rest.head?, isNameChar c = false

theorem Ends.nil : Ends [] := by
  intro c hc
  cases hc

theorem Ends.cons {c : Char} (h : isNameChar c = false) (rest : List Char) : Ends (c :: rest) := by
  intro d hd
  obtain rfl := Option.some.inj hd
  exact h

theorem isDigit_iff {c : Char} : c.isDigit = true ↔ 48 ≤ c.toNat ∧ c.toNat ≤ 57 := by
  change (decide (48 ≤ c.val) && decide (c.val ≤ 57)) = true ↔ _
  rw [Bool.and_eq_true, decide_eq_true_eq, decide_eq_true_eq, UInt32.le_iff_toNat_le,
    UInt32.le_iff_toNat_le]
  rfl

theorem isAlpha_iff {c : Char} :
    c.isAlpha = true ↔ 65 ≤ c.toNat ∧ c.toNat ≤ 90 ∨ 97 ≤ c.toNat ∧ c.toNat ≤ 122 := by
  change (decide (65 ≤ c.val ∧ c.val ≤ 90) ||
    decide (97 ≤ c.val) && decide (c.val ≤ 122)) = true ↔ _
  simp only [Bool.or_eq_true, Bool.and_eq_true, decide_eq_true_eq, UInt32.le_iff_toNat_le]
  rfl

theorem range_of_isNameChar {c : Char} (h : isNameChar c = true) :
    c.toNat = 46 ∨ 48 ≤ c.toNat ∧ c.toNat ≤ 57 ∨ 65 ≤ c.toNat ∧ c.toNat ≤ 122 := by
  simp only [isNameChar, Char.isAlphanum, Bool.or_eq_true, decide_eq_true_eq, isAlpha_iff,
    isDigit_iff] at h
  rcases h with (h | rfl) | rfl
  · omega
  · decide
  · decide

theorem isBlank_of_isNameChar {c : Char} (h : isNameChar c = true) : Text.isBlank c = false := by
  have hrange := range_of_isNameChar h
  simp only [Text.isBlank]
  generalize c.toNat = n at *
  simp only [Bool.or_eq_false_iff, Bool.and_eq_false_imp, decide_eq_true_eq,
    decide_eq_false_iff_not, beq_eq_false_iff_ne]
  omega

theorem isNameChar_of_isDigit {c : Char} (h : c.isDigit = true) : isNameChar c = true := by
  simp [isNameChar, Char.isAlphanum, h]

theorem isNameChar_of_isNameStart {c : Char} (h : isNameStart c = true) : isNameChar c = true := by
  simp only [isNameStart, Bool.or_eq_true, decide_eq_true_eq] at h
  rcases h with h | rfl
  · simp [isNameChar, Char.isAlphanum, h]
  · decide

theorem isNameStart_of_isDigit {c : Char} (h : c.isDigit = true) : isNameStart c = false := by
  rw [isDigit_iff] at h
  rw [← Bool.not_eq_true]
  intro hstart
  rw [isNameStart, Bool.or_eq_true, isAlpha_iff, decide_eq_true_eq] at hstart
  rcases hstart with hstart | rfl
  · omega
  · revert h
    decide

/-- What ends a name or a numeral ends a run of its characters. -/
theorem takeWhile_append_ends {p : Char → Bool} (hp : ∀ c, p c = true → isNameChar c = true)
    {rest : List Char} (hrest : Ends rest) (cs : List Char) :
    (cs ++ rest).takeWhile p = cs.takeWhile p := by
  induction cs with
  | nil =>
    cases rest with
    | nil => rfl
    | cons c rest =>
      have hc : ¬p c = true := fun hpc => by
        have hname := hp c hpc
        rw [hrest c rfl] at hname
        cases hname
      exact List.takeWhile_cons_of_neg hc
  | cons c cs ih => simp only [List.cons_append, List.takeWhile_cons, ih]

/-- What starts with no sign, bracket, comma or quote is a name or a number. -/
theorem lexeme?_of_not_symbol {c : Char}
    (h : c ∉ ['(', ')', ',', '"', '\'', '&', '|', '=', '!', '>', '<']) (cs : List Char) :
    lexeme? (c :: cs) =
      if isNameStart c then
        some (ofName ((c :: cs).takeWhile isNameChar), ((c :: cs).takeWhile isNameChar).length)
      else if numberLength (c :: cs) = 0 then none
      else some (.number (String.ofList ((c :: cs).take (numberLength (c :: cs)))),
        numberLength (c :: cs)) := by
  unfold lexeme?
  split
  case h_15 heq =>
    obtain ⟨rfl, rfl⟩ := List.cons.inj heq
    rfl
  case h_16 heq => cases heq
  all_goals
    rename_i heq
    obtain ⟨rfl, -⟩ := List.cons.inj heq
    exact absurd h (by decide)

theorem not_symbol_of_isNameChar {c : Char} (h : isNameChar c = true) :
    c ∉ ['(', ')', ',', '"', '\'', '&', '|', '=', '!', '>', '<'] := by
  have hsymbols : ['(', ')', ',', '"', '\'', '&', '|', '=', '!', '>', '<'].all
      (fun d => !isNameChar d) = true := by decide
  intro hc
  have hsymbol := List.all_eq_true.1 hsymbols c hc
  rw [h] at hsymbol
  cases hsymbol

/-- A word is taken whole. -/
theorem lexeme?_word {first : Char} {more rest : List Char} (hfirst : isNameStart first = true)
    (hmore : ∀ c ∈ more, isNameChar c = true) (hrest : Ends rest) :
    lexeme? (first :: more ++ rest) = some (ofName (first :: more), more.length + 1) := by
  have hchars : ∀ c ∈ first :: more, isNameChar c = true :=
    List.forall_mem_cons.2 ⟨isNameChar_of_isNameStart hfirst, hmore⟩
  have htake := takeWhile_append_ends (fun _ hc => hc) hrest (first :: more)
  rw [List.takeWhile_eq_self_iff.2 hchars] at htake
  rw [List.cons_append] at htake ⊢
  rw [lexeme?_of_not_symbol (not_symbol_of_isNameChar (isNameChar_of_isNameStart hfirst)),
    if_pos hfirst, htake]
  rfl

/-- A word is read as one lexeme. -/
theorem lexes_word {name : String} (h : IsWord name) {rest : List Char} (hrest : Ends rest) :
    Lexes name.toList rest [ofName name.toList] := by
  obtain ⟨first, more, hname, hfirst, hmore⟩ := h
  rw [hname]
  exact Lexes.of_lexeme? (isBlank_of_isNameChar (isNameChar_of_isNameStart hfirst))
    (lexeme?_word hfirst hmore hrest)

theorem ofName_of_isName {name : String} (h : IsName name) :
    ofName name.toList = .identifier name := by
  obtain ⟨-, htrue, hfalse⟩ := h
  have hne : ∀ cs : List Char, name ≠ String.ofList cs → name.toList ≠ cs := by
    rintro cs hne rfl
    exact hne String.ofList_toList.symm
  rw [ofName, if_neg (hne _ htrue), if_neg (hne _ hfalse), String.ofList_toList]

/-- A name is read as an identifier. -/
theorem lexes_name {name : String} (h : IsName name) {rest : List Char} (hrest : Ends rest) :
    Lexes name.toList rest [.identifier name] := by
  rw [← ofName_of_isName h]
  exact lexes_word h.1 hrest

theorem numberLength_append_ends {rest : List Char} (hrest : Ends rest) (cs : List Char) :
    numberLength (cs ++ rest) = numberLength cs := by
  have hdigits := takeWhile_append_ends (fun _ => isNameChar_of_isDigit) hrest
  simp only [numberLength, hdigits]
  rw [List.drop_append_of_le_length (List.takeWhile_sublist _).length_le]
  generalize cs.drop (cs.takeWhile Char.isDigit).length = after
  cases after with
  | nil =>
    cases rest with
    | nil => rfl
    | cons c rest =>
      have hc : c ≠ '.' := by
        rintro rfl
        exact absurd (hrest '.' rfl) (by decide)
      simp [hc]
  | cons c after =>
    by_cases hc : c = '.'
    · subst hc
      simp only [List.cons_append, hdigits]
    · simp [hc]

/-- A numeral is a number from end to end. -/
theorem numberLength_eq_length {cs : List Char} (h : IsNumeral cs) :
    numberLength cs = cs.length := by
  cases h with
  | whole hne hdigit =>
    rw [numberLength, List.takeWhile_eq_self_iff.2 hdigit, List.drop_length]
  | @point whole fraction hwhole hfraction hdigit =>
    have hw : ∀ c ∈ whole, c.isDigit = true := fun c hc => hdigit c (List.mem_append_left _ hc)
    have hf : ∀ c ∈ fraction, c.isDigit = true := fun c hc => hdigit c (List.mem_append_right _ hc)
    have hrun : (whole ++ '.' :: fraction).takeWhile Char.isDigit = whole := by
      rw [List.takeWhile_append_of_pos hw]
      simp
    simp only [numberLength, hrun, List.drop_left, List.takeWhile_eq_self_iff.2 hf,
      List.length_eq_zero_iff, hfraction, if_false, List.length_append, List.length_cons]
    omega

theorem IsNumeral.exists_digit {cs : List Char} (h : IsNumeral cs) :
    ∃ c more, cs = c :: more ∧ c.isDigit = true := by
  cases h with
  | whole hne hdigit =>
    obtain ⟨c, more, rfl⟩ := List.exists_cons_of_ne_nil hne
    exact ⟨c, more, rfl, hdigit c (by simp)⟩
  | point hwhole _ hdigit =>
    obtain ⟨c, more, rfl⟩ := List.exists_cons_of_ne_nil hwhole
    exact ⟨c, _, rfl, hdigit c (by simp)⟩

/-- A numeral is taken whole. -/
theorem lexeme?_numeral {cs : List Char} (h : IsNumeral cs) {rest : List Char}
    (hrest : Ends rest) : lexeme? (cs ++ rest) = some (.number (String.ofList cs), cs.length) := by
  have hlength := (numberLength_append_ends hrest cs).trans (numberLength_eq_length h)
  obtain ⟨c, more, rfl, hc⟩ := h.exists_digit
  rw [List.cons_append] at hlength ⊢
  rw [lexeme?_of_not_symbol (not_symbol_of_isNameChar (isNameChar_of_isDigit hc)),
    if_neg (by simp [isNameStart_of_isDigit hc]), hlength, if_neg (by simp), ← List.cons_append,
    List.take_left]

/-- A numeral is read as a number. -/
theorem lexes_numeral {cs : List Char} (h : IsNumeral cs) {rest : List Char} (hrest : Ends rest) :
    Lexes cs rest [.number (String.ofList cs)] := by
  have hlexeme := lexeme?_numeral h hrest
  obtain ⟨c, more, rfl, hc⟩ := h.exists_digit
  exact Lexes.of_lexeme? (isBlank_of_isNameChar (isNameChar_of_isDigit hc)) hlexeme

/-- A numeral is one token. -/
theorem tokenize_numeral {cs : List Char} (h : IsNumeral cs) : tokenize (String.ofList cs) =
    .ok [⟨.number (String.ofList cs), 0, cs.length⟩] := by
  have hlexeme := lexeme?_numeral h Ends.nil
  obtain ⟨c, more, rfl, hc⟩ := h.exists_digit
  rw [List.append_nil] at hlexeme
  have hrest := scan_inside more [] 1
  rw [List.append_nil] at hrest
  have hscan : scan 0 0 (c :: more) =
      ([⟨.number (String.ofList (c :: more)), 0, (c :: more).length⟩], none) := by
    rw [scan, if_neg (by simp),
      if_neg (by simp [isBlank_of_isNameChar (isNameChar_of_isDigit hc)]), hlexeme]
    simp only [List.length_cons, Nat.add_sub_cancel, Nat.zero_add, hrest, scan]
  rw [tokenize, String.toList_ofList, tokenizeList, hscan]

/-! ## Strings -/

/-- A character is written as itself, or as a backslash and the letter of its escape. -/
theorem writeChar_cases (c : Char) :
    Scalar.writeChar c = [c] ∧ c ≠ '"' ∧ c ≠ '\\' ∨
      ∃ letter, Scalar.writeChar c = ['\\', letter] ∧ escapeValue? letter = some c := by
  unfold Scalar.writeChar
  split
  case h_8 hquote hslash _ _ _ _ _ => exact .inl ⟨rfl, hquote, hslash⟩
  all_goals exact .inr ⟨_, rfl, rfl⟩

theorem closing?_write (s rest : List Char) :
    closing? '"' (s.flatMap Scalar.writeChar ++ '"' :: rest) =
      some ((s.flatMap Scalar.writeChar).length + 1) := by
  induction s with
  | nil => simp [closing?]
  | cons c s ih =>
    rw [List.flatMap_cons, List.append_assoc]
    rcases writeChar_cases c with ⟨hwrite, hquote, hslash⟩ | ⟨letter, hwrite, -⟩
    · rw [hwrite, List.singleton_append, closing?, if_neg hquote, if_neg hslash, ih]
      · simp
      · intro d more heq
        exact absurd heq hslash
    · rw [hwrite, List.cons_append, List.singleton_append, closing?, ih]
      simp

theorem unescape_write (s : List Char) : unescape (s.flatMap Scalar.writeChar) = s := by
  induction s with
  | nil => rfl
  | cons c s ih =>
    rw [List.flatMap_cons]
    rcases writeChar_cases c with ⟨hwrite, -, hslash⟩ | ⟨letter, hwrite, hvalue⟩
    · rw [hwrite, List.singleton_append, unescape, ih]
      intro d more heq
      exact absurd heq hslash
    · rw [hwrite, List.cons_append, List.singleton_append, unescape, hvalue]
      simp only [ih]

/-- A written string is read as the string, whatever follows. -/
theorem lexes_string (s : String) (rest : List Char) :
    Lexes (Scalar.string s).text.toList rest [.string s] := by
  rw [Scalar.text, String.toList_ofList]
  apply Lexes.of_lexeme? (by decide)
  rw [List.cons_append, List.append_assoc, List.singleton_append]
  simp only [lexeme?, string?, closing?_write, Option.bind_eq_bind, Option.bind_some,
    Nat.add_sub_cancel, List.take_left, unescape_write, String.ofList_toList, List.length_append,
    List.length_singleton]
  rfl

end Criteria
