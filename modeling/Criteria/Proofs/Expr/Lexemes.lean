import Criteria.Proofs.Token.Lexes

/-!
# The lexemes of canonical text

`Expr.lexemes` are the lexemes of a condition as its canonical text spells them out. The text of a
well-formed condition is read as exactly these (`Expr.tokenize_text`): no piece of it runs into the
next one.
-/

namespace Criteria

/-- The lexeme that a literal is written as. -/
def Scalar.lexeme : Scalar → Lexeme
  | .null => .identifier "null"
  | .bool b => .bool b
  | .string s => .string s
  | v => .number v.text

namespace Expr

/-- Lexemes, in parentheses if asked. -/
def groupedLexemes (group : Bool) (lexemes : List Lexeme) : List Lexeme :=
  if group then .opening :: (lexemes ++ [.closing]) else lexemes

/-- The alias clause of a quantifier. -/
def aliasLexemes (binder : Alias) : List Lexeme :=
  if binder.written then [.identifier "as", .identifier binder.name] else []

/-- The lexemes of the canonical text of a condition. -/
def lexemes : Expr → List Lexeme
  | .literal value _ => [value.lexeme]
  | .reference path _ => [.identifier path]
  | .not argument _ _ => .not :: groupedLexemes (needsGroupUnderNot argument) argument.lexemes
  | .binary op left right _ _ =>
    groupedLexemes (needsGroup op left) left.lexemes ++
      .operator op :: groupedLexemes (needsGroup op right) right.lexemes
  | .quantified q collection predicate binder _ =>
    .identifier q.symbol :: .opening :: (collection.lexemes ++ aliasLexemes binder ++
      .comma :: (predicate.lexemes ++ [.closing]))

/-! ## The first character -/

/-- A text starts with a character that is neither a blank nor an equality sign. -/
def Starts (text : String) : Prop :=
  ∃ c rest, text.toList = c :: rest ∧ Text.isBlank c = false ∧ c ≠ '='

theorem Starts.append {text : String} (h : Starts text) (more : String) : Starts (text ++ more) := by
  obtain ⟨c, rest, htext, hc⟩ := h
  exact ⟨c, rest ++ more.toList, by rw [String.toList_append, htext, List.cons_append], hc⟩

theorem Starts.of_isNameChar {text : String} {c : Char} {rest : List Char}
    (htext : text.toList = c :: rest) (h : Lexeme.isNameChar c = true) : Starts text := by
  refine ⟨c, rest, htext, isBlank_of_isNameChar h, ?_⟩
  rintro rfl
  exact absurd h (by decide)

theorem starts_literal {v : Scalar} (h : v.WellFormed) : Starts v.text := by
  have hnumeral : ∀ {v : Scalar}, IsNumeral v.text.toList → Starts v.text := by
    intro v hv
    generalize htext : v.text.toList = cs at hv
    cases hv with
    | whole hne hdigit =>
      obtain ⟨c, more, rfl⟩ := List.exists_cons_of_ne_nil hne
      exact .of_isNameChar htext (isNameChar_of_isDigit (hdigit c (by simp)))
    | point hwhole _ hdigit =>
      obtain ⟨c, more, rfl⟩ := List.exists_cons_of_ne_nil hwhole
      exact .of_isNameChar htext (isNameChar_of_isDigit (hdigit c (by simp)))
  cases v with
  | null => exact ⟨'n', _, rfl, by decide, by decide⟩
  | bool b =>
    cases b
    · exact ⟨'f', _, rfl, by decide, by decide⟩
    · exact ⟨'t', _, rfl, by decide, by decide⟩
  | int n => exact hnumeral (Scalar.isNumeral_text h trivial)
  | double d => exact hnumeral (Scalar.isNumeral_text h trivial)
  | string s => exact ⟨'"', _, String.toList_ofList, by decide, by decide⟩

theorem starts_word {name : String} (h : IsWord name) : Starts name := by
  obtain ⟨first, rest, hname, hfirst, -⟩ := h
  exact .of_isNameChar hname (isNameChar_of_isNameStart hfirst)

theorem isWord_symbol (q : Quantifier) : IsWord q.symbol := by
  cases q <;> decide

theorem starts_grouped {group : Bool} {text : String} (h : Starts text) :
    Starts (grouped group text) := by
  cases group with
  | false => exact h
  | true => exact .append (.append ⟨'(', [], rfl, by decide, by decide⟩ _) _

theorem starts_text {e : Expr} (h : e.WellFormed) : Starts e.text := by
  induction e with
  | literal => exact starts_literal h
  | reference => exact starts_word h.1.1
  | not => exact .append ⟨'!', [], rfl, by decide, by decide⟩ _
  | binary op left right _ _ ihl =>
    exact .append (.append (.append (.append (starts_grouped (ihl h.1)) _) _) _) _
  | quantified q collection predicate binder =>
    exact .append (.append (.append (.append (.append (.append (starts_word (isWord_symbol q)) _)
      _) _) _) _) _

/-! ## Reading canonical text -/

theorem lexes_literal {v : Scalar} (h : v.WellFormed) {rest : List Char} (hrest : Ends rest) :
    Lexes v.text.toList rest [v.lexeme] := by
  have hnumeral : ∀ {v : Scalar}, IsNumeral v.text.toList →
      Lexes v.text.toList rest [.number v.text] := by
    intro v hv
    have hlex := lexes_numeral hv hrest
    rwa [String.ofList_toList] at hlex
  cases v with
  | null => exact lexes_word (by decide) hrest
  | bool b =>
    cases b
    · exact lexes_word (by decide) hrest
    · exact lexes_word (by decide) hrest
  | int n => exact hnumeral (Scalar.isNumeral_text h trivial)
  | double d => exact hnumeral (Scalar.isNumeral_text h trivial)
  | string s => exact lexes_string s rest

/-- An operator and the blank after it. -/
theorem lexes_operator (op : BinaryOp) {ds rest : List Char} {ms : List Lexeme}
    (h : Lexes ds rest ms) : Lexes (op.symbol.toList ++ ' ' :: ds) rest (.operator op :: ms) := by
  refine .cons ?_ h.skip
  cases op with
  | logical c => cases c <;> exact .of_lexeme? (by decide) rfl
  | compare c => cases c <;> exact .of_lexeme? (by decide) rfl

theorem lexes_quantifier (q : Quantifier) {rest : List Char} (hrest : Ends rest) :
    Lexes q.symbol.toList rest [.identifier q.symbol] := by
  have hlex := lexes_word (isWord_symbol q) hrest
  cases q <;> exact hlex

/-- A negation is not read together with what starts after it. -/
theorem lexes_not {text : String} (hstarts : Starts text) {rest : List Char} {ms : List Lexeme}
    (h : Lexes text.toList rest ms) : Lexes ('!' :: text.toList) rest (.not :: ms) := by
  have hnot : Lexes ['!'] (text.toList ++ rest) [.not] := by
    obtain ⟨c, more, htext, -, hc⟩ := hstarts
    apply Lexes.of_lexeme? (by decide)
    rw [htext]
    simp [lexeme?, hc]
  exact hnot.cons h

theorem lexes_grouped {group : Bool} {text : String} {ls : List Lexeme}
    (h : ∀ {rest}, Ends rest → Lexes text.toList rest ls) {rest : List Char} (hrest : Ends rest) :
    Lexes (grouped group text).toList rest (groupedLexemes group ls) := by
  cases group with
  | false => exact h hrest
  | true =>
    have htext : (grouped true text).toList = '(' :: (text.toList ++ [')']) := by
      simp [grouped, String.toList_append]
    rw [htext]
    exact .opening (.append (h (.cons (c := ')') (by decide) rest)) (.closing (.nil rest)))

/-- The alias clause of the canonical text. -/
def aliasText (binder : Alias) : String := if binder.written then " as " ++ binder.name else ""

theorem lexes_alias {binder : Alias} (h : binder.WellFormed) {rest : List Char}
    (hrest : Ends rest) : Lexes (aliasText binder).toList rest (aliasLexemes binder) := by
  unfold aliasText aliasLexemes
  cases binder.written with
  | false => exact .nil rest
  | true =>
    have htext : (" as " ++ binder.name).toList =
        ' ' :: ("as".toList ++ ' ' :: binder.name.toList) := by
      simp [String.toList_append]
    simp only [if_true]
    rw [htext]
    have has : Lexes "as".toList ((' ' :: binder.name.toList) ++ rest) [.identifier "as"] :=
      lexes_word (by decide) (.cons (c := ' ') (by decide) _)
    exact .skip (.cons has (.skip (lexes_name h.1 hrest)))

/-- **Canonical text is read as the lexemes it spells out**, wherever it ends. -/
theorem lexes_text {e : Expr} (h : e.WellFormed) {rest : List Char} (hrest : Ends rest) :
    Lexes e.text.toList rest e.lexemes := by
  induction e generalizing rest with
  | literal => exact lexes_literal h hrest
  | reference => exact lexes_name h.1 hrest
  | not argument _ _ ih =>
    have htext : ∀ a : String, ("!" ++ a).toList = '!' :: a.toList := fun a => by
      simp [String.toList_append]
    rw [text, htext, lexemes]
    exact lexes_not (starts_grouped (starts_text (e := argument) h)) (lexes_grouped (ih h) hrest)
  | binary op left right _ _ ihl ihr =>
    have htext : ∀ a b : String, (a ++ " " ++ op.symbol ++ " " ++ b).toList =
        a.toList ++ ' ' :: (op.symbol.toList ++ ' ' :: b.toList) := fun a b => by
      simp [String.toList_append]
    rw [text, htext, lexemes]
    refine .append (lexes_grouped (ihl h.1) ?_)
      (.skip (lexes_operator op (lexes_grouped (ihr h.2) hrest)))
    exact .cons (c := ' ') (by decide) _
  | quantified q collection predicate binder _ ihc ihp =>
    have htext : ∀ a b c : String, (q.symbol ++ "(" ++ a ++ b ++ ", " ++ c ++ ")").toList =
        q.symbol.toList ++ '(' :: (a.toList ++ b.toList ++
          ',' :: ' ' :: (c.toList ++ [')'])) := fun a b c => by
      simp [String.toList_append]
    have hclause : (if binder.written then " as " ++ binder.name else "") = aliasText binder := rfl
    have halias : Ends ((aliasText binder).toList ++
        (',' :: ' ' :: (predicate.text.toList ++ [')']) ++ rest)) := by
      unfold aliasText
      cases binder.written with
      | false => exact .cons (c := ',') (by decide) _
      | true =>
        have hblank : (" as " ++ binder.name).toList = ' ' :: ("as " ++ binder.name).toList := by
          simp [String.toList_append]
        simp only [if_true]
        rw [hblank]
        exact .cons (c := ' ') (by decide) _
    rw [text, htext, hclause, lexemes]
    refine .cons (lexes_quantifier q (.cons (c := '(') (by decide) _)) (.opening ?_)
    refine .append (.append (ihc h.1 halias) (lexes_alias h.2.2 ?_)) (.comma (.skip ?_))
    · exact .cons (c := ',') (by decide) _
    · exact .append (ihp h.2.1 (.cons (c := ')') (by decide) _)) (.closing (.nil rest))

theorem tokenize_text {e : Expr} (h : e.WellFormed) :
    ∃ tokens, tokenize e.text = .ok tokens ∧ tokens.map (·.lexeme) = e.lexemes :=
  (lexes_text h .nil).tokenizeList

end Expr

end Criteria
