import Criteria.Proofs.Expr.Relocation

/-!
# Texts further on

What stands further on is read as the same expression further on, or refused with the same fault
further on. So is a text with blanks around it (`Expr.parse_blanks`), as the blanks are no part of
any token.
-/

namespace Criteria

/-- The span further on. -/
def Span.shift (k : Nat) (s : Span) : Span := ⟨s.start + k, s.stop + k⟩

theorem Span.shift_cover (k : Nat) (a b : Span) :
    (a.cover b).shift k = (a.shift k).cover (b.shift k) := by
  simp only [Span.cover, Span.shift, Span.mk.injEq]
  omega

/-- Everything goes further on. -/
def Relocation.shift (k : Nat) : Relocation where
  point := (· + k)
  span := Span.shift k
  span_mk _ _ := rfl
  span_cover := Span.shift_cover k

/-- The fault further on. -/
def ParseError.shift (k : Nat) (error : ParseError) : ParseError := ⟨error.fault, error.offset + k⟩

/-- The expression further on. -/
def Expr.shift (k : Nat) : Expr → Expr := mapSpans (Span.shift k)

/-- The span so much nearer to the front. -/
def Span.back (k : Nat) (s : Span) : Span := ⟨s.start - k, s.stop - k⟩

theorem Span.back_shift (k : Nat) (s : Span) : (s.shift k).back k = s := by
  simp [Span.back, Span.shift]

/-- The expression so much nearer to the front. -/
def Expr.back (k : Nat) : Expr → Expr := mapSpans (Span.back k)

theorem Expr.back_shift (k : Nat) (e : Expr) : (e.shift k).back k = e := by
  rw [back, shift, mapSpans_mapSpans, show Span.back k ∘ Span.shift k = id from
    funext (Span.back_shift k), mapSpans_id]

/-- **Tokens further on are read as the same expression further on**, or refused with the same fault
further on. -/
theorem Expr.ofTokens_shift (k : Nat) (limit : Int) {tokens : List Token} (h : tokens ≠ []) :
    ofTokens limit (tokens.map (Token.shift k)) =
      ((ofTokens limit tokens).map (shift k)).mapError (ParseError.shift k) :=
  ofTokens_relocate (.shift k) limit h

/-- The fault of a text further on. -/
def SyntaxError.shift (k : Nat) : SyntaxError → SyntaxError
  | .lexical error => .lexical (error.shift k)
  | .grammatical error => .grammatical (error.shift k)

namespace Expr

/-- **A text between blanks is read as the text without them, further on**, or refused with the same
fault further on, unless there is nothing but blanks. -/
theorem parse_blanks {front behind : List Char} {text : String} (limit : Int)
    (hfront : ∀ b ∈ front, Text.isBlank b = true) (hbehind : ∀ b ∈ behind, Text.isBlank b = true)
    (htext : Text.allBlank text = false) :
    parse (String.ofList (front ++ (text.toList ++ behind))) limit =
      ((parse text limit).map (shift front.length)).mapError (SyntaxError.shift front.length) := by
  have hscan : scan 0 0 (front ++ (text.toList ++ behind)) =
      ((scan 0 0 text.toList).1.map (Token.shift front.length),
        (scan 0 0 text.toList).2.map (LexError.shift front.length)) := by
    rw [scan_append_blank hfront, scan_append_blanks hbehind _ _ _ (Nat.zero_le _), scan_shift]
  simp only [parse, tokenize, tokenizeList, String.toList_ofList, hscan]
  rcases hsame : scan 0 0 text.toList with ⟨tokens, fault⟩
  cases fault with
  | some error => rfl
  | none =>
    have htokens : tokens ≠ [] := by
      rintro rfl
      have hblank := List.all_eq_true.2 (blank_of_scan_eq_nil hsame)
      rw [Text.allBlank, hblank] at htext
      cases htext
    have hread := ofTokens_shift front.length limit htokens
    simp only [Option.map_none]
    change (ofTokens limit (tokens.map (Token.shift front.length))).mapError _ = _
    rw [hread]
    change _ = (((ofTokens limit tokens).mapError SyntaxError.grammatical).map _).mapError _
    cases ofTokens limit tokens <;> rfl

end Expr

end Criteria
