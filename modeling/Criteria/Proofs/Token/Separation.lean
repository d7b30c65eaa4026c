import Criteria.Proofs.Token.Positions

/-!
# Texts with a blank between them

A blank ends every token that stands before it, unless it is inside of a string. So a text that is
read to its end is read the same with a blank and more behind it, and what stands behind is read by
itself (`scan_append_cons`).
-/

namespace Criteria

open Lexeme

/-- What closes a string does so whatever stands behind it. -/
theorem closing?_append {quote : Char} (hquote : quote ≠ '\\') {cs : List Char} {n : Nat}
    (h : closing? quote cs = some n) (more : List Char) :
    closing? quote (cs ++ more) = some n := by
  fun_induction closing? quote cs generalizing n with
  | case1 => cases h
  | case2 d rest ih =>
    obtain ⟨m, hm, rfl⟩ := Option.map_eq_some_iff.1 h
    rw [List.cons_append, List.cons_append, closing?, ih hm]
    rfl
  | case3 rest hescape =>
    cases h
    rw [List.cons_append, closing?.eq_3 _ _ _ fun _ _ heq => absurd heq hquote, if_pos rfl]
  | case4 => cases h
  | case5 c rest _ hc hescape ih =>
    obtain ⟨m, hm, rfl⟩ := Option.map_eq_some_iff.1 h
    rw [List.cons_append, closing?.eq_3 _ _ _ fun _ _ heq => absurd heq hescape, if_neg hc,
      if_neg hescape, ih hm]
    rfl

theorem string?_append {quote : Char} (hquote : quote ≠ '\\') {cs : List Char} {l : Lexeme}
    {n : Nat} (h : string? quote cs = some (l, n)) (more : List Char) :
    string? quote (cs ++ more) = some (l, n) := by
  obtain ⟨m, hm, hl⟩ := Option.bind_eq_some_iff.1 h
  have hle := closing?_le hm
  rw [string?, closing?_append hquote hm, Option.bind_eq_bind, Option.bind_some,
    List.take_append_of_le_length (by omega)]
  exact hl

section Blank

variable {b : Char} (hb : Text.isBlank b = true)

include hb

/-- A blank ends a name or a numeral. -/
theorem ends_blank (more : List Char) : Ends (b :: more) := by
  refine .cons ?_ more
  rw [← Bool.not_eq_true]
  intro hname
  rw [isBlank_of_isNameChar hname] at hb
  cases hb

/-- A blank and more behind a text do not change the lexeme at its front. -/
theorem lexeme?_append_cons {c : Char} {cs : List Char} {l : Lexeme} {n : Nat}
    (h : lexeme? (c :: cs) = some (l, n)) (more : List Char) :
    lexeme? (c :: (cs ++ b :: more)) = some (l, n) := by
  by_cases hsymbol : c ∈ ['(', ')', ',', '"', '\''] ++ signs.map Prod.fst
  · rcases List.mem_append.1 hsymbol with hc | hsign
    · simp only [List.mem_cons, List.not_mem_nil, or_false] at hc
      rcases hc with rfl | rfl | rfl | rfl | rfl
      · exact h
      · exact h
      · exact h
      · exact string?_append (by decide) h _
      · exact string?_append (by decide) h _
    · obtain ⟨⟨c, d, double, single⟩, hmem, rfl⟩ := List.mem_map.1 hsign
      have hd : ∀ sign ∈ signs, Text.isBlank sign.2.1 = false := by decide
      have hne : b ≠ d := by
        rintro rfl
        rw [hd _ hmem] at hb
        cases hb
      rw [lexeme?_of_mem_signs hmem] at h ⊢
      cases cs with
      | nil => simpa [hne] using h
      | cons => exact h
  · have hends := ends_blank hb more
    rw [lexeme?_of_not_symbol hsymbol] at h ⊢
    rwa [← List.cons_append, takeWhile_append_ends (fun _ hc => hc) hends,
      numberLength_append_ends hends, List.take_append_of_le_length (numberLength_le _)]

/-- **A text that is read to its end is read the same with a blank and more behind it**, and what
stands behind is read by itself. -/
theorem scan_append_cons {inside offset : Nat} {cs : List Char} {ts : List Token}
    (hinside : inside ≤ cs.length) (h : scan inside offset cs = (ts, none)) (more : List Char) :
    scan inside offset (cs ++ b :: more) =
      (ts ++ (scan 0 (offset + cs.length) (b :: more)).1,
        (scan 0 (offset + cs.length) (b :: more)).2) := by
  induction inside, offset, cs using scan_induction generalizing ts with
  | nil inside offset =>
    obtain rfl : inside = 0 := Nat.le_zero.1 hinside
    cases h
    rfl
  | skip inside offset c rest ih =>
    rw [scan_skip] at h
    rw [List.cons_append, scan_skip, ih (Nat.le_of_succ_le_succ hinside) h, List.length_cons,
      Nat.add_assoc, Nat.add_comm 1]
  | blank offset c rest hblank ih =>
    rw [scan_blank hblank] at h
    rw [List.cons_append, scan_blank hblank, ih (Nat.zero_le _) h, List.length_cons,
      Nat.add_assoc, Nat.add_comm 1]
  | token offset c rest l n hblank hlexeme ih =>
    rw [scan_token hblank hlexeme] at h
    obtain ⟨rfl, hnone⟩ := Prod.mk.inj h
    have hlength := (lexeme?_length hlexeme).2
    rw [List.cons_append, scan_token hblank (lexeme?_append_cons hb hlexeme more),
      ih (Nat.le_of_succ_le_succ hlength) (Prod.ext rfl hnone), List.length_cons, Nat.add_assoc,
      Nat.add_comm 1]
    rfl
  | fault offset c rest hblank hlexeme =>
    rw [scan_fault hblank hlexeme] at h
    cases h

end Blank

end Criteria
