import Criteria.Proofs.Token.Lexes

/-!
# Where tokens stand

The tokens of a text stand inside it, one after another (`scan_bounds`, `scan_pairwise`).

Blanks around a text are no part of any token: those in front only move the tokens
(`scan_append_blank`), and those behind change nothing (`scan_append_blanks`).
-/

namespace Criteria

open Lexeme

/-! ## How long lexemes are -/

theorem closing?_le {quote : Char} {cs : List Char} {n : Nat} (h : closing? quote cs = some n) :
    n ≤ cs.length := by
  fun_induction closing? quote cs generalizing n with
  | case1 => cases h
  | case2 c rest ih =>
    obtain ⟨m, hm, rfl⟩ := Option.map_eq_some_iff.1 h
    have := ih hm
    simp only [List.length_cons]
    omega
  | case3 rest => cases h; simp
  | case4 => cases h
  | case5 c rest _ _ _ ih =>
    obtain ⟨m, hm, rfl⟩ := Option.map_eq_some_iff.1 h
    have := ih hm
    simp only [List.length_cons]
    omega

theorem numberLength_le (cs : List Char) : numberLength cs ≤ cs.length := by
  have hwhole := (List.takeWhile_sublist Char.isDigit (l := cs)).length_le
  simp only [numberLength]
  split
  · rename_i rest hrest
    have hplaces := (List.takeWhile_sublist Char.isDigit (l := rest)).length_le
    have hlength := congrArg List.length hrest
    simp only [List.length_drop, List.length_cons] at hlength
    split <;> omega
  · exact hwhole

theorem string?_length {quote : Char} {cs : List Char} {l : Lexeme} {n : Nat}
    (h : string? quote cs = some (l, n)) : 0 < n ∧ n ≤ cs.length + 1 := by
  simp only [string?, Option.bind_eq_bind, Option.bind_eq_some_iff, Option.pure_def,
    Option.some.injEq, Prod.mk.injEq] at h
  obtain ⟨m, hm, -, rfl⟩ := h
  have := closing?_le hm
  omega

/-- A lexeme takes some of the characters. -/
theorem lexeme?_length {cs : List Char} {l : Lexeme} {n : Nat} (h : lexeme? cs = some (l, n)) :
    0 < n ∧ n ≤ cs.length := by
  unfold lexeme? at h
  split at h
  case h_13 | h_14 =>
    have := string?_length h
    simpa using this
  case h_15 c rest _ _ _ _ _ _ _ _ _ _ _ _ _ _ =>
    split at h
    · rename_i hstart
      obtain ⟨-, rfl⟩ := Prod.mk.inj (Option.some.inj h)
      refine ⟨?_, (List.takeWhile_sublist _).length_le⟩
      rw [List.takeWhile_cons_of_pos (isNameChar_of_isNameStart hstart)]
      simp
    · have hle := numberLength_le (c :: rest)
      simp only at h
      split_ifs at h with hzero
      obtain ⟨-, rfl⟩ := Prod.mk.inj (Option.some.inj h)
      omega
  case h_16 => cases h
  all_goals
    cases h
    simp

/-! ## One character after another -/

theorem scan_skip (inside offset : Nat) (c : Char) (rest : List Char) :
    scan (inside + 1) offset (c :: rest) = scan inside (offset + 1) rest :=
  if_pos (Nat.succ_ne_zero inside)

theorem scan_blank {c : Char} (h : Text.isBlank c = true) (offset : Nat) (rest : List Char) :
    scan 0 offset (c :: rest) = scan 0 (offset + 1) rest := by
  rw [scan, if_neg (by simp), if_pos h]

theorem scan_token {c : Char} {rest : List Char} {l : Lexeme} {n : Nat}
    (hblank : Text.isBlank c = false) (h : lexeme? (c :: rest) = some (l, n + 1)) (offset : Nat) :
    scan 0 offset (c :: rest) =
      (⟨l, offset, offset + (n + 1)⟩ :: (scan n (offset + 1) rest).1,
        (scan n (offset + 1) rest).2) := by
  rw [scan, if_neg (by simp), if_neg (by simp [hblank]), h]
  rfl

theorem scan_fault {c : Char} {rest : List Char} (hblank : Text.isBlank c = false)
    (h : lexeme? (c :: rest) = none) (offset : Nat) :
    scan 0 offset (c :: rest) =
      ([], some ⟨if c = '"' ∨ c = '\'' then .unterminated else .unexpected c, offset⟩) := by
  rw [scan, if_neg (by simp), if_neg (by simp [hblank]), h]

/-- Induction along a text as it is read: inside a token, at a blank, at a token, and at a
character that starts none. -/
theorem scan_induction {motive : Nat → Nat → List Char → Prop}
    (nil : ∀ inside offset, motive inside offset [])
    (skip : ∀ inside offset c rest, motive inside (offset + 1) rest →
      motive (inside + 1) offset (c :: rest))
    (blank : ∀ offset c rest, Text.isBlank c = true → motive 0 (offset + 1) rest →
      motive 0 offset (c :: rest))
    (token : ∀ offset c rest l n, Text.isBlank c = false → lexeme? (c :: rest) = some (l, n + 1) →
      motive n (offset + 1) rest → motive 0 offset (c :: rest))
    (fault : ∀ offset c rest, Text.isBlank c = false → lexeme? (c :: rest) = none →
      motive 0 offset (c :: rest)) (inside offset : Nat) (cs : List Char) :
    motive inside offset cs := by
  induction cs generalizing inside offset with
  | nil => exact nil inside offset
  | cons c rest ih =>
    rcases inside with _ | inside
    · cases hblank : Text.isBlank c with
      | true => exact blank offset c rest hblank (ih 0 _)
      | false =>
        rcases hlexeme : lexeme? (c :: rest) with _ | ⟨l, n⟩
        · exact fault offset c rest hblank hlexeme
        · obtain ⟨n, rfl⟩ := Nat.exists_eq_succ_of_ne_zero (lexeme?_length hlexeme).1.ne'
          exact token offset c rest l n hblank hlexeme (ih n _)
    · exact skip inside offset c rest (ih inside _)

/-! ## Where tokens stand -/

/-- The tokens of a text stand within it, and not within the token before. -/
theorem scan_bounds (inside offset : Nat) (cs : List Char) :
    ∀ t ∈ (scan inside offset cs).1,
      offset + inside ≤ t.start ∧ t.start < t.stop ∧ t.stop ≤ offset + cs.length := by
  induction inside, offset, cs using scan_induction with
  | nil => intro t ht; cases ht
  | skip inside offset c rest ih =>
    intro t ht
    rw [scan_skip] at ht
    have := ih t ht
    simp only [List.length_cons]
    omega
  | blank offset c rest hblank ih =>
    intro t ht
    rw [scan_blank hblank] at ht
    have := ih t ht
    simp only [List.length_cons]
    omega
  | token offset c rest l n hblank hlexeme ih =>
    intro t ht
    rw [scan_token hblank hlexeme] at ht
    have hlength := (lexeme?_length hlexeme).2
    simp only [List.length_cons] at hlength ⊢
    rcases List.mem_cons.1 ht with rfl | ht
    · dsimp only
      omega
    · have := ih t ht
      omega
  | fault offset c rest hblank hlexeme =>
    intro t ht
    rw [scan_fault hblank hlexeme] at ht
    cases ht

/-- **The tokens of a text stand one after another.** -/
theorem scan_pairwise (inside offset : Nat) (cs : List Char) :
    (scan inside offset cs).1.Pairwise fun t u => t.stop ≤ u.start := by
  induction inside, offset, cs using scan_induction with
  | nil => exact .nil
  | skip inside offset c rest ih => rwa [scan_skip]
  | blank offset c rest hblank ih => rwa [scan_blank hblank]
  | token offset c rest l n hblank hlexeme ih =>
    rw [scan_token hblank hlexeme]
    refine List.pairwise_cons.2 ⟨fun u hu => ?_, ih⟩
    have := scan_bounds n (offset + 1) rest u hu
    dsimp only
    omega
  | fault offset c rest hblank hlexeme =>
    rw [scan_fault hblank hlexeme]
    exact .nil

theorem tokenize_eq_ok_iff {text : String} {tokens : List Token} :
    tokenize text = .ok tokens ↔ scan 0 0 text.toList = (tokens, none) := by
  unfold tokenize tokenizeList
  split
  · rename_i ts hscan
    simp [hscan]
  · rename_i hscan
    simp [hscan]

/-- A text without tokens and without faults is blank. -/
theorem blank_of_scan_eq_nil {offset : Nat} {cs : List Char}
    (h : scan 0 offset cs = ([], none)) : ∀ c ∈ cs, Text.isBlank c = true := by
  induction cs generalizing offset with
  | nil => intro c hc; cases hc
  | cons c rest ih =>
    cases hblank : Text.isBlank c with
    | true =>
      rw [scan_blank hblank] at h
      exact List.forall_mem_cons.2 ⟨hblank, ih h⟩
    | false =>
      rcases hlexeme : lexeme? (c :: rest) with _ | ⟨l, n⟩
      · rw [scan_fault hblank hlexeme] at h
        cases h
      · obtain ⟨n, rfl⟩ := Nat.exists_eq_succ_of_ne_zero (lexeme?_length hlexeme).1.ne'
        rw [scan_token hblank hlexeme] at h
        cases h

/-! ## Texts further on -/

/-- The token further on in a text. -/
def Token.shift (k : Nat) (t : Token) : Token := ⟨t.lexeme, t.start + k, t.stop + k⟩

/-- The fault further on in a text. -/
def LexError.shift (k : Nat) (error : LexError) : LexError := ⟨error.fault, error.offset + k⟩

/-- **A text further on has the same tokens further on.** -/
theorem scan_shift (k inside offset : Nat) (cs : List Char) :
    scan inside (offset + k) cs =
      ((scan inside offset cs).1.map (Token.shift k),
        (scan inside offset cs).2.map (LexError.shift k)) := by
  induction inside, offset, cs using scan_induction with
  | nil => rfl
  | skip inside offset c rest ih =>
    rw [scan_skip, scan_skip, ← ih]
    congr 1
    omega
  | blank offset c rest hblank ih =>
    rw [scan_blank hblank, scan_blank hblank, ← ih]
    congr 1
    omega
  | token offset c rest l n hblank hlexeme ih =>
    have hmoved : offset + k + 1 = offset + 1 + k := by omega
    rw [scan_token hblank hlexeme, scan_token hblank hlexeme, hmoved, ih, List.map_cons,
      Token.shift, show offset + k + (n + 1) = offset + (n + 1) + k by omega]
  | fault offset c rest hblank hlexeme =>
    rw [scan_fault hblank hlexeme, scan_fault hblank hlexeme]
    rfl

/-- Blanks in front of a text are skipped. -/
theorem scan_append_blank {blanks : List Char} (h : ∀ b ∈ blanks, Text.isBlank b = true)
    (offset : Nat) (cs : List Char) :
    scan 0 offset (blanks ++ cs) = scan 0 (offset + blanks.length) cs := by
  induction blanks generalizing offset with
  | nil => rfl
  | cons b blanks ih =>
    rw [List.cons_append, scan_blank (h b (List.mem_cons_self ..)),
      ih fun b hb => h b (List.mem_cons_of_mem _ hb), List.length_cons]
    congr 1
    omega

/-! ## Blanks behind a text -/

section Behind

variable {blanks : List Char} (h : ∀ b ∈ blanks, Text.isBlank b = true)

include h in
/-- Blanks end a name or a numeral. -/
theorem ends_blanks : Ends blanks := by
  intro b hb
  rw [← Bool.not_eq_true]
  intro hname
  have hblank := h b (List.mem_of_mem_head? hb)
  rw [isBlank_of_isNameChar hname] at hblank
  cases hblank

/-- A string is not closed by what holds no quote. -/
theorem closing?_eq_none {quote : Char} {cs : List Char} (h : ∀ c ∈ cs, c ≠ quote) :
    closing? quote cs = none := by
  fun_induction closing? quote cs with
  | case1 => rfl
  | case2 d rest ih =>
    rw [ih fun c hc => h c (List.mem_cons_of_mem _ (List.mem_cons_of_mem _ hc))]
    rfl
  | case3 rest => exact absurd rfl (h quote (List.mem_cons_self ..))
  | case4 => rfl
  | case5 c rest _ _ _ ih =>
    rw [ih fun d hd => h d (List.mem_cons_of_mem _ hd)]
    rfl

include h in
/-- Blanks do not close a string. -/
theorem closing?_append_blanks {quote : Char} (hblank : Text.isBlank quote = false)
    (hquote : quote ≠ '\\') (cs : List Char) :
    closing? quote (cs ++ blanks) = closing? quote cs := by
  have hne : ∀ b ∈ blanks, b ≠ quote := by
    rintro b hb rfl
    rw [h b hb] at hblank
    cases hblank
  fun_induction closing? quote cs with
  | case1 => exact closing?_eq_none hne
  | case2 d rest ih => rw [List.cons_append, List.cons_append, closing?, ih]
  | case3 rest =>
    rw [List.cons_append, closing?.eq_3 _ _ _ fun _ _ heq => absurd heq hquote, if_pos rfl]
  | case4 rest hlast hne' =>
    -- the backslash is the last character of the text
    obtain rfl : rest = [] := by
      cases rest with
      | nil => rfl
      | cons d rest => exact (hlast d rest rfl rfl).elim
    cases blanks with
    | nil => exact closing?_eq_none fun c hc => List.mem_singleton.1 hc ▸ hne'
    | cons b bs =>
      rw [List.cons_append, List.nil_append, closing?,
        closing?_eq_none fun c hc => hne c (List.mem_cons_of_mem _ hc)]
      rfl
  | case5 c rest _ hc hescape ih =>
    rw [List.cons_append, closing?.eq_3 _ _ _ fun _ _ heq => absurd heq hescape, if_neg hc,
      if_neg hescape, ih]

include h in
theorem string?_append_blanks {quote : Char} (hblank : Text.isBlank quote = false)
    (hquote : quote ≠ '\\') (cs : List Char) :
    string? quote (cs ++ blanks) = string? quote cs := by
  simp only [string?, closing?_append_blanks h hblank hquote, Option.bind_eq_bind]
  cases hclosing : closing? quote cs with
  | none => rfl
  | some n =>
    have hle := closing?_le hclosing
    rw [Option.bind_some, Option.bind_some, List.take_append_of_le_length (by omega)]

/-- The characters that another one may follow in a sign: that other one, what the two are read as,
and what the first is read as without it. -/
def signs : List (Char × Char × Option (Lexeme × Nat) × Option (Lexeme × Nat)) :=
  [('&', '&', some (.operator (.logical .and), 2), none),
    ('|', '|', some (.operator (.logical .or), 2), none),
    ('=', '=', some (.operator (.compare .eq), 2), none),
    ('!', '=', some (.operator (.compare .ne), 2), some (.not, 1)),
    ('>', '=', some (.operator (.compare .ge), 2), some (.operator (.compare .gt), 1)),
    ('<', '=', some (.operator (.compare .le), 2), some (.operator (.compare .lt), 1))]

theorem lexeme?_of_mem_signs {c d : Char} {double single : Option (Lexeme × Nat)}
    (h : (c, d, double, single) ∈ signs) (cs : List Char) :
    lexeme? (c :: cs) = if cs.head? = some d then double else single := by
  simp only [signs, List.mem_cons, Prod.mk.injEq, List.not_mem_nil, or_false] at h
  rcases h with h | h | h | h | h | h <;> obtain ⟨rfl, rfl, rfl, rfl⟩ := h <;>
    cases cs with
    | nil => simp [lexeme?, isNameStart, numberLength]
    | cons x cs =>
      by_cases hx : x = '&' ∨ x = '|' ∨ x = '='
      · rcases hx with rfl | rfl | rfl <;> simp [lexeme?, isNameStart, numberLength]
      · simp only [not_or] at hx
        simp [lexeme?, isNameStart, numberLength, hx]

include h in
theorem head?_append_blanks {d : Char} (hd : Text.isBlank d = false) (cs : List Char) :
    (cs ++ blanks).head? = some d ↔ cs.head? = some d := by
  cases cs with
  | cons c cs => rfl
  | nil =>
    refine ⟨fun hhead => ?_, fun hhead => nomatch hhead⟩
    rw [h d (List.mem_of_mem_head? hhead)] at hd
    cases hd

include h in
/-- Blanks behind a text do not change the lexeme at its front. -/
theorem lexeme?_append_blanks (c : Char) (cs : List Char) :
    lexeme? (c :: (cs ++ blanks)) = lexeme? (c :: cs) := by
  by_cases hsymbol : c ∈ ['(', ')', ',', '"', '\''] ++ signs.map Prod.fst
  · rcases List.mem_append.1 hsymbol with hc | hsign
    · simp only [List.mem_cons, List.not_mem_nil, or_false] at hc
      rcases hc with rfl | rfl | rfl | rfl | rfl
      · rfl
      · rfl
      · rfl
      · exact string?_append_blanks h (by decide) (by decide) cs
      · exact string?_append_blanks h (by decide) (by decide) cs
    · obtain ⟨⟨c, d, double, single⟩, hmem, rfl⟩ := List.mem_map.1 hsign
      have hd : ∀ sign ∈ signs, Text.isBlank sign.2.1 = false := by decide
      rw [lexeme?_of_mem_signs hmem, lexeme?_of_mem_signs hmem]
      exact if_congr (head?_append_blanks h (hd _ hmem) cs) rfl rfl
  · have hends := ends_blanks h
    rw [lexeme?_of_not_symbol hsymbol, lexeme?_of_not_symbol hsymbol, ← List.cons_append,
      takeWhile_append_ends (fun _ hc => hc) hends, numberLength_append_ends hends,
      List.take_append_of_le_length (numberLength_le _)]

include h in
/-- **Blanks behind a text change none of its tokens.** -/
theorem scan_append_blanks (inside offset : Nat) (cs : List Char) (hinside : inside ≤ cs.length) :
    scan inside offset (cs ++ blanks) = scan inside offset cs := by
  induction inside, offset, cs using scan_induction with
  | nil inside offset =>
    obtain rfl : inside = 0 := Nat.le_zero.1 hinside
    have hblanks := scan_append_blank h offset []
    rwa [List.append_nil] at hblanks
  | skip inside offset c rest ih =>
    rw [List.cons_append, scan_skip, scan_skip, ih (Nat.le_of_succ_le_succ hinside)]
  | blank offset c rest hblank ih =>
    rw [List.cons_append, scan_blank hblank, scan_blank hblank, ih (Nat.zero_le _)]
  | token offset c rest l n hblank hlexeme ih =>
    have hlength := (lexeme?_length hlexeme).2
    have hlexeme' := (lexeme?_append_blanks h c rest).trans hlexeme
    rw [List.cons_append, scan_token hblank hlexeme', scan_token hblank hlexeme,
      ih (Nat.le_of_succ_le_succ hlength)]
  | fault offset c rest hblank hlexeme =>
    have hlexeme' := (lexeme?_append_blanks h c rest).trans hlexeme
    rw [List.cons_append, scan_fault hblank hlexeme', scan_fault hblank hlexeme]

end Behind

end Criteria
