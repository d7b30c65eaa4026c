import Criteria.Proofs.Token.Pattern

/-!
# Tokens tile a text

Where no token stands, a text is blank, and every token is the longest match of the first pattern
that applies where it starts; a text that is refused is tiled in this way up to the fault, where no
pattern applies (`tokenize_tiles`).

What is read does not depend on what stands around it: a text cut between two tokens is read as its
two parts (`scan_split`).

So a token that is not a string stands where the text spells it (`Tiles.spelled`), and one that is
an identifier is a name (`isName_of_mem_tokenize`).
-/

namespace Criteria

open Lexeme

variable {inside offset k : Nat} {cs : List Char} {ts us : List Token} {fault : Option LexError}

/-! ## Cutting a text between tokens -/

/-- A place of a text, so many characters into it, with the tokens before it, those after it, and
perhaps a fault after it. -/
structure Between (offset k : Nat) (ts us : List Token) (fault : Option LexError) : Prop where
  before : ∀ t ∈ ts, t.stop ≤ offset + k
  after : ∀ t ∈ us, offset + k ≤ t.start
  fault : ∀ error ∈ fault, offset + k ≤ error.offset

/-- Nothing is read in front of a text. -/
theorem Between.eq_nil (h : Between offset 0 ts us fault)
    (hscan : scan inside offset cs = (ts ++ us, fault)) : ts = [] := by
  refine List.eq_nil_iff_forall_not_mem.2 fun t ht => ?_
  have hmem : t ∈ (scan inside offset cs).1 := by
    rw [hscan]
    exact List.mem_append_left _ ht
  have hbounds := scan_bounds inside offset cs t hmem
  have hbefore := h.before t ht
  omega

/-- **A text cut between two tokens is read as its two parts.** -/
theorem scan_split (h : Between offset k ts us fault) (hinside : inside ≤ k) (hk : k ≤ cs.length)
    (hscan : scan inside offset cs = (ts ++ us, fault)) :
    scan inside offset (cs.take k) = (ts, none) ∧ scan 0 (offset + k) (cs.drop k) = (us, fault) := by
  -- where nothing is cut off
  have hzero : ∀ {offset : Nat} {cs : List Char} {ts : List Token}, Between offset 0 ts us fault →
      scan 0 offset cs = (ts ++ us, fault) →
        scan 0 offset (cs.take 0) = (ts, none) ∧ scan 0 (offset + 0) (cs.drop 0) = (us, fault) := by
    intro offset cs ts h hscan
    obtain rfl := h.eq_nil hscan
    exact ⟨rfl, hscan⟩
  have hnext : ∀ {offset k : Nat} {ts : List Token}, Between offset (k + 1) ts us fault →
      Between (offset + 1) k ts us fault := fun h =>
    ⟨fun t ht => (h.before t ht).trans (by omega), fun t ht => le_trans (by omega) (h.after t ht),
      fun e he => le_trans (by omega) (h.fault e he)⟩
  induction inside, offset, cs using scan_induction generalizing k ts with
  | nil =>
    obtain rfl : k = 0 := Nat.le_zero.1 hk
    obtain rfl : _ = 0 := Nat.le_zero.1 hinside
    exact hzero h hscan
  | skip inside offset c rest ih =>
    obtain ⟨k, rfl⟩ := Nat.exists_eq_succ_of_ne_zero (Nat.ne_zero_of_lt hinside)
    rw [scan_skip] at hscan
    rw [List.take_succ_cons, List.drop_succ_cons, scan_skip]
    have := ih (hnext h) (by omega) (by simpa using hk) hscan
    rwa [show offset + (k + 1) = offset + 1 + k by omega]
  | blank offset c rest hblank ih =>
    rcases k with _ | k
    · exact hzero h hscan
    rw [scan_blank hblank] at hscan
    rw [List.take_succ_cons, List.drop_succ_cons, scan_blank hblank]
    have := ih (hnext h) (by omega) (by simpa using hk) hscan
    rwa [show offset + (k + 1) = offset + 1 + k by omega]
  | token offset c rest l n hblank hlexeme ih =>
    rcases k with _ | k
    · exact hzero h hscan
    rw [scan_token hblank hlexeme] at hscan
    obtain ⟨htokens, hfault⟩ := Prod.mk.inj hscan
    rcases ts with _ | ⟨t, ts⟩
    · have hafter := h.after _ (htokens ▸ List.mem_cons_self ..)
      dsimp only at hafter
      omega
    obtain ⟨rfl, hrest⟩ := List.cons.inj htokens
    have hn := h.before _ (List.mem_cons_self ..)
    dsimp only at hn
    have h' : Between offset (k + 1) ts us fault :=
      ⟨fun t ht => h.before t (List.mem_cons_of_mem _ ht), h.after, h.fault⟩
    have := ih (hnext h') (by omega) (by simpa using hk) (Prod.ext hrest hfault)
    have hcut := Pattern.lexeme?_take (k := k + 1) hblank hlexeme (by omega)
    rw [List.take_succ_cons] at hcut ⊢
    rw [List.drop_succ_cons, scan_token hblank hcut, this.1]
    exact ⟨rfl, by rw [← this.2, show offset + (k + 1) = offset + 1 + k by omega]⟩
  | fault offset c rest hblank hlexeme =>
    rcases k with _ | k
    · exact hzero h hscan
    rw [scan_fault hblank hlexeme] at hscan
    obtain ⟨-, rfl⟩ := Prod.mk.inj hscan
    have := h.fault _ rfl
    dsimp only at this
    omega

/-- A fault stands within a text, and behind its tokens. -/
theorem scan_fault_bounds (inside offset : Nat) (cs : List Char) :
    ∀ error ∈ (scan inside offset cs).2, offset + inside ≤ error.offset ∧
      error.offset < offset + cs.length ∧ ∀ t ∈ (scan inside offset cs).1, t.stop ≤ error.offset := by
  induction inside, offset, cs using scan_induction with
  | nil => intro error herror; cases herror
  | skip inside offset c rest ih =>
    intro error herror
    rw [scan_skip] at herror ⊢
    obtain ⟨hstart, hstop, htokens⟩ := ih error herror
    exact ⟨by omega, by rw [List.length_cons]; omega, htokens⟩
  | blank offset c rest hblank ih =>
    intro error herror
    rw [scan_blank hblank] at herror ⊢
    obtain ⟨hstart, hstop, htokens⟩ := ih error herror
    exact ⟨by omega, by rw [List.length_cons]; omega, htokens⟩
  | token offset c rest l n hblank hlexeme ih =>
    intro error herror
    rw [scan_token hblank hlexeme] at herror ⊢
    obtain ⟨hstart, hstop, htokens⟩ := ih error herror
    refine ⟨by omega, by rw [List.length_cons]; omega, List.forall_mem_cons.2 ⟨?_, htokens⟩⟩
    dsimp only
    omega
  | fault offset c rest hblank hlexeme =>
    intro error herror
    rw [scan_fault hblank hlexeme] at herror ⊢
    obtain rfl := Option.mem_some_iff.1 herror
    exact ⟨Nat.le_refl _, by simp, by simp⟩

/-- The place where a token starts. -/
theorem between_start {t : Token} (hscan : scan 0 0 cs = (ts ++ t :: us, fault)) :
    Between 0 t.start ts (t :: us) fault := by
  have horder := scan_pairwise 0 0 cs
  have hbounds := scan_bounds 0 0 cs
  have hfault := scan_fault_bounds 0 0 cs
  simp only [hscan] at horder hbounds hfault
  obtain ⟨-, hafter, hbefore⟩ := List.pairwise_append.1 horder
  have ht := hbounds t (by simp)
  refine ⟨fun u hu => ?_, List.forall_mem_cons.2 ⟨by omega, fun u hu => ?_⟩, fun error herror => ?_⟩
  · have := hbefore u hu t (List.mem_cons_self ..)
    omega
  · have := (List.pairwise_cons.1 hafter).1 u hu
    omega
  · have := (hfault error herror).2.2 t (by simp)
    omega

/-- The place where a token ends. -/
theorem between_stop {t : Token} (hscan : scan 0 0 cs = (ts ++ [t] ++ us, fault)) :
    Between 0 t.stop (ts ++ [t]) us fault := by
  have horder := scan_pairwise 0 0 cs
  have hbounds := scan_bounds 0 0 cs
  have hfault := scan_fault_bounds 0 0 cs
  simp only [hscan] at horder hbounds hfault
  obtain ⟨hbefore, -, hafter⟩ := List.pairwise_append.1 horder
  refine ⟨List.forall_mem_append.2 ⟨fun u hu => ?_, by simp⟩, fun u hu => ?_, fun error herror => ?_⟩
  · have := (List.pairwise_append.1 hbefore).2.2 u hu t (List.mem_singleton_self t)
    have := hbounds t (by simp)
    omega
  · have := hafter t (by simp) u hu
    omega
  · have := (hfault error herror).2.2 t (by simp)
    omega

/-! ## Tokens and faults where they start -/

/-- The token at the front of a text is the lexeme there. -/
theorem exists_of_scan_eq_cons {t : Token} (hscan : scan 0 t.start cs = (t :: us, fault)) :
    ∃ c rest, cs = c :: rest ∧ Text.isBlank c = false ∧
      lexeme? (c :: rest) = some (t.lexeme, t.stop - t.start) := by
  rcases cs with _ | ⟨c, rest⟩
  · cases hscan
  cases hblank : Text.isBlank c with
  | true =>
    rw [scan_blank hblank] at hscan
    have hbounds := scan_bounds 0 (t.start + 1) rest t (by rw [hscan]; exact List.mem_cons_self ..)
    omega
  | false =>
    rcases hlexeme : lexeme? (c :: rest) with _ | ⟨l, n⟩
    · rw [scan_fault hblank hlexeme] at hscan
      cases hscan
    · obtain ⟨n, rfl⟩ := Nat.exists_eq_succ_of_ne_zero (lexeme?_length hlexeme).1.ne'
      rw [scan_token hblank hlexeme] at hscan
      obtain ⟨ht, -⟩ := List.cons.inj (Prod.mk.inj hscan).1
      have hl : l = t.lexeme := congrArg Token.lexeme ht
      have hstop : t.start + (n + 1) = t.stop := congrArg Token.stop ht
      refine ⟨c, rest, rfl, hblank, ?_⟩
      rw [hlexeme, hl, ← hstop, Nat.add_sub_cancel_left]

/-- The fault at the front of a text is a character that starts no lexeme. -/
theorem exists_of_scan_eq_fault {error : LexError} (hk : cs ≠ [])
    (hscan : scan 0 error.offset cs = ([], some error)) :
    ∃ c rest, cs = c :: rest ∧ Text.isBlank c = false ∧ lexeme? (c :: rest) = none := by
  obtain ⟨c, rest, rfl⟩ := List.exists_cons_of_ne_nil hk
  refine ⟨c, rest, rfl, ?_⟩
  cases hblank : Text.isBlank c with
  | true =>
    rw [scan_blank hblank] at hscan
    have hbounds := (scan_fault_bounds 0 (error.offset + 1) rest error (by rw [hscan]; rfl)).1
    omega
  | false =>
    rcases hlexeme : lexeme? (c :: rest) with _ | ⟨l, n⟩
    · exact ⟨rfl, rfl⟩
    · obtain ⟨n, rfl⟩ := Nat.exists_eq_succ_of_ne_zero (lexeme?_length hlexeme).1.ne'
      rw [scan_token hblank hlexeme] at hscan
      cases hscan

/-- What is neither in a token nor behind a fault is blank. -/
theorem blank_of_outside (inside offset : Nat) (cs : List Char) :
    ∀ i c, inside ≤ i → cs[i]? = some c →
      (∀ t ∈ (scan inside offset cs).1, offset + i < t.start ∨ t.stop ≤ offset + i) →
        (∀ error ∈ (scan inside offset cs).2, offset + i < error.offset) →
          Text.isBlank c = true := by
  induction inside, offset, cs using scan_induction with
  | nil => intro i c _ hc; simp at hc
  | skip inside offset d rest ih =>
    intro i c hi hc htokens hfault
    obtain ⟨i, rfl⟩ := Nat.exists_eq_succ_of_ne_zero (Nat.ne_zero_of_lt hi)
    rw [scan_skip] at htokens hfault
    rw [show offset + (i + 1) = offset + 1 + i by omega] at htokens hfault
    exact ih i c (by omega) hc htokens hfault
  | blank offset d rest hblank ih =>
    intro i c _ hc htokens hfault
    rcases i with _ | i
    · obtain rfl := Option.some.inj hc
      exact hblank
    rw [scan_blank hblank] at htokens hfault
    rw [show offset + (i + 1) = offset + 1 + i by omega] at htokens hfault
    exact ih i c (Nat.zero_le _) hc htokens hfault
  | token offset d rest l n hblank hlexeme ih =>
    intro i c _ hc htokens hfault
    rw [scan_token hblank hlexeme] at htokens hfault
    obtain ⟨hfirst, hothers⟩ := List.forall_mem_cons.1 htokens
    dsimp only at hfirst
    obtain ⟨i, rfl⟩ := Nat.exists_eq_succ_of_ne_zero (show i ≠ 0 by omega)
    rw [show offset + (i + 1) = offset + 1 + i by omega] at hothers hfault
    exact ih i c (by omega) hc hothers hfault
  | fault offset d rest hblank hlexeme =>
    intro i c _ hc htokens hfault
    rw [scan_fault hblank hlexeme] at hfault
    have := hfault _ rfl
    dsimp only at this
    omega

/-! ## Tiles -/

/-- The tokens tile the characters of a text up to a place. -/
structure Tiles (cs : List Char) (stop : Nat) (tokens : List Token) : Prop where
  /-- Every token takes characters, and none behind the place. -/
  within : ∀ t ∈ tokens, t.start < t.stop ∧ t.stop ≤ stop
  /-- The tokens stand one after another. -/
  ordered : tokens.Pairwise fun t u => t.stop ≤ u.start
  /-- A character outside the tokens is blank. -/
  blank : ∀ i c, i < stop → cs[i]? = some c → (∀ t ∈ tokens, i < t.start ∨ t.stop ≤ i) →
    Text.isBlank c = true
  /-- Every token is the longest match of the first pattern that applies where it starts. -/
  longest : ∀ t ∈ tokens, ∃ p : Pattern, p.IsFirst (cs.drop t.start) ∧
    p.IsLongest (cs.drop t.start) (t.stop - t.start) ∧
      p.Says ((cs.drop t.start).take (t.stop - t.start)) t.lexeme

/-- The tokens of a text tile it up to a place behind them, and not behind a fault. -/
theorem tiles_of_scan {stop : Nat} (hscan : scan 0 0 cs = (ts, fault))
    (hts : ∀ t ∈ ts, t.stop ≤ stop) (hfault : ∀ error ∈ fault, stop ≤ error.offset) :
    Tiles cs stop ts where
  within t ht := by
    have hbounds := scan_bounds 0 0 cs t (by rwa [hscan])
    exact ⟨hbounds.2.1, hts t ht⟩
  ordered := by
    have horder := scan_pairwise 0 0 cs
    rwa [hscan] at horder
  blank i c hi hc houtside := by
    refine blank_of_outside 0 0 cs i c (Nat.zero_le _) hc ?_ ?_
    · simpa only [hscan, Nat.zero_add] using houtside
    · rw [hscan]
      exact fun error herror => by have := hfault error herror; omega
  longest t ht := by
    obtain ⟨before, after, rfl⟩ := List.append_of_mem ht
    have hbounds := scan_bounds 0 0 cs t (by rw [hscan]; exact ht)
    obtain ⟨-, hread⟩ :=
      scan_split (between_start hscan) (Nat.zero_le _) (by omega) hscan
    rw [Nat.zero_add] at hread
    obtain ⟨c, rest, hcs, hblank, hlexeme⟩ := exists_of_scan_eq_cons hread
    have hanswers := Pattern.answers_lexeme? rest hblank
    rw [hlexeme] at hanswers
    rwa [hcs]

theorem tiles_of_tokenize {text : String} (h : tokenize text = .ok ts) :
    Tiles text.toList text.toList.length ts := by
  have hscan := tokenize_eq_ok_iff.1 h
  refine tiles_of_scan hscan (fun t ht => ?_) (by simp)
  have hbounds := scan_bounds 0 0 text.toList t (by rwa [hscan])
  omega

/-- A token that is not a string stands where the text spells it. -/
theorem Tiles.spelled {stop : Nat} (h : Tiles cs stop ts) {t : Token} (ht : t ∈ ts)
    (hstring : ∀ value, t.lexeme ≠ .string value) :
    (cs.drop t.start).take (t.stop - t.start) = t.lexeme.text.toList := by
  obtain ⟨p, -, -, htold⟩ := h.longest t ht
  cases p with
  | blanks => exact htold.elim
  | string quote =>
    obtain ⟨-, -, -, hkind, -⟩ := htold
    cases hlexeme : t.lexeme with
    | string value => exact absurd hlexeme (hstring value)
    | _ => rw [hlexeme] at hkind; exact absurd hkind (by simp [kind])
  | _ => exact htold.2.symm

/-- **The identifiers of a text are names.** -/
theorem isName_of_mem_tokenize {text : String} {t : Token} {name : String}
    (h : tokenize text = .ok ts) (ht : t ∈ ts) (hname : t.lexeme = .identifier name) :
    IsName name := by
  obtain ⟨p, -, hlongest, htold⟩ := (tiles_of_tokenize h).longest t ht
  rw [hname] at htold
  -- only a word is told of as an identifier
  cases p with
  | word =>
    obtain ⟨c, rest, hword, hc, hrest⟩ := mem_oneOf_mul.1 hlongest.1.2
    obtain ⟨hkind, hchars⟩ := htold
    split_ifs at hkind with hreserved
    · exact absurd hkind (by simp [kind])
    · rw [← show name.toList = _ from hchars] at hword hreserved
      refine ⟨⟨c, rest, hword, hc, mem_kstar_oneOf.1 hrest⟩, ?_, ?_⟩ <;>
        exact fun heq => hreserved (by simp [heq])
  | string quote =>
    obtain ⟨-, -, -, hkind, -⟩ := htold
    exact absurd hkind (by simp [kind])
  | blanks => exact htold.elim
  | _ => exact absurd htold.1 (by simp [kind])

/-- **The tokens of a text tile it.** They are not empty and stand one after another, there are only
blanks outside them, and each of them is the longest match of the first pattern of the table that
applies where it starts. A text that is refused is tiled in the same way up to the fault: the text
before it has the tokens that were read so far, and at the fault no pattern applies. -/
theorem tokenize_tiles (text : String) :
    match tokenize text with
    | .ok tokens => Tiles text.toList text.toList.length tokens
    | .error error =>
      error.offset < text.toList.length ∧
        ∃ tokens, scan 0 0 text.toList = (tokens, some error) ∧
          tokenize (String.ofList (text.toList.take error.offset)) = .ok tokens ∧
          Tiles text.toList error.offset tokens ∧
          ∀ p ∈ Pattern.table, ¬p.Applies (text.toList.drop error.offset) := by
  rcases hscan : scan 0 0 text.toList with ⟨tokens, _ | error⟩
  · have hread : tokenize text = .ok tokens := by rw [tokenize, tokenizeList, hscan]
    rw [hread]
    exact tiles_of_tokenize hread
  · have hread : tokenize text = .error error := by rw [tokenize, tokenizeList, hscan]
    rw [hread]
    have hbounds := scan_fault_bounds 0 0 text.toList error (by rw [hscan]; rfl)
    rw [hscan] at hbounds
    obtain ⟨-, hstop, htokens⟩ := hbounds
    rw [Nat.zero_add] at hstop
    have hbetween : Between 0 error.offset tokens [] (some error) :=
      ⟨by simpa using htokens, by simp, by simp⟩
    have hscan' : scan 0 0 text.toList = (tokens ++ [], some error) := by rwa [List.append_nil]
    obtain ⟨hbefore, hat⟩ := scan_split hbetween (Nat.zero_le _) hstop.le hscan'
    rw [Nat.zero_add] at hat
    refine ⟨hstop, tokens, rfl, ?_, tiles_of_scan hscan htokens (by simp), ?_⟩
    · rw [tokenize, tokenizeList, String.toList_ofList, hbefore]
    · have hne : text.toList.drop error.offset ≠ [] := by
        rw [Ne, List.drop_eq_nil_iff]
        omega
      obtain ⟨c, rest, hcs, hblank, hlexeme⟩ := exists_of_scan_eq_fault hne hat
      have hanswers := Pattern.answers_lexeme? rest hblank
      rw [hlexeme] at hanswers
      rwa [hcs]

/-- An escaped quote does not end a string, whose token runs to the quote that does. -/
example : tokenize "'it\\'s' == name" =
    .ok [⟨.string "it's", 0, 7⟩, ⟨.operator (.compare .eq), 8, 10⟩, ⟨.identifier "name", 11, 15⟩] := by
  decide +kernel

end Criteria
