import Criteria.Evaluation.Value
import Criteria.Proofs.Number.Numeral
import Criteria.Proofs.Token.Lexes
import Mathlib.Data.List.Forall2

/-!
# Spellings of numbers

The texts that spell a number, part by part: signs, digits, exponents, decimals, and natural numbers
in the base that a letter says (`Spells`). A text spells one number at most (`Spells.unique`), by
characters that are letters, digits, signs and points (`Spells.isNumberChar`).

Decimals and hexadecimal numbers are read by splitting off one part after the other.
What is read so is exactly what is spelled (`decimalNumber?_eq_some_iff`, `hexNumber?_eq_some_iff`).
-/

namespace Criteria

/-! ## Literals -/

/-- A sign, and whether it is a minus; no sign is none. -/
inductive IsSign : List Char → Bool → Prop
  | none : IsSign [] false
  | plus : IsSign ['+'] false
  | minus : IsSign ['-'] true

/-- One digit or more. -/
def IsDigits (run : List Char) : Prop := run ≠ [] ∧ ∀ c ∈ run, c.isDigit = true

/-- The exponent of ten that is spelled, zero when there is nothing. -/
inductive IsExponent : List Char → Int → Prop
  | none : IsExponent [] 0
  | given {e : Char} {sign run : List Char} {negative : Bool} (he : e = 'e' ∨ e = 'E')
      (hsign : IsSign sign negative) (hrun : IsDigits run) :
      IsExponent (e :: (sign ++ run))
        (if negative then -(Nat.ofDigitChars 10 run 0 : Int) else Nat.ofDigitChars 10 run 0)

/-- A decimal without sign: digits, perhaps with a point among or around them, and perhaps an
exponent. -/
inductive IsUnsigned : List Char → Decimal → Prop
  | whole {run power : List Char} {e : Int} (hrun : IsDigits run) (hpower : IsExponent power e) :
      IsUnsigned (run ++ power) (.ofParts run [] e)
  | point {whole fraction power : List Char} {e : Int} (hdigits : IsDigits (whole ++ fraction))
      (hpower : IsExponent power e) :
      IsUnsigned (whole ++ '.' :: (fraction ++ power)) (.ofParts whole fraction e)

/-- A natural number in the base that a letter behind a zero says. -/
inductive IsBased (letters : List (Char × Nat)) : List Char → Nat → Prop
  | mk {letter : Char} {base : Nat} {run : List Char} {digits : List Nat}
      (hletter : (letter, base) ∈ letters) (hne : run ≠ [])
      (hdigits : List.Forall₂ (fun c d => Hexadecimal.digit? c = some d ∧ d < base) run digits) :
      IsBased letters ('0' :: letter :: run) (digits.foldl (fun n d => base * n + d) 0)

/-- The letters of hexadecimal numerals. -/
def hexadecimal : List (Char × Nat) := [('x', 16), ('X', 16)]

/-- The letters of binary and octal numerals. -/
def binaryOctal : List (Char × Nat) := [('b', 2), ('B', 2), ('o', 8), ('O', 8)]

/-- The letters of all these numerals. -/
def bases : List (Char × Nat) := binaryOctal ++ hexadecimal

theorem hexadecimal_subset : hexadecimal ⊆ bases := List.subset_append_right ..

theorem binaryOctal_subset : binaryOctal ⊆ bases := List.subset_append_left ..

/-- The spellings of numbers, where some letters stand for bases: decimals, infinities and natural
numbers in such a base. -/
inductive Spells (letters : List (Char × Nat)) : List Char → Double → Prop
  | decimal {sign cs : List Char} {negative : Bool} {d : Decimal} (hsign : IsSign sign negative)
      (hcs : IsUnsigned cs d) : Spells letters (sign ++ cs) (.ofDecimal negative d)
  | infinity {sign : List Char} {negative : Bool} (hsign : IsSign sign negative) :
      Spells letters (sign ++ "Infinity".toList) (.infinite negative)
  | based {cs : List Char} {n : Nat} (h : IsBased letters cs n) : Spells letters cs (.ofInt n)

/-! ## Reading decimals -/

section Decimals

open Decimal

variable {cs rest run sign : List Char} {negative : Bool} {e : Int}

theorem exists_sign (cs : List Char) :
    ∃ sign, IsSign sign (splitSign cs).1 ∧ cs = sign ++ (splitSign cs).2 := by
  unfold splitSign
  split
  · exact ⟨['-'], .minus, rfl⟩
  · exact ⟨['+'], .plus, rfl⟩
  · exact ⟨[], .none, rfl⟩

theorem splitSign_append (h : IsSign sign negative) (hcs : ∀ c ∈ cs.head?, c ≠ '-' ∧ c ≠ '+') :
    splitSign (sign ++ cs) = (negative, cs) := by
  cases h with
  | none =>
    cases cs with
    | nil => rfl
    | cons c rest =>
      obtain ⟨hminus, hplus⟩ := hcs c rfl
      exact splitSign.eq_3 _ (by simpa using hminus) (by simpa using hplus)
  | plus => rfl
  | minus => rfl

theorem splitDigits_append (h : ∀ c ∈ run, c.isDigit = true)
    (hrest : ∀ c ∈ rest.head?, c.isDigit = false) : splitDigits (run ++ rest) = (run, rest) := by
  rw [splitDigits, List.takeWhile_append_of_pos h, List.dropWhile_append_of_pos h]
  cases rest with
  | nil => simp
  | cons c rest => simp [hrest c rfl]

/-- Digits come first. -/
theorem splitDigits_spec (cs : List Char) :
    cs = (splitDigits cs).1 ++ (splitDigits cs).2 ∧ ∀ c ∈ (splitDigits cs).1, c.isDigit = true :=
  ⟨List.takeWhile_append_dropWhile.symm, fun _ hc => List.mem_takeWhile_imp hc⟩

/-- What is read to its end as an exponent is one. -/
theorem isExponent_of_splitExponent (h : (splitExponent cs).2 = []) :
    IsExponent cs ((splitExponent cs).1.getD 0) := by
  cases cs with
  | nil => exact .none
  | cons e tail =>
    by_cases he : e = 'e' ∨ e = 'E'
    · simp only [splitExponent, if_pos he] at h ⊢
      obtain ⟨sign, hsign, htail⟩ := exists_sign tail
      rcases hsplit : splitSign tail with ⟨negative, unsigned⟩
      obtain ⟨hunsigned, hdigit⟩ := splitDigits_spec unsigned
      rcases hdigits : splitDigits unsigned with ⟨run, rest⟩
      rw [hsplit] at h hsign htail
      simp only [hdigits] at h hunsigned hdigit ⊢
      cases run with
      | nil => cases h
      | cons first more =>
        obtain rfl : rest = [] := h
        rw [List.append_nil] at hunsigned
        rw [htail, hunsigned]
        exact .given he hsign ⟨List.cons_ne_nil _ _, hdigit⟩
    · simp only [splitExponent, if_neg he] at h
      cases h

/-- Exponents are read to their end. -/
theorem splitExponent_of_isExponent (h : IsExponent cs e) :
    (splitExponent cs).1.getD 0 = e ∧ (splitExponent cs).2 = [] := by
  cases h with
  | none => exact ⟨rfl, rfl⟩
  | given he hsign hrun =>
    rename_i mark sign run negative
    obtain ⟨hne, hdigit⟩ := hrun
    have hsplit := splitDigits_digits hdigit
    have hhead : ∀ c ∈ run.head?, c ≠ '-' ∧ c ≠ '+' := by
      intro c hc
      have := hdigit c (List.mem_of_mem_head? hc)
      constructor <;> rintro rfl <;> cases this
    simp only [splitExponent, if_pos he, splitSign_append hsign hhead, hsplit]
    cases run with
    | nil => exact absurd rfl hne
    | cons => exact ⟨rfl, trivial⟩

/-- No digit, sign or point begins an exponent. -/
theorem IsExponent.head (h : IsExponent cs e) {c : Char} (hc : c ∈ cs.head?) :
    c = 'e' ∨ c = 'E' := by
  cases h with
  | none => cases hc
  | given he =>
    obtain rfl := Option.mem_some.1 hc
    exact he

/-- A decimal without sign begins with a digit or a point. -/
theorem IsUnsigned.head {d : Decimal} (h : IsUnsigned cs d) {c : Char} (hc : c ∈ cs.head?) :
    c.isDigit = true ∨ c = '.' := by
  cases h with
  | whole hrun =>
    rename_i run _ _ _
    cases run with
    | nil => exact absurd rfl hrun.1
    | cons first _ =>
      obtain rfl := Option.mem_some.1 hc
      exact .inl (hrun.2 _ (List.mem_cons_self ..))
  | point hdigits =>
    rename_i whole _ _ _ _
    cases whole with
    | nil =>
      obtain rfl := Option.mem_some.1 hc
      exact .inr rfl
    | cons first _ =>
      obtain rfl := Option.mem_some.1 hc
      exact .inl (hdigits.2 _ (List.mem_cons_self ..))

theorem IsUnsigned.not_sign {d : Decimal} (h : IsUnsigned cs d) :
    ∀ c ∈ cs.head?, c ≠ '-' ∧ c ≠ '+' := by
  intro c hc
  rcases h.head hc with hdigit | rfl
  · constructor <;> rintro rfl <;> cases hdigit
  · decide

theorem IsExponent.not_digit (h : IsExponent cs e) : ∀ c ∈ cs.head?, c.isDigit = false := by
  intro c hc
  rcases h.head hc with rfl | rfl <;> rfl

/-- **What is read as a decimal number is a decimal with a sign**, and no other text is. -/
theorem decimalNumber?_eq_some_iff {x : Double} : Value.decimalNumber? cs = some x ↔
    ∃ sign unsigned negative d, IsSign sign negative ∧ IsUnsigned unsigned d ∧
      cs = sign ++ unsigned ∧ x = .ofDecimal negative d := by
  constructor
  · intro h
    obtain ⟨sign, hsign, hcs⟩ := exists_sign cs
    rcases hsplit : splitSign cs with ⟨negative, unsigned⟩
    obtain ⟨hunsigned, hwhole⟩ := splitDigits_spec unsigned
    rcases hdigits : splitDigits unsigned with ⟨whole, after⟩
    simp only [hsplit] at hsign hcs
    simp only [hdigits] at hunsigned hwhole
    simp only [Value.decimalNumber?, hsplit, hdigits] at h
    split at h
    · rename_i tail
      obtain ⟨htail, hfraction⟩ := splitDigits_spec tail
      split_ifs at h with hempty
      rw [not_or, not_not, List.isEmpty_iff, List.isEmpty_iff, List.isEmpty_iff] at hempty
      have hrun : IsDigits (whole ++ (splitDigits tail).1) :=
        ⟨by simpa using hempty.1, List.forall_mem_append.2 ⟨hwhole, hfraction⟩⟩
      have hdecimal := IsUnsigned.point hrun (isExponent_of_splitExponent hempty.2)
      rw [← htail, ← hunsigned] at hdecimal
      exact ⟨sign, unsigned, negative, _, hsign, hdecimal, hcs, (Option.some.inj h).symm⟩
    · split_ifs at h with hempty
      simp only [not_or, not_not, List.isEmpty_iff, List.isEmpty_nil, and_true] at hempty
      have hdecimal := IsUnsigned.whole ⟨hempty.1, hwhole⟩ (isExponent_of_splitExponent hempty.2)
      rw [← hunsigned] at hdecimal
      exact ⟨sign, unsigned, negative, _, hsign, hdecimal, hcs, (Option.some.inj h).symm⟩
  · rintro ⟨sign, unsigned, negative, d, hsign, hunsigned, rfl, rfl⟩
    simp only [Value.decimalNumber?, splitSign_append hsign hunsigned.not_sign]
    cases hunsigned with
    | whole hrun hpower =>
      rename_i run power e
      obtain ⟨he, hrest⟩ := splitExponent_of_isExponent hpower
      simp only [splitDigits_append hrun.2 hpower.not_digit]
      split
      · rcases hpower.head rfl with h | h <;> cases h
      · simp [hrun.1, he, hrest]
    | point hdigits hpower =>
      rename_i whole fraction power e
      obtain ⟨hne, hdigit⟩ := hdigits
      obtain ⟨hwhole, hfraction⟩ := List.forall_mem_append.1 hdigit
      obtain ⟨he, hrest⟩ := splitExponent_of_isExponent hpower
      simp only [splitDigits_point hwhole, splitDigits_append hfraction hpower.not_digit, he, hrest]
      simpa using hne

end Decimals

/-! ## Reading numerals with a letter -/

theorem mapM_eq_some_iff {α β : Type} {f : α → Option β} {items : List α} {values : List β} :
    items.mapM f = some values ↔
      List.Forall₂ (fun item value => f item = some value) items values := by
  induction items generalizing values with
  | nil => simp
  | cons item rest ih =>
    rw [List.mapM_cons, List.forall₂_cons_left_iff]
    simp only [← ih, Option.bind_eq_bind, Option.bind_eq_some_iff]
    constructor
    · rintro ⟨value, hvalue, values, hvalues, ⟨⟩⟩
      exact ⟨value, values, hvalue, hvalues, rfl⟩
    · rintro ⟨value, values, hvalue, hvalues, rfl⟩
      exact ⟨value, hvalue, values, hvalues, rfl⟩

/-- The digits of hexadecimal numbers, and their values. -/
theorem range_of_digit? {c : Char} {d : Nat} (h : Hexadecimal.digit? c = some d) :
    d < 16 ∧ c.isAlphanum = true := by
  have hle : ∀ {a b : Char}, a ≤ b ↔ a.toNat ≤ b.toNat := UInt32.le_iff_toNat_le
  have ha : 'a'.toNat = 97 := rfl
  have hf : 'f'.toNat = 102 := rfl
  have hA : 'A'.toNat = 65 := rfl
  have hF : 'F'.toNat = 70 := rfl
  simp only [Hexadecimal.digit?, isDigit_iff, hle, ha, hf, hA, hF] at h
  simp only [Char.isAlphanum, Bool.or_eq_true, isAlpha_iff, isDigit_iff]
  split_ifs at h with hdigit hsmall hcapital
  · obtain rfl := Option.some.inj h
    omega
  · obtain rfl := Option.some.inj h
    omega
  · obtain rfl := Option.some.inj h
    omega

/-- **What is read as a hexadecimal number is one**, and no other text is. -/
theorem hexNumber?_eq_some_iff {cs : List Char} {n : Nat} :
    Value.hexNumber? cs = some n ↔ IsBased hexadecimal cs n := by
  constructor
  · intro h
    unfold Value.hexNumber? at h
    split at h
    · rename_i x first rest
      split_ifs at h with hx
      obtain ⟨digits, hdigits, hn⟩ := Option.bind_eq_some_iff.1 h
      obtain rfl := Option.some.inj hn
      refine .mk (by rcases hx with rfl | rfl <;> decide) (List.cons_ne_nil _ _) ?_
      exact (mapM_eq_some_iff.1 hdigits).imp fun c d h => ⟨h, (range_of_digit? h).1⟩
    · cases h
  · rintro ⟨hletter, hne, hdigits⟩
    rename_i letter base run digits
    have hread : run.mapM Hexadecimal.digit? = some digits :=
      mapM_eq_some_iff.2 (hdigits.imp fun _ _ h => h.1)
    obtain ⟨hbase, hx⟩ : base = 16 ∧ (letter = 'x' ∨ letter = 'X') := by
      simpa [hexadecimal, and_comm, ← or_and_right] using hletter
    obtain ⟨first, rest, rfl⟩ := List.exists_cons_of_ne_nil hne
    rw [Value.hexNumber?, if_pos hx, Hexadecimal.read?, hread, hbase]
    rfl

/-! ## The characters of numbers -/

/-- A character that occurs in spellings of numbers. -/
def isNumberChar (c : Char) : Bool := c.isAlphanum || c = '+' || c = '-' || c = '.'

theorem isNumberChar_of_isDigit {c : Char} (h : c.isDigit = true) : isNumberChar c = true := by
  simp [isNumberChar, Char.isAlphanum, h]

theorem isNumberChar_of_digit? {c : Char} {d : Nat} (h : Hexadecimal.digit? c = some d) :
    isNumberChar c = true := by
  simp [isNumberChar, (range_of_digit? h).2]

section Characters

variable {cs : List Char} {c : Char}

theorem IsSign.isNumberChar {negative : Bool} (h : IsSign cs negative) (hc : c ∈ cs) :
    isNumberChar c = true := by
  cases h with
  | none => cases hc
  | plus => exact List.mem_singleton.1 hc ▸ rfl
  | minus => exact List.mem_singleton.1 hc ▸ rfl

theorem IsExponent.isNumberChar {e : Int} (h : IsExponent cs e) (hc : c ∈ cs) :
    isNumberChar c = true := by
  cases h with
  | none => cases hc
  | given he hsign hrun =>
    rcases List.mem_cons.1 hc with rfl | hc
    · rcases he with rfl | rfl <;> rfl
    · rcases List.mem_append.1 hc with hc | hc
      · exact hsign.isNumberChar hc
      · exact isNumberChar_of_isDigit (hrun.2 c hc)

theorem IsUnsigned.isNumberChar {d : Decimal} (h : IsUnsigned cs d) (hc : c ∈ cs) :
    isNumberChar c = true := by
  cases h with
  | whole hrun hpower =>
    rcases List.mem_append.1 hc with hc | hc
    · exact isNumberChar_of_isDigit (hrun.2 c hc)
    · exact hpower.isNumberChar hc
  | point hdigits hpower =>
    obtain ⟨hwhole, hfraction⟩ := List.forall_mem_append.1 hdigits.2
    simp only [List.mem_append, List.mem_cons] at hc
    rcases hc with hc | rfl | hc | hc
    · exact isNumberChar_of_isDigit (hwhole c hc)
    · rfl
    · exact isNumberChar_of_isDigit (hfraction c hc)
    · exact hpower.isNumberChar hc

theorem IsBased.isNumberChar {n : Nat} (h : IsBased bases cs n) (hc : c ∈ cs) :
    isNumberChar c = true := by
  obtain ⟨hletter, -, hdigits⟩ := h
  simp only [List.mem_cons] at hc
  rcases hc with rfl | rfl | hc
  · rfl
  · have hletters : ∀ p ∈ bases, Criteria.isNumberChar p.1 = true := by decide
    exact hletters _ hletter
  · clear * - hdigits hc
    induction hdigits with
    | nil => cases hc
    | cons hd _ ih =>
      rcases List.mem_cons.1 hc with rfl | hc
      · exact isNumberChar_of_digit? hd.1
      · exact ih hc

/-- The characters of a number are letters, digits, signs and points. -/
theorem Spells.isNumberChar {x : Double} (h : Spells bases cs x) (hc : c ∈ cs) :
    isNumberChar c = true := by
  cases h with
  | decimal hsign hcs =>
    rcases List.mem_append.1 hc with hc | hc
    · exact hsign.isNumberChar hc
    · exact hcs.isNumberChar hc
  | infinity hsign =>
    rcases List.mem_append.1 hc with hc | hc
    · exact hsign.isNumberChar hc
    · have hletters : "Infinity".toList.all Criteria.isNumberChar = true := rfl
      exact List.all_eq_true.1 hletters c hc
  | based h => exact h.isNumberChar hc

end Characters

/-! ## One text, one number -/

section Unique

variable {letters : List (Char × Nat)} {cs : List Char} {x y : Double}

theorem IsBased.mono {more : List (Char × Nat)} {n : Nat} (h : IsBased letters cs n)
    (hsub : letters ⊆ more) : IsBased more cs n := by
  obtain ⟨hletter, hne, hdigits⟩ := h
  exact .mk (hsub hletter) hne hdigits

theorem Spells.mono {more : List (Char × Nat)} (h : Spells letters cs x) (hsub : letters ⊆ more) :
    Spells more cs x := by
  cases h with
  | decimal hsign hcs => exact .decimal hsign hcs
  | infinity hsign => exact .infinity hsign
  | based h => exact .based (h.mono hsub)

theorem IsBased.unique {n n' : Nat} (h : IsBased bases cs n) (h' : IsBased bases cs n') :
    n = n' := by
  have hbase : ∀ p ∈ bases, ∀ q ∈ bases, p.1 = q.1 → p.2 = q.2 := by decide
  obtain ⟨hletter, -, hdigits⟩ := h
  rename_i letter base run digits
  generalize hcs : '0' :: letter :: run = cs at h'
  obtain ⟨hletter', -, hdigits'⟩ := h'
  obtain ⟨rfl, rfl⟩ := List.cons.inj (List.cons.inj hcs).2
  obtain rfl : base = _ := hbase _ hletter _ hletter' rfl
  congr 1
  have hright : Relator.RightUnique fun c d => Hexadecimal.digit? c = some d ∧ d < base :=
    fun _ _ _ h h' => Option.some.inj (h.1.symm.trans h'.1)
  exact List.right_unique_forall₂' hright hdigits hdigits'

/-- A number with a base is no decimal. -/
theorem IsBased.decimalNumber?_eq_none {n : Nat} (h : IsBased bases cs n) :
    Value.decimalNumber? cs = none := by
  obtain ⟨hletter, -, -⟩ := h
  rename_i letter base run digits
  obtain ⟨hdigit, hpoint, he⟩ :
      letter.isDigit = false ∧ letter ≠ '.' ∧ ¬(letter = 'e' ∨ letter = 'E') := by
    have hmarks : ∀ p ∈ bases, p.1.isDigit = false ∧ p.1 ≠ '.' ∧ ¬(p.1 = 'e' ∨ p.1 = 'E') := by
      decide
    exact hmarks _ hletter
  have hsplit : Decimal.splitDigits (['0'] ++ letter :: run) = (['0'], letter :: run) :=
    splitDigits_append (List.forall_mem_singleton.2 rfl) (by simpa using hdigit)
  have hsign : Decimal.splitSign ('0' :: letter :: run) = (false, ['0'] ++ letter :: run) := rfl
  simp only [Value.decimalNumber?, hsign, hsplit]
  split
  · rename_i heq
    exact absurd (List.cons.inj heq).1 hpoint
  · simp [Decimal.splitExponent, he]

theorem IsBased.ne_infinity {n : Nat} (h : IsBased bases cs n) {sign : List Char} {negative : Bool}
    (hsign : IsSign sign negative) : cs ≠ sign ++ "Infinity".toList := by
  rintro rfl
  cases hsign <;> cases h

theorem decimalNumber?_infinity {sign : List Char} {negative : Bool} (h : IsSign sign negative) :
    Value.decimalNumber? (sign ++ "Infinity".toList) = none := by
  cases h <;> rfl

/-- A number is a decimal, an infinity or a natural number in a base. -/
theorem spells_iff : Spells letters cs x ↔ Value.decimalNumber? cs = some x ∨
    (∃ sign negative, IsSign sign negative ∧ cs = sign ++ "Infinity".toList ∧
      x = .infinite negative) ∨ ∃ n, IsBased letters cs n ∧ x = .ofInt n := by
  rw [decimalNumber?_eq_some_iff]
  constructor
  · rintro (⟨hsign, hcs⟩ | hsign | h)
    · exact .inl ⟨_, _, _, _, hsign, hcs, rfl, rfl⟩
    · exact .inr (.inl ⟨_, _, hsign, rfl, rfl⟩)
    · exact .inr (.inr ⟨_, h, rfl⟩)
  · rintro (⟨_, _, _, _, hsign, hcs, rfl, rfl⟩ | ⟨_, _, hsign, rfl, rfl⟩ | ⟨_, h, rfl⟩)
    · exact .decimal hsign hcs
    · exact .infinity hsign
    · exact .based h

theorem Double.ofQuotient_ne_nan (negative : Bool) (num den : Nat) :
    Double.ofQuotient negative num den ≠ .nan := by
  simp only [Double.ofQuotient, Double.pack]
  split_ifs <;> simp

theorem Spells.ne_nan (h : Spells letters cs x) : x ≠ .nan := by
  cases h with
  | decimal =>
    rw [Double.ofDecimal_eq]
    exact Double.ofQuotient_ne_nan _ _ _
  | infinity => nofun
  | based => exact Double.ofQuotient_ne_nan _ _ _

/-- **A text spells one number at most.** -/
theorem Spells.unique (h : Spells bases cs x) (h' : Spells bases cs y) : x = y := by
  rcases spells_iff.1 h with hx | ⟨sign, negative, hsign, rfl, rfl⟩ | ⟨n, hn, rfl⟩
  · rcases spells_iff.1 h' with hy | ⟨_, _, hsign, rfl, rfl⟩ | ⟨n, hn, rfl⟩
    · exact Option.some.inj (hx.symm.trans hy)
    · rw [decimalNumber?_infinity hsign] at hx
      cases hx
    · rw [hn.decimalNumber?_eq_none] at hx
      cases hx
  · rcases spells_iff.1 h' with hy | ⟨sign', negative', hsign', heq, rfl⟩ | ⟨n, hn, rfl⟩
    · rw [decimalNumber?_infinity hsign] at hy
      cases hy
    · obtain rfl := List.append_cancel_right heq
      cases hsign <;> cases hsign' <;> rfl
    · exact absurd rfl (hn.ne_infinity hsign)
  · rcases spells_iff.1 h' with hy | ⟨_, _, hsign, rfl, rfl⟩ | ⟨n', hn', rfl⟩
    · rw [hn.decimalNumber?_eq_none] at hy
      cases hy
    · exact absurd rfl (hn.ne_infinity hsign)
    · rw [hn.unique hn']

end Unique

end Criteria
