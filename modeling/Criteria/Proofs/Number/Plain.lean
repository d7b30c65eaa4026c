import Criteria.Proofs.Number.Written

/-!
# Numbers without exponents

`Denotes cs q` says that the text is a decimal with a sign whose number is `q`. A text denotes one
number at most (`Denotes.unique`).

* In messages a finite double is written by its shortest decimal, with an exponent when it is large
  or small (`Double.denotes_text`).
* In conditions it is written without one: an integral double as an integer, and any other one by
  its text in messages, where an exponent is written out (`Double.plain?_eq_expanded`).
* So its text is an optional minus and one token (`IsPlain`). The text of an integral double denotes
  its value, and any other one denotes the number that the text in messages denotes
  (`Double.plain_denotes`).
-/

namespace Criteria

open Decimal

/-! ## Numbers that texts denote -/

/-- The number of a decimal with a sign. -/
inductive Denotes : List Char → ℚ → Prop
  | decimal {sign cs : List Char} {negative : Bool} {d : Decimal} (hsign : IsSign sign negative)
      (hcs : IsUnsigned cs d) : Denotes (sign ++ cs) (signed negative d)

/-- An optional minus and one number token: digits, or digits around a point. -/
def IsPlain (cs : List Char) : Prop :=
  ∃ (negative : Bool) (numeral : List Char), cs = (if negative then ['-'] else []) ++ numeral ∧
    IsNumeral numeral ∧ tokenize (String.ofList numeral) =
      .ok [⟨.number (String.ofList numeral), 0, numeral.length⟩]

/-! ## One text, one number -/

/-- The decimal that a text without sign is read as. -/
def Decimal.ofUnsigned (cs : List Char) : Decimal :=
  match splitDigits cs with
  | (whole, '.' :: tail) =>
    let (fraction, power) := splitDigits tail
    ofParts whole fraction ((splitExponent power).1.getD 0)
  | (run, power) => ofParts run [] ((splitExponent power).1.getD 0)

theorem IsUnsigned.eq_ofUnsigned {cs : List Char} {d : Decimal} (h : IsUnsigned cs d) :
    d = .ofUnsigned cs := by
  unfold ofUnsigned
  cases h with
  | whole hrun hpower =>
    rw [splitDigits_append hrun.2 hpower.not_digit]
    split
    · -- no exponent begins with a point
      rename_i heq
      obtain ⟨-, rfl⟩ := Prod.mk.inj heq
      rcases hpower.head rfl with h | h <;> cases h
    · rename_i heq
      obtain ⟨rfl, rfl⟩ := Prod.mk.inj heq
      rw [(splitExponent_of_isExponent hpower).1]
  | point hdigits hpower =>
    obtain ⟨hwhole, hfraction⟩ := List.forall_mem_append.1 hdigits.2
    simp only [splitDigits_point hwhole, splitDigits_append hfraction hpower.not_digit,
      (splitExponent_of_isExponent hpower).1]

/-- **A text denotes one number at most.** -/
theorem Denotes.unique {cs : List Char} {q r : ℚ} (h : Denotes cs q) (h' : Denotes cs r) :
    q = r := by
  obtain @⟨sign, unsigned, negative, d, hsign, hcs⟩ := h
  generalize heq : sign ++ unsigned = text at h'
  obtain ⟨hsign', hcs'⟩ := h'
  have hsplit := splitSign_append hsign hcs.not_sign
  rw [heq, splitSign_append hsign' hcs'.not_sign] at hsplit
  obtain ⟨rfl, rfl⟩ := Prod.mk.inj hsplit
  rw [hcs.eq_ofUnsigned, hcs'.eq_ofUnsigned]

theorem Denotes.iff_eq {cs : List Char} {q : ℚ} (h : Denotes cs q) (r : ℚ) :
    Denotes cs r ↔ r = q :=
  ⟨fun h' => h'.unique h, fun heq => heq ▸ h⟩

/-! ## Exponents -/

/-- A decimal text with its exponent written out. -/
def Decimal.expanded (cs : List Char) : List Char :=
  let (negative, unsigned) := splitSign cs
  (if negative then ['-'] else []) ++ (ofUnsigned unsigned).positional

namespace Decimal

theorem mem_scientific (d : Decimal) : 'e' ∈ d.scientific := by
  unfold scientific
  generalize Nat.toDigits 10 d.digits = run
  rcases run with _ | ⟨first, _ | ⟨second, more⟩⟩ <;> simp

theorem not_mem_positional {d : Decimal} (h : d.exponent < 0) : 'e' ∉ d.positional := by
  obtain ⟨whole, fraction, htext, -, -, hdigit, -⟩ := positional_of_neg h
  rw [htext, List.mem_append, List.mem_cons]
  rintro (hmem | hmem | hmem)
  · exact absurd (hdigit _ (List.mem_append_left _ hmem)) (by decide)
  · exact absurd hmem (by decide)
  · exact absurd (hdigit _ (List.mem_append_right _ hmem)) (by decide)

end Decimal

/-! ## Integers -/

theorem toList_toString (n : Int) : (toString n).toList =
    (if decide (n < 0) = true then ['-'] else []) ++ Nat.toDigits 10 n.natAbs := by
  cases n with
  | ofNat m => exact Nat.toList_repr
  | negSucc m =>
    have htext : toString (Int.negSucc m) = "-" ++ Nat.repr (m + 1) := rfl
    have hneg := decide_eq_true (Int.negSucc_lt_zero m)
    rw [htext, String.toList_append, Nat.toList_repr, if_pos hneg]
    rfl

/-- Digits are one token. -/
theorem isPlain_of_isNumeral (negative : Bool) {numeral : List Char} (h : IsNumeral numeral) :
    IsPlain ((if negative = true then ['-'] else []) ++ numeral) :=
  ⟨negative, numeral, rfl, h, tokenize_numeral h⟩

theorem isPlain_toString (n : Int) : IsPlain (toString n).toList := by
  obtain ⟨hne, hdigit⟩ := isDigits_toDigits n.natAbs
  rw [toList_toString]
  exact isPlain_of_isNumeral _ (.whole hne hdigit)

theorem denotes_toString (n : Int) : Denotes (toString n).toList n := by
  have hdenotes := Denotes.decimal (isSign_minus (decide (n < 0)))
    (.whole (isDigits_toDigits n.natAbs) .none)
  have hvalue : signed (decide (n < 0)) (ofParts (Nat.toDigits 10 n.natAbs) [] 0) = n := by
    have habs : (n.natAbs : ℚ) = |(n : ℚ)| := by rw [Nat.cast_natAbs, Int.cast_abs]
    rw [ofParts, List.append_nil, Nat.ofDigitChars_ten_toDigits, signed, value, List.length_nil,
      Nat.cast_zero, sub_zero, zpow_zero, mul_one, habs]
    split_ifs with hneg
    · rw [abs_of_neg (Int.cast_lt_zero.2 (of_decide_eq_true hneg)), neg_neg]
    · exact abs_of_nonneg (Int.cast_nonneg (by simpa using hneg))
  rw [hvalue, List.append_nil] at hdenotes
  rwa [toList_toString]

/-! ## Doubles -/

namespace Double

theorem toList_signed (negative : Bool) (cs : List Char) :
    (if negative = true then "-" ++ String.ofList cs else String.ofList cs).toList =
      (if negative = true then ['-'] else []) ++ cs := by
  split_ifs
  · rw [String.toList_append]
    exact congrArg ('-' :: ·) String.toList_ofList
  · exact String.toList_ofList

/-- The text of a size spells its shortest decimal. -/
theorem exists_isUnsigned_sizeText {m s : Nat} (h : Canonical m s) :
    ∃ d, IsUnsigned (sizeText m s) d ∧ d.value = (shortest m s).value := by
  simp only [sizeText]
  split_ifs with hzero _ hwhole
  · subst hzero
    obtain rfl : s = 0 := by simpa [Canonical] using h.2.2
    have hdigits : (shortest 0 0).digits = 0 := by decide +kernel
    have hrun : IsDigits ['0'] := ⟨List.cons_ne_nil _ _, List.forall_mem_singleton.2 rfl⟩
    have hpoint : IsDigits (['0'] ++ ['0']) :=
      ⟨List.cons_ne_nil _ _, List.forall_mem_append.2 ⟨hrun.2, hrun.2⟩⟩
    refine ⟨_, .point hpoint .none, ?_⟩
    rw [value, value, hdigits, Nat.cast_zero, zero_mul]
    exact mul_eq_zero_of_left Nat.cast_zero _
  · exact isUnsigned_positional_zero hwhole
  · exact isUnsigned_positional _
  · exact ⟨_, isUnsigned_scientific _, rfl⟩

/-- **In messages a double is written by its shortest decimal.** -/
theorem denotes_text (negative : Bool) {m s : Nat} (h : Canonical m s) :
    Denotes (Double.finite negative m s h).text.toList (signed negative (shortest m s)) := by
  obtain ⟨d, hd, hvalue⟩ := exists_isUnsigned_sizeText h
  have hdenotes := Denotes.decimal (isSign_minus negative) hd
  rw [signed_congr hvalue, ← toList_signed] at hdenotes
  exact hdenotes

theorem sizeText_of_not_int {negative : Bool} {m s : Nat} {h : Canonical m s}
    (hint : (Double.finite negative m s h).toInt? = none) :
    sizeText m s = (shortest m s).positional ∨ sizeText m s = (shortest m s).scientific := by
  have hneg := exponent_shortest_neg hint
  simp only [sizeText]
  split_ifs with hzero _ hwhole
  · subst hzero
    rw [toInt_finite_zero] at hint
    cases hint
  · omega
  · exact .inl rfl
  · exact .inr rfl

/-- **The text in conditions comes from the text in messages**: an exponent is written out, and
integral doubles are written as integers. -/
theorem plain?_eq_expanded {d : Double} (h : d.isFinite = true) :
    d.plain? = some (match d.toInt? with
      | some n => toString n
      | none => if 'e' ∈ d.text.toList then String.ofList (expanded d.text.toList) else d.text) := by
  cases d with
  | nan => cases h
  | infinite => cases h
  | finite negative m s hc =>
    cases hint : (Double.finite negative m s hc).toInt? with
    | some n => exact plain?_of_toInt hint
    | none =>
      have htext : (Double.finite negative m s hc).text =
          if negative = true then "-" ++ String.ofList (sizeText m s)
          else String.ofList (sizeText m s) := by
        rw [text, textWith]
      simp only [plain?, hint, htext, toList_signed]
      rcases sizeText_of_not_int hint with hsize | hsize
      · have hmem : 'e' ∉ (if negative = true then ['-'] else []) ++ (shortest m s).positional := by
          have hsign : 'e' ∉ (if negative = true then ['-'] else []) := by
            cases negative <;> decide
          rw [List.mem_append, not_or]
          exact ⟨hsign, not_mem_positional (exponent_shortest_neg hint)⟩
        rw [hsize, if_neg hmem]
      · have hscientific := isUnsigned_scientific (shortest m s)
        have hmem : 'e' ∈ (if negative = true then ['-'] else []) ++ (shortest m s).scientific :=
          List.mem_append_right _ (mem_scientific _)
        rw [hsize, if_pos hmem, expanded,
          splitSign_append (isSign_minus negative) hscientific.not_sign]
        simp only [← hscientific.eq_ofUnsigned]
        rw [← toList_signed, String.ofList_toList]

/-- **In conditions a finite double is written without exponent**, as an optional minus and one
number token. When it is integral the text denotes its value. Otherwise it denotes the same number
as the text in messages, which is that of the shortest decimal that reads back as the double. -/
theorem plain_denotes {d : Double} (h : d.isFinite = true) :
    ∃ text q, d.plain? = some text ∧ IsPlain text.toList ∧ (∀ r, Denotes text.toList r ↔ r = q) ∧
      ((∃ n : ℤ, d.value? = some (n : ℚ)) → d.value? = some q) ∧
      ((¬∃ n : ℤ, d.value? = some (n : ℚ)) → ∀ r, Denotes d.text.toList r ↔ r = q) ∧
      ∃ negative digits, IsShortest negative d digits ∧
        ∀ r, Denotes d.text.toList r ↔ r = signed negative digits := by
  cases d with
  | nan => cases h
  | infinite => cases h
  | finite negative m s hc =>
    have htext := (denotes_text negative hc).iff_eq
    have hshortest := isShortest_shortest negative hc
    cases hint : (Double.finite negative m s hc).toInt? with
    | some n =>
      have hvalue := eqInt_iff_value.1 (eqInt_iff.2 hint)
      exact ⟨_, n, plain?_of_toInt hint, isPlain_toString n, (denotes_toString n).iff_eq,
        fun _ => hvalue, fun hnot => absurd ⟨n, hvalue⟩ hnot, _, _, hshortest, htext⟩
    | none =>
      obtain ⟨whole, fraction, hplain, hwhole, hfraction, hdigit, hparts⟩ := plain?_of_not_int hint
      have hpoint := IsUnsigned.point ⟨by simp [hwhole], hdigit⟩ .none
      rw [List.append_nil, hparts] at hpoint
      have hplain' := isPlain_of_isNumeral negative (.point hwhole hfraction hdigit)
      have hdenotes := Denotes.decimal (isSign_minus negative) hpoint
      rw [← toList_signed] at hplain' hdenotes
      refine ⟨_, _, hplain, hplain', hdenotes.iff_eq, ?_, fun _ => htext, _, _, hshortest, htext⟩
      rintro ⟨n, hvalue⟩
      rw [← eqInt_iff_value, eqInt_iff, hint] at hvalue
      cases hvalue

/-- Where the exponent of a small number is written out, digit for digit. -/
theorem plain_denotes_small :
    ∃ q, (ofDecimal true ⟨15, -8⟩).plain? = some "-0.00000015" ∧ IsPlain "-0.00000015".toList ∧
      (∀ r, Denotes "-0.00000015".toList r ↔ r = q) ∧
      ∀ r, Denotes "-1.5e-07".toList r ↔ r = q := by
  obtain ⟨text, q, hplain, hlexes, hdenotes, -, hsame, -⟩ :=
    plain_denotes (show (ofDecimal true ⟨15, -8⟩).isFinite = true by decide +kernel)
  have htext : (ofDecimal true ⟨15, -8⟩).plain? = some "-0.00000015" := by decide +kernel
  obtain rfl := Option.some.inj (hplain.symm.trans htext)
  have hnot : ¬∃ n : ℤ, (ofDecimal true ⟨15, -8⟩).value? = some (n : ℚ) := by
    rintro ⟨n, hn⟩
    have hint : (ofDecimal true ⟨15, -8⟩).toInt? = none := by decide +kernel
    rw [← eqInt_iff_value, eqInt_iff, hint] at hn
    cases hn
  have hmessage : (ofDecimal true ⟨15, -8⟩).text = "-1.5e-07" := by decide +kernel
  exact ⟨q, htext, hlexes, hdenotes, hmessage ▸ hsame hnot⟩

/-- An integral double is written as the integer that it is, which may take more digits than its
shortest decimal. -/
example : (ofDecimal false ⟨1, 23⟩).plain? = some "99999999999999991611392" ∧
    (ofDecimal false ⟨1, 23⟩).text = "1e+23" := by decide +kernel

end Double

end Criteria
