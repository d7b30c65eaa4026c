import Criteria.Proofs.Number.Shortest
import Criteria.Proofs.Number.Spelling

/-!
# Numbers as text

`Double.spelled` is the text of a number where values are put into text: the shortest digits that
read back, with an exponent for the very large and the very small. It spells the number
(`Double.spells_spelled`), except that of a negative zero the sign is lost and NaN has no spelling.
-/

namespace Criteria

namespace Decimal

/-- Notation with an exponent: one digit before the point, and the exponent signed. -/
def exponential (d : Decimal) : List Char :=
  let power := 'e' :: (if d.magnitude < 0 then '-' else '+') :: Nat.toDigits 10 d.magnitude.natAbs
  match Nat.toDigits 10 d.digits with
  | first :: second :: more => first :: '.' :: second :: more ++ power
  | run => run ++ power

end Decimal

namespace Double

/-- The text of a double among other text: without an exponent from `10 ^ (-6)` up to, and without,
`10 ^ 21`. Both zeros are `0`. -/
def spelled : Double → List Char
  | .nan => "NaN".toList
  | .infinite negative => (if negative then ['-'] else []) ++ "Infinity".toList
  | .finite negative significand scale _ =>
    if significand = 0 then ['0']
    else
      let d := shortest significand scale
      (if negative then ['-'] else []) ++
        if -6 ≤ d.magnitude ∧ d.magnitude ≤ 20 then d.positional else d.exponential

end Double

/-! ## Decimals -/

theorem isSign_minus (negative : Bool) : IsSign (if negative then ['-'] else []) negative := by
  cases negative
  · exact .none
  · exact .minus

theorem isDigits_toDigits (n : Nat) : IsDigits (Nat.toDigits 10 n) :=
  ⟨Nat.toDigits_ne_nil, fun _ hc => Nat.isDigit_of_mem_toDigits (by decide) (by decide) hc⟩

namespace Decimal

/-- An integer is spelled by a sign and digits behind the mark of an exponent; zeros may come first.
-/
theorem isExponent_magnitude (zeros : Nat) (e : Int) :
    IsExponent ('e' :: (if e < 0 then '-' else '+') ::
      (List.replicate zeros '0' ++ Nat.toDigits 10 e.natAbs)) e := by
  have hsign : IsSign [if e < 0 then '-' else '+'] (decide (e < 0)) := by
    split_ifs with h
    · rw [decide_eq_true h]
      exact .minus
    · rw [decide_eq_false h]
      exact .plus
  have hrun : IsDigits (List.replicate zeros '0' ++ Nat.toDigits 10 e.natAbs) := by
    obtain ⟨hne, hdigit⟩ := isDigits_toDigits e.natAbs
    refine ⟨by simp [hne], List.forall_mem_append.2 ⟨fun c hc => ?_, hdigit⟩⟩
    rw [(List.mem_replicate.1 hc).2]
    rfl
  have hgiven := IsExponent.given (.inl rfl) hsign hrun
  rw [Nat.ofDigitChars_append, Nat.ofDigitChars_replicate_zero, Nat.mul_zero,
    Nat.ofDigitChars_ten_toDigits] at hgiven
  have hvalue : (if decide (e < 0) = true then -(e.natAbs : Int) else e.natAbs) = e := by
    split_ifs with h
    · have := of_decide_eq_true h
      omega
    · have : ¬e < 0 := fun hneg => h (decide_eq_true hneg)
      omega
  rwa [hvalue] at hgiven

/-- One digit before the point and the power of ten of that digit behind the others spell a decimal.
-/
theorem isUnsigned_of_isExponent (d : Decimal) {power : List Char}
    (hpower : IsExponent power d.magnitude) :
    IsUnsigned (match Nat.toDigits 10 d.digits with
      | first :: second :: more => first :: '.' :: second :: more ++ power
      | run => run ++ power) d := by
  obtain ⟨hne, hdigit⟩ := isDigits_toDigits d.digits
  have hvalue : Nat.ofDigitChars 10 (Nat.toDigits 10 d.digits) 0 = d.digits :=
    Nat.ofDigitChars_ten_toDigits
  have hmagnitude : d.magnitude = (Nat.toDigits 10 d.digits).length - 1 + d.exponent := rfl
  generalize Nat.toDigits 10 d.digits = run at hne hdigit hvalue hmagnitude ⊢
  rcases run with _ | ⟨first, _ | ⟨second, more⟩⟩
  · exact absurd rfl hne
  · have hparts : ofParts [first] [] d.magnitude = d := by
      rw [ofParts, List.append_nil, hvalue, hmagnitude]
      simp
    have hwhole := IsUnsigned.whole ⟨hne, hdigit⟩ hpower
    rwa [hparts] at hwhole
  · have hparts : ofParts [first] (second :: more) d.magnitude = d := by
      rw [ofParts, List.singleton_append, hvalue, hmagnitude]
      simp
    have hpoint : IsUnsigned ([first] ++ '.' :: (second :: more ++ power))
        (ofParts [first] (second :: more) d.magnitude) :=
      .point ⟨List.cons_ne_nil _ _, hdigit⟩ hpower
    rwa [hparts] at hpoint

theorem isUnsigned_exponential (d : Decimal) : IsUnsigned d.exponential d :=
  d.isUnsigned_of_isExponent (isExponent_magnitude 0 d.magnitude)

theorem isUnsigned_scientific (d : Decimal) : IsUnsigned d.scientific d :=
  d.isUnsigned_of_isExponent (isExponent_magnitude _ d.magnitude)

/-- From one on, plain notation is digits. -/
theorem isDigits_positional {d : Decimal} (h : 0 ≤ d.exponent) :
    IsDigits d.positional ∧ Nat.ofDigitChars 10 d.positional 0 = d.numerator := by
  have htext : d.positional =
      Nat.toDigits 10 d.digits ++ List.replicate d.exponent.toNat '0' := if_pos h
  obtain ⟨hne, hdigit⟩ := isDigits_toDigits d.digits
  rw [htext]
  refine ⟨⟨by simp [hne], List.forall_mem_append.2 ⟨hdigit, fun c hc => ?_⟩⟩, ?_⟩
  · rw [(List.mem_replicate.1 hc).2]
    rfl
  · rw [Nat.ofDigitChars_append, Nat.ofDigitChars_ten_toDigits, Nat.ofDigitChars_replicate_zero,
      Nat.mul_comm, numerator]

/-- Plain notation spells a decimal of the same value. -/
theorem isUnsigned_positional (d : Decimal) :
    ∃ d', IsUnsigned d.positional d' ∧ d'.value = d.value := by
  by_cases hexponent : d.exponent < 0
  · obtain ⟨whole, fraction, htext, hwhole, -, hdigit, hparts⟩ := positional_of_neg hexponent
    have hpoint := IsUnsigned.point ⟨by simp [hwhole], hdigit⟩ .none
    rw [List.append_nil, hparts, ← htext] at hpoint
    exact ⟨d, hpoint, rfl⟩
  · obtain ⟨hrun, hvalue⟩ := isDigits_positional (Int.not_lt.1 hexponent)
    have hwhole := IsUnsigned.whole hrun .none
    rw [List.append_nil] at hwhole
    refine ⟨_, hwhole, ?_⟩
    rw [ofParts, List.append_nil, hvalue]
    exact value_whole (Int.not_lt.1 hexponent)

/-- A zero behind the point changes nothing. -/
theorem isUnsigned_positional_zero {d : Decimal} (h : 0 ≤ d.exponent) :
    ∃ d', IsUnsigned (d.positional ++ ['.', '0']) d' ∧ d'.value = d.value := by
  obtain ⟨⟨hne, hdigit⟩, hvalue⟩ := isDigits_positional h
  have hrun : IsDigits (d.positional ++ List.replicate 1 '0') :=
    ⟨by simp, List.forall_mem_append.2 ⟨hdigit, List.forall_mem_singleton.2 rfl⟩⟩
  refine ⟨_, .point hrun .none, ?_⟩
  rw [ofParts, Nat.ofDigitChars_append, hvalue, Nat.ofDigitChars_replicate_zero, Nat.mul_comm,
    value_shift]
  exact value_whole h

end Decimal

namespace Double

/-- **The text of a number spells it.** -/
theorem spells_spelled {letters : List (Char × Nat)} {x : Double} (hnan : x ≠ .nan)
    (hzero : x ≠ .zero true) : Spells letters x.spelled x := by
  cases x with
  | nan => exact absurd rfl hnan
  | infinite negative => exact .infinity (isSign_minus negative)
  | finite negative m s h =>
    have hread := (isShortest_shortest negative h).reads_back
    by_cases hm : m = 0
    · subst hm
      obtain rfl : s = 0 := by simpa [Canonical] using h.2.2
      obtain rfl : negative = false := by
        rw [← Bool.not_eq_true]
        rintro rfl
        exact hzero rfl
      exact .decimal .none (.whole (isDigits_toDigits 0) .none)
    · have htext : ∃ d, IsUnsigned (if -6 ≤ (shortest m s).magnitude ∧ (shortest m s).magnitude ≤ 20
          then (shortest m s).positional else (shortest m s).exponential) d ∧
          ofDecimal negative d = .finite negative m s h := by
        split
        · obtain ⟨d, hd, hvalue⟩ := (shortest m s).isUnsigned_positional
          exact ⟨d, hd, (ofDecimal_congr hvalue).trans hread⟩
        · exact ⟨_, (shortest m s).isUnsigned_exponential, hread⟩
      obtain ⟨d, hd, hvalue⟩ := htext
      have hspells : Spells letters _ _ := .decimal (isSign_minus negative) hd
      rw [hvalue] at hspells
      simp only [spelled, if_neg hm]
      exact hspells

end Double

end Criteria
