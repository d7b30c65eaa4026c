import Criteria.Proofs.Number.Written

/-!
# Values as numbers

Orderings compare numbers, and every value counts as one (`Json.CountsAs`): a text as the number
that it spells in any of four bases, an array as its text, in which the texts of its items stand
with commas between them. The number that is read is this one for all but a few values, the misread
ones (`toNumber_countsAs_iff`): numbers with the byte order mark around them or in other bases than
ten and sixteen, integers beyond the doubles, numbers between blanks that are none elsewhere, and,
alone in an array, truth values, the negative zero and arrays that are numbers.

Which blanks stand around a number is a parameter of `Numeral`. No character of a number is a blank
of either class, so two classes differ only for texts with a blank that is in one of them alone
(`Numeral.trim_eq`).
-/

namespace Criteria

/-! ## Blanks around numbers -/

namespace Text

/-- White space, the ends of lines, and the byte order mark. -/
def isSpace (c : Char) : Bool :=
  let n := c.toNat
  (0x9 ≤ n && n ≤ 0xd) || n == 0x20 || n == 0xa0 || n == 0x1680 || (0x2000 ≤ n && n ≤ 0x200a) ||
    n == 0x2028 || n == 0x2029 || n == 0x202f || n == 0x205f || n == 0x3000 || n == 0xfeff

variable {c : Char} {cs : List Char} {p q : Char → Bool}

/-- Only the byte order mark is a space and no blank. -/
theorem eq_mark_of_isSpace (hspace : isSpace c = true) (hblank : isBlank c = false) :
    c = '\ufeff' := by
  have hn : c.toNat = 0xfeff := by
    simp only [isSpace, isBlank] at hspace hblank
    generalize c.toNat = n at *
    simp only [Bool.or_eq_true, Bool.and_eq_true, Bool.or_eq_false_iff, Bool.and_eq_false_imp,
      decide_eq_true_eq, decide_eq_false_iff_not, beq_iff_eq, beq_eq_false_iff_ne] at hspace hblank
    omega
  rw [← Char.ofNat_toNat c, hn]

/-- Characters of numbers are neither blanks nor spaces. -/
theorem not_blank_of_isNumberChar (h : isNumberChar c = true) :
    isBlank c = false ∧ isSpace c = false := by
  have hrange : c.toNat = 43 ∨ c.toNat = 45 ∨ c.toNat = 46 ∨ 48 ≤ c.toNat ∧ c.toNat ≤ 122 := by
    simp only [isNumberChar, Char.isAlphanum, Bool.or_eq_true, decide_eq_true_eq, isAlpha_iff,
      isDigit_iff] at h
    rcases h with ((h | rfl) | rfl) | rfl
    · omega
    · decide
    · decide
    · decide
  simp only [isBlank, isSpace]
  generalize c.toNat = n at *
  simp only [Bool.or_eq_false_iff, Bool.and_eq_false_imp, decide_eq_true_eq,
    decide_eq_false_iff_not, beq_eq_false_iff_ne]
  omega

/-- What does not belong to the class is not trimmed. -/
theorem mem_trim (hc : c ∈ cs) (hp : p c = false) : c ∈ trim p cs := by
  have hdrop : ∀ {cs : List Char}, c ∈ cs → c ∈ cs.dropWhile p := by
    intro cs hc
    rw [← List.takeWhile_append_dropWhile (p := p) (l := cs)] at hc
    rcases List.mem_append.1 hc with htake | hdrop
    · rw [List.mem_takeWhile_imp htake] at hp
      cases hp
    · exact hdrop
  rw [trim, List.mem_reverse]
  exact hdrop (List.mem_reverse.2 (hdrop hc))

/-- Only the characters of a text decide what is trimmed of it. -/
theorem trim_congr (h : ∀ c ∈ cs, p c = q c) : trim p cs = trim q cs := by
  have hdrop : ∀ {cs : List Char}, (∀ c ∈ cs, p c = q c) → cs.dropWhile p = cs.dropWhile q := by
    intro cs h
    induction cs with
    | nil => rfl
    | cons c rest ih =>
      obtain ⟨hc, hrest⟩ := List.forall_mem_cons.1 h
      rw [List.dropWhile_cons, List.dropWhile_cons, hc, ih hrest]
  have hinner : ∀ c ∈ (cs.dropWhile q).reverse, p c = q c := fun c hc =>
    h c ((List.dropWhile_sublist q).subset (List.mem_reverse.1 hc))
  rw [trim, trim, hdrop h, hdrop hinner]

theorem trim_eq_self (h : ∀ c ∈ cs, p c = false) : trim p cs = cs := by
  have hdrop : ∀ {cs : List Char}, (∀ c ∈ cs, p c = false) → cs.dropWhile p = cs := by
    intro cs h
    cases cs with
    | nil => rfl
    | cons c rest => simp [h c]
  rw [trim, hdrop h, hdrop fun c hc => h c (List.mem_reverse.1 hc), List.reverse_reverse]

end Text

/-! ## Numerals -/

/-- The text spells a number, with blanks of some class around it, where some letters stand for
bases. Blanks alone spell zero. -/
def Numeral (space : Char → Bool) (letters : List (Char × Nat)) (cs : List Char) (x : Double) :
    Prop :=
  Text.trim space cs = [] ∧ x = .zero false ∨ Spells letters (Text.trim space cs) x

/-- A text without any of the beginnings of numbers spells none. -/
theorem not_spells {cs : List Char} {x : Double} (hdecimal : Value.decimalNumber? cs = none)
    (hinfinity : ∀ {sign negative}, IsSign sign negative → cs ≠ sign ++ "Infinity".toList)
    (hzero : cs.head? ≠ some '0') : ¬Spells bases cs x := by
  rw [spells_iff]
  rintro (h | ⟨sign, negative, hsign, hcs, -⟩ | ⟨n, h, -⟩)
  · rw [hdecimal] at h
    cases h
  · exact hinfinity hsign hcs
  · cases h
    exact hzero rfl

theorem not_spells_nil {x : Double} : ¬Spells bases [] x :=
  not_spells rfl (by rintro _ _ (_ | _ | _) <;> decide) (by decide)

namespace Numeral

variable {space space' : Char → Bool} {letters letters' : List (Char × Nat)} {cs : List Char}
  {x y : Double}

theorem unique (h : Numeral space bases cs x) (h' : Numeral space bases cs y) : x = y := by
  rcases h with ⟨hempty, rfl⟩ | h
  · rcases h' with ⟨-, rfl⟩ | h'
    · rfl
    · rw [hempty] at h'
      exact absurd h' not_spells_nil
  · rcases h' with ⟨hempty, rfl⟩ | h'
    · rw [hempty] at h
      exact absurd h not_spells_nil
    · exact h.unique h'

theorem mono (h : Numeral space letters cs x) (hsub : letters ⊆ letters') :
    Numeral space letters' cs x :=
  h.imp_right fun h => h.mono hsub

theorem ne_nan (h : Numeral space letters cs x) : x ≠ .nan := by
  rcases h with ⟨-, rfl⟩ | h
  · nofun
  · exact h.ne_nan

/-- In a numeral, whatever is not a blank around it is a character of numbers. -/
theorem space_or_isNumberChar (h : Numeral space bases cs x) {c : Char} (hc : c ∈ cs) :
    space c = true ∨ isNumberChar c = true := by
  by_cases hspace : space c = true
  · exact .inl hspace
  · have htrim : c ∈ Text.trim space cs := Text.mem_trim hc (Bool.not_eq_true _ ▸ hspace)
    rcases h with ⟨hempty, -⟩ | h
    · rw [hempty] at htrim
      cases htrim
    · exact .inr (h.isNumberChar htrim)

/-- Where the blanks around a numeral are of another class as well, the same is left without blanks
of that class. -/
theorem trim_eq (h : Numeral space bases cs x) (hblank : ∀ c ∈ cs, space c = true → space' c = true)
    (hnumber : ∀ c, isNumberChar c = true → space c = false ∧ space' c = false) :
    Text.trim space' cs = Text.trim space cs := by
  refine Text.trim_congr fun c hc => ?_
  rcases h.space_or_isNumberChar hc with hspace | hchar
  · rw [hspace, hblank c hc hspace]
  · rw [(hnumber c hchar).1, (hnumber c hchar).2]

theorem of_blanks (h : Numeral space bases cs x)
    (hblank : ∀ c ∈ cs, space c = true → space' c = true)
    (hnumber : ∀ c, isNumberChar c = true → space c = false ∧ space' c = false) :
    Numeral space' bases cs x := by
  have htrim := h.trim_eq hblank hnumber
  rwa [Numeral, htrim]

/-- A numeral with blanks of either class has the same blanks around it in both. -/
theorem trim_eq_of_numeral (h : Numeral Text.isSpace bases cs x)
    (h' : Numeral Text.isBlank bases cs y) :
    Text.trim Text.isSpace cs = Text.trim Text.isBlank cs := by
  refine h'.trim_eq (fun c hc hblank => ?_) fun _ => Text.not_blank_of_isNumberChar
  rcases h.space_or_isNumberChar hc with hspace | hchar
  · exact hspace
  · rw [(Text.not_blank_of_isNumberChar hchar).1] at hblank
    cases hblank

end Numeral

/-! ## Texts as numbers -/

section Texts

variable {s : String} {x : Double} {n : Nat}

namespace Value

/-- A text that is neither blank nor a decimal or an infinity can only be a hexadecimal number. -/
theorem stringNumber_of_not_decimal (hempty : Text.trimBlank s.toList ≠ [])
    (hdecimal : decimalNumber? (Text.trimBlank s.toList) = none)
    (hinfinity : ∀ {sign negative}, IsSign sign negative →
      Text.trimBlank s.toList ≠ sign ++ "Infinity".toList) :
    stringNumber s = match hexNumber? (Text.trimBlank s.toList) with
      | some n => intNumber n
      | none => .ok .nan := by
  have hplain : Text.trimBlank s.toList ≠ "Infinity".toList := hinfinity .none
  have hplus : Text.trimBlank s.toList ≠ "+Infinity".toList := hinfinity .plus
  have hminus : Text.trimBlank s.toList ≠ "-Infinity".toList := hinfinity .minus
  simp only [stringNumber, hdecimal, if_neg (not_or.2 ⟨hplain, hplus⟩), if_neg hminus]
  refine (if_neg (by simpa using hempty)).trans ?_
  cases hexNumber? (Text.trimBlank s.toList) <;> rfl

theorem stringNumber_of_based (h : IsBased hexadecimal (Text.trimBlank s.toList) n) :
    stringNumber s = intNumber n := by
  have hbased : IsBased bases (Text.trimBlank s.toList) n := h.mono hexadecimal_subset
  have hempty : Text.trimBlank s.toList ≠ [] := by
    intro hempty
    rw [hempty] at h
    cases h
  rw [stringNumber_of_not_decimal hempty hbased.decimalNumber?_eq_none hbased.ne_infinity,
    hexNumber?_eq_some_iff.2 h]

/-- No number is read where there is no double near it. -/
theorem stringNumber_ne_ok (h : IsBased hexadecimal (Text.trimBlank s.toList) n)
    (hlarge : (Double.ofInt n).isFinite = false) : stringNumber s ≠ .ok x := by
  rw [stringNumber_of_based h, intNumber, hlarge]
  simp

/-- A text that spells a number in the letters known here is read as the number, unless that is a
hexadecimal number beyond the doubles. -/
theorem stringNumber_of_numeral (h : Numeral Text.isBlank hexadecimal s.toList x) :
    stringNumber s = .ok x ∨
      ∃ n, IsBased hexadecimal (Text.trimBlank s.toList) n ∧ (Double.ofInt n).isFinite = false := by
  rcases h with ⟨hempty, rfl⟩ | h
  · have hread : stringNumber s = .ok (.zero false) := by
      unfold stringNumber
      rw [Text.trimBlank, hempty]
      rfl
    exact .inl hread
  · rcases spells_iff.1 h with hx | ⟨sign, negative, hsign, hcs, rfl⟩ | ⟨n, hn, rfl⟩
    · refine .inl ?_
      unfold stringNumber
      change Value.decimalNumber? (Text.trimBlank s.toList) = _ at hx
      generalize Text.trimBlank s.toList = cs at *
      cases cs with
      | nil => cases hx
      | cons => simp only [hx]; rfl
    · refine .inl ?_
      unfold stringNumber
      rw [Text.trimBlank, hcs]
      cases hsign <;> rfl
    · cases hfinite : (Double.ofInt n).isFinite with
      | false => exact .inr ⟨n, hn, hfinite⟩
      | true =>
        refine .inl ?_
        rw [stringNumber_of_based hn, intNumber, if_pos hfinite]

/-- Every other text is no number. -/
theorem stringNumber_of_not_numeral
    (h : ∀ x, ¬Numeral Text.isBlank hexadecimal s.toList x) : stringNumber s = .ok .nan := by
  have hempty : Text.trimBlank s.toList ≠ [] := fun hempty => h _ (.inl ⟨hempty, rfl⟩)
  have hspells : ∀ x, ¬Spells hexadecimal (Text.trimBlank s.toList) x :=
    fun x hx => h x (.inr hx)
  have hdecimal : decimalNumber? (Text.trimBlank s.toList) = none :=
    Option.eq_none_iff_forall_ne_some.2 fun x hx => hspells x (spells_iff.2 (.inl hx))
  have hhex : hexNumber? (Text.trimBlank s.toList) = none :=
    Option.eq_none_iff_forall_ne_some.2 fun n hn =>
      hspells _ (.based (hexNumber?_eq_some_iff.1 hn))
  rw [stringNumber_of_not_decimal hempty hdecimal, hhex]
  intro sign negative hsign hcs
  exact hspells _ (spells_iff.2 (.inr (.inl ⟨sign, negative, hsign, hcs, rfl⟩)))

end Value

/-- The number that a text stands for: the one it spells, in the letters of all bases, or NaN when
it spells none. -/
def StandsFor (cs : List Char) (x : Double) : Prop :=
  Numeral Text.isSpace bases cs x ∨ (∀ y, ¬Numeral Text.isSpace bases cs y) ∧ x = .nan

theorem StandsFor.unique {cs : List Char} {x y : Double} (h : StandsFor cs x)
    (h' : StandsFor cs y) : x = y := by
  rcases h with h | ⟨h, rfl⟩
  · rcases h' with h' | ⟨h', rfl⟩
    · exact h.unique h'
    · exact absurd h (h' x)
  · rcases h' with h' | ⟨-, rfl⟩
    · exact absurd h' (h y)
    · rfl

theorem StandsFor.exists (cs : List Char) : ∃ x, StandsFor cs x := by
  by_cases h : ∃ x, Numeral Text.isSpace bases cs x
  · obtain ⟨x, h⟩ := h
    exact ⟨x, .inl h⟩
  · exact ⟨.nan, .inr ⟨fun y hy => h ⟨y, hy⟩, rfl⟩⟩

/-- The texts that are not read as the number they stand for. -/
inductive MisreadText (s : String) : Prop
  /-- The byte order mark is no blank here. -/
  | mark {x : Double} (h : Numeral Text.isSpace bases s.toList x) (hmark : '\ufeff' ∈ s.toList)
  /-- Of the bases only sixteen is known here. -/
  | base {n : Nat} (h : IsBased binaryOctal (Text.trim Text.isSpace s.toList) n)
  /-- There is no double near the number. -/
  | large {n : Nat} (h : IsBased hexadecimal (Text.trimBlank s.toList) n)
      (hlarge : (Double.ofInt n).isFinite = false)
  /-- Some blanks are only blanks here. -/
  | separator {x : Double} {c : Char} (h : Numeral Text.isBlank hexadecimal s.toList x)
      (hc : c ∈ s.toList) (hblank : Text.isBlank c = true) (hspace : Text.isSpace c = false)

/-- A binary or octal number is no number in the other letters. -/
theorem IsBased.not_spells {cs : List Char} (h : IsBased binaryOctal cs n) :
    ¬Spells hexadecimal cs x := by
  rw [spells_iff]
  have hbased : IsBased bases cs n := h.mono binaryOctal_subset
  rintro (hx | ⟨_, _, hsign, hcs, -⟩ | ⟨m, hm, -⟩)
  · rw [hbased.decimalNumber?_eq_none] at hx
    cases hx
  · exact hbased.ne_infinity hsign hcs
  · have hletters : ∀ p ∈ binaryOctal, ∀ q ∈ hexadecimal, p.1 ≠ q.1 := by decide
    obtain ⟨hletter, -, -⟩ := h
    cases hm with
    | mk hletter' => exact hletters _ hletter _ hletter' rfl

theorem spells_bases {cs : List Char} (h : Spells bases cs x) :
    Spells hexadecimal cs x ∨ ∃ n, IsBased binaryOctal cs n := by
  cases h with
  | decimal hsign hcs => exact .inl (.decimal hsign hcs)
  | infinity hsign => exact .inl (.infinity hsign)
  | based h =>
    obtain ⟨hletter, hne, hdigits⟩ := h
    rcases List.mem_append.1 hletter with hletter | hletter
    · exact .inr ⟨_, .mk hletter hne hdigits⟩
    · exact .inl (.based (.mk hletter hne hdigits))

/-- **The texts that are read as the number they stand for** are all but the misread ones. -/
theorem stringNumber_standsFor_iff :
    (∃ x, Value.stringNumber s = .ok x ∧ StandsFor s.toList x) ↔ ¬MisreadText s := by
  constructor
  · rintro ⟨x, hread, hstands⟩ hmisread
    cases hmisread with
    | mark h hmark =>
      obtain rfl := hstands.unique (.inl h)
      have hnone : ∀ y, ¬Numeral Text.isBlank hexadecimal s.toList y := by
        intro y hy
        rcases (hy.mono hexadecimal_subset).space_or_isNumberChar hmark with hblank | hchar
        · cases hblank
        · cases hchar
      rw [Value.stringNumber_of_not_numeral hnone] at hread
      exact h.ne_nan (Except.ok.inj hread).symm
    | base h =>
      have hnumeral : Numeral Text.isSpace bases s.toList (.ofInt _) :=
        .inr (.based (h.mono binaryOctal_subset))
      obtain rfl := hstands.unique (.inl hnumeral)
      have hnone : ∀ y, ¬Numeral Text.isBlank hexadecimal s.toList y := by
        intro y hy
        have htrim := hnumeral.trim_eq_of_numeral (hy.mono hexadecimal_subset)
        rcases hy with ⟨hempty, -⟩ | hy
        · rw [htrim, hempty] at h
          cases h
        · rw [htrim] at h
          exact h.not_spells hy
      rw [Value.stringNumber_of_not_numeral hnone] at hread
      exact hnumeral.ne_nan (Except.ok.inj hread).symm
    | large h hlarge => exact Value.stringNumber_ne_ok h hlarge hread
    | separator h hc hblank hspace =>
      have hnan : x = .nan := by
        rcases hstands with hnumeral | ⟨-, hnan⟩
        · rcases hnumeral.space_or_isNumberChar hc with hyes | hchar
          · rw [hyes] at hspace
            cases hspace
          · rw [(Text.not_blank_of_isNumberChar hchar).1] at hblank
            cases hblank
        · exact hnan
      rcases Value.stringNumber_of_numeral h with hok | ⟨n, hbased, hlarge⟩
      · rw [hok, hnan] at hread
        exact h.ne_nan (Except.ok.inj hread)
      · exact Value.stringNumber_ne_ok hbased hlarge hread
  · intro h
    by_cases hprogram : ∃ x, Numeral Text.isBlank hexadecimal s.toList x
    · obtain ⟨x, hx⟩ := hprogram
      have hspace : ∀ c ∈ s.toList, Text.isBlank c = true → Text.isSpace c = true := by
        intro c hc hblank
        by_contra hno
        exact h (.separator hx hc hblank (Bool.not_eq_true _ ▸ hno))
      rcases Value.stringNumber_of_numeral hx with hok | ⟨n, hbased, hlarge⟩
      · exact ⟨x, hok, .inl ((hx.mono hexadecimal_subset).of_blanks hspace
          fun _ => Text.not_blank_of_isNumberChar)⟩
      · exact absurd (.large hbased hlarge) h
    · refine ⟨.nan, Value.stringNumber_of_not_numeral fun x hx => hprogram ⟨x, hx⟩, .inr ⟨?_, rfl⟩⟩
      intro x hx
      have hblank : ∀ c ∈ s.toList, Text.isSpace c = true → Text.isBlank c = true := by
        intro c hc hspace
        by_contra hno
        obtain rfl := Text.eq_mark_of_isSpace hspace (Bool.not_eq_true _ ▸ hno)
        exact h (.mark hx hc)
      have htrim := hx.trim_eq hblank fun c hc => (Text.not_blank_of_isNumberChar hc).symm
      rcases hx with ⟨hempty, rfl⟩ | hx
      · exact hprogram ⟨_, .inl ⟨htrim.trans hempty, rfl⟩⟩
      · rcases spells_bases hx with hhex | ⟨n, hbased⟩
        · exact hprogram ⟨x, .inr (htrim ▸ hhex)⟩
        · exact h (.base hbased)

end Texts

/-! ## The texts of values -/

namespace Json

/-- The text of every object. -/
def objectText : String := "[object Object]"

mutual

/-- The text of a value among other text. There is nothing where there is `null`, the items of an
array stand with commas between them, and every object has the same text. -/
def spelled : Json → List Char
  | .null => []
  | .bool b => (if b then "true" else "false").toList
  | .int n => (Double.ofInt n).spelled
  | .double d => d.spelled
  | .string s => s.toList
  | .array items => [','].intercalate (spelledItems items)
  | .object _ => objectText.toList

/-- The texts of some items. -/
def spelledItems : List Json → List (List Char)
  | [] => []
  | item :: rest => spelled item :: spelledItems rest

end

/-- The number that a value counts as: an array counts as its text does, and an object is none. -/
def CountsAs (value : Json) (x : Double) : Prop :=
  match value with
  | .null => x = .zero false
  | .bool b => x = .ofInt (if b then 1 else 0)
  | .int n => x = .ofInt n
  | .double d => x = d
  | .string s => StandsFor s.toList x
  | .array items => StandsFor (spelled (.array items)) x
  | .object _ => x = .nan

/-- The values that are not read as the number they count as. -/
inductive Misread : Json → Prop
  /-- There is no double near the integer. -/
  | large {n : Int} (h : (Double.ofInt n).isFinite = false) : Misread (.int n)
  | text {s : String} (h : MisreadText s) : Misread (.string s)
  | item {value : Scalar} (h : Misread (.scalar value)) : Misread (.array [.scalar value])
  /-- The words for truth values are no numbers. -/
  | truth (b : Bool) : Misread (.array [.bool b])
  /-- The text of a negative zero has no sign. -/
  | zero : Misread (.array [.double (.zero true)])
  /-- What is read of an array in an array is never a number. -/
  | nested {items : List Json} {x : Double}
      (h : Numeral Text.isSpace bases (spelled (.array items)) x) : Misread (.array [.array items])

end Json

section Values

variable {cs : List Char} {x : Double}

/-- No number has other characters than numbers and blanks have. -/
theorem not_numeral_of_mem {c : Char} (hc : c ∈ cs) (hspace : Text.isSpace c = false)
    (hnumber : isNumberChar c = false) : ¬Numeral Text.isSpace bases cs x := by
  intro h
  rcases h.space_or_isNumberChar hc with hyes | hyes
  · rw [hyes] at hspace
    cases hspace
  · rw [hyes] at hnumber
    cases hnumber

theorem standsFor_nan (h : ∀ x, ¬Numeral Text.isSpace bases cs x) : StandsFor cs .nan :=
  .inr ⟨h, rfl⟩

theorem not_numeral_word {word : List Char}
    (hword : word ∈ ["NaN".toList, "true".toList, "false".toList]) (x : Double) :
    ¬Numeral Text.isSpace bases word x := by
  simp only [List.mem_cons, List.not_mem_nil, or_false] at hword
  rintro (⟨hempty, -⟩ | h)
  · rcases hword with rfl | rfl | rfl <;> cases hempty
  · rcases hword with rfl | rfl | rfl <;>
      exact not_spells rfl (by rintro _ _ (_ | _ | _) <;> decide) (by decide) h

/-- An integer is no negative zero. -/
theorem Double.ofInt_ne_zero (n : Int) : Double.ofInt n ≠ .zero true := by
  by_cases hneg : n < 0
  · -- the scale of a double of at least one is not that of zero
    have hlog : Double.unitExponent ≤ (n.natAbs * Double.unitsPerOne).log2 := by
      rw [Nat.le_log2 (Nat.mul_pos (by omega) Double.unitsPerOne_pos).ne', ← Double.unitsPerOne_eq]
      exact Nat.le_mul_of_pos_left _ (by omega)
    rw [Double.unitExponent_eq] at hlog
    have hpack : ∀ m s, s ≠ 0 → Double.pack (decide (n < 0)) m s ≠ .zero true := by
      intro m s hs
      simp only [Double.pack, Double.zero]
      split_ifs
      · exact fun heq => hs (Double.finite.inj heq).2.2
      · simp
    simp only [Double.ofInt, Double.ofQuotient, Nat.div_one]
    split_ifs
    · exact hpack _ _ (by omega)
    · exact hpack _ _ (by omega)
  · have hpack : ∀ m s, Double.pack (decide (n < 0)) m s ≠ .zero true := by
      intro m s
      simp only [Double.pack, Double.zero, decide_eq_false hneg]
      split_ifs
      · exact fun heq => Bool.noConfusion (Double.finite.inj heq).1
      · simp
    simp only [Double.ofInt, Double.ofQuotient]
    split_ifs
    · exact hpack _ _
    · exact hpack _ _

/-- The text of a number stands for it, but for the sign of a negative zero. -/
theorem standsFor_spelled (hzero : x ≠ .zero true) : StandsFor x.spelled x := by
  by_cases hnan : x = .nan
  · rw [hnan]
    exact standsFor_nan (not_numeral_word (by simp [Double.spelled]))
  · have hspells : Spells bases x.spelled x := Double.spells_spelled hnan hzero
    refine .inl (.inr ?_)
    rw [Text.trim_eq_self fun c hc => (Text.not_blank_of_isNumberChar (hspells.isNumberChar hc)).2]
    exact hspells

/-- Every value counts as one number. -/
theorem Json.existsUnique_countsAs (v : Json) : ∃! x, v.CountsAs x := by
  have htext : ∀ cs, ∃! x, StandsFor cs x := fun cs =>
    (StandsFor.exists cs).imp fun x hx => ⟨hx, fun y hy => hy.unique hx⟩
  unfold CountsAs
  split
  case h_5 s => exact htext s.toList
  case h_6 items => exact htext _
  all_goals exact existsUnique_eq

/-- Arrays of several items stand for no number: there is a comma in their text. -/
theorem standsFor_several (first second : Json) (rest : List Json) :
    StandsFor (Json.spelled (.array (first :: second :: rest))) .nan := by
  have hcomma : ',' ∈ Json.spelled (.array (first :: second :: rest)) := by
    rw [Json.spelled, Json.spelledItems, Json.spelledItems, List.intercalate_cons_cons]
    simp
  exact standsFor_nan fun _ => not_numeral_of_mem hcomma rfl rfl

theorem spelled_singleton (item : Json) : Json.spelled (.array [item]) = item.spelled := by
  rw [Json.spelled, Json.spelledItems, Json.spelledItems, List.intercalate_singleton]

/-- Alone in an array a value without parts counts as it does outside, but for truth values and the
negative zero. -/
theorem standsFor_scalar_iff {value : Scalar} (hbool : ∀ b, value ≠ .bool b)
    (hzero : value ≠ .double (.zero true)) :
    StandsFor (Json.scalar value).spelled x ↔ (Json.scalar value).CountsAs x := by
  have hiff : ∀ {y}, StandsFor (Json.scalar value).spelled y →
      (StandsFor (Json.scalar value).spelled x ↔ x = y) := fun hy =>
    ⟨fun hx => hx.unique hy, fun hx => hx ▸ hy⟩
  cases value with
  | null => exact hiff (.inl (.inl ⟨rfl, rfl⟩))
  | bool b => exact absurd rfl (hbool b)
  | int n => exact hiff (standsFor_spelled (Double.ofInt_ne_zero n))
  | double d => exact hiff (standsFor_spelled fun hd => hzero (congrArg _ hd))
  | string s => rfl

/-- A value without parts is read as the number it counts as, unless it is misread. -/
theorem scalarNumber_countsAs_iff (value : Scalar) :
    (∃ x, Value.scalarNumber value = .ok x ∧ (Json.scalar value).CountsAs x) ↔
      ¬Json.Misread (.scalar value) := by
  cases value with
  | null => exact iff_of_true ⟨_, rfl, rfl⟩ nofun
  | bool b => exact iff_of_true ⟨_, rfl, rfl⟩ nofun
  | int n =>
    cases hfinite : (Double.ofInt n).isFinite with
    | true =>
      refine iff_of_true ⟨_, if_pos hfinite, rfl⟩ ?_
      rintro ⟨hlarge⟩
      rw [hfinite] at hlarge
      cases hlarge
    | false =>
      refine iff_of_false ?_ (not_not.2 (.large hfinite))
      rintro ⟨x, hread, -⟩
      rw [Value.scalarNumber, Value.intNumber, hfinite] at hread
      cases hread
  | double d => exact iff_of_true ⟨_, rfl, rfl⟩ nofun
  | string s =>
    refine stringNumber_standsFor_iff.trans (not_congr ⟨.text, ?_⟩)
    rintro ⟨⟩
    assumption

/-- A truth value in an array is read as the one or the zero that it is by itself. -/
theorem not_standsFor_bool (b : Bool) :
    ¬StandsFor (Json.bool b).spelled (.ofInt (if b then 1 else 0)) := by
  have hword : (Json.bool b).spelled ∈ ["NaN".toList, "true".toList, "false".toList] := by
    cases b <;> simp [Json.spelled]
  intro h
  exact Double.ofQuotient_ne_nan _ _ _ (h.unique (standsFor_nan (not_numeral_word hword)))

theorem not_standsFor_zero : ¬StandsFor (Json.double (.zero true)).spelled (.zero true) := by
  -- both zeros have one text
  have htext : StandsFor (Json.double (.zero true)).spelled (.zero false) :=
    standsFor_spelled (x := .zero false) nofun
  intro h
  cases h.unique htext

/-- An array of one item is read as the number it counts as, unless it is misread. -/
theorem toNumber_countsAs_singleton (mark : Mark) (item : Json) :
    (∃ x, (Value.ofJson mark (.array [item])).toNumber = .ok x ∧ (Json.array [item]).CountsAs x) ↔
      ¬Json.Misread (.array [item]) := by
  have hcounts : ∀ {x}, (Json.array [item]).CountsAs x ↔ StandsFor item.spelled x := by
    intro x
    rw [← spelled_singleton]
    rfl
  simp only [hcounts]
  cases item with
  | scalar value =>
    change (∃ x, Value.scalarNumber value = .ok x ∧ _) ↔ _
    by_cases hbool : ∃ b, value = .bool b
    · obtain ⟨b, rfl⟩ := hbool
      refine iff_of_false ?_ (not_not.2 (.truth b))
      rintro ⟨x, hread, hstands⟩
      exact not_standsFor_bool b (Except.ok.inj hread ▸ hstands)
    · by_cases hzero : value = .double (.zero true)
      · rw [hzero]
        refine iff_of_false ?_ (not_not.2 .zero)
        rintro ⟨x, hread, hstands⟩
        exact not_standsFor_zero (Except.ok.inj hread ▸ hstands)
      · simp only [standsFor_scalar_iff (not_exists.1 hbool) hzero]
        refine (scalarNumber_countsAs_iff value).trans (not_congr ⟨.item, ?_⟩)
        rintro (_ | _ | h | b | _ | _)
        · exact h
        · exact absurd ⟨b, rfl⟩ hbool
        · exact absurd rfl hzero
  | array items =>
    have hread : (Value.ofJson mark (.array [.array items])).toNumber = .ok .nan := rfl
    simp only [hread, Except.ok.injEq, exists_eq_left']
    constructor
    · rintro hstands ⟨⟩
      rename_i hnumeral
      exact hnumeral.ne_nan ((StandsFor.unique (.inl hnumeral) hstands))
    · exact fun h => standsFor_nan fun x hx => h (.nested hx)
  | object fields =>
    refine iff_of_true ⟨.nan, rfl, standsFor_nan fun x => ?_⟩ nofun
    exact not_numeral_of_mem (c := '[') (by simp [Json.spelled, Json.objectText]) rfl rfl

/-- **Values are read as the numbers they count as, but for the misread ones.** -/
theorem toNumber_countsAs_iff (mark : Mark) (v : Json) : (∃! x, v.CountsAs x) ∧
    ((∃ x, (Value.ofJson mark v).toNumber = .ok x ∧ v.CountsAs x) ↔ ¬v.Misread) := by
  refine ⟨v.existsUnique_countsAs, ?_⟩
  cases v with
  | scalar value => exact scalarNumber_countsAs_iff value
  | array items =>
    match items with
    | [] => exact iff_of_true ⟨_, rfl, .inl (.inl ⟨rfl, rfl⟩)⟩ nofun
    | [item] => exact toNumber_countsAs_singleton mark item
    | first :: second :: rest =>
      refine iff_of_true ⟨.nan, ?_, standsFor_several first second rest⟩ nofun
      cases first <;> rfl
  | object fields => exact iff_of_true ⟨.nan, rfl, rfl⟩ nofun

/-- A binary number is no number here, and a truth value in an array is one. -/
theorem toNumber_misread :
    ((Json.string "0b1").CountsAs (.ofInt 1) ∧
      (Value.ofJson ⟨0, []⟩ (.string "0b1")).toNumber = .ok .nan ∧ Double.ofInt 1 ≠ .nan) ∧
    (Json.array [.bool true]).CountsAs .nan ∧
      (Value.ofJson ⟨0, []⟩ (.array [.bool true])).toNumber = .ok (.ofInt 1) := by
  have hletter : ('b', 2) ∈ bases := by decide
  have hdigit : Hexadecimal.digit? '1' = some 1 ∧ 1 < 2 := ⟨rfl, by decide⟩
  have hbinary : IsBased bases ['0', 'b', '1'] 1 :=
    .mk hletter (List.cons_ne_nil _ _) (.cons hdigit .nil)
  refine ⟨⟨.inl (.inr (.based hbinary)), rfl, Double.ofQuotient_ne_nan _ _ _⟩, ?_, rfl⟩
  have hword : StandsFor (Json.bool true).spelled .nan :=
    standsFor_nan (not_numeral_word (by simp [Json.spelled]))
  rw [← spelled_singleton] at hword
  exact hword

end Values

end Criteria
