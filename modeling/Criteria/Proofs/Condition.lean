import Criteria.Condition
import Criteria.Proofs.Expr.RoundTrip
import Criteria.Proofs.Logic.Readable

/-!
# Canonical text as condition text

The canonical text of a well-formed condition that a catalog allows is a condition again, with the
same text, JSON-Logic, variables and warnings, under exactly the limits that admit its nesting
(`Condition.exists_parse_text`).

Two ways lead to canonical text. From condition text, the one thing that may be lost is the limit:
parentheses that the author did not write count as nesting (`Condition.parse_canonical_iff`). They
are only those around a comparison under a comparison
(`Condition.parse_canonical_of_comparisonsApart`). From JSON-Logic, the condition need not be
well-formed, and then its text does not lead back to it under any limit
(`Condition.exists_parse_write`, `Condition.parse_write_iff`).
-/

namespace Criteria

namespace Condition

/-- All forms of a condition but its syntax tree are the same, up to the form of numbers. -/
structure Agrees (c d : Condition) : Prop where
  canonical : c.canonical = d.canonical
  logic : c.logic.Alike d.logic
  dependencies : c.dependencies = d.dependencies
  warnings : c.warnings = d.warnings

theorem agrees_of_alike {a b : Expr} (h : a.Alike b) (catalog : Catalog) :
    (ofExpr catalog a).Agrees (ofExpr catalog b) where
  canonical := h.text_eq
  logic := h.toLogic
  dependencies := h.definitionsUnder_eq catalog
  warnings := by rw [ofExpr, ofExpr, h.text_eq]

/-- What it takes for a text to be a condition. -/
theorem parse_eq_ok_iff {text : String} {catalog : Catalog} {limit : Int} {c : Condition} :
    parse text catalog limit = .ok c ↔
      Text.allBlank text = false ∧
        ∃ e, Expr.parse text limit = .ok e ∧ e.check catalog = [] ∧ c = ofExpr catalog e := by
  unfold parse
  cases hblank : Text.allBlank text with
  | true => simp
  | false =>
    cases hparse : Expr.parse text limit with
    | error => simp
    | ok e =>
      simp only [Bool.false_eq_true, if_false, true_and, Except.ok.injEq, exists_eq_left']
      cases hcheck : e.check catalog with
      | nil => simp [eq_comm]
      | cons => simp

theorem allBlank_of_starts {text : String} (h : Expr.Starts text) :
    Text.allBlank text = false := by
  obtain ⟨c, rest, htext, hblank, -⟩ := h
  rw [Text.allBlank, htext, List.all_cons, hblank, Bool.false_and]

/-- **The canonical text of a well-formed condition that the catalog allows is one condition, the
same in all forms**, under exactly the limits that admit its nesting. -/
theorem exists_parse_text {a : Expr} {catalog : Catalog} (h : a.WellFormed)
    (hcheck : a.check catalog = []) :
    ∃ c, c.Agrees (ofExpr catalog a) ∧ ∀ (limit : Int) (d : Condition),
      parse a.text catalog limit = .ok d ↔ d = c ∧ (a.nesting : Int) ≤ limit := by
  obtain ⟨e, halike, hparse⟩ := Expr.exists_alike_of_wellFormed h
  refine ⟨ofExpr catalog e, agrees_of_alike halike catalog, fun limit d => ?_⟩
  rw [parse_eq_ok_iff]
  constructor
  · rintro ⟨-, f, hread, -, rfl⟩
    rcases Int.lt_or_le limit a.nesting with hlt | hle
    · obtain ⟨offset, hdeep⟩ := (hparse limit).2 hlt
      rw [hread] at hdeep
      cases hdeep
    · rw [(hparse limit).1 hle] at hread
      cases hread
      exact ⟨rfl, hle⟩
  · rintro ⟨rfl, hle⟩
    exact ⟨allBlank_of_starts (Expr.starts_text h), e, (hparse limit).1 hle,
      (halike.check_eq_nil catalog).2 hcheck, rfl⟩

/-! ## From condition text -/

variable {text : String} {catalog : Catalog} {limit : Int} {c : Condition}

theorem exists_parse_canonical (h : parse text catalog limit = .ok c) :
    ∃ d, d.Agrees c ∧ ∀ (limit' : Int) (d' : Condition),
      parse c.canonical catalog limit' = .ok d' ↔ d' = d ∧ (c.expr.nesting : Int) ≤ limit' := by
  obtain ⟨-, e, hparse, hcheck, rfl⟩ := parse_eq_ok_iff.1 h
  exact exists_parse_text (Expr.wellFormed_of_parse hparse) hcheck

/-- **Canonical text is read as the same condition under the limit of the text**, when no comparison
is an operand of a comparison. -/
theorem parse_canonical_of_comparisonsApart (h : parse text catalog limit = .ok c)
    (hapart : c.expr.ComparisonsApart) :
    ∃ d, parse c.canonical catalog limit = .ok d ∧ d.Agrees c := by
  obtain ⟨d, hagrees, hread⟩ := exists_parse_canonical h
  obtain ⟨-, e, hparse, -, rfl⟩ := parse_eq_ok_iff.1 h
  exact ⟨d, (hread limit d).2 ⟨rfl, Expr.nesting_le_of_parse hparse hapart⟩, hagrees⟩

/-- **Canonical text is read as the same condition exactly when the limit admits its nesting.** -/
theorem parse_canonical_iff (h : parse text catalog limit = .ok c) :
    (∃ d, parse c.canonical catalog limit = .ok d ∧ d.Agrees c) ↔
      (c.expr.nesting : Int) ≤ limit := by
  obtain ⟨d, hagrees, hread⟩ := exists_parse_canonical h
  constructor
  · rintro ⟨d', hd', -⟩
    exact ((hread limit d').1 hd').2
  · intro hle
    exact ⟨d, (hread limit d).2 ⟨rfl, hle⟩, hagrees⟩

theorem parse_canonical_three_truths :
    ∃ c d, parse "true == true == true" Catalog.empty 2 = .ok c ∧
      parse c.canonical Catalog.empty 2 = .ok d ∧ d.Agrees c := by
  obtain ⟨c, hc⟩ : ∃ c, parse "true == true == true" Catalog.empty 2 = .ok c := ⟨_, rfl⟩
  obtain ⟨d, hd, hagrees⟩ := (parse_canonical_iff hc).2 (by
    obtain rfl := Except.ok.inj hc
    decide)
  exact ⟨c, d, hc, hd, hagrees⟩

/-- The parentheses of canonical text may be one nesting too many. -/
theorem parse_canonical_too_deep :
    ∃ c, parse "true == true == true" Catalog.empty 1 = .ok c ∧
      c.canonical = "(true == true) == true" ∧
        ∃ error, parse c.canonical Catalog.empty 1 = .error error :=
  ⟨_, rfl, rfl, _, rfl⟩

/-! ## From JSON-Logic -/

section

variable {logic : Json} {room : Nat}

theorem write_eq_ok (h : write logic catalog room = .ok text) :
    ∃ a, Expr.ofLogic catalog [] logic = .ok a ∧ a.check catalog = [] ∧ a.text = text := by
  unfold write textOfLogic at h
  split at h
  · cases h
  split at h
  · cases h
  rename_i a ha
  split at h
  · rename_i hcheck
    split at h
    · exact ⟨a, ha, hcheck, Except.ok.inj h⟩
    · cases h
  · cases h

/-- **Text written for JSON-Logic is read as that condition exactly when the condition is
well-formed and the limit admits the nesting.** -/
theorem exists_parse_write (h : write logic catalog room = .ok text) :
    ∃ a, Expr.ofLogic catalog [] logic = .ok a ∧ ∀ limit : Int,
      (∃ c, parse text catalog limit = .ok c ∧ c.logic.Alike a.toLogic ∧ c.canonical = text) ↔
        a.WellFormed ∧ (a.nesting : Int) ≤ limit := by
  obtain ⟨a, ha, hcheck, rfl⟩ := write_eq_ok h
  refine ⟨a, ha, fun limit => ⟨?_, ?_⟩⟩
  · rintro ⟨c, hc, hlogic, -⟩
    have hwell : a.WellFormed := by
      obtain ⟨-, e, hparse, -, rfl⟩ := parse_eq_ok_iff.1 hc
      have hreadable := ((Expr.wellFormed_iff_readable e).1 (Expr.wellFormed_of_parse hparse)).1
      have hshown := (Expr.imports_of_ofLogic logic ha).aliasesShown
      exact (Expr.wellFormed_iff_readable a).2
        ⟨(Json.readable_iff_of_alike hlogic).1 hreadable, hshown⟩
    obtain ⟨d, -, hread⟩ := exists_parse_text hwell hcheck
    exact ⟨hwell, ((hread limit c).1 hc).2⟩
  · rintro ⟨hwell, hle⟩
    obtain ⟨c, hagrees, hread⟩ := exists_parse_text hwell hcheck
    exact ⟨c, (hread limit c).2 ⟨rfl, hle⟩, hagrees.logic, hagrees.canonical⟩

/-- **Text written for JSON-Logic is read as that condition, for every large enough limit, exactly
when the condition is well-formed.** -/
theorem parse_write_iff (h : write logic catalog room = .ok text) :
    ∃ a, Expr.ofLogic catalog [] logic = .ok a ∧
      ((∃ least : Int, ∀ limit, least ≤ limit → ∃ c, parse text catalog limit = .ok c ∧
          c.logic.Alike a.toLogic ∧ c.canonical = text) ↔ a.WellFormed) := by
  obtain ⟨a, ha, hread⟩ := exists_parse_write h
  refine ⟨a, ha, ?_, fun hwell => ⟨a.nesting, fun limit hle => (hread limit).2 ⟨hwell, hle⟩⟩⟩
  rintro ⟨least, hleast⟩
  exact ((hread least).1 (hleast least (Int.le_refl _))).1

end

/-- A catalog of one number. -/
def scoreCatalog : Catalog :=
  ⟨[⟨"score", .number, Comparison.all, .null, .null, .null, .null, .null, .null⟩], by simp⟩

/-- The score compared with a number, as JSON-Logic. -/
def scoreIs (n : Int) : Json :=
  .object [("==", .array [.object [("var", .string "score")], .int n])]

theorem parse_write_one :
    write (scoreIs 1) scoreCatalog = .ok "score == 1" ∧
      ∃ least : Int, ∀ limit, least ≤ limit → ∃ c,
        parse "score == 1" scoreCatalog limit = .ok c ∧
          c.logic.Alike (scoreIs 1) ∧ c.canonical = "score == 1" := by
  have hwrite : write (scoreIs 1) scoreCatalog = .ok "score == 1" := rfl
  obtain ⟨a, ha, hiff⟩ := parse_write_iff hwrite
  obtain rfl := Except.ok.inj ha
  exact ⟨hwrite, hiff.2 (by decide +kernel)⟩

/-- A negative number is written with a sign, and no limit makes the sign readable. -/
theorem parse_write_minus_one :
    write (scoreIs (-1)) scoreCatalog = .ok "score == -1" ∧
      ∀ limit, parse "score == -1" scoreCatalog limit =
        .error (.unreadable (.lexical ⟨.unexpected '-', 9⟩)) :=
  ⟨rfl, fun _ => rfl⟩

end Condition

end Criteria
