import Criteria.Proofs.Expr.Faithful
import Criteria.Proofs.Layout

/-!
# Diagnostics point into the text

Whatever is wrong with a text, its authors are told of something, and every error is told with a
place (`Condition.diagnostics_point`):

* an error of the check stands where a node, an operator or an argument does, so it takes some
  characters of the text (`Expr.findings_inside`);
* a fault of the tokens is told one character long from where a token starts or ends
  (`Expr.fault_at_token`). The readers only hand on places of tokens, so a fault elsewhere would
  stay where it is when everything at its place is moved away;
* a character that no pattern applies to is told as that character, and a blank text at its start.
-/

namespace Criteria

/-! ## Faults of the tokens -/

/-- The point next to a place instead of the place itself. -/
def stepOver (place i : Int) : Int := if i = place then place + 1 else i

theorem stepOver_mono {place i j : Int} (h : i ≤ j) : stepOver place i ≤ stepOver place j := by
  unfold stepOver
  split <;> split <;> omega

/-- Everything at a place is moved away from it, to the next point. -/
def Relocation.avoiding (place : Nat) : Relocation where
  point i := if i = place then place + 1 else i
  span s := ⟨stepOver place s.start, stepOver place s.stop⟩
  span_mk i j := by
    have hpoint (i : Nat) : stepOver place i = ((if i = place then place + 1 else i : Nat) : Int) := by
      unfold stepOver
      split <;> split <;> omega
    rw [hpoint, hpoint]
  span_cover a b := by
    have hmono : Monotone (stepOver place) := fun _ _ => stepOver_mono
    rw [Span.cover, Span.cover, hmono.map_min, hmono.map_max]

/-- **A fault of the tokens is where one of them starts or ends.** -/
theorem Expr.fault_at_token {limit : Int} {tokens : List Token} (hne : tokens ≠ [])
    {error : ParseError} (h : ofTokens limit tokens = .error error) :
    ∃ t ∈ tokens, error.offset = t.start ∨ error.offset = t.stop := by
  by_contra hnone
  simp only [not_exists, not_and, not_or] at hnone
  have hstay : tokens.map (Relocation.avoiding error.offset).token = tokens := by
    refine (List.map_congr_left fun t ht => ?_).trans tokens.map_id
    obtain ⟨hstart, hstop⟩ := hnone t ht
    simp only [Relocation.token, Relocation.avoiding, Ne.symm hstart, Ne.symm hstop, if_false, id]
  have hmoved := ofTokens_relocate (.avoiding error.offset) limit hne
  rw [hstay, h] at hmoved
  have hoffset := congrArg ParseError.offset (Except.error.inj hmoved)
  simp only [Relocation.error, Relocation.avoiding, if_true] at hoffset
  omega

/-! ## Errors of the check -/

/-- The span takes characters of the text. -/
def Span.Inside (text : String) (s : Span) : Prop :=
  0 ≤ s.start ∧ s.start < s.stop ∧ s.stop ≤ text.toList.length

namespace Expr

variable {text : String} {e : Expr}

theorem Faithful.known {a b : Nat} (h : Faithful text e a b) :
    Span.Known (Span.Inside text) e.span := by
  obtain ⟨hlt, hle⟩ := h.within
  exact ⟨_, h.span, Int.natCast_nonneg a, Int.ofNat_lt.2 hlt, Int.ofNat_le.2 hle⟩

theorem Faithful.known_part {a b : Nat} (h : Faithful text e a b) :
    ∀ span ∈ e.partSpans, Span.Known (Span.Inside text) span := by
  obtain ⟨spans, hspans, -, hinside⟩ := h.parts
  rw [hspans]
  intro span hspan
  obtain ⟨s, hs, rfl⟩ := List.mem_map.1 hspan
  obtain ⟨hstart, hlt, hstop⟩ := hinside s hs
  have hle := h.within.2
  exact ⟨s, rfl, by omega, hlt, by omega⟩

/-- A condition whose nodes are faithful knows where all of it stands. -/
theorem placed_of_faithful (h : ∀ x ∈ e.nodes, ∃ a b, Faithful text x a b) :
    e.Placed (Span.Inside text) := by
  induction e with
  | literal | reference =>
    obtain ⟨a, b, hnode⟩ := h _ (List.mem_singleton_self _)
    exact hnode.known
  | not argument span operatorSpan ih =>
    obtain ⟨⟨a, b, hnode⟩, hargument⟩ := List.forall_mem_cons.1 h
    exact ⟨hnode.known, hnode.known_part _ (by simp [partSpans]), ih hargument⟩
  | binary op left right span operatorSpan ihl ihr =>
    obtain ⟨⟨a, b, hnode⟩, hoperands⟩ := List.forall_mem_cons.1 h
    obtain ⟨hleft, hright⟩ := List.forall_mem_append.1 hoperands
    exact ⟨hnode.known, hnode.known_part _ (by simp [partSpans]), ihl hleft, ihr hright⟩
  | quantified q collection predicate binder spans ihc ihp =>
    obtain ⟨⟨a, b, hnode⟩, harguments⟩ := List.forall_mem_cons.1 h
    obtain ⟨hcollection, hpredicate⟩ := List.forall_mem_append.1 harguments
    obtain ⟨hnotec, hnotep, hnoteb⟩ := hnode.arguments
    refine ⟨hnode.known, hnode.known_part _ (by simp [partSpans]), ?_, fun s hs => ?_, ?_,
      ihc hcollection, ihp hpredicate⟩
    · rw [hnotec]
      exact (ihc hcollection).span
    · have hwritten : binder.written = true := by
        by_contra hnot
        rw [hnoteb (eq_false_of_ne_true hnot)] at hs
        cases hs
      obtain ⟨s', hs', hinside⟩ := hnode.known_part spans.binder (by simp [partSpans, hwritten])
      cases hs.symm.trans hs'
      exact hinside
    · rw [hnotep]
      exact (ihp hpredicate).span

/-- **What is found in a condition that was read takes characters of its text.** -/
theorem findings_inside {limit : Int} (h : parse text limit = .ok e) (catalog : Catalog) :
    ∀ located ∈ e.check catalog, Span.Known (Span.Inside text) located.span :=
  (placed_of_faithful (faithful_of_parse h)).findings catalog []

end Expr

/-! ## Diagnostics -/

namespace Condition

variable {text : String} {catalog : Catalog} {limit : Int} {error : ConditionError}

/-- How a text that is not blank is no condition. -/
theorem cases_of_parse_error (hblank : Text.allBlank text = false)
    (h : parse text catalog limit = .error error) :
    (∃ e, Expr.parse text limit = .error e ∧ error = .unreadable e) ∨
      ∃ e located rest, Expr.parse text limit = .ok e ∧ e.check catalog = located :: rest ∧
        error = .invalid (located :: rest) := by
  unfold parse at h
  rw [hblank] at h
  simp only [Bool.false_eq_true, if_false] at h
  split at h
  · rename_i e hparse
    cases h
    exact .inl ⟨e, hparse, rfl⟩
  · rename_i e hparse
    split at h
    · cases h
    · rename_i hne
      cases hcheck : e.check catalog with
      | nil => exact absurd hcheck hne
      | cons located rest =>
        rw [hcheck] at h
        cases h
        exact .inr ⟨e, located, rest, hparse, hcheck, rfl⟩

/-- Where in a text an error is told to stand, from one place up to another. -/
inductive Points (text : String) : ConditionError → Int → Int → Prop
  /-- A blank text is told of at its start. -/
  | blank (h : Text.allBlank text = true) : Points text .blank 0 0
  /-- A character that no pattern applies to, behind all tokens. -/
  | character {error : LexError} (hblank : Text.allBlank text = false)
    (htokens : tokenize text = .error error) (hlt : error.offset < text.toList.length)
    (h : ∀ p ∈ Pattern.table, ¬p.Applies (text.toList.drop error.offset)) :
    Points text (.unreadable (.lexical error)) error.offset (error.offset + 1)
  /-- The place where a token starts or ends. -/
  | token {error : ParseError} {tokens : List Token} {t : Token}
    (hblank : Text.allBlank text = false) (htokens : tokenize text = .ok tokens)
    (ht : t ∈ tokens) (h : error.offset = t.start ∨ error.offset = t.stop)
    (hle : error.offset ≤ text.toList.length) :
    Points text (.unreadable (.grammatical error)) error.offset (error.offset + 1)
  /-- Some characters. -/
  | piece {findings : List Located} {s : Span} (hblank : Text.allBlank text = false)
    (h : s.Inside text) : Points text (.invalid findings) s.start s.stop

/-- A place is never negative, and ends no earlier than it starts. -/
theorem Points.le {start stop : Int} (h : Points text error start stop) :
    0 ≤ start ∧ start ≤ stop := by
  cases h with
  | blank => decide
  | character => omega
  | token => omega
  | piece _ h => exact ⟨h.1, h.2.1.le⟩

theorem points_of_unreadable {e : SyntaxError} (hblank : Text.allBlank text = false)
    (h : Expr.parse text limit = .error e) : Points text (.unreadable e) e.offset (e.offset + 1) := by
  have htiles := tokenize_tiles text
  rcases htokens : tokenize text with error | tokens
  · rw [htokens] at htiles
    rw [Expr.parse, htokens] at h
    cases h
    obtain ⟨hlt, -, -, -, -, hnone⟩ := htiles
    exact .character hblank htokens hlt hnone
  · rw [htokens] at htiles
    rw [Expr.parse, htokens] at h
    have hne : tokens ≠ [] := fun hnil => by
      rw [(tokenize_eq_nil_iff htokens).1 hnil] at hblank
      cases hblank
    change (Expr.ofTokens limit tokens).mapError _ = _ at h
    rcases hread : Expr.ofTokens limit tokens with error | e
    · rw [hread] at h
      cases h
      obtain ⟨t, ht, hat⟩ := Expr.fault_at_token hne hread
      refine .token hblank htokens ht hat ?_
      obtain ⟨hlt, hle⟩ := htiles.within t ht
      rcases hat with hat | hat <;> omega
    · rw [hread] at h
      cases h

/-- **Every diagnostic points into the text.** When a text is not a condition that the catalog
allows, authors are told of something, and each time with a place. -/
theorem diagnostics_point (h : parse text catalog limit = .error error) :
    error.diagnostics text ≠ [] ∧ ∀ d ∈ error.diagnostics text, ∃ extent, d.extent = some extent ∧
      0 ≤ extent.start.offset ∧ extent.start.offset ≤ extent.stop.offset ∧
        Points text error extent.start.offset extent.stop.offset := by
  suffices hpoints : error.diagnostics text ≠ [] ∧ ∀ d ∈ error.diagnostics text,
      ∃ extent, d.extent = some extent ∧
        Points text error extent.start.offset extent.stop.offset by
    refine ⟨hpoints.1, fun d hd => ?_⟩
    obtain ⟨extent, hextent, hplace⟩ := hpoints.2 d hd
    exact ⟨extent, hextent, hplace.le.1, hplace.le.2, hplace⟩
  cases hblank : Text.allBlank text with
  | true =>
    rw [parse, hblank] at h
    cases h
    exact ⟨List.cons_ne_nil _ _, List.forall_mem_singleton.2 ⟨_, rfl, .blank hblank⟩⟩
  | false =>
    rcases cases_of_parse_error hblank h with
      ⟨e, hparse, rfl⟩ | ⟨e, located, rest, hparse, hcheck, rfl⟩
    · exact ⟨List.cons_ne_nil _ _,
        List.forall_mem_singleton.2 ⟨_, rfl, points_of_unreadable hblank hparse⟩⟩
    · refine ⟨List.cons_ne_nil _ _, fun d hd => ?_⟩
      obtain ⟨found, hfound, rfl⟩ := List.mem_map.1 hd
      obtain ⟨s, hs, hinside⟩ := Expr.findings_inside hparse catalog found (hcheck ▸ hfound)
      refine ⟨_, by rw [Located.diagnostic, hs]; rfl, ?_⟩
      exact .piece hblank hinside

theorem diagnostics_point_stock :
    ∃ error, parse "size == null && some(status, x)" Expr.stockCatalog 64 = .error error ∧
      (error.diagnostics "size == null && some(status, x)").length = 4 ∧
      ∀ d ∈ error.diagnostics "size == null && some(status, x)", ∃ extent, d.extent = some extent ∧
        0 ≤ extent.start.offset ∧ extent.start.offset ≤ extent.stop.offset ∧
          Points "size == null && some(status, x)" error extent.start.offset extent.stop.offset := by
  obtain ⟨error, herror⟩ : ∃ error,
      parse "size == null && some(status, x)" Expr.stockCatalog 64 = .error error := ⟨_, rfl⟩
  refine ⟨error, herror, ?_, (diagnostics_point herror).2⟩
  cases herror
  rfl

end Condition

end Criteria
