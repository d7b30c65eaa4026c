import Criteria.Check
import Criteria.Expr.Text
import Criteria.Logic.Compile
import Criteria.Proofs.Expr.Grammar
import Criteria.Proofs.Token.Tiling
import Mathlib.Data.List.Forall2

/-!
# Where conditions stand

What is found in a condition whose nodes all know where they stand is found in a place that is known
too (`Expr.Placed.findings`). The variables of a condition that was read from text stand where the
text spells them, in the order of the text (`Expr.exists_occurrences`).
-/

namespace Criteria

/-- The span is known, and a property holds of it. -/
def Span.Known (P : Span → Prop) (span : Option Span) : Prop := ∃ s, span = some s ∧ P s

theorem Span.Known.or {P : Span → Prop} {span : Option Span} (h : Span.Known P span)
    (other : Option Span) : Span.Known P (span.or other) := by
  obtain ⟨s, rfl, hP⟩ := h
  exact ⟨s, rfl, hP⟩

namespace Expr

/-- Every node knows where it and its parts stand, and a property holds of all these spans. Only an
alias that is not written out stands nowhere. -/
def Placed (P : Span → Prop) : Expr → Prop
  | .literal _ span => Span.Known P span
  | .reference _ span => Span.Known P span
  | .not argument span operatorSpan =>
    Span.Known P span ∧ Span.Known P operatorSpan ∧ argument.Placed P
  | .binary _ left right span operatorSpan =>
    Span.Known P span ∧ Span.Known P operatorSpan ∧ left.Placed P ∧ right.Placed P
  | .quantified _ collection predicate _ spans =>
    Span.Known P spans.whole ∧ Span.Known P spans.operator ∧ Span.Known P spans.collection ∧
      (∀ s, spans.binder = some s → P s) ∧ Span.Known P spans.predicate ∧
        collection.Placed P ∧ predicate.Placed P

variable {P : Span → Prop} {e : Expr}

theorem Placed.span (h : e.Placed P) : Span.Known P e.span := by
  cases e with
  | literal => exact h
  | reference => exact h
  | not => exact h.1
  | binary => exact h.1
  | quantified => exact h.1

/-- What is said about the operator of a comparison stands at the operator. -/
theorem known_operatorFindings {catalog : Catalog} {aliases : List String} {c : Comparison}
    {operatorSpan : Option Span} (h : Span.Known P operatorSpan) :
    ∀ located ∈ operatorFindings catalog aliases c e operatorSpan, Span.Known P located.span := by
  intro located hmem
  obtain ⟨⟨path, span⟩, -, hfound⟩ := List.mem_filterMap.1 hmem
  simp only at hfound
  split at hfound
  · split at hfound
    · cases hfound
    · cases hfound
      exact h.or span
  · cases hfound

/-- What is said about a literal stands at the literal. -/
theorem known_literalFindings {side : Expr} (h : side.Placed P) (others : List Definition) :
    ∀ located ∈ literalFindings side others e, Span.Known P located.span := by
  intro located hmem
  cases side with
  | literal value span =>
    obtain ⟨d, -, hfound⟩ := List.mem_filterMap.1 hmem
    split at hfound
    · cases hfound
    · cases hfound
      exact Span.Known.or h e.span
  | _ => cases hmem

/-- What is said about a collection stands at the collection. -/
theorem known_collectionFindings {catalog : Catalog} {q : Quantifier} {collection : Expr}
    (h : collection.Placed P) :
    ∀ located ∈ collectionFindings catalog q collection e, Span.Known P located.span := by
  intro located hmem
  cases collection with
  | reference path span =>
    simp only [collectionFindings] at hmem
    split at hmem
    · split at hmem
      · cases hmem
      · obtain rfl := List.mem_singleton.1 hmem
        exact Span.Known.or h e.span
    · cases hmem
  | _ =>
    obtain rfl := List.mem_singleton.1 hmem
    exact h.span.or e.span

/-- **What is found in a condition stands where a part of it does.** -/
theorem Placed.findings (h : e.Placed P) (catalog : Catalog) (aliases : List String) :
    ∀ located ∈ (checkUnder catalog aliases e).findings, Span.Known P located.span := by
  induction e generalizing aliases with
  | literal => intro located hmem; cases hmem
  | reference path span =>
    intro located hmem
    rw [checkUnder] at hmem
    split at hmem
    · cases hmem
    · split at hmem
      · cases hmem
      · obtain rfl := List.mem_singleton.1 hmem
        exact h
  | not _ _ _ ih => exact ih h.2.2 aliases
  | binary op a b s t iha ihb =>
    obtain ⟨-, hoperator, ha, hb⟩ := h
    cases op with
    | logical =>
      intro located hmem
      rcases List.mem_append.1 hmem with hmem | hmem
      · exact iha ha aliases located hmem
      · exact ihb hb aliases located hmem
    | compare c =>
      intro located hmem
      rcases List.mem_append.1 hmem with hmem | hmem
      · rcases List.mem_append.1 hmem with hmem | hmem
        · exact iha ha aliases located hmem
        · exact ihb hb aliases located hmem
      · simp only [List.mem_append] at hmem
        rcases hmem with ((hmem | hmem) | hmem) | hmem
        · exact known_operatorFindings hoperator located hmem
        · exact known_literalFindings hb _ located hmem
        · exact known_literalFindings ha _ located hmem
        · obtain ⟨pair, -, rfl⟩ := List.mem_map.1 hmem
          exact hoperator.or s
  | quantified q a b binder spans iha ihb =>
    obtain ⟨-, -, -, -, hpredicate, ha, hb⟩ := h
    intro located hmem
    rcases List.mem_append.1 hmem with hmem | hmem
    · exact iha ha aliases located hmem
    · simp only [List.mem_append] at hmem
      rcases hmem with (hmem | hmem) | hmem
      · exact known_collectionFindings ha located hmem
      · exact ihb hb _ located hmem
      · split at hmem
        · cases hmem
        · obtain rfl := List.mem_singleton.1 hmem
          exact hpredicate.or spans.whole

/-! ## Variables in a text -/

/-- A variable of a condition is spelled by a token inside its span. -/
def SpelledBy (occurrence : String × Option Span) (t : Token) : Prop :=
  t.lexeme = .identifier occurrence.1 ∧
    Span.Known (fun s => s.start ≤ t.start ∧ t.stop ≤ s.stop) occurrence.2

/-- The tokens that spell variables are names, those of the variables. -/
theorem lexemes_of_spelledBy {occurrences : List (String × Option Span)} {names : List Token}
    (h : List.Forall₂ SpelledBy occurrences names) :
    names.map (·.lexeme) = occurrences.map fun o => .identifier o.1 := by
  induction h with
  | nil => rfl
  | cons h _ ih => rw [List.map_cons, List.map_cons, h.1, ih]

/-- The tokens stand one after another. -/
def Ordered (ts : List Token) : Prop :=
  ts.Pairwise (fun t u => t.stop ≤ u.start) ∧ ∀ t ∈ ts, t.start < t.stop

theorem Ordered.sublist {ts us : List Token} (h : Ordered us) (hsub : ts.Sublist us) :
    Ordered ts := ⟨h.1.sublist hsub, fun t ht => h.2 t (hsub.subset ht)⟩

section Sublists

variable (ts us vs : List Token) (t u v : Token)

/-- The tokens inside parentheses. -/
theorem sublist_group : ts.Sublist (t :: (ts ++ [u])) := (List.sublist_append_left ..).cons _

/-- The tokens of the arguments of a quantifier and of its alias clause. -/
theorem sublist_arguments :
    (ts ++ (us ++ vs)).Sublist (t :: (ts ++ (us ++ u :: (vs ++ [v])))) :=
  .cons _ ((List.Sublist.refl ts).append ((List.Sublist.refl us).append (sublist_group vs u v)))

/-- The tokens of the operands of an operator. -/
theorem sublist_operands : (ts ++ us).Sublist (ts ++ t :: us) :=
  (List.Sublist.refl ts).append (List.sublist_cons_self ..)

end Sublists

/-- A group stands around what is inside it. -/
theorem spelledBy_group {inside names : List Token} {i j k l : Nat}
    (horder : Ordered (⟨.opening, i, j⟩ :: (inside ++ [⟨.closing, k, l⟩])))
    (hsub : names.Sublist inside) (h : List.Forall₂ SpelledBy e.references names) :
    List.Forall₂ SpelledBy (e.withSpan (some ⟨i, l⟩)).references names := by
  cases e with
  | reference path span =>
    obtain ⟨t, _, ⟨hname, -⟩, hnil, rfl⟩ := List.forall₂_cons_left_iff.1 h
    obtain rfl := List.forall₂_nil_left_iff.1 hnil
    have ht : t ∈ inside := hsub.subset (List.mem_cons_self ..)
    have hafter := (List.pairwise_cons.1 horder.1).1 t (List.mem_append_left _ ht)
    have hbefore := (List.pairwise_append.1 (List.pairwise_cons.1 horder.1).2).2.2 t ht _
      (List.mem_singleton_self _)
    have hopening := horder.2 _ (List.mem_cons_self ..)
    have hclosing := horder.2 ⟨.closing, k, l⟩ (by simp)
    dsimp only at hafter hbefore hopening hclosing
    refine .cons ⟨hname, _, rfl, ?_, ?_⟩ .nil
    · dsimp only
      omega
    · dsimp only
      omega
  | _ => exact h

/-- **The variables of a condition are tokens, in the same order.** -/
theorem Reads.exists_spelledBy {layer : Layer} {n : Nat} {ts : List Token} (h : Reads layer n ts e)
    (horder : Ordered ts) :
    ∃ names : List Token, names.Sublist ts ∧ List.Forall₂ SpelledBy e.references names := by
  induction h with
  | number | string | bool | null => exact ⟨[], List.nil_sublist _, .nil⟩
  | reference =>
    exact ⟨_, List.Sublist.refl _, .cons ⟨rfl, _, rfl, Int.le_refl _, Int.le_refl _⟩ .nil⟩
  | group _ ih =>
    obtain ⟨names, hsub, hnames⟩ := ih (horder.sublist (sublist_group ..))
    exact ⟨names, hsub.trans (sublist_group ..), spelledBy_group horder hsub hnames⟩
  | @quantified q name m n cs as ps collection predicate binder binderSpan i j k l s t u v hq hc ha
      hp ihc ihp =>
    have hparts := ((List.Sublist.refl cs).append (List.sublist_append_right as ps)).trans
      ((sublist_arguments cs as ps ⟨.opening, k, l⟩ ⟨.comma, s, t⟩ ⟨.closing, u, v⟩).cons
        ⟨.identifier name, i, j⟩)
    have horder' := horder.sublist hparts
    obtain ⟨names, hsub, hnames⟩ := ihc (horder'.sublist (List.sublist_append_left ..))
    obtain ⟨names', hsub', hnames'⟩ := ihp (horder'.sublist (List.sublist_append_right ..))
    exact ⟨names ++ names', (hsub.append hsub').trans hparts, List.rel_append hnames hnames'⟩
  | @not n ts e i j _ ih =>
    obtain ⟨names, hsub, hnames⟩ := ih (horder.sublist (List.sublist_cons_self ..))
    exact ⟨names, hsub.cons _, hnames⟩
  | single _ ih => exact ih horder
  | @join l op m n ls rs a b i j _ _ _ ihl ihr =>
    have hparts := sublist_operands ls rs ⟨.operator op, i, j⟩
    have horder' := horder.sublist hparts
    obtain ⟨names, hsub, hnames⟩ := ihl (horder'.sublist (List.sublist_append_left ..))
    obtain ⟨names', hsub', hnames'⟩ := ihr (horder'.sublist (List.sublist_append_right ..))
    exact ⟨names ++ names', (hsub.append hsub').trans hparts, List.rel_append hnames hnames'⟩

/-- The variables of a condition are spelled in a text by these tokens, one after another. -/
structure Occurrences (text : String) (e : Expr) (names : List Token) : Prop where
  references : List.Forall₂ SpelledBy e.references names
  spelled : ∀ t ∈ names, (text.toList.drop t.start).take (t.stop - t.start) = t.lexeme.text.toList
  ordered : names.Pairwise fun t u => t.stop ≤ u.start

theorem ordered_of_tokenize {text : String} {tokens : List Token}
    (h : tokenize text = .ok tokens) : Ordered tokens := by
  have hscan := congrArg Prod.fst (tokenize_eq_ok_iff.1 h)
  dsimp only at hscan
  subst hscan
  exact ⟨scan_pairwise 0 0 _, fun t ht => (scan_bounds 0 0 _ t ht).2.1⟩

/-- What it takes for a text to be read as an expression. -/
theorem exists_reads_of_parse {text : String} {limit : Int} (h : parse text limit = .ok e) :
    ∃ tokens n, tokenize text = .ok tokens ∧ Reads (.level .or) n tokens e := by
  obtain ⟨tokens, htokens, hread⟩ := bind_ok h
  obtain ⟨n, hreads, -⟩ := ofTokens_eq_ok_iff.1 (mapError_ok hread)
  exact ⟨tokens, n, mapError_ok htokens, hreads⟩

/-- **The variables of a condition stand where its text spells them, in the order of the text.** -/
theorem exists_occurrences {text : String} {limit : Int} (h : parse text limit = .ok e) :
    ∃ names, Occurrences text e names := by
  obtain ⟨tokens, n, htokens, hreads⟩ := exists_reads_of_parse h
  have horder := ordered_of_tokenize htokens
  obtain ⟨names, hsub, hnames⟩ := hreads.exists_spelledBy horder
  refine ⟨names, hnames, ?_, horder.1.sublist hsub⟩
  intro t ht
  obtain ⟨r, -, hname⟩ : ∃ r ∈ e.references, .identifier r.1 = t.lexeme := by
    have hmap := List.mem_map_of_mem (f := (·.lexeme)) ht
    rwa [lexemes_of_spelledBy hnames, List.mem_map] at hmap
  exact (tiles_of_tokenize htokens).spelled (hsub.subset ht) (by rw [← hname]; nofun)

end Expr

end Criteria
