import Criteria.Proofs.Expr.Spans

/-!
# Conditions at other places

Spans are passive. The readers of expressions only copy and join them, so a `Relocation` of tokens,
which moves the places and keeps the lexemes, relocates what is read: tokens at other places are
read as the same expression at other places, or refused with the same fault at another place
(`Expr.ofTokens_relocate`). Moving the spans of an expression moves what the check finds in it
(`Expr.check_mapSpans`) and changes nothing else about it (`Expr.toLogic_mapSpans`,
`Expr.text_mapSpans`, `Expr.definitionsUnder_mapSpans`, `Expr.erase_mapSpans`).
-/

namespace Criteria

/-! ## Moving spans -/

/-- The spans of a quantifier, each moved. -/
def QuantifierSpans.map (f : Span → Span) (spans : QuantifierSpans) : QuantifierSpans :=
  ⟨spans.whole.map f, spans.operator.map f, spans.collection.map f, spans.binder.map f,
    spans.predicate.map f⟩

namespace Expr

/-- The expression with each of its spans moved. -/
def mapSpans (f : Span → Span) : Expr → Expr
  | .literal value span => .literal value (span.map f)
  | .reference path span => .reference path (span.map f)
  | .not argument span operatorSpan =>
    .not (argument.mapSpans f) (span.map f) (operatorSpan.map f)
  | .binary op left right span operatorSpan =>
    .binary op (left.mapSpans f) (right.mapSpans f) (span.map f) (operatorSpan.map f)
  | .quantified q collection predicate binder spans =>
    .quantified q (collection.mapSpans f) (predicate.mapSpans f) binder (spans.map f)

variable (f : Span → Span)

theorem span_mapSpans (e : Expr) : (e.mapSpans f).span = e.span.map f := by
  cases e <;> rfl

theorem mapSpans_mapSpans (g : Span → Span) (e : Expr) :
    (e.mapSpans f).mapSpans g = e.mapSpans (g ∘ f) := by
  induction e with
  | literal | reference => simp [mapSpans]
  | not _ _ _ ih => simp [mapSpans, ih]
  | binary _ _ _ _ _ ihl ihr => simp [mapSpans, ihl, ihr]
  | quantified _ _ _ _ _ ihc ihp => simp [mapSpans, QuantifierSpans.map, ihc, ihp]

theorem mapSpans_id (e : Expr) : e.mapSpans id = e := by
  induction e with
  | literal | reference => simp [mapSpans]
  | not _ _ _ ih => simp [mapSpans, ih]
  | binary _ _ _ _ _ ihl ihr => simp [mapSpans, ihl, ihr]
  | quantified _ _ _ _ _ ihc ihp => simp [mapSpans, QuantifierSpans.map, ihc, ihp]

theorem withSpan_mapSpans (e : Expr) (span : Option Span) :
    (e.mapSpans f).withSpan (span.map f) = (e.withSpan span).mapSpans f := by
  cases e <;> rfl

theorem kind_mapSpans (e : Expr) : (e.mapSpans f).kind = e.kind := by
  cases e <;> rfl

/-! ## What does not depend on spans -/

/-- Moved spans do not change the persisted form. -/
theorem toLogic_mapSpans (e : Expr) : (e.mapSpans f).toLogic = e.toLogic := by
  induction e with
  | literal => rfl
  | reference => rfl
  | not _ _ _ ih => rw [mapSpans, toLogic, toLogic, ih]
  | binary op _ _ _ _ ihl ihr =>
    cases op <;> rw [mapSpans, toLogic, toLogic, ihl, ihr]
  | quantified _ _ _ _ _ ihc ihp => rw [mapSpans, toLogic, toLogic, ihc, ihp]

/-- Moved spans do not change the canonical text. -/
theorem text_mapSpans (e : Expr) : (e.mapSpans f).text = e.text := by
  have hgroup : ∀ (op : BinaryOp) (e : Expr), needsGroup op (e.mapSpans f) = needsGroup op e := by
    intro op e
    cases e <;> rfl
  have hnot : ∀ e : Expr, needsGroupUnderNot (e.mapSpans f) = needsGroupUnderNot e := by
    intro e
    cases e <;> rfl
  induction e with
  | literal => rfl
  | reference => rfl
  | not _ _ _ ih => rw [mapSpans, text, text, ih, hnot]
  | binary _ _ _ _ _ ihl ihr => rw [mapSpans, text, text, ihl, ihr, hgroup, hgroup]
  | quantified _ _ _ _ _ ihc ihp => rw [mapSpans, text, text, ihc, ihp]

/-- Moved spans are forgotten with the others. -/
theorem erase_mapSpans (e : Expr) : (e.mapSpans f).erase = e.erase := by
  induction e with
  | literal => rfl
  | reference => rfl
  | not _ _ _ ih => rw [mapSpans, erase, erase, ih]
  | binary _ _ _ _ _ ihl ihr => rw [mapSpans, erase, erase, ihl, ihr]
  | quantified _ _ _ _ _ ihc ihp => rw [mapSpans, erase, erase, ihc, ihp]

theorem references_mapSpans (e : Expr) :
    (e.mapSpans f).references = e.references.map fun o => (o.1, o.2.map f) := by
  induction e with
  | literal => rfl
  | reference => rfl
  | not _ _ _ ih => exact ih
  | binary _ _ _ _ _ ihl ihr => rw [mapSpans, references, references, List.map_append, ihl, ihr]
  | quantified _ _ _ _ _ ihc ihp =>
    rw [mapSpans, references, references, List.map_append, ihc, ihp]

/-- Moved spans do not change the catalog variables. -/
theorem definitionsUnder_mapSpans (catalog : Catalog) (e : Expr) :
    catalog.definitionsUnder (e.mapSpans f) = catalog.definitionsUnder e := by
  rw [Catalog.definitionsUnder, references_mapSpans, List.filterMap_map]
  rfl

end Expr

/-! ## What is found -/

/-- The finding at a moved place. -/
def Located.mapSpan (f : Span → Span) (located : Located) : Located :=
  { located with span := located.span.map f }

/-- At moved places, and in another text, the same is said. -/
theorem Located.told_mapSpan (f : Span → Span) (index index' : LineIndex)
    (findings : List Located) :
    ((findings.map (mapSpan f)).map (diagnostic index)).map (fun d => (d.code, d.message)) =
      (findings.map (diagnostic index')).map fun d => (d.code, d.message) := by
  simp only [List.map_map]
  refine List.map_congr_left fun located _ => ?_
  obtain ⟨finding, span, kind⟩ := located
  cases span <;> rfl

/-- The report with each of its findings moved. -/
def Report.mapSpans (f : Span → Span) (report : Report) : Report :=
  ⟨report.findings.map (Located.mapSpan f), report.used⟩

theorem Report.mapSpans_append (f : Span → Span) (a b : Report) :
    (a ++ b).mapSpans f = a.mapSpans f ++ b.mapSpans f :=
  congrArg (Report.mk · (a.used ++ b.used)) List.map_append

namespace Expr

variable (f : Span → Span) (catalog : Catalog)

theorem operatorFindings_mapSpans (aliases : List String) (c : Comparison) (e : Expr)
    (span : Option Span) :
    operatorFindings catalog aliases c (e.mapSpans f) (span.map f) =
      (operatorFindings catalog aliases c e span).map (Located.mapSpan f) := by
  rw [operatorFindings, references_mapSpans, List.filterMap_map, operatorFindings,
    List.map_filterMap]
  refine List.filterMap_congr fun o _ => ?_
  simp only [Function.comp, kind_mapSpans]
  cases bindingLevel? o.1 aliases with
  | some level => rfl
  | none =>
    cases catalog.lookup? o.1 with
    | none => rfl
    | some d =>
      simp only
      split
      · rfl
      · simp [Located.mapSpan, Option.map_or]

theorem literalFindings_mapSpans (side : Expr) (others : List Definition) (e : Expr) :
    literalFindings (side.mapSpans f) others (e.mapSpans f) =
      (literalFindings side others e).map (Located.mapSpan f) := by
  cases side with
  | literal value span =>
    simp only [mapSpans, literalFindings, List.map_filterMap, span_mapSpans, kind_mapSpans]
    refine List.filterMap_congr fun d _ => ?_
    split
    · rfl
    · simp [Located.mapSpan, Option.map_or]
  | _ => rfl

theorem variableFindings_mapSpans (c : Comparison) (lefts rights : List Definition) (e : Expr)
    (span : Option Span) :
    variableFindings c lefts rights (e.mapSpans f) (span.map f) =
      (variableFindings c lefts rights e span).map (Located.mapSpan f) := by
  simp only [variableFindings, List.map_map, span_mapSpans, kind_mapSpans, ← Option.map_or]
  rfl

theorem collectionFindings_of_not_reference {collection : Expr}
    (h : ∀ path span, collection ≠ .reference path span) (q : Quantifier) (e : Expr) :
    collectionFindings catalog q collection e =
      [⟨.collectionNotVariable, collection.span.or e.span, e.kind⟩] := by
  cases collection with
  | reference path span => exact absurd rfl (h path span)
  | _ => rfl

theorem collectionFindings_mapSpans (q : Quantifier) (collection e : Expr) :
    collectionFindings catalog q (collection.mapSpans f) (e.mapSpans f) =
      (collectionFindings catalog q collection e).map (Located.mapSpan f) := by
  cases collection with
  | reference path span =>
    simp only [mapSpans, collectionFindings, span_mapSpans, kind_mapSpans, ← Option.map_or]
    cases catalog.lookup? path with
    | none => rfl
    | some d =>
      simp only
      split <;> rfl
  | _ =>
    rw [collectionFindings_of_not_reference _ (by simp [mapSpans]),
      collectionFindings_of_not_reference _ (by simp), span_mapSpans, span_mapSpans, kind_mapSpans,
      ← Option.map_or]
    rfl

/-- **Moved spans move what is found.** -/
theorem checkUnder_mapSpans (aliases : List String) (e : Expr) :
    checkUnder catalog aliases (e.mapSpans f) = (checkUnder catalog aliases e).mapSpans f := by
  induction e generalizing aliases with
  | literal => rfl
  | reference path span =>
    simp only [mapSpans, checkUnder]
    cases bindingLevel? path aliases with
    | some level => rfl
    | none =>
      simp only
      split <;> rfl
  | not _ _ _ ih => exact ih aliases
  | binary op a b s t iha ihb =>
    cases op with
    | logical => simp only [mapSpans, checkUnder, iha, ihb, Report.mapSpans_append]
    | compare c =>
      have hnode : mapSpans f (.binary (.compare c) a b s t) =
          .binary (.compare c) (a.mapSpans f) (b.mapSpans f) (s.map f) (t.map f) := rfl
      have hused : (mapSpans f (.binary (.compare c) a b s t)).references.filterMap
            (fun o => bindingLevel? o.1 aliases) =
          (Expr.binary (.compare c) a b s t).references.filterMap
            (fun o => bindingLevel? o.1 aliases) := by
        rw [references_mapSpans, List.filterMap_map]
        rfl
      rw [hnode, checkUnder, checkUnder]
      simp only [iha, ihb, Report.mapSpans_append, definitionsUnder_mapSpans]
      rw [← hnode, hused, operatorFindings_mapSpans, literalFindings_mapSpans,
        literalFindings_mapSpans, variableFindings_mapSpans]
      simp only [Report.mapSpans, List.map_append]
  | quantified q a b binder s iha ihb =>
    have hnode : mapSpans f (.quantified q a b binder s) =
        .quantified q (a.mapSpans f) (b.mapSpans f) binder (s.map f) := rfl
    have hinside : (checkUnder catalog (binder.name :: aliases) (b.mapSpans f)).used =
        (checkUnder catalog (binder.name :: aliases) b).used := by rw [ihb, Report.mapSpans]
    have hunused : (s.map f).predicate.or (s.map f).whole = (s.predicate.or s.whole).map f :=
      Option.map_or.symm
    rw [hnode, checkUnder, checkUnder]
    simp only [iha, Report.mapSpans_append, hinside, hunused]
    rw [← hnode, collectionFindings_mapSpans, ihb]
    simp only [Report.mapSpans, List.map_append]
    split <;> rfl

theorem check_mapSpans (e : Expr) :
    (e.mapSpans f).check catalog = (e.check catalog).map (Located.mapSpan f) :=
  congrArg Report.findings (checkUnder_mapSpans f catalog [] e)

end Expr

/-! ## Relocations -/

/-- A relocation: where the points of a text go, and the spans between them. -/
structure Relocation where
  point : Nat → Nat
  span : Span → Span
  span_mk : ∀ i j : Nat, span ⟨i, j⟩ = ⟨point i, point j⟩
  span_cover : ∀ a b : Span, span (a.cover b) = (span a).cover (span b)

namespace Relocation

variable (r : Relocation)

theorem map_cover? (a b : Option Span) :
    Span.cover? (a.map r.span) (b.map r.span) = (Span.cover? a b).map r.span := by
  cases a with
  | none => rfl
  | some s =>
    cases b with
    | none => rfl
    | some t => exact congrArg some (r.span_cover s t).symm

/-- The token at its other place. -/
def token (t : Token) : Token := ⟨t.lexeme, r.point t.start, r.point t.stop⟩

theorem span_token (t : Token) : (r.token t).span = r.span t.span := (r.span_mk ..).symm

/-- The tokens still to be read, at their other places. -/
def input (input : TokenInput) : TokenInput := ⟨r.point input.last, input.tokens.map r.token⟩

/-- The fault at its other place. -/
def error (error : ParseError) : ParseError := ⟨error.fault, r.point error.offset⟩

variable {α β : Type}

/-- The answer of a reader, at other places. -/
def answer (move : α → α) :
    Except ParseError (α × TokenInput) → Except ParseError (α × TokenInput)
  | .ok (a, next) => .ok (move a, r.input next)
  | .error error => .error (r.error error)

/-- At other places the reader answers as it does here, at other places. -/
def Moves (move : α → α) (reader : TokenReader α) : Prop :=
  ∀ input : TokenInput, reader (r.input input) = r.answer move (reader input)

variable {r}

theorem answer_bind {move : α → α} {move' : β → β} {x x' : Except ParseError (α × TokenInput)}
    {g g' : α × TokenInput → Except ParseError (β × TokenInput)} (hx : x' = r.answer move x)
    (hg : ∀ a next, g' (move a, r.input next) = r.answer move' (g (a, next))) :
    x' >>= g' = r.answer move' (x >>= g) := by
  subst hx
  cases x with
  | error => rfl
  | ok answer => exact hg answer.1 answer.2

end Relocation

/-! ## Readers -/

namespace Expr

variable {r : Relocation}

theorem join_relocate (op : BinaryOp) (i j : Nat) (a b : Expr) :
    join op ⟨r.point i, r.point j⟩ (a.mapSpans r.span) (b.mapSpans r.span) =
      (join op ⟨i, j⟩ a b).mapSpans r.span := by
  simp only [join, mapSpans, span_mapSpans, r.map_cover?, r.span_mk, Option.map_some]

theorem chainAfter_relocate {level : Level} {operand : TokenReader Expr}
    (h : r.Moves (mapSpans r.span) operand) (more : Nat) (left : Expr) (input : TokenInput) :
    chainAfter level operand more (left.mapSpans r.span) (r.input input) =
      r.answer (mapSpans r.span) (chainAfter level operand more left input) := by
  induction more generalizing left input with
  | zero => rfl
  | succ more ih =>
    obtain ⟨last, tokens⟩ := input
    cases tokens with
    | nil => rfl
    | cons t rest =>
      obtain ⟨lexeme, start, stop⟩ := t
      cases lexeme with
      | operator op =>
        simp only [Relocation.input, List.map_cons, Relocation.token, chainAfter]
        split
        · exact Relocation.answer_bind (h ⟨stop, rest⟩) fun right next => by
            rw [join_relocate]
            exact ih _ next
        · rfl
      | _ => rfl

theorem chain_relocate (level : Level) {operand : TokenReader Expr}
    (h : r.Moves (mapSpans r.span) operand) : r.Moves (mapSpans r.span) (chain level operand) := by
  intro input
  refine Relocation.answer_bind (h input) fun left next => ?_
  have hlength : (r.input next).tokens.length = next.tokens.length := List.length_map ..
  simp only [hlength]
  exact chainAfter_relocate h _ left next

theorem chains_relocate {operand : TokenReader Expr} (h : r.Moves (mapSpans r.span) operand) :
    r.Moves (mapSpans r.span) (chains operand) :=
  chain_relocate _ (chain_relocate _ (chain_relocate _ (chain_relocate _ h)))

theorem aliasClause_of_ne_as {name : String} (h : name ≠ "as") (last i j : Nat)
    (rest : List Token) :
    aliasClause ⟨last, ⟨.identifier name, i, j⟩ :: rest⟩ =
      .ok ((⟨defaultAlias, false⟩, none), ⟨last, ⟨.identifier name, i, j⟩ :: rest⟩) := by
  unfold aliasClause
  split
  · rename_i heq
    cases heq
    exact absurd rfl h
  · rfl

theorem aliasClause_relocate : r.Moves (Prod.map id (Option.map r.span)) aliasClause := by
  rintro ⟨last, tokens⟩
  cases tokens with
  | nil => rfl
  | cons t rest =>
    obtain ⟨lexeme, start, stop⟩ := t
    cases lexeme with
    | identifier word =>
      by_cases hword : word = "as"
      · subst hword
        cases rest with
        | nil => rfl
        | cons t rest =>
          obtain ⟨lexeme, start, stop⟩ := t
          cases lexeme with
          | identifier name =>
            simp only [Relocation.input, List.map_cons, Relocation.token, aliasClause]
            split
            · rfl
            · simp only [Relocation.answer, Relocation.input, Prod.map, r.span_mk, id_eq,
                Option.map_some]
          | _ => rfl
      · simp only [Relocation.input, List.map_cons, Relocation.token, aliasClause_of_ne_as hword,
          Relocation.answer]
        rfl
    | _ => rfl

theorem quantifierArguments_relocate {nested : TokenReader Expr}
    (h : r.Moves (mapSpans r.span) nested) (q : Quantifier) (operator : Token)
    (input : TokenInput) :
    quantifierArguments nested q (r.token operator) (r.input input) =
      r.answer (mapSpans r.span) (quantifierArguments nested q operator input) := by
  refine Relocation.answer_bind (h input) fun collection next => ?_
  refine Relocation.answer_bind (aliasClause_relocate next) fun clause next => ?_
  obtain ⟨last, tokens⟩ := next
  cases tokens with
  | nil => rfl
  | cons t rest =>
    obtain ⟨lexeme, start, stop⟩ := t
    cases lexeme with
    | comma =>
      refine Relocation.answer_bind (h ⟨stop, rest⟩) fun predicate next => ?_
      obtain ⟨last, tokens⟩ := next
      cases tokens with
      | nil => rfl
      | cons t rest =>
        obtain ⟨lexeme, start, stop⟩ := t
        cases lexeme with
        | closing =>
          have hspans : (⟨some ⟨r.point operator.start, r.point stop⟩,
              some (r.token operator).span, (collection.mapSpans r.span).span,
              clause.2.map r.span, (predicate.mapSpans r.span).span⟩ : QuantifierSpans) =
              QuantifierSpans.map r.span ⟨some ⟨operator.start, stop⟩, some operator.span,
                collection.span, clause.2, predicate.span⟩ := by
            simp only [QuantifierSpans.map, Option.map_some, r.span_mk, r.span_token,
              span_mapSpans]
          exact congrArg (fun spans => Except.ok
            (quantified q (collection.mapSpans r.span) (predicate.mapSpans r.span) clause.1 spans,
              r.input ⟨stop, rest⟩)) hspans
        | _ => rfl
    | _ => rfl

theorem group_relocate {nested : TokenReader Expr} (h : r.Moves (mapSpans r.span) nested)
    (opening : Token) (input : TokenInput) :
    group nested (r.token opening) (r.input input) =
      r.answer (mapSpans r.span) (group nested opening input) := by
  refine Relocation.answer_bind (h input) fun inner next => ?_
  obtain ⟨last, tokens⟩ := next
  cases tokens with
  | nil => rfl
  | cons t rest =>
    obtain ⟨lexeme, start, stop⟩ := t
    cases lexeme with
    | closing =>
      have hspan := withSpan_mapSpans r.span inner (some ⟨opening.start, stop⟩)
      rw [Option.map_some, r.span_mk] at hspan
      exact congrArg (fun e => Except.ok (e, _)) hspan
    | _ => rfl

theorem tooDeep_relocate (limit : Int) : r.Moves (mapSpans r.span) (tooDeep limit) := fun _ => rfl

theorem primary_relocate {nested : TokenReader Expr} (h : r.Moves (mapSpans r.span) nested) :
    r.Moves (mapSpans r.span) (primary nested) := by
  rintro ⟨last, tokens⟩
  cases tokens with
  | nil => rfl
  | cons t rest =>
    have hspan := r.span_token t
    obtain ⟨lexeme, start, stop⟩ := t
    cases lexeme with
    | number text =>
      simp only [Relocation.input, List.map_cons, primary, hspan]
      simp only [Relocation.token]
      cases numeral? text <;> rfl
    | string value =>
      simp only [Relocation.input, List.map_cons, primary, hspan]
      rfl
    | bool value =>
      simp only [Relocation.input, List.map_cons, primary, hspan]
      rfl
    | identifier name =>
      simp only [Relocation.input, List.map_cons, primary, hspan]
      simp only [Relocation.token]
      cases Quantifier.ofSymbol? name with
      | none =>
        simp only
        split <;> rfl
      | some q =>
        cases rest with
        | nil =>
          simp only [List.map_nil]
          split <;> rfl
        | cons t rest =>
          obtain ⟨lexeme, i, j⟩ := t
          cases lexeme with
          | opening =>
            exact quantifierArguments_relocate h q ⟨.identifier name, start, stop⟩ ⟨j, rest⟩
          | _ =>
            simp only [List.map_cons, Relocation.token]
            split <;> rfl
    | opening => exact group_relocate h ⟨.opening, start, stop⟩ ⟨stop, rest⟩
    | _ => rfl

theorem unary_of_ne_not {nested neg : TokenReader Expr} {t : Token} (h : t.lexeme ≠ .not)
    (last : Nat) (rest : List Token) :
    unary nested neg ⟨last, t :: rest⟩ = primary nested ⟨last, t :: rest⟩ := by
  unfold unary
  split
  · rename_i heq
    cases heq
    exact absurd rfl h
  · rfl

theorem unary_relocate {nested neg : TokenReader Expr} (h : r.Moves (mapSpans r.span) nested)
    (hneg : r.Moves (mapSpans r.span) neg) : r.Moves (mapSpans r.span) (unary nested neg) := by
  rintro ⟨last, tokens⟩
  cases tokens with
  | nil => rfl
  | cons t rest =>
    by_cases hnot : t.lexeme = .not
    · obtain ⟨lexeme, start, stop⟩ := t
      obtain rfl : lexeme = .not := hnot
      refine Relocation.answer_bind (hneg ⟨stop, rest⟩) fun argument next => ?_
      have hspan : Span.cover? (some (r.span ⟨start, stop⟩)) (argument.mapSpans r.span).span =
          (Span.cover? (some ⟨start, stop⟩) argument.span).map r.span := by
        rw [span_mapSpans, ← Option.map_some, r.map_cover?]
      simp only [← r.span_mk, hspan]
      rfl
    · have hnot' : (r.token t).lexeme ≠ .not := hnot
      rw [Relocation.input, List.map_cons, unary_of_ne_not hnot', unary_of_ne_not hnot]
      exact primary_relocate h ⟨last, t :: rest⟩

theorem operand_relocate (limit : Int) (room : Nat) :
    r.Moves (mapSpans r.span) (operand limit room) := by
  induction room with
  | zero => exact unary_relocate (tooDeep_relocate limit) (tooDeep_relocate limit)
  | succ room ih => exact unary_relocate (chains_relocate ih) ih

theorem expression_relocate (limit : Int) (room : Nat) :
    r.Moves (mapSpans r.span) (expression limit room) := by
  cases room with
  | zero => exact tooDeep_relocate limit
  | succ room => exact chains_relocate (operand_relocate limit room)

/-- **Tokens at other places are read as the same expression at other places**, or refused with the
same fault at another place. -/
theorem ofTokens_relocate (r : Relocation) (limit : Int) {tokens : List Token} (h : tokens ≠ []) :
    ofTokens limit (tokens.map r.token) =
      ((ofTokens limit tokens).map (mapSpans r.span)).mapError r.error := by
  obtain ⟨t, rest, rfl⟩ := List.exists_cons_of_ne_nil h
  have hread := expression_relocate (r := r) limit limit.toNat ⟨t.stop, t :: rest⟩
  simp only [Relocation.input, List.map_cons] at hread
  simp only [ofTokens, List.map_cons, List.head?_cons, Option.map_some, Option.getD_some]
  rw [show (r.token t).stop = r.point t.stop from rfl, hread]
  cases expression limit limit.toNat ⟨t.stop, t :: rest⟩ with
  | error => rfl
  | ok answer =>
    obtain ⟨e, last, tokens⟩ := answer
    cases tokens <;> rfl

end Expr

end Criteria
