import Criteria.Expr.Parser
import Criteria.Proofs.Except

/-!
# The grammar of conditions

`Expr.Reads layer nesting tokens e` is the grammar that the parser implements: the tokens spell the
condition `e` at a layer of the grammar, with so many groups, quantifier arguments and negations
inside each other. The layers are the operand and, around it, the levels of operators; a level is
left-recursive, so chains associate to the left.

The parser accepts exactly what the grammar derives within the nesting limit, with the same tree
(`Expr.ofTokens_eq_ok_iff`), and a derivation beyond the limit is refused as too deep
(`Expr.ofTokens_eq_tooDeep`).
-/

namespace Criteria.Expr

/-! ## The grammar -/

/-- A layer of the grammar: an operand, or a level of operators. -/
inductive Layer
  | operand
  | level (l : Level)

/-- The layer whose expressions a level joins. -/
def Level.inner : Level → Layer
  | .or => .level .and
  | .and => .level .equality
  | .equality => .level .ordering
  | .ordering => .operand

/-- The alias clause of a quantifier. -/
inductive AliasClause : List Token → Alias → Option Span → Prop
  | absent : AliasClause [] ⟨defaultAlias, false⟩ none
  | present {name : String} {i j k l : Nat} (hdot : name.toList.contains '.' = false) :
      AliasClause [⟨.identifier "as", i, j⟩, ⟨.identifier name, k, l⟩] ⟨name, true⟩
        (some ⟨k, l⟩)

/-- The tokens spell the condition at a layer of the grammar. The number says how many groups,
quantifier arguments and negations stand around a token at most. -/
inductive Reads : Layer → Nat → List Token → Expr → Prop
  | number {text : String} {value : Scalar} {i j : Nat} (h : numeral? text = some value) :
      Reads .operand 0 [⟨.number text, i, j⟩] (.literal value (some ⟨i, j⟩))
  | string {value : String} {i j : Nat} :
      Reads .operand 0 [⟨.string value, i, j⟩] (.literal (.string value) (some ⟨i, j⟩))
  | bool {value : Bool} {i j : Nat} :
      Reads .operand 0 [⟨.bool value, i, j⟩] (.literal (.bool value) (some ⟨i, j⟩))
  | null {i j : Nat} :
      Reads .operand 0 [⟨.identifier "null", i, j⟩] (.literal .null (some ⟨i, j⟩))
  | reference {name : String} {i j : Nat} (h : name ≠ "null") :
      Reads .operand 0 [⟨.identifier name, i, j⟩] (.reference name (some ⟨i, j⟩))
  | group {n : Nat} {inside : List Token} {e : Expr} {i j k l : Nat}
      (h : Reads (.level .or) n inside e) :
      Reads .operand (n + 1) (⟨.opening, i, j⟩ :: (inside ++ [⟨.closing, k, l⟩]))
        (e.withSpan (some ⟨i, l⟩))
  | quantified {q : Quantifier} {name : String} {m n : Nat} {cs as ps : List Token}
      {collection predicate : Expr} {binder : Alias} {binderSpan : Option Span}
      {i j k l s t u v : Nat} (hq : Quantifier.ofSymbol? name = some q)
      (hc : Reads (.level .or) m cs collection) (ha : AliasClause as binder binderSpan)
      (hp : Reads (.level .or) n ps predicate) :
      Reads .operand (max m n + 1)
        (⟨.identifier name, i, j⟩ :: ⟨.opening, k, l⟩ ::
          (cs ++ (as ++ ⟨.comma, s, t⟩ :: (ps ++ [⟨.closing, u, v⟩]))))
        (.quantified q collection predicate binder
          ⟨some ⟨i, v⟩, some ⟨i, j⟩, collection.span, binderSpan, predicate.span⟩)
  | not {n : Nat} {ts : List Token} {e : Expr} {i j : Nat} (h : Reads .operand n ts e) :
      Reads .operand (n + 1) (⟨.not, i, j⟩ :: ts)
        (.not e (Span.cover? (some ⟨i, j⟩) e.span) (some ⟨i, j⟩))
  | single {l : Level} {n : Nat} {ts : List Token} {e : Expr} (h : Reads l.inner n ts e) :
      Reads (.level l) n ts e
  | join {l : Level} {op : BinaryOp} {m n : Nat} {ls rs : List Token} {a b : Expr} {i j : Nat}
      (hl : Reads (.level l) m ls a) (hop : Level.of op = l) (hr : Reads l.inner n rs b) :
      Reads (.level l) (max m n) (ls ++ ⟨.operator op, i, j⟩ :: rs) (join op ⟨i, j⟩ a b)

/-! ## The readers of the layers -/

/-- The reader of a layer, over the reader of operands. -/
def Layer.reader (operand : TokenReader Expr) : Layer → TokenReader Expr
  | .operand => operand
  | .level .ordering => chain .ordering operand
  | .level .equality => chain .equality (chain .ordering operand)
  | .level .and => chain .and (chain .equality (chain .ordering operand))
  | .level .or => chains operand

theorem reader_level (operand : TokenReader Expr) (l : Level) :
    Layer.reader operand (.level l) = chain l (l.inner.reader operand) := by
  cases l <;> rfl

/-- The reader of the argument of a negation. -/
def negated (limit : Int) : Nat → TokenReader Expr
  | 0 => tooDeep limit
  | room + 1 => operand limit room

theorem operand_eq (limit : Int) (room : Nat) (input : TokenInput) :
    operand limit room input = unary (expression limit room) (negated limit room) input := by
  cases room <;> rfl

/-! ## How tightly layers bind -/

/-- How tightly the operators of a level bind. -/
def Level.tightness : Level → Nat
  | .or => 0
  | .and => 1
  | .equality => 2
  | .ordering => 3

/-- How tightly a layer binds. -/
def Layer.tightness : Layer → Nat
  | .operand => 4
  | .level l => l.tightness

theorem tightness_inner (l : Level) : l.inner.tightness = l.tightness + 1 := by
  cases l <;> rfl

theorem tightness_inner_le (l : Level) : l.inner.tightness ≤ Layer.operand.tightness := by
  cases l <;> decide

theorem tightness_injective {l l' : Level} (h : l.tightness = l'.tightness) : l = l' := by
  cases l <;> cases l' <;> first | rfl | cases h

/-- What is derived at a layer is derived at every looser one. -/
theorem Reads.of_tighter {layer layer' : Layer} {n : Nat} {ts : List Token} {e : Expr}
    (h : Reads layer n ts e) (hle : layer'.tightness ≤ layer.tightness) : Reads layer' n ts e := by
  induction hk : layer.tightness - layer'.tightness generalizing layer' with
  | zero =>
    have heq : layer'.tightness = layer.tightness := by omega
    obtain rfl : layer' = layer := by
      cases layer with
      | operand =>
        cases layer' with
        | operand => rfl
        | level l => cases l <;> cases heq
      | level l =>
        cases layer' with
        | operand => cases l <;> cases heq
        | level l' => rw [tightness_injective heq]
    exact h
  | succ k ih =>
    cases layer' with
    | operand =>
      have hmax : layer.tightness ≤ 4 := by
        cases layer with
        | operand => exact Nat.le_refl _
        | level l => cases l <;> decide
      change layer.tightness - 4 = k + 1 at hk
      omega
    | level l =>
      change layer.tightness - l.tightness = k + 1 at hk
      have hinner := tightness_inner l
      exact .single (ih (by omega) (by omega))

/-! ## What may follow -/

/-- These tokens do not continue an expression of the layer: they start neither with an operator
of the layer or inside it, nor with a parenthesis that would make a name a quantifier. -/
def Follows (layer : Layer) : List Token → Prop
  | ⟨.opening, _, _⟩ :: _ => False
  | ⟨.operator op, _, _⟩ :: _ => (Level.of op).tightness < layer.tightness
  | _ => True

theorem Follows.mono {layer layer' : Layer} {rest : List Token} (h : Follows layer rest)
    (hle : layer.tightness ≤ layer'.tightness) : Follows layer' rest := by
  unfold Follows at h ⊢
  split
  · exact h
  · exact Nat.lt_of_lt_of_le h hle
  · trivial

theorem Follows.inner {l : Level} {rest : List Token} (h : Follows (.level l) rest) :
    Follows l.inner rest :=
  h.mono (by rw [tightness_inner]; exact Nat.le_succ _)

theorem follows_operator {l : Level} {op : BinaryOp} (hop : Level.of op = l) (i j : Nat)
    (rest : List Token) : Follows l.inner (⟨.operator op, i, j⟩ :: rest) := by
  change (Level.of op).tightness < l.inner.tightness
  rw [hop, tightness_inner]
  exact Nat.lt_succ_self _

/-- Without an operator of the level nothing more is read. -/
theorem chainAfter_of_follows {l : Level} {operand : TokenReader Expr} {rest : List Token}
    (h : Follows (.level l) rest) (more : Nat) (e : Expr) (last : Nat) :
    chainAfter l operand more e ⟨last, rest⟩ = .ok (e, ⟨last, rest⟩) := by
  cases more with
  | zero => rfl
  | succ more =>
    unfold chainAfter
    split
    · rename_i op _ _ _ heq
      have heq : rest = _ := heq
      subst heq
      have hlt : (Level.of op).tightness < l.tightness := h
      rw [if_neg (by rintro rfl; exact Nat.lt_irrefl _ hlt)]
    · rfl

/-! ## Completeness -/

/-- A reader answers with the expression, and leaves the rest, when there is room for it, and
refuses as too deep when there is not. -/
def Answers (limit : Int) (fits : Prop) (answer : Except ParseError (Expr × TokenInput)) (e : Expr)
    (rest : List Token) : Prop :=
  (fits → ∃ last, answer = .ok (e, ⟨last, rest⟩)) ∧
    (¬fits → ∃ offset, answer = .error ⟨.tooDeep limit, offset⟩)

/-- A chain of a level has been read up to this expression, with enough attempts left. -/
def Joins (limit : Int) (fits : Prop) (l : Level) (inner : TokenReader Expr)
    (answer : Except ParseError (Expr × TokenInput)) (e : Expr) (rest : List Token) : Prop :=
  (fits → ∃ last more, rest.length ≤ more ∧
      answer = chainAfter l inner more e ⟨last, rest⟩) ∧
    (¬fits → ∃ offset, answer = .error ⟨.tooDeep limit, offset⟩)

/-- The readers follow a derivation: at a level, up to the point where the chain may go on. -/
def Follow (layer : Layer) (n : Nat) (ts : List Token) (e : Expr) : Prop :=
  ∀ (limit : Int) (room last : Nat) (rest : List Token),
    match layer with
    | .operand => Follows .operand rest →
        Answers limit (n ≤ room) (operand limit room ⟨last, ts ++ rest⟩) e rest
    | .level l => Follows l.inner rest →
        Joins limit (n ≤ room) l (l.inner.reader (operand limit room))
          (chain l (l.inner.reader (operand limit room)) ⟨last, ts ++ rest⟩) e rest

variable {limit : Int} {room n : Nat} {ts : List Token} {e : Expr}

theorem Follow.answers {layer : Layer} (h : Follow layer n ts e) (limit : Int) (room last : Nat)
    (rest : List Token) (hrest : Follows layer rest) :
    Answers limit (n ≤ room) (layer.reader (operand limit room) ⟨last, ts ++ rest⟩) e rest := by
  cases layer with
  | operand => exact h limit room last rest hrest
  | level l =>
    rw [reader_level]
    obtain ⟨hfits, hdeep⟩ := h limit room last rest hrest.inner
    refine ⟨fun hn => ?_, hdeep⟩
    obtain ⟨last', more, -, hread⟩ := hfits hn
    exact ⟨last', by rw [hread, chainAfter_of_follows hrest]⟩

/-- Around a derivation there is one nesting more. -/
theorem Follow.expression (h : Follow (.level .or) n ts e) (limit : Int) (room last : Nat)
    (rest : List Token) (hrest : Follows (.level .or) rest) :
    Answers limit (n + 1 ≤ room) (expression limit room ⟨last, ts ++ rest⟩) e rest := by
  cases room with
  | zero => exact ⟨fun hn => absurd hn (by omega), fun _ => ⟨_, rfl⟩⟩
  | succ room =>
    obtain ⟨hfits, hdeep⟩ := h.answers limit room last rest hrest
    exact ⟨fun hn => hfits (by omega), fun hn => hdeep (by omega)⟩

theorem Follow.negated (h : Follow .operand n ts e) (limit : Int) (room last : Nat)
    (rest : List Token) (hrest : Follows .operand rest) :
    Answers limit (n + 1 ≤ room) (negated limit room ⟨last, ts ++ rest⟩) e rest := by
  cases room with
  | zero => exact ⟨fun hn => absurd hn (by omega), fun _ => ⟨_, rfl⟩⟩
  | succ room =>
    obtain ⟨hfits, hdeep⟩ := h.answers limit room last rest hrest
    exact ⟨fun hn => hfits (by omega), fun hn => hdeep (by omega)⟩

/-- An operand without anything nested in it is read whatever the room. -/
theorem Follow.of_leaf {token : Token}
    (h : ∀ (nested neg : TokenReader Expr) (last : Nat) (rest : List Token),
      Follows .operand rest →
        unary nested neg ⟨last, token :: rest⟩ = .ok (e, ⟨token.stop, rest⟩)) :
    Follow .operand 0 [token] e := by
  intro limit room last rest hrest
  refine ⟨fun _ => ⟨token.stop, ?_⟩, fun hn => absurd (Nat.zero_le room) hn⟩
  rw [operand_eq]
  exact h _ _ last rest hrest

theorem Follow.reference {name : String} {i j : Nat} (hname : name ≠ "null") :
    Follow .operand 0 [⟨.identifier name, i, j⟩] (.reference name (some ⟨i, j⟩)) := by
  refine .of_leaf fun nested neg last rest hrest => ?_
  simp only [unary, primary]
  split
  · rename_i q _ stop inside _ _
    exact absurd hrest id
  · rw [if_neg hname]
    rfl

theorem Follow.null {i j : Nat} :
    Follow .operand 0 [⟨.identifier "null", i, j⟩] (.literal .null (some ⟨i, j⟩)) :=
  .of_leaf fun _ _ _ _ _ => rfl

theorem Follow.not (h : Follow .operand n ts e) (i j : Nat) :
    Follow .operand (n + 1) (⟨.not, i, j⟩ :: ts)
      (.not e (Span.cover? (some ⟨i, j⟩) e.span) (some ⟨i, j⟩)) := by
  intro limit room last rest hrest
  rw [operand_eq]
  obtain ⟨hfits, hdeep⟩ := h.negated limit room j rest hrest
  constructor
  · intro hn
    obtain ⟨last', hread⟩ := hfits hn
    exact ⟨last', by simp only [List.cons_append, unary, hread]; rfl⟩
  · intro hn
    obtain ⟨offset, hread⟩ := hdeep hn
    exact ⟨offset, by simp only [List.cons_append, unary, hread]; rfl⟩

theorem Follow.group (h : Follow (.level .or) n ts e) (i j k l : Nat) :
    Follow .operand (n + 1) (⟨.opening, i, j⟩ :: (ts ++ [⟨.closing, k, l⟩]))
      (e.withSpan (some ⟨i, l⟩)) := by
  intro limit room last rest hrest
  rw [operand_eq]
  obtain ⟨hfits, hdeep⟩ := h.expression limit room j (⟨.closing, k, l⟩ :: rest) trivial
  have happend : ts ++ [⟨.closing, k, l⟩] ++ rest = ts ++ ⟨.closing, k, l⟩ :: rest := by simp
  constructor
  · intro hn
    obtain ⟨last', hread⟩ := hfits hn
    refine ⟨l, ?_⟩
    simp only [List.cons_append, unary, primary, Expr.group, happend, hread]
    rfl
  · intro hn
    obtain ⟨offset, hread⟩ := hdeep hn
    refine ⟨offset, ?_⟩
    simp only [List.cons_append, unary, primary, Expr.group, happend, hread]
    rfl

/-- After a collection the alias clause is read, and the comma is next. -/
theorem aliasClause_of_clause {as : List Token} {binder : Alias} {span : Option Span}
    (h : AliasClause as binder span) (last s t : Nat) (rest : List Token) :
    ∃ last', aliasClause ⟨last, as ++ ⟨.comma, s, t⟩ :: rest⟩ =
      .ok ((binder, span), ⟨last', ⟨.comma, s, t⟩ :: rest⟩) := by
  cases h with
  | absent => exact ⟨last, rfl⟩
  | @present name i j k l hdot =>
    refine ⟨l, ?_⟩
    simp only [aliasClause, List.cons_append, List.nil_append]
    rw [if_neg (by rw [hdot]; exact Bool.false_ne_true)]

theorem follows_clause {as : List Token} {binder : Alias} {span : Option Span}
    (h : AliasClause as binder span) (layer : Layer) (s t : Nat) (rest : List Token) :
    Follows layer (as ++ ⟨.comma, s, t⟩ :: rest) := by
  cases h <;> trivial

theorem Follow.quantified {q : Quantifier} {name : String} {m n : Nat} {cs as ps : List Token}
    {collection predicate : Expr} {binder : Alias} {binderSpan : Option Span}
    (hq : Quantifier.ofSymbol? name = some q) (hc : Follow (.level .or) m cs collection)
    (ha : AliasClause as binder binderSpan) (hp : Follow (.level .or) n ps predicate)
    (i j k l s t u v : Nat) :
    Follow .operand (max m n + 1)
      (⟨.identifier name, i, j⟩ :: ⟨.opening, k, l⟩ ::
        (cs ++ (as ++ ⟨.comma, s, t⟩ :: (ps ++ [⟨.closing, u, v⟩]))))
      (.quantified q collection predicate binder
        ⟨some ⟨i, v⟩, some ⟨i, j⟩, collection.span, binderSpan, predicate.span⟩) := by
  intro limit room last rest hrest
  have hunary : ∀ nested neg input, unary nested neg
      ⟨last, ⟨.identifier name, i, j⟩ :: ⟨.opening, k, l⟩ :: input⟩ =
        quantifierArguments nested q ⟨.identifier name, i, j⟩ ⟨l, input⟩ := by
    intro nested neg input
    simp only [unary, primary, hq]
  have happend : cs ++ (as ++ ⟨.comma, s, t⟩ :: (ps ++ [⟨.closing, u, v⟩])) ++ rest =
      cs ++ (as ++ ⟨.comma, s, t⟩ :: (ps ++ ⟨.closing, u, v⟩ :: rest)) := by
    simp
  rw [operand_eq, List.cons_append, List.cons_append, hunary, happend]
  obtain ⟨hfits, hdeep⟩ := hc.expression limit room l _
    (follows_clause ha (.level .or) s t (ps ++ ⟨.closing, u, v⟩ :: rest))
  obtain ⟨hfits', hdeep'⟩ :=
    hp.expression limit room t (⟨.closing, u, v⟩ :: rest) trivial
  unfold quantifierArguments
  by_cases hm : m + 1 ≤ room
  · obtain ⟨last₁, hread⟩ := hfits hm
    obtain ⟨last₂, hclause⟩ :=
      aliasClause_of_clause ha last₁ s t (ps ++ ⟨.closing, u, v⟩ :: rest)
    rw [hread]
    constructor
    · intro hn
      obtain ⟨last₃, hread'⟩ := hfits' (by omega)
      refine ⟨v, ?_⟩
      simp only [bind, Except.bind, hclause, hread']
      rfl
    · intro hn
      obtain ⟨offset, hread'⟩ := hdeep' (by omega)
      refine ⟨offset, ?_⟩
      simp only [bind, Except.bind, hclause, hread']
  · obtain ⟨offset, hread⟩ := hdeep hm
    rw [hread]
    exact ⟨fun hn => absurd hn (by omega), fun _ => ⟨offset, rfl⟩⟩

theorem Follow.single {l : Level} (h : Follow l.inner n ts e) : Follow (.level l) n ts e := by
  intro limit room last rest hrest
  obtain ⟨hfits, hdeep⟩ := h.answers limit room last rest hrest
  constructor
  · intro hn
    obtain ⟨last', hread⟩ := hfits hn
    refine ⟨last', rest.length, Nat.le_refl _, ?_⟩
    rw [chain, hread]
    rfl
  · intro hn
    obtain ⟨offset, hread⟩ := hdeep hn
    refine ⟨offset, ?_⟩
    rw [chain, hread]
    rfl

theorem Follow.join {l : Level} {op : BinaryOp} {m n : Nat} {ls rs : List Token} {a b : Expr}
    (hl : Follow (.level l) m ls a) (hop : Level.of op = l) (hr : Follow l.inner n rs b)
    (i j : Nat) :
    Follow (.level l) (max m n) (ls ++ ⟨.operator op, i, j⟩ :: rs) (join op ⟨i, j⟩ a b) := by
  intro limit room last rest hrest
  obtain ⟨hfits, hdeep⟩ := hl limit room last _ (follows_operator hop i j (rs ++ rest))
  obtain ⟨hfits', hdeep'⟩ := hr.answers limit room j rest hrest
  have happend : ls ++ ⟨.operator op, i, j⟩ :: rs ++ rest =
      ls ++ ⟨.operator op, i, j⟩ :: (rs ++ rest) := by
    simp
  rw [happend]
  by_cases hm : m ≤ room
  · obtain ⟨last', more, hmore, hread⟩ := hfits hm
    -- the operator is still to be read, so an attempt is left
    obtain ⟨more, rfl⟩ : ∃ k, more = k + 1 := by
      rw [List.length_cons] at hmore
      exact ⟨more - 1, by omega⟩
    have hstep : chainAfter l (l.inner.reader (operand limit room)) (more + 1) a
        ⟨last', ⟨.operator op, i, j⟩ :: (rs ++ rest)⟩ =
          (l.inner.reader (operand limit room) ⟨j, rs ++ rest⟩).bind fun answer =>
            chainAfter l (l.inner.reader (operand limit room)) more
              (Expr.join op ⟨i, j⟩ a answer.1) answer.2 := by
      simp only [chainAfter, if_pos hop]
      rfl
    rw [hread, hstep]
    constructor
    · intro hn
      obtain ⟨last'', hread'⟩ := hfits' (by omega)
      refine ⟨last'', more, ?_, by rw [hread']; rfl⟩
      simp only [List.length_cons, List.length_append] at hmore
      omega
    · intro hn
      obtain ⟨offset, hread'⟩ := hdeep' (by omega)
      exact ⟨offset, by rw [hread']; rfl⟩
  · obtain ⟨offset, hread⟩ := hdeep hm
    exact ⟨fun hn => absurd hn (by omega), fun _ => ⟨offset, hread⟩⟩

/-- The readers follow every derivation. -/
theorem Reads.follow {layer : Layer} (h : Reads layer n ts e) : Follow layer n ts e := by
  induction h with
  | number h => exact .of_leaf fun _ _ _ _ _ => by simp only [unary, primary, h]; rfl
  | string => exact .of_leaf fun _ _ _ _ _ => rfl
  | bool => exact .of_leaf fun _ _ _ _ _ => rfl
  | null => exact .null
  | reference h => exact .reference h
  | group _ ih => exact ih.group _ _ _ _
  | quantified hq _ ha _ ihc ihp => exact ihc.quantified hq ha ihp _ _ _ _ _ _ _ _
  | not _ ih => exact ih.not _ _
  | single _ ih => exact ih.single
  | join _ hop _ ihl ihr => exact ihl.join hop ihr _ _

/-! ## Soundness -/

/-- What a reader reads is derived at a layer, with a nesting below a bound. -/
def Sound (layer : Layer) (bound : Nat) (reader : TokenReader Expr) : Prop :=
  ∀ {input next : TokenInput} {e : Expr}, reader input = .ok (e, next) →
    ∃ ts n, input.tokens = ts ++ next.tokens ∧ n < bound ∧ Reads layer n ts e

theorem sound_tooDeep (layer : Layer) (limit : Int) : Sound layer 0 (tooDeep limit) := by
  intro input next e h
  cases h

theorem sound_chainAfter {l : Level} {bound : Nat} {inner : TokenReader Expr}
    (hinner : Sound l.inner bound inner) {more m : Nat} {ls : List Token} {a : Expr}
    {input next : TokenInput} (ha : Reads (.level l) m ls a) (hm : m < bound)
    (h : chainAfter l inner more a input = .ok (e, next)) :
    ∃ ts n, input.tokens = ts ++ next.tokens ∧ n < bound ∧ Reads (.level l) n (ls ++ ts) e := by
  induction more generalizing ls a m input with
  | zero =>
    cases h
    exact ⟨[], m, rfl, hm, by rwa [List.append_nil]⟩
  | succ more ih =>
    unfold chainAfter at h
    split at h
    · rename_i op i j rest htokens
      split at h
      · rename_i hop
        obtain ⟨⟨b, after⟩, hread, h⟩ := bind_ok h
        obtain ⟨rs, n, hrs, hn, hb⟩ := hinner hread
        obtain ⟨ts, k, hts, hk, he⟩ := ih (.join ha hop hb) (Nat.max_lt.2 ⟨hm, hn⟩) h
        refine ⟨⟨.operator op, i, j⟩ :: (rs ++ ts), k, ?_, hk, ?_⟩
        · simp only at hrs
          rw [htokens, hrs, hts, List.cons_append, List.append_assoc]
        · rwa [List.append_assoc, List.cons_append] at he
      · cases h
        exact ⟨[], m, rfl, hm, by rwa [List.append_nil]⟩
    · cases h
      exact ⟨[], m, rfl, hm, by rwa [List.append_nil]⟩

theorem sound_chain {l : Level} {bound : Nat} {inner : TokenReader Expr}
    (hinner : Sound l.inner bound inner) : Sound (.level l) bound (chain l inner) := by
  intro input next e h
  obtain ⟨⟨a, after⟩, hread, h⟩ := bind_ok h
  obtain ⟨ls, m, hls, hm, ha⟩ := hinner hread
  obtain ⟨ts, n, hts, hn, he⟩ := sound_chainAfter hinner (.single ha) hm h
  exact ⟨ls ++ ts, n, by rw [hls, hts, List.append_assoc], hn, he⟩

theorem sound_chains {bound : Nat} {operand : TokenReader Expr}
    (h : Sound .operand bound operand) : Sound (.level .or) bound (chains operand) :=
  sound_chain (l := .or) (sound_chain (l := .and) (sound_chain (l := .equality)
    (sound_chain (l := .ordering) h)))

/-- What the alias clause reads is an alias clause. -/
theorem clause_of_aliasClause {input next : TokenInput} {binder : Alias} {span : Option Span}
    (h : aliasClause input = .ok ((binder, span), next)) :
    ∃ as, input.tokens = as ++ next.tokens ∧ AliasClause as binder span := by
  unfold aliasClause at h
  split at h
  · rename_i i j rest htokens
    split at h
    · rename_i name k l rest'
      split at h
      · cases h
      · rename_i hdot
        cases h
        exact ⟨_, htokens, .present (by simpa using hdot)⟩
    · cases h
  · cases h
    exact ⟨[], rfl, .absent⟩

theorem sound_quantifierArguments {bound : Nat} {nested : TokenReader Expr}
    (hnested : Sound (.level .or) bound nested) {q : Quantifier} {name : String} {i j k l : Nat}
    (hq : Quantifier.ofSymbol? name = some q) {input next : TokenInput}
    (h : quantifierArguments nested q ⟨.identifier name, i, j⟩ input = .ok (e, next)) :
    ∃ ts n, input.tokens = ts ++ next.tokens ∧ n < bound + 1 ∧
      Reads .operand n (⟨.identifier name, i, j⟩ :: ⟨.opening, k, l⟩ :: ts) e := by
  obtain ⟨⟨collection, after₁⟩, hread, h⟩ := bind_ok h
  obtain ⟨⟨⟨binder, span⟩, after₂⟩, hclause, h⟩ := bind_ok h
  obtain ⟨cs, m, hcs, hm, hc⟩ := hnested hread
  obtain ⟨as, has, ha⟩ := clause_of_aliasClause hclause
  simp only at h has
  split at h
  · rename_i s t rest hcomma
    obtain ⟨⟨predicate, after₃⟩, hread', h⟩ := bind_ok h
    obtain ⟨ps, n, hps, hn, hp⟩ := hnested hread'
    simp only at h hps
    split at h
    · rename_i u v rest' hclosing
      cases h
      refine ⟨cs ++ (as ++ ⟨.comma, s, t⟩ :: (ps ++ [⟨.closing, u, v⟩])), max m n + 1, ?_, ?_,
        .quantified hq hc ha hp⟩
      · rw [hcs, has, hcomma, hps, hclosing]
        simp
      · have := Nat.max_lt.2 ⟨hm, hn⟩
        omega
    · cases h
  · cases h

theorem sound_primary {bound : Nat} {nested : TokenReader Expr}
    (hnested : Sound (.level .or) bound nested) : Sound .operand (bound + 1) (primary nested) := by
  intro input next e h
  unfold primary at h
  split at h
  · cases h
  · rename_i token rest htokens
    obtain ⟨lexeme, i, j⟩ := token
    simp only at h
    split at h
    · rename_i text
      split at h
      · rename_i value hvalue
        cases h
        exact ⟨_, 0, htokens, by omega, .number hvalue⟩
      · cases h
    · cases h
      exact ⟨_, 0, htokens, by omega, .string⟩
    · cases h
      exact ⟨_, 0, htokens, by omega, .bool⟩
    · rename_i name
      split at h
      · rename_i q k l inside hq
        obtain ⟨ts, n, hts, hn, he⟩ := sound_quantifierArguments hnested hq h
        simp only at hts
        exact ⟨_, n, by rw [htokens, hts]; rfl, hn, he⟩
      · split at h
        · rename_i hnull
          cases h
          subst hnull
          exact ⟨_, 0, htokens, by omega, .null⟩
        · rename_i hnull
          cases h
          exact ⟨_, 0, htokens, by omega, .reference hnull⟩
    · obtain ⟨⟨inner, after⟩, hread, h⟩ := bind_ok h
      obtain ⟨ts, n, hts, hn, he⟩ := hnested hread
      simp only at h hts
      split at h
      · rename_i k l rest' hclosing
        cases h
        refine ⟨⟨.opening, i, j⟩ :: (ts ++ [⟨.closing, k, l⟩]), n + 1, ?_, by omega, .group he⟩
        rw [htokens, hts, hclosing]
        simp
      · cases h
    · cases h

theorem sound_unary {bound : Nat} {nested neg : TokenReader Expr}
    (hnested : Sound (.level .or) bound nested) (hneg : Sound .operand bound neg) :
    Sound .operand (bound + 1) (unary nested neg) := by
  intro input next e h
  unfold unary at h
  split at h
  · rename_i i j rest htokens
    obtain ⟨⟨argument, after⟩, hread, h⟩ := bind_ok h
    obtain ⟨ts, n, hts, hn, he⟩ := hneg hread
    simp only at hts
    cases h
    exact ⟨_, n + 1, by rw [htokens, hts]; rfl, by omega, .not he⟩
  · exact sound_primary hnested h

theorem sound_operand (limit : Int) (room : Nat) : Sound .operand (room + 1) (operand limit room) := by
  induction room with
  | zero => exact sound_unary (sound_tooDeep _ limit) (sound_tooDeep _ limit)
  | succ room ih => exact sound_unary (sound_chains ih) ih

theorem sound_expression (limit : Int) (room : Nat) :
    Sound (.level .or) room (expression limit room) := by
  cases room with
  | zero => exact sound_tooDeep _ limit
  | succ room => exact sound_chains (sound_operand limit room)

/-! ## Whole lists of tokens -/

/-- **The parser accepts what the grammar derives within the nesting limit**, as the same
condition. -/
theorem ofTokens_eq_ok_iff {limit : Int} {tokens : List Token} {e : Expr} :
    ofTokens limit tokens = .ok e ↔ ∃ n, Reads (.level .or) n tokens e ∧ (n : Int) + 1 ≤ limit := by
  constructor
  · intro h
    obtain ⟨⟨e', next⟩, hread, h⟩ := bind_ok h
    obtain ⟨ts, n, hts, hn, he⟩ := sound_expression limit limit.toNat hread
    simp only at h hts
    split at h
    · rename_i hend
      cases h
      rw [hend, List.append_nil] at hts
      subst hts
      exact ⟨n, he, by omega⟩
    · cases h
  · rintro ⟨n, he, hn⟩
    have hread := (he.follow.expression limit limit.toNat
      ((tokens.head?.map (·.stop)).getD 0) [] trivial).1 (by omega)
    obtain ⟨last, hread⟩ := hread
    rw [List.append_nil] at hread
    simp only [ofTokens, hread]
    rfl

/-- **Beyond the limit a derivation is refused as too deep.** -/
theorem ofTokens_eq_tooDeep {limit : Int} {tokens : List Token} {n : Nat} {e : Expr}
    (he : Reads (.level .or) n tokens e) (hn : limit < (n : Int) + 1) :
    ∃ offset, ofTokens limit tokens = .error ⟨.tooDeep limit, offset⟩ := by
  obtain ⟨offset, hread⟩ := (he.follow.expression limit limit.toNat
    ((tokens.head?.map (·.stop)).getD 0) [] trivial).2 (by omega)
  rw [List.append_nil] at hread
  exact ⟨offset, by simp only [ofTokens, hread]; rfl⟩

end Criteria.Expr
