import Criteria.Proofs.Expr.Grammar

/-!
# Derivations of conditions

`Expr.Derivation layer` is the type of the derivations of the grammar of conditions:

    or       := and (`||` and)*
    and      := equality (`&&` equality)*
    equality := ordering ((`==` | `!=`) ordering)*
    ordering := operand ((`>=` | `<=` | `>` | `<`) operand)*
    operand  := `!` operand | NUMBER | STRING | BOOLEAN | IDENTIFIER | `(` or `)`
              | (`some` | `all`) `(` or [`as` IDENTIFIER] `,` or `)`

with every number in range and no point in an alias. A derivation spells its lexemes
(`Derivation.lexemes`) and denotes a condition (`Derivation.expr`), in which chains associate to the
left.

Lexemes have one derivation at most (`Derivation.unique`). The parser accepts a text exactly when
its lexemes have one whose nesting the limit admits, and returns the condition that it denotes
(`Expr.parse_iff_derivation`).
-/

namespace Criteria.Expr

/-! ## Derivations -/

/-- A name without points. -/
abbrev SimpleName := { name : String // name.toList.contains '.' = false }

mutual

/-- The derivations of a layer of the grammar. -/
inductive Derivation : Layer → Type
  | number (text : String) (value : Scalar) (inRange : numeral? text = some value) :
      Derivation .operand
  | string (value : String) : Derivation .operand
  | bool (value : Bool) : Derivation .operand
  | name (name : String) : Derivation .operand
  | group (inside : Derivation (.level .or)) : Derivation .operand
  | quantified (q : Quantifier) (collection : Derivation (.level .or))
      (binder : Option SimpleName) (predicate : Derivation (.level .or)) : Derivation .operand
  | not (argument : Derivation .operand) : Derivation .operand
  | chain {l : Level} (first : Derivation l.inner) (more : Continuation l) : Derivation (.level l)

/-- The derivations of what follows the first operand of a chain: operators of the level, each with
its right operand. -/
inductive Continuation : Level → Type
  | done {l : Level} : Continuation l
  | more {l : Level} (op : BinaryOp) (hop : Level.of op = l) (operand : Derivation l.inner)
      (rest : Continuation l) : Continuation l

end

/-- The lexemes of an alias clause. -/
def clauseLexemes : Option SimpleName → List Lexeme
  | none => []
  | some name => [.identifier "as", .identifier name]

mutual

/-- The lexemes that a derivation spells. -/
def Derivation.lexemes {layer : Layer} : Derivation layer → List Lexeme
  | .number text _ _ => [.number text]
  | .string value => [.string value]
  | .bool value => [.bool value]
  | .name name => [.identifier name]
  | .group inside => .opening :: (inside.lexemes ++ [.closing])
  | .quantified q collection binder predicate =>
    .identifier q.symbol :: .opening :: (collection.lexemes ++
      (clauseLexemes binder ++ .comma :: (predicate.lexemes ++ [.closing])))
  | .not argument => .not :: argument.lexemes
  | .chain first more => first.lexemes ++ more.lexemes

/-- The lexemes of the rest of a chain. -/
def Continuation.lexemes {l : Level} : Continuation l → List Lexeme
  | .done => []
  | .more op _ operand rest => .operator op :: (operand.lexemes ++ rest.lexemes)

end

/-- The alias that a clause gives; without one there is the default. -/
def clauseAlias : Option SimpleName → Alias
  | none => ⟨defaultAlias, false⟩
  | some name => ⟨name, true⟩

mutual

/-- The condition that a derivation denotes. -/
def Derivation.expr {layer : Layer} : Derivation layer → Expr
  | .number _ value _ => .literal value none
  | .string value => .literal (.string value) none
  | .bool value => .literal (.bool value) none
  | .name name => if name = "null" then .literal .null none else .reference name none
  | .group inside => inside.expr
  | .quantified q collection binder predicate =>
    .quantified q collection.expr predicate.expr (clauseAlias binder) {}
  | .not argument => .not argument.expr none none
  | .chain first more => more.expr first.expr

/-- The condition that a chain denotes, whose operands up to here denote the given one. -/
def Continuation.expr {l : Level} (left : Expr) : Continuation l → Expr
  | .done => left
  | .more op _ operand rest => rest.expr (.binary op left operand.expr none none)

end

mutual

/-- How many groups, quantifier arguments and negations stand around a lexeme at most. -/
def Derivation.nesting {layer : Layer} : Derivation layer → Nat
  | .number .. => 0
  | .string _ => 0
  | .bool _ => 0
  | .name _ => 0
  | .group inside => inside.nesting + 1
  | .quantified _ collection _ predicate => max collection.nesting predicate.nesting + 1
  | .not argument => argument.nesting + 1
  | .chain first more => max first.nesting more.nesting

/-- How deep the operands of the rest of a chain nest. -/
def Continuation.nesting {l : Level} : Continuation l → Nat
  | .done => 0
  | .more _ _ operand rest => max operand.nesting rest.nesting

end

/-! ## Uniqueness -/

/-- Lexemes as tokens that stand nowhere in particular. -/
def bare (lexemes : List Lexeme) : List Token := lexemes.map fun lexeme => ⟨lexeme, 0, 0⟩

/-- What follows the first operand of a chain does not continue the operand. -/
theorem Continuation.follows {l : Level} (more : Continuation l) {rest : List Lexeme}
    (h : Follows (.level l) (bare rest)) : Follows l.inner (bare (more.lexemes ++ rest)) := by
  cases more with
  | done => exact h.inner
  | more op hop operand rest => exact follows_operator hop 0 0 _

/-- After a chain stands no operator of its level. -/
theorem not_follows_operator {l : Level} {op : BinaryOp} {rest : List Lexeme}
    (h : Follows (.level l) (bare (.operator op :: rest))) : Level.of op ≠ l := by
  have hlt : (Level.of op).tightness < l.tightness := h
  rintro rfl
  exact Nat.lt_irrefl _ hlt

theorem symbol_injective {q q' : Quantifier} (h : q.symbol = q'.symbol) : q = q' := by
  cases q <;> cases q' <;> first | rfl | exact absurd h (by decide)

/-- A clause is told from what stands after it by the comma. -/
theorem clauseLexemes_unique {binder binder' : Option SimpleName}
    {rest rest' : List Lexeme}
    (h : clauseLexemes binder ++ .comma :: rest = clauseLexemes binder' ++ .comma :: rest') :
    binder = binder' ∧ rest = rest' := by
  cases binder <;> cases binder' <;> simp [clauseLexemes, Subtype.ext_iff] at h ⊢
  · exact h
  · exact h

theorem follows_closing (layer : Layer) (rest : List Lexeme) :
    Follows layer (bare (.closing :: rest)) :=
  trivial

theorem follows_clauseLexemes (layer : Layer)
    (binder : Option SimpleName) (rest : List Lexeme) :
    Follows layer (bare (clauseLexemes binder ++ .comma :: rest)) := by
  cases binder <;> trivial

mutual

/-- **Lexemes have one derivation at most**, and it ends at one place, when what stands after it
does not continue it. -/
theorem Derivation.unique : ∀ {layer : Layer} (d d' : Derivation layer) {rest rest' : List Lexeme},
    Follows layer (bare rest) → Follows layer (bare rest') →
      d.lexemes ++ rest = d'.lexemes ++ rest' → d = d' ∧ rest = rest'
  | _, .number text value h, d', rest, rest', _, _, heq => by
    cases d' with
    | number text' value' h' =>
      cases heq
      obtain rfl := Option.some.inj (h.symm.trans h')
      exact ⟨rfl, rfl⟩
    | _ => cases heq
  | _, .string value, d', rest, rest', _, _, heq => by
    cases d' <;> cases heq
    exact ⟨rfl, rfl⟩
  | _, .bool value, d', rest, rest', _, _, heq => by
    cases d' <;> cases heq
    exact ⟨rfl, rfl⟩
  | _, .name name, d', rest, rest', hrest, _, heq => by
    cases d' with
    | name name' =>
      cases heq
      exact ⟨rfl, rfl⟩
    | quantified =>
      cases heq
      exact absurd hrest id
    | _ => cases heq
  | _, .group inside, d', rest, rest', _, _, heq => by
    cases d' with
    | group inside' =>
      simp only [Derivation.lexemes, List.cons_append, List.append_assoc, List.cons.injEq,
        true_and] at heq
      obtain ⟨rfl, hend⟩ :=
        inside.unique inside' (follows_closing _ rest) (follows_closing _ rest') heq
      exact ⟨rfl, (List.cons.inj hend).2⟩
    | _ => cases heq
  | _, .quantified q collection binder predicate, d', rest, rest', _, hrest', heq => by
    cases d' with
    | quantified q' collection' binder' predicate' =>
      simp only [Derivation.lexemes, List.cons_append, List.append_assoc, List.cons.injEq,
        Lexeme.identifier.injEq, true_and] at heq
      obtain ⟨hq, hcollection⟩ := heq
      obtain rfl := symbol_injective hq
      obtain ⟨rfl, hclause⟩ := collection.unique collection'
        (follows_clauseLexemes _ _ _) (follows_clauseLexemes _ _ _) hcollection
      obtain ⟨rfl, hpredicate⟩ := clauseLexemes_unique hclause
      obtain ⟨rfl, hend⟩ :=
        predicate.unique predicate' (follows_closing _ rest) (follows_closing _ rest') hpredicate
      exact ⟨rfl, (List.cons.inj hend).2⟩
    | name name' =>
      cases heq
      exact absurd hrest' id
    | _ => cases heq
  | _, .not argument, d', rest, rest', hrest, hrest', heq => by
    cases d' with
    | not argument' =>
      obtain ⟨rfl, hend⟩ := argument.unique argument' hrest hrest' (List.cons.inj heq).2
      exact ⟨rfl, hend⟩
    | _ => cases heq
  | _, .chain first more, .chain first' more', rest, rest', hrest, hrest', heq => by
    simp only [Derivation.lexemes, List.append_assoc] at heq
    obtain ⟨rfl, hmore⟩ := first.unique first' (more.follows hrest) (more'.follows hrest') heq
    obtain ⟨rfl, hend⟩ := more.unique more' hrest hrest' hmore
    exact ⟨rfl, hend⟩

theorem Continuation.unique : ∀ {l : Level} (more more' : Continuation l) {rest rest' : List Lexeme},
    Follows (.level l) (bare rest) → Follows (.level l) (bare rest') →
      more.lexemes ++ rest = more'.lexemes ++ rest' → more = more' ∧ rest = rest'
  | _, .done, .done, _, _, _, _, heq => ⟨rfl, heq⟩
  | _, .done, .more op hop operand others, rest, _, hrest, _, heq => by
    obtain rfl : rest = _ := heq
    exact absurd hop (not_follows_operator hrest)
  | _, .more op hop operand others, .done, _, rest', _, hrest', heq => by
    obtain rfl : _ = rest' := heq
    exact absurd hop (not_follows_operator hrest')
  | _, .more op hop operand others, .more op' hop' operand' others', rest, rest', hrest, hrest',
      heq => by
    simp only [Continuation.lexemes, List.cons_append, List.append_assoc, List.cons.injEq,
      Lexeme.operator.injEq] at heq
    obtain ⟨rfl, hoperand⟩ := heq
    obtain ⟨rfl, hothers⟩ :=
      operand.unique operand' (others.follows hrest) (others'.follows hrest') hoperand
    obtain ⟨rfl, hend⟩ := others.unique others' hrest hrest' hothers
    exact ⟨rfl, hend⟩

end

/-! ## What the parser derives -/

/-- A chain with one more operand at its end. -/
def Continuation.snoc {l : Level} (op : BinaryOp) (hop : Level.of op = l)
    (operand : Derivation l.inner) : Continuation l → Continuation l
  | .done => .more op hop operand .done
  | .more op' hop' operand' rest => .more op' hop' operand' (rest.snoc op hop operand)

section Snoc

variable {l : Level} {op : BinaryOp} {hop : Level.of op = l} {operand : Derivation l.inner}

theorem Continuation.lexemes_snoc : (more : Continuation l) →
    (more.snoc op hop operand).lexemes = more.lexemes ++ .operator op :: operand.lexemes
  | .done => by simp [snoc, lexemes]
  | .more _ _ _ rest => by simp [snoc, lexemes, rest.lexemes_snoc]

theorem Continuation.expr_snoc : (more : Continuation l) → (left : Expr) →
    (more.snoc op hop operand).expr left = .binary op (more.expr left) operand.expr none none
  | .done, _ => rfl
  | .more _ _ _ rest, _ => rest.expr_snoc _

theorem Continuation.nesting_snoc : (more : Continuation l) →
    (more.snoc op hop operand).nesting = max more.nesting operand.nesting
  | .done => by simp [snoc, nesting]
  | .more _ _ _ rest => by simp [snoc, nesting, rest.nesting_snoc, Nat.max_assoc]

end Snoc

theorem erase_withSpan (e : Expr) (span : Option Span) : (e.withSpan span).erase = e.erase := by
  cases e <;> rfl

theorem symbol_of_ofSymbol? {name : String} {q : Quantifier}
    (h : Quantifier.ofSymbol? name = some q) : q.symbol = name := by
  unfold Quantifier.ofSymbol? at h
  split at h
  · cases h
    exact Eq.symm ‹_›
  · split at h
    · cases h
      exact Eq.symm ‹_›
    · cases h

theorem ofSymbol?_symbol (q : Quantifier) : Quantifier.ofSymbol? q.symbol = some q := by
  cases q <;> rfl

theorem AliasClause.exists_binder {ts : List Token} {binder : Alias} {span : Option Span}
    (h : AliasClause ts binder span) :
    ∃ name, clauseLexemes name = ts.map (·.lexeme) ∧ clauseAlias name = binder := by
  cases h with
  | absent => exact ⟨none, rfl, rfl⟩
  | @present name _ _ _ _ hdot => exact ⟨some ⟨name, hdot⟩, rfl, rfl⟩

theorem exists_aliasClause (name : Option SimpleName) {ts : List Token}
    (h : ts.map (·.lexeme) = clauseLexemes name) : ∃ span, AliasClause ts (clauseAlias name) span := by
  cases name with
  | none =>
    obtain rfl := List.map_eq_nil_iff.1 h
    exact ⟨none, .absent⟩
  | some name =>
    obtain ⟨⟨_, i, j⟩, rest, rfl, rfl, hrest⟩ := List.map_eq_cons_iff.1 h
    obtain ⟨⟨_, k, l⟩, _, rfl, rfl, hnil⟩ := List.map_eq_cons_iff.1 hrest
    obtain rfl := List.map_eq_nil_iff.1 hnil
    exact ⟨some ⟨k, l⟩, .present name.2⟩

/-- What is read has a derivation, with the same nesting. -/
theorem Reads.exists_derivation {layer : Layer} {n : Nat} {ts : List Token} {e : Expr}
    (h : Reads layer n ts e) :
    ∃ d : Derivation layer, d.lexemes = ts.map (·.lexeme) ∧ d.expr = e.erase ∧ d.nesting = n := by
  induction h with
  | number h => exact ⟨.number _ _ h, rfl, rfl, rfl⟩
  | @string value => exact ⟨.string value, rfl, rfl, rfl⟩
  | @bool value => exact ⟨.bool value, rfl, rfl, rfl⟩
  | null => exact ⟨.name "null", rfl, rfl, rfl⟩
  | @reference name _ _ hname =>
    exact ⟨.name name, rfl, by rw [Derivation.expr, if_neg hname, erase], rfl⟩
  | group _ ih =>
    obtain ⟨d, hlexemes, hexpr, hnesting⟩ := ih
    refine ⟨.group d, ?_, ?_, ?_⟩
    · simp [Derivation.lexemes, hlexemes]
    · rw [Derivation.expr, hexpr, erase_withSpan]
    · rw [Derivation.nesting, hnesting]
  | @quantified q _ _ _ _ _ _ _ _ _ _ _ _ _ _ _ _ _ _ hq _ ha _ ihc ihp =>
    obtain ⟨c, hclexemes, hcexpr, hcnesting⟩ := ihc
    obtain ⟨p, hplexemes, hpexpr, hpnesting⟩ := ihp
    obtain ⟨binder, hclause, hbinder⟩ := ha.exists_binder
    refine ⟨.quantified q c binder p, ?_, ?_, ?_⟩
    · simp [Derivation.lexemes, hclexemes, hplexemes, hclause, symbol_of_ofSymbol? hq]
    · rw [Derivation.expr, hcexpr, hpexpr, hbinder, erase]
    · rw [Derivation.nesting, hcnesting, hpnesting]
  | not _ ih =>
    obtain ⟨d, hlexemes, hexpr, hnesting⟩ := ih
    exact ⟨.not d, by simp [Derivation.lexemes, hlexemes], by rw [Derivation.expr, hexpr, erase],
      by rw [Derivation.nesting, hnesting]⟩
  | single _ ih =>
    obtain ⟨d, hlexemes, hexpr, hnesting⟩ := ih
    refine ⟨.chain d .done, ?_, hexpr, ?_⟩
    · rw [Derivation.lexemes, Continuation.lexemes, List.append_nil, hlexemes]
    · rw [Derivation.nesting, Continuation.nesting, Nat.max_zero, hnesting]
  | join _ hop _ ihl ihr =>
    obtain ⟨d, hllexemes, hlexpr, hlnesting⟩ := ihl
    obtain ⟨operand, hrlexemes, hrexpr, hrnesting⟩ := ihr
    cases d with | chain first more =>
    rw [Derivation.lexemes] at hllexemes
    rw [Derivation.expr] at hlexpr
    rw [Derivation.nesting] at hlnesting
    refine ⟨.chain first (more.snoc _ hop operand), ?_, ?_, ?_⟩
    · rw [Derivation.lexemes, more.lexemes_snoc, ← List.append_assoc, hllexemes, hrlexemes]
      simp
    · rw [Derivation.expr, more.expr_snoc, hlexpr, hrexpr]
      rfl
    · rw [Derivation.nesting, more.nesting_snoc, ← Nat.max_assoc, hlnesting, hrnesting]

mutual

/-- What a derivation spells is read as the condition that it denotes. -/
theorem Derivation.exists_reads : ∀ {layer : Layer} (d : Derivation layer) {ts : List Token},
    ts.map (·.lexeme) = d.lexemes → ∃ e, Reads layer d.nesting ts e ∧ e.erase = d.expr
  | _, .number text value h, ts, hts => by
    obtain ⟨⟨_, i, j⟩, _, rfl, rfl, hnil⟩ := List.map_eq_cons_iff.1 hts
    obtain rfl := List.map_eq_nil_iff.1 hnil
    exact ⟨_, .number h, rfl⟩
  | _, .string value, ts, hts => by
    obtain ⟨⟨_, i, j⟩, _, rfl, rfl, hnil⟩ := List.map_eq_cons_iff.1 hts
    obtain rfl := List.map_eq_nil_iff.1 hnil
    exact ⟨_, .string, rfl⟩
  | _, .bool value, ts, hts => by
    obtain ⟨⟨_, i, j⟩, _, rfl, rfl, hnil⟩ := List.map_eq_cons_iff.1 hts
    obtain rfl := List.map_eq_nil_iff.1 hnil
    exact ⟨_, .bool, rfl⟩
  | _, .name name, ts, hts => by
    obtain ⟨⟨_, i, j⟩, _, rfl, rfl, hnil⟩ := List.map_eq_cons_iff.1 hts
    obtain rfl := List.map_eq_nil_iff.1 hnil
    rw [Derivation.expr]
    split
    · rename_i hnull
      subst hnull
      exact ⟨_, .null, rfl⟩
    · rename_i hname
      exact ⟨_, .reference hname, rfl⟩
  | _, .group inside, ts, hts => by
    obtain ⟨⟨_, i, j⟩, rest, rfl, rfl, hrest⟩ := List.map_eq_cons_iff.1 hts
    obtain ⟨us, last, rfl, hus, hlast⟩ := List.map_eq_append_iff.1 hrest
    obtain ⟨⟨_, k, l⟩, _, rfl, rfl, hnil⟩ := List.map_eq_cons_iff.1 hlast
    obtain rfl := List.map_eq_nil_iff.1 hnil
    obtain ⟨e, he, hexpr⟩ := inside.exists_reads hus
    exact ⟨_, .group he, by rw [erase_withSpan, hexpr, Derivation.expr]⟩
  | _, .quantified q collection binder predicate, ts, hts => by
    obtain ⟨⟨_, i, j⟩, rest, rfl, rfl, hrest⟩ := List.map_eq_cons_iff.1 hts
    obtain ⟨⟨_, k, l⟩, inside, rfl, rfl, hinside⟩ := List.map_eq_cons_iff.1 hrest
    obtain ⟨cs, afterCollection, rfl, hcs, hclause⟩ := List.map_eq_append_iff.1 hinside
    obtain ⟨as, afterClause, rfl, has, hcomma⟩ := List.map_eq_append_iff.1 hclause
    obtain ⟨⟨_, s, t⟩, afterComma, rfl, rfl, hpredicate⟩ := List.map_eq_cons_iff.1 hcomma
    obtain ⟨ps, last, rfl, hps, hlast⟩ := List.map_eq_append_iff.1 hpredicate
    obtain ⟨⟨_, u, v⟩, _, rfl, rfl, hnil⟩ := List.map_eq_cons_iff.1 hlast
    obtain rfl := List.map_eq_nil_iff.1 hnil
    obtain ⟨c, hc, hcexpr⟩ := collection.exists_reads hcs
    obtain ⟨p, hp, hpexpr⟩ := predicate.exists_reads hps
    obtain ⟨span, ha⟩ := exists_aliasClause binder has
    exact ⟨_, .quantified (ofSymbol?_symbol q) hc ha hp,
      by rw [erase, hcexpr, hpexpr, Derivation.expr]⟩
  | _, .not argument, ts, hts => by
    obtain ⟨⟨_, i, j⟩, rest, rfl, rfl, hrest⟩ := List.map_eq_cons_iff.1 hts
    obtain ⟨e, he, hexpr⟩ := argument.exists_reads hrest
    exact ⟨_, .not he, by rw [erase, hexpr, Derivation.expr]⟩
  | _, .chain first more, ts, hts => by
    obtain ⟨fs, ms, rfl, hfs, hms⟩ := List.map_eq_append_iff.1 hts
    obtain ⟨a, ha, haexpr⟩ := first.exists_reads hfs
    obtain ⟨e, he, hexpr⟩ := more.exists_reads (.single ha) hms
    exact ⟨e, he, by rw [hexpr, haexpr, Derivation.expr]⟩

/-- A chain that was read up to some point is read on. -/
theorem Continuation.exists_reads : ∀ {l : Level} (more : Continuation l) {n : Nat}
    {ls ts : List Token} {a : Expr}, Reads (.level l) n ls a → ts.map (·.lexeme) = more.lexemes →
      ∃ e, Reads (.level l) (max n more.nesting) (ls ++ ts) e ∧ e.erase = more.expr a.erase
  | _, .done, n, ls, ts, a, ha, hts => by
    obtain rfl := List.map_eq_nil_iff.1 hts
    refine ⟨a, ?_, rfl⟩
    rwa [Continuation.nesting, Nat.max_zero, List.append_nil]
  | _, .more op hop operand rest, n, ls, ts, a, ha, hts => by
    obtain ⟨⟨_, i, j⟩, us, rfl, rfl, hus⟩ := List.map_eq_cons_iff.1 hts
    obtain ⟨os, rs, rfl, hos, hrs⟩ := List.map_eq_append_iff.1 hus
    obtain ⟨b, hb, hbexpr⟩ := operand.exists_reads hos
    obtain ⟨e, he, hexpr⟩ := rest.exists_reads (.join (i := i) (j := j) ha hop hb) hrs
    refine ⟨e, ?_, ?_⟩
    · rwa [Nat.max_assoc, List.append_assoc, List.cons_append] at he
    · rw [hexpr, Continuation.expr, ← hbexpr]
      rfl

end

/-! ## Texts -/

section Texts

variable {text : String} {tokens : List Token} {limit : Int} {e : Expr}

theorem parse_eq_ok_iff (htokens : tokenize text = .ok tokens) :
    parse text limit = .ok e ↔ ofTokens limit tokens = .ok e := by
  have hparse : parse text limit = (ofTokens limit tokens).mapError .grammatical := by
    rw [parse, htokens]
    rfl
  rw [hparse]
  exact ⟨mapError_ok, fun h => by rw [h]; rfl⟩

/-- What is read from a text is denoted by a derivation whose nesting the limit admits. -/
theorem exists_derivation_of_parse (htokens : tokenize text = .ok tokens)
    (h : parse text limit = .ok e) :
    ∃ d : Derivation (.level .or), d.lexemes = tokens.map (·.lexeme) ∧ d.expr = e.erase ∧
      (d.nesting : Int) < limit := by
  obtain ⟨n, hreads, hn⟩ := ofTokens_eq_ok_iff.1 ((parse_eq_ok_iff htokens).1 h)
  obtain ⟨d, hlexemes, hexpr, rfl⟩ := hreads.exists_derivation
  exact ⟨d, hlexemes, hexpr, by omega⟩

/-- A text with a derivation is read, or refused as too deep. -/
theorem Derivation.exists_parse (d : Derivation (.level .or)) (limit : Int)
    (htokens : tokenize text = .ok tokens) (hd : d.lexemes = tokens.map (·.lexeme)) :
    ((d.nesting : Int) < limit → ∃ e, parse text limit = .ok e) ∧
      (limit ≤ d.nesting →
        ∃ offset, parse text limit = .error (.grammatical ⟨.tooDeep limit, offset⟩)) := by
  obtain ⟨e, hreads, -⟩ := d.exists_reads hd.symm
  constructor
  · intro hlt
    exact ⟨e, (parse_eq_ok_iff htokens).2 (ofTokens_eq_ok_iff.2 ⟨_, hreads, by omega⟩)⟩
  · intro hle
    obtain ⟨offset, hdeep⟩ := ofTokens_eq_tooDeep hreads (show limit < _ by omega)
    refine ⟨offset, ?_⟩
    rw [parse, htokens]
    change (ofTokens limit tokens).mapError _ = _
    rw [hdeep]
    rfl

/-- The lexemes of a text have one derivation at most. -/
theorem Derivation.eq_of_lexemes_eq {d d' : Derivation (.level .or)}
    (h : d.lexemes = d'.lexemes) : d = d' :=
  (@Derivation.unique _ d d' [] [] trivial trivial (by rw [h])).1

end Texts

/-- **The parser accepts exactly the grammar, and returns the condition that the derivation
denotes.** The derivation of a text is unique; under every limit that is not found exceeded, the
text is accepted exactly when it has one, and a text with a derivation is accepted under exactly the
limits that admit its nesting. -/
theorem parse_iff_derivation {text : String} {tokens : List Token}
    (htokens : tokenize text = .ok tokens) :
    (∀ d d' : Derivation (.level .or), d.lexemes = tokens.map (·.lexeme) →
        d'.lexemes = tokens.map (·.lexeme) → d = d') ∧
      (∀ limit : Int,
        (∀ offset, parse text limit ≠ .error (.grammatical ⟨.tooDeep limit, offset⟩)) →
          ((∃ e, parse text limit = .ok e) ↔
            ∃ d : Derivation (.level .or), d.lexemes = tokens.map (·.lexeme))) ∧
      ∀ d : Derivation (.level .or), d.lexemes = tokens.map (·.lexeme) → ∀ limit : Int,
        ((∃ e, parse text limit = .ok e) ↔ (d.nesting : Int) < limit) ∧
          ∀ e, parse text limit = .ok e → e.erase = d.expr := by
  refine ⟨fun d d' hd hd' => Derivation.eq_of_lexemes_eq (hd.trans hd'.symm),
    fun limit hlimit => ⟨?_, ?_⟩, fun d hd limit => ⟨⟨?_, ?_⟩, ?_⟩⟩
  · rintro ⟨e, he⟩
    obtain ⟨d, hd, -⟩ := exists_derivation_of_parse htokens he
    exact ⟨d, hd⟩
  · rintro ⟨d, hd⟩
    obtain ⟨hread, hdeep⟩ := d.exists_parse limit htokens hd
    rcases Int.lt_or_le d.nesting limit with hlt | hle
    · exact hread hlt
    · obtain ⟨offset, hfault⟩ := hdeep hle
      exact absurd hfault (hlimit offset)
  · rintro ⟨e, he⟩
    obtain ⟨d', hd', -, hlt⟩ := exists_derivation_of_parse htokens he
    rwa [Derivation.eq_of_lexemes_eq (hd.trans hd'.symm)]
  · exact (d.exists_parse limit htokens hd).1
  · intro e he
    obtain ⟨d', hd', hexpr, -⟩ := exists_derivation_of_parse htokens he
    rw [Derivation.eq_of_lexemes_eq (hd.trans hd'.symm), hexpr]

/-- Some item is false, or a variable is below a number. -/
def someOrBelow : Expr :=
  .binary (.logical .or)
    (.quantified .any (.reference "xs" none) (.not (.reference "x" none) none none) ⟨"x", true⟩ {})
    (.binary (.compare .lt) (.reference "y" none)
      (.literal (.double (.ofDecimal false ⟨15, -1⟩)) none) none none) none none

theorem parse_iff_derivation_some :
    ∃ tokens, tokenize "some(xs as x, !x) || y < 1.5" = .ok tokens ∧
      ∃ d : Derivation (.level .or), d.lexemes = tokens.map (·.lexeme) ∧
        (∀ d' : Derivation (.level .or), d'.lexemes = tokens.map (·.lexeme) → d' = d) ∧
        d.expr = someOrBelow := by
  obtain ⟨tokens, htokens⟩ : ∃ tokens, tokenize "some(xs as x, !x) || y < 1.5" = .ok tokens :=
    ⟨_, rfl⟩
  have hread : (parse "some(xs as x, !x) || y < 1.5" 64).toOption.map erase = some someOrBelow := by
    decide +kernel
  obtain ⟨e, he, herase⟩ : ∃ e, parse "some(xs as x, !x) || y < 1.5" 64 = .ok e ∧
      e.erase = someOrBelow := toOption_map_some hread
  obtain ⟨hunique, haccepts, hdenotes⟩ := parse_iff_derivation htokens
  obtain ⟨d, hd⟩ := (haccepts 64 fun offset => by rw [he]; nofun).1 ⟨e, he⟩
  refine ⟨tokens, htokens, d, hd, fun d' hd' => hunique d' d hd' hd, ?_⟩
  rw [← (hdenotes d hd 64).2 e he, herase]

end Criteria.Expr
