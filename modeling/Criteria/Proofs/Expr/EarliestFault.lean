import Criteria.Proofs.Expr.Derivation
import Criteria.Proofs.Expr.Stages
import Criteria.Proofs.Token.Separation
import Criteria.Proofs.Token.Tiling

/-!
# Faults are reported where they are

When the parser refuses a token, or the end of the text, the tokens before it are the start of a
condition that it accepts, and no condition goes on with that token (`parse_refuses_earliest`).

A reader that reads something stops only where what it has read cannot go on (`Stops`), and one that
meets a token it cannot read has met it where the grammar asks for an operand (`Stalls`). In both
cases the machine of the grammar is stuck on the token.
-/

namespace Criteria

/-- A token, or the end, stands where something else is expected. -/
inductive ParseFault.Surprises : ParseFault → Prop
  | token (text : String) : Surprises (.unexpected text)
  | ending : Surprises .unexpectedEnd

namespace Expr

variable {limit : Int} {bound room : Nat}

/-! ## Where readers stop -/

/-- The tokens do not continue what was read up to a last token: they start neither with an operator
of the layer or inside it, nor, behind the name of a quantifier, with a parenthesis. -/
def Rests (layer : Layer) (last : Token) : List Token → Prop
  | ⟨.opening, _, _⟩ :: _ => namesQuantifier last.lexeme = false
  | ⟨.operator op, _, _⟩ :: _ => (Level.of op).tightness < layer.tightness
  | _ => True

/-- What a reader reads is not empty, and is not continued by what it leaves. -/
def Stops (layer : Layer) (reader : TokenReader Expr) : Prop :=
  ∀ {input next : TokenInput} {e : Expr}, reader input = .ok (e, next) →
    ∃ init last, input.tokens = init ++ last :: next.tokens ∧ Rests layer last next.tokens

/-- Around what an operator of the level does not continue, nothing of the level continues it. -/
theorem Rests.level {l : Level} {last : Token} {tokens : List Token} (h : Rests l.inner last tokens)
    (hop : ∀ op i j rest, tokens = ⟨.operator op, i, j⟩ :: rest → Level.of op ≠ l) :
    Rests (.level l) last tokens := by
  unfold Rests at h ⊢
  split
  · exact h
  · rename_i op i j rest
    have hne : (Level.of op).tightness ≠ l.tightness :=
      fun heq => hop op i j rest rfl (tightness_injective heq)
    have hinner := tightness_inner l
    change (Level.of op).tightness < l.tightness
    omega
  · trivial

/-- An operand that does not end in the name of a quantifier is continued by nothing. -/
theorem rests_operand {last : Token} {tokens : List Token}
    (h : ∀ i j rest, tokens = ⟨.opening, i, j⟩ :: rest → namesQuantifier last.lexeme = false) :
    Rests .operand last tokens := by
  unfold Rests
  split
  · exact h _ _ _ rfl
  · rename_i op _ _ _
    cases Level.of op <;> decide
  · trivial

theorem stops_chainAfter {l : Level} {inner : TokenReader Expr} (hinner : Stops l.inner inner)
    {more : Nat} {a e : Expr} {input next : TokenInput} {last : Token}
    (hmore : input.tokens.length ≤ more) (hlast : Rests l.inner last input.tokens)
    (h : chainAfter l inner more a input = .ok (e, next)) :
    ∃ init last', last :: input.tokens = init ++ last' :: next.tokens ∧
      Rests (.level l) last' next.tokens := by
  induction more generalizing a input last with
  | zero =>
    cases h
    have hnil := List.eq_nil_of_length_eq_zero (Nat.le_zero.1 hmore)
    exact ⟨[], last, rfl, by rw [hnil]; trivial⟩
  | succ more ih =>
    unfold chainAfter at h
    split at h
    · rename_i op i j rest htokens
      split at h
      · obtain ⟨⟨b, after⟩, hread, h⟩ := bind_ok h
        obtain ⟨init, last', hrest, hlast'⟩ := hinner hread
        simp only at hrest
        have hlength : after.tokens.length ≤ more := by
          rw [htokens, hrest] at hmore
          simp only [List.length_cons, List.length_append] at hmore
          omega
        obtain ⟨init', last'', hafter, hlast''⟩ := ih hlength hlast' h
        refine ⟨last :: ⟨.operator op, i, j⟩ :: (init ++ init'), last'', ?_, hlast''⟩
        rw [htokens, hrest, hafter]
        simp
      · rename_i hop
        cases h
        refine ⟨[], last, rfl, hlast.level fun op' i' j' rest' htokens' => ?_⟩
        rw [htokens] at htokens'
        cases htokens'
        exact hop
    · rename_i hop
      cases h
      exact ⟨[], last, rfl, hlast.level fun op i j rest htokens => (hop op i j rest htokens).elim⟩

theorem stops_chain {l : Level} {inner : TokenReader Expr} (hinner : Stops l.inner inner) :
    Stops (.level l) (chain l inner) := by
  intro input next e h
  obtain ⟨⟨a, after⟩, hread, h⟩ := bind_ok h
  obtain ⟨init, last, htokens, hlast⟩ := hinner hread
  obtain ⟨init', last', hafter, hlast'⟩ := stops_chainAfter hinner (Nat.le_refl _) hlast h
  exact ⟨init ++ init', last', by rw [htokens, hafter, List.append_assoc], hlast'⟩

theorem stops_chains {operand : TokenReader Expr} (h : Stops .operand operand) :
    Stops (.level .or) (chains operand) :=
  stops_chain (l := .or) (stops_chain (l := .and) (stops_chain (l := .equality)
    (stops_chain (l := .ordering) h)))

/-- What ends in a parenthesis is continued by nothing. -/
theorem rests_closing (i j : Nat) (tokens : List Token) :
    Rests .operand ⟨.closing, i, j⟩ tokens :=
  rests_operand fun _ _ _ _ => rfl

theorem stops_quantifierArguments {nested : TokenReader Expr}
    (hnested : Sound (.level .or) bound nested) {q : Quantifier} {operator : Token}
    {input next : TokenInput} {e : Expr}
    (h : quantifierArguments nested q operator input = .ok (e, next)) :
    ∃ init last, input.tokens = init ++ last :: next.tokens ∧ Rests .operand last next.tokens := by
  obtain ⟨⟨collection, after₁⟩, hread, h⟩ := bind_ok h
  obtain ⟨⟨⟨binder, span⟩, after₂⟩, hclause, h⟩ := bind_ok h
  obtain ⟨cs, -, hcs, -⟩ := hnested hread
  obtain ⟨as, has, -⟩ := clause_of_aliasClause hclause
  simp only at h has
  split at h
  · rename_i s t rest hcomma
    obtain ⟨⟨predicate, after₃⟩, hread', h⟩ := bind_ok h
    obtain ⟨ps, -, hps, -⟩ := hnested hread'
    simp only at h hps
    split at h
    · rename_i u v rest' hclosing
      cases h
      refine ⟨cs ++ (as ++ ⟨.comma, s, t⟩ :: ps), ⟨.closing, u, v⟩, ?_, rests_closing _ _ _⟩
      rw [hcs, has, hcomma, hps, hclosing]
      simp
    · cases h
  · cases h

theorem stops_primary {nested : TokenReader Expr} (hnested : Sound (.level .or) bound nested) :
    Stops .operand (primary nested) := by
  intro input next e h
  unfold primary at h
  split at h
  · cases h
  · rename_i token rest htokens
    obtain ⟨lexeme, i, j⟩ := token
    simp only at h
    split at h
    · split at h
      · cases h
        exact ⟨[], _, htokens, rests_operand fun _ _ _ _ => rfl⟩
      · cases h
    · cases h
      exact ⟨[], _, htokens, rests_operand fun _ _ _ _ => rfl⟩
    · cases h
      exact ⟨[], _, htokens, rests_operand fun _ _ _ _ => rfl⟩
    · rename_i name
      split at h
      · obtain ⟨init, last, hinside, hlast⟩ := stops_quantifierArguments hnested h
        simp only at hinside
        exact ⟨⟨.identifier name, i, j⟩ :: ⟨.opening, _, _⟩ :: init, last,
          by rw [htokens, hinside]; rfl, hlast⟩
      · rename_i rest _ _ hcall
        -- a parenthesis behind the name of a quantifier would have opened its arguments
        have hlast : Rests .operand ⟨.identifier name, i, j⟩ rest := by
          refine rests_operand fun k l inside hrest => ?_
          cases hq : Quantifier.ofSymbol? name with
          | none => rw [namesQuantifier, hq]; rfl
          | some q => exact (hcall q k l inside hq hrest).elim
        split at h <;> cases h <;> exact ⟨[], _, htokens, hlast⟩
    · obtain ⟨⟨inner, after⟩, hread, h⟩ := bind_ok h
      obtain ⟨ts, -, hts, -⟩ := hnested hread
      simp only at h hts
      split at h
      · rename_i k l rest' hclosing
        cases h
        refine ⟨⟨.opening, i, j⟩ :: ts, ⟨.closing, k, l⟩, ?_, rests_closing _ _ _⟩
        rw [htokens, hts, hclosing]
        rfl
      · cases h
    · cases h

theorem stops_unary {nested neg : TokenReader Expr} (hnested : Sound (.level .or) bound nested)
    (hneg : Stops .operand neg) : Stops .operand (unary nested neg) := by
  intro input next e h
  unfold unary at h
  split at h
  · rename_i i j rest htokens
    obtain ⟨⟨argument, after⟩, hread, h⟩ := bind_ok h
    obtain ⟨init, last, hrest, hlast⟩ := hneg hread
    simp only at hrest
    cases h
    exact ⟨⟨.not, i, j⟩ :: init, last, by rw [htokens, hrest]; rfl, hlast⟩
  · exact stops_primary hnested h

theorem stops_tooDeep (layer : Layer) (limit : Int) : Stops layer (tooDeep limit) := by
  intro input next e h
  cases h

theorem stops_operand (limit : Int) (room : Nat) : Stops .operand (operand limit room) := by
  induction room with
  | zero => exact stops_unary (sound_tooDeep _ limit) (stops_tooDeep _ limit)
  | succ room ih => exact stops_unary (sound_chains (sound_operand limit room)) ih

theorem stops_expression (limit : Int) (room : Nat) :
    Stops (.level .or) (expression limit room) := by
  cases room with
  | zero => exact stops_tooDeep _ limit
  | succ room => exact stops_chains (stops_operand limit room)

/-! ## Where readers are stuck -/

/-- The error names the first of the tokens, which starts no operand, or their end. -/
def Refuses (error : ParseError) : List Token → Prop
  | [] => error.fault = .unexpectedEnd
  | t :: _ => error = ⟨.unexpected t.lexeme.text, t.start⟩ ∧
      ∀ opened, (Stage.operand opened).next t.lexeme = none

/-- A reader meets a token that it cannot read, or the end, only where the grammar asks for an
operand, with a nesting below a bound. -/
def Stalls (layer : Layer) (bound : Nat) (reader : TokenReader Expr) : Prop :=
  ∀ {input : TokenInput} {error : ParseError}, reader input = .error error →
    error.fault.Surprises → ∃ before rest n, input.tokens = before ++ rest ∧ n < bound ∧
      Expects layer n before ∧ Refuses error rest

theorem stalls_tooDeep (layer : Layer) (limit : Int) : Stalls layer 0 (tooDeep limit) := by
  intro input error h hfault
  cases h
  cases hfault

theorem stalls_chainAfter {l : Level} {inner : TokenReader Expr} (hsound : Sound l.inner bound inner)
    (hinner : Stalls l.inner bound inner) {more m : Nat} {ls : List Token} {a : Expr}
    {input : TokenInput} {error : ParseError} (ha : Reads (.level l) m ls a) (hm : m < bound)
    (h : chainAfter l inner more a input = .error error) (hfault : error.fault.Surprises) :
    ∃ before rest n, input.tokens = before ++ rest ∧ n < bound ∧
      Expects (.level l) n (ls ++ before) ∧ Refuses error rest := by
  induction more generalizing ls a m input with
  | zero => cases h
  | succ more ih =>
    unfold chainAfter at h
    split at h
    · rename_i op i j rest htokens
      split at h
      · rename_i hop
        rcases bind_error h with h | ⟨⟨b, after⟩, hread, h⟩
        · obtain ⟨before, rest', n, hrest, hn, hbefore, hrefuses⟩ := hinner h hfault
          simp only at hrest
          exact ⟨⟨.operator op, i, j⟩ :: before, rest', max m n, by rw [htokens, hrest]; rfl,
            Nat.max_lt.2 ⟨hm, hn⟩, .join ha hop hbefore, hrefuses⟩
        · obtain ⟨rs, n, hrs, hn, hb⟩ := hsound hread
          obtain ⟨before, rest', k, hafter, hk, hbefore, hrefuses⟩ :=
            ih (.join ha hop hb) (Nat.max_lt.2 ⟨hm, hn⟩) h
          simp only at hrs
          refine ⟨⟨.operator op, i, j⟩ :: (rs ++ before), rest', k, ?_, hk, ?_, hrefuses⟩
          · rw [htokens, hrs, hafter, List.cons_append, List.append_assoc]
          · rwa [List.append_assoc, List.cons_append] at hbefore
      · cases h
    · cases h

theorem stalls_chain {l : Level} {inner : TokenReader Expr} (hsound : Sound l.inner bound inner)
    (hinner : Stalls l.inner bound inner) : Stalls (.level l) bound (chain l inner) := by
  intro input error h hfault
  rcases bind_error h with h | ⟨⟨a, after⟩, hread, h⟩
  · obtain ⟨before, rest, n, htokens, hn, hbefore, hrefuses⟩ := hinner h hfault
    exact ⟨before, rest, n, htokens, hn, .single hbefore, hrefuses⟩
  · obtain ⟨ls, m, hls, hm, ha⟩ := hsound hread
    obtain ⟨before, rest, n, hafter, hn, hbefore, hrefuses⟩ :=
      stalls_chainAfter hsound hinner (.single ha) hm h hfault
    exact ⟨ls ++ before, rest, n, by rw [hls, hafter, List.append_assoc], hn, hbefore, hrefuses⟩

theorem stalls_chains {operand : TokenReader Expr} (hsound : Sound .operand bound operand)
    (h : Stalls .operand bound operand) : Stalls (.level .or) bound (chains operand) :=
  have hordering : Sound (.level .ordering) bound _ := sound_chain hsound
  have hequality : Sound (.level .equality) bound _ := sound_chain hordering
  stalls_chain (l := .or) (sound_chain (l := .and) hequality)
    (stalls_chain (l := .and) hequality (stalls_chain (l := .equality) hordering
      (stalls_chain (l := .ordering) hsound h)))

/-- No fault of an alias clause is a token that cannot be read. -/
theorem not_surprises_of_aliasClause {input : TokenInput} {error : ParseError}
    (h : aliasClause input = .error error) : ¬error.fault.Surprises := by
  unfold aliasClause at h
  split at h
  · split at h
    · split at h
      · cases h
        nofun
      · cases h
    · cases h
      nofun
  · cases h

theorem stalls_quantifierArguments {nested : TokenReader Expr}
    (hsound : Sound (.level .or) bound nested) (hnested : Stalls (.level .or) bound nested)
    {q : Quantifier} {name : String} {operator : Token} {i j k l : Nat}
    (hq : Quantifier.ofSymbol? name = some q) {input : TokenInput} {error : ParseError}
    (h : quantifierArguments nested q operator input = .error error)
    (hfault : error.fault.Surprises) :
    ∃ before rest n, input.tokens = before ++ rest ∧ n < bound + 1 ∧
      Expects .operand n (⟨.identifier name, i, j⟩ :: ⟨.opening, k, l⟩ :: before) ∧
        Refuses error rest := by
  rcases bind_error h with h | ⟨⟨collection, after₁⟩, hread, h⟩
  · obtain ⟨before, rest, n, htokens, hn, hbefore, hrefuses⟩ := hnested h hfault
    exact ⟨before, rest, n + 1, htokens, by omega, .collection hq hbefore, hrefuses⟩
  obtain ⟨cs, m, hcs, hm, hc⟩ := hsound hread
  rcases bind_error h with h | ⟨⟨⟨binder, span⟩, after₂⟩, hclause, h⟩
  · exact absurd hfault (not_surprises_of_aliasClause h)
  obtain ⟨as, has, ha⟩ := clause_of_aliasClause hclause
  simp only at h has
  split at h
  · rename_i s t rest hcomma
    rcases bind_error h with h | ⟨⟨predicate, after₃⟩, hread', h⟩
    · obtain ⟨before, rest', n, hrest, hn, hbefore, hrefuses⟩ := hnested h hfault
      simp only at hrest
      refine ⟨cs ++ (as ++ ⟨.comma, s, t⟩ :: before), rest', max m n + 1, ?_, ?_,
        .predicate hq hc ha hbefore, hrefuses⟩
      · rw [hcs, has, hcomma, hrest]
        simp
      · have := Nat.max_lt.2 ⟨hm, hn⟩
        omega
    · simp only at h
      split at h
      · cases h
      · cases h
        cases hfault
  · cases h
    cases hfault

theorem stalls_group {nested : TokenReader Expr} (hnested : Stalls (.level .or) bound nested)
    {opening : Token} {i j : Nat} {input : TokenInput} {error : ParseError}
    (h : group nested opening input = .error error) (hfault : error.fault.Surprises) :
    ∃ before rest n, input.tokens = before ++ rest ∧ n < bound + 1 ∧
      Expects .operand n (⟨.opening, i, j⟩ :: before) ∧ Refuses error rest := by
  rcases bind_error h with h | ⟨⟨inner, after⟩, -, h⟩
  · obtain ⟨before, rest, n, htokens, hn, hbefore, hrefuses⟩ := hnested h hfault
    exact ⟨before, rest, n + 1, htokens, by omega, .group hbefore, hrefuses⟩
  · simp only at h
    split at h
    · cases h
    · cases h
      cases hfault

/-- A primary expression is stuck at its first token, or inside its parentheses. -/
theorem stalls_primary {nested : TokenReader Expr} (hsound : Sound (.level .or) bound nested)
    (hnested : Stalls (.level .or) bound nested) {input : TokenInput} {error : ParseError}
    (hnot : ∀ i j rest, input.tokens ≠ ⟨.not, i, j⟩ :: rest)
    (h : primary nested input = .error error) (hfault : error.fault.Surprises) :
    ∃ before rest n, input.tokens = before ++ rest ∧ n < bound + 1 ∧
      Expects .operand n before ∧ Refuses error rest := by
  unfold primary at h
  split at h
  · rename_i htokens
    cases h
    exact ⟨[], [], 0, htokens, by omega, .here, rfl⟩
  · rename_i token rest htokens
    obtain ⟨lexeme, i, j⟩ := token
    simp only at h
    split at h
    · split at h
      · cases h
      · cases h
        cases hfault
    · cases h
    · cases h
    · rename_i name
      split at h
      · rename_i q k l inside hq
        obtain ⟨before, rest', n, hinside, hn, hbefore, hrefuses⟩ :=
          stalls_quantifierArguments hsound hnested hq h hfault
        simp only at hinside
        exact ⟨_, rest', n, by rw [htokens, hinside]; rfl, hn, hbefore, hrefuses⟩
      · split at h <;> cases h
    · obtain ⟨before, rest', n, hrest, hn, hbefore, hrefuses⟩ := stalls_group hnested h hfault
      simp only at hrest
      exact ⟨_, rest', n, by rw [htokens, hrest]; rfl, hn, hbefore, hrefuses⟩
    · rename_i hnumber hstring hbool hname hopening
      cases h
      refine ⟨[], _, 0, htokens, by omega, .here, rfl, fun opened => ?_⟩
      cases lexeme with
      | identifier name => exact (hname name rfl).elim
      | number text => exact (hnumber text rfl).elim
      | string value => exact (hstring value rfl).elim
      | bool value => exact (hbool value rfl).elim
      | not => exact (hnot i j rest htokens).elim
      | opening => exact (hopening rfl).elim
      | operator | closing | comma => rfl

theorem stalls_unary {nested neg : TokenReader Expr} (hsound : Sound (.level .or) bound nested)
    (hnested : Stalls (.level .or) bound nested) (hneg : Stalls .operand bound neg) :
    Stalls .operand (bound + 1) (unary nested neg) := by
  intro input error h hfault
  unfold unary at h
  split at h
  · rename_i i j rest htokens
    rcases bind_error h with h | ⟨⟨argument, after⟩, -, h⟩
    · obtain ⟨before, rest', n, hrest, hn, hbefore, hrefuses⟩ := hneg h hfault
      simp only at hrest
      exact ⟨⟨.not, i, j⟩ :: before, rest', n + 1, by rw [htokens, hrest]; rfl, by omega,
        .not hbefore, hrefuses⟩
    · cases h
  · rename_i hnot
    exact stalls_primary hsound hnested (fun i j rest htokens => hnot i j rest htokens) h hfault

theorem stalls_operand (limit : Int) (room : Nat) :
    Stalls .operand (room + 1) (operand limit room) := by
  induction room with
  | zero =>
    exact stalls_unary (sound_tooDeep _ limit) (stalls_tooDeep _ limit) (stalls_tooDeep _ limit)
  | succ room ih =>
    exact stalls_unary (sound_chains (sound_operand limit room))
      (stalls_chains (sound_operand limit room) ih) ih

theorem stalls_expression (limit : Int) (room : Nat) :
    Stalls (.level .or) room (expression limit room) := by
  cases room with
  | zero => exact stalls_tooDeep _ limit
  | succ room => exact stalls_chains (sound_operand limit room) (stalls_operand limit room)

/-! ## Whole lists of tokens -/

/-- Where what was read rests, the machine is stuck on the first token left. -/
theorem stuck_of_rests {n : Nat} {init rest : List Token} {last t : Token} {e : Expr}
    (he : Reads (.level .or) n (init ++ [last]) e) (hrest : Rests (.level .or) last (t :: rest)) :
    (Stage.operand []).run (init ++ [last] ++ [t]) = none := by
  obtain ⟨init', last', hlast, hrun⟩ := he.run
  obtain ⟨-, hlast⟩ := List.append_inj' hlast rfl
  obtain rfl : last = last' := List.head_eq_of_cons_eq hlast
  have hnext : (Stage.operator (namesQuantifier last.lexeme) []).next t.lexeme = none := by
    obtain ⟨lexeme, i, j⟩ := t
    cases lexeme with
    | operator => exact (Nat.not_lt_zero _ hrest).elim
    | opening =>
      rw [show namesQuantifier last.lexeme = false from hrest]
      rfl
    | identifier => cases namesQuantifier last.lexeme <;> simp [Stage.next]
    | _ => cases namesQuantifier last.lexeme <;> rfl
  rw [Stage.run_append, hrun, Option.bind_some, Stage.run_cons, hnext]
  rfl

/-- **A list of tokens is refused at the earliest one possible.** The tokens before it can be completed
to a condition, without a token when they are one, and the machine of the grammar is stuck on it; at
the end of the tokens something is missing. -/
theorem ofTokens_surprises {tokens : List Token} {error : ParseError}
    (h : ofTokens limit tokens = .error error) (hfault : error.fault.Surprises) :
    ∃ before rest fill, tokens = before ++ rest ∧ fill ⊆ fillers ∧
      (∀ more : List Token, more.map (·.lexeme) = fill →
        ∃ e, ofTokens limit (before ++ more) = .ok e) ∧
      match rest with
      | [] => error.fault = .unexpectedEnd ∧ fill ≠ []
      | t :: _ => error = ⟨.unexpected t.lexeme.text, t.start⟩ ∧
          (Stage.operand []).run (before ++ [t]) = none := by
  rcases bind_error h with h | ⟨⟨e, next⟩, hread, h⟩
  · obtain ⟨before, rest, n, htokens, hn, hbefore, hrefuses⟩ :=
      stalls_expression limit limit.toNat h hfault
    obtain ⟨fill, hne, hfill, hcomplete⟩ := hbefore.complete
    refine ⟨before, rest, fill, htokens, hfill, fun more hmore => ?_, ?_⟩
    · obtain ⟨e, he⟩ := hcomplete more hmore
      exact ⟨e, ofTokens_eq_ok_iff.2 ⟨n, he, by omega⟩⟩
    · cases rest with
      | nil => exact ⟨hrefuses, hne⟩
      | cons t rest =>
        obtain ⟨opened, hrun⟩ := hbefore.run []
        refine ⟨hrefuses.1, ?_⟩
        rw [Stage.run_append, hrun, Option.bind_some, Stage.run_cons, hrefuses.2]
        rfl
  · obtain ⟨ts, n, hts, hn, he⟩ := sound_expression limit limit.toNat hread
    obtain ⟨init, last, hinit, hrests⟩ := stops_expression limit limit.toNat hread
    simp only at h hts hinit
    split at h
    · cases h
    · rename_i t rest hnext
      cases h
      rw [hnext] at hts hinit hrests
      obtain rfl : ts = init ++ [last] := by
        rw [hts, List.append_cons init] at hinit
        exact List.append_cancel_right hinit
      refine ⟨init ++ [last], t :: rest, [], hts, List.nil_subset _, fun more hmore => ?_, rfl,
        stuck_of_rests he hrests⟩
      rw [List.map_eq_nil_iff.1 hmore, List.append_nil]
      exact ⟨e, ofTokens_eq_ok_iff.2 ⟨n, he, by omega⟩⟩

/-! ## Texts -/

/-- The texts of lexemes, each with a blank in front. -/
def spaced (lexemes : List Lexeme) : List Char :=
  lexemes.flatMap fun l => ' ' :: l.text.toList

theorem ends_spaced (lexemes : List Lexeme) : Ends (spaced lexemes) := by
  cases lexemes with
  | nil => exact .nil
  | cons => exact .cons (by decide) _

/-- What completes a condition is read as the lexemes that it is the text of. -/
theorem lexes_spaced {fill : List Lexeme} (h : fill ⊆ fillers) : Lexes (spaced fill) [] fill := by
  induction fill with
  | nil => exact .nil []
  | cons l fill ih =>
    obtain ⟨hl, hfill⟩ := List.cons_subset.1 h
    have hrest := ih hfill
    simp only [fillers, List.mem_cons, List.not_mem_nil, or_false] at hl
    rcases hl with rfl | rfl | rfl
    · have hname : IsName "x" := ⟨⟨'x', [], rfl, by decide, by simp⟩, by decide, by decide⟩
      exact ((lexes_name hname (by rw [List.append_nil]; exact ends_spaced fill)).cons hrest).skip
    · exact hrest.comma.skip
    · exact hrest.closing.skip

/-- Behind a text that is read to its end, what completes a condition is read too. -/
theorem exists_tokenize_spaced {cs : List Char} {ts : List Token}
    (hscan : scan 0 0 cs = (ts, none)) {fill : List Lexeme} (hfill : fill ⊆ fillers) :
    ∃ text more, tokenize text = .ok (ts ++ more) ∧ more.map (·.lexeme) = fill := by
  refine ⟨String.ofList (cs ++ spaced fill), ?_⟩
  obtain ⟨more, hmore, hread⟩ := lexes_spaced hfill cs.length
  refine ⟨more, tokenize_eq_ok_iff.2 ?_, hmore⟩
  rw [String.toList_ofList]
  cases fill with
  | nil =>
    obtain rfl := List.map_eq_nil_iff.1 hmore
    simpa [spaced] using hscan
  | cons l fill =>
    rw [show spaced (l :: fill) = ' ' :: (l.text.toList ++ spaced fill) from rfl] at hread ⊢
    rw [List.append_nil, scan, List.append_nil] at hread
    rw [scan_append_cons (by decide) (Nat.zero_le _) hscan, Nat.zero_add, hread]

variable {text : String} {tokens : List Token}

theorem ofTokens_of_parse_error (htokens : tokenize text = .ok tokens) {error : ParseError}
    (h : parse text limit = .error (.grammatical error)) :
    ofTokens limit tokens = .error error := by
  rw [parse, htokens] at h
  change (ofTokens limit tokens).mapError _ = _ at h
  cases hread : ofTokens limit tokens with
  | ok e => rw [hread] at h; cases h
  | error error' => rw [hread] at h; cases h; rfl

/-- The tokens in front of one are those of the text in front of it. -/
theorem scan_take_start {before after : List Token} {t : Token}
    (htokens : tokenize text = .ok (before ++ t :: after)) :
    scan 0 0 (text.toList.take t.start) = (before, none) := by
  have hscan := tokenize_eq_ok_iff.1 htokens
  have hbounds := scan_bounds 0 0 text.toList t (by rw [hscan]; simp)
  exact (scan_split (between_start hscan) (Nat.zero_le _) (by omega) hscan).1

/-- **Syntax errors are reported at the earliest token possible.** When the parser refuses a token, the
tokens before it are the start of a text that it accepts under the same limit, and nothing that it
accepts under any limit starts with tokens that say the same as these and the refused one. When it
refuses the end of the text, all tokens are the start of a longer text that it accepts. -/
theorem parse_refuses_earliest (htokens : tokenize text = .ok tokens) (limit : Int) :
    (∀ shown offset, parse text limit = .error (.grammatical ⟨.unexpected shown, offset⟩) →
      ∃ before t after, tokens = before ++ t :: after ∧ t.start = offset ∧ t.lexeme.text = shown ∧
        (∃ text' more e, tokenize text' = .ok (before ++ more) ∧ parse text' limit = .ok e) ∧
        ∀ limit' tokens' e, ofTokens limit' tokens' = .ok e →
          ¬(before ++ [t]).map (·.lexeme) <+: tokens'.map (·.lexeme)) ∧
    ∀ offset, parse text limit = .error (.grammatical ⟨.unexpectedEnd, offset⟩) →
      ∃ text' more e, more ≠ [] ∧ tokenize text' = .ok (tokens ++ more) ∧
        parse text' limit = .ok e := by
  constructor
  · intro shown offset h
    obtain ⟨before, rest, fill, rfl, hfill, hcomplete, hrest⟩ :=
      ofTokens_surprises (ofTokens_of_parse_error htokens h) (.token shown)
    cases rest with
    | nil => cases hrest.1
    | cons t after =>
      obtain ⟨herror, hstuck⟩ := hrest
      cases herror
      obtain ⟨text', more, hread, hmore⟩ :=
        exists_tokenize_spaced (scan_take_start htokens) hfill
      obtain ⟨e, he⟩ := hcomplete more hmore
      refine ⟨before, t, after, rfl, rfl, rfl,
        ⟨text', more, e, hread, (parse_eq_ok_iff hread).2 he⟩, fun limit' tokens' e' he' => ?_⟩
      obtain ⟨n, hreads, -⟩ := ofTokens_eq_ok_iff.1 he'
      exact hreads.not_prefix hstuck
  · intro offset h
    obtain ⟨before, rest, fill, rfl, hfill, hcomplete, hrest⟩ :=
      ofTokens_surprises (ofTokens_of_parse_error htokens h) .ending
    cases rest with
    | cons t after => cases hrest.1
    | nil =>
      rw [List.append_nil] at htokens
      obtain ⟨text', more, hread, hmore⟩ :=
        exists_tokenize_spaced (tokenize_eq_ok_iff.1 htokens) hfill
      obtain ⟨e, he⟩ := hcomplete more hmore
      have hne : more ≠ [] := by
        rintro rfl
        exact hrest.2 hmore.symm
      exact ⟨text', more, e, hne, by rwa [List.append_nil], (parse_eq_ok_iff hread).2 he⟩

theorem parse_refuses_earliest_some :
    (∃ before t after, tokenize "some(xs as x, x.a == ) && y" = .ok (before ++ t :: after) ∧
        t.start = 21 ∧ t.lexeme.text = ")" ∧
        (∃ text more e, tokenize text = .ok (before ++ more) ∧ parse text 64 = .ok e) ∧
        ∀ limit tokens e, ofTokens limit tokens = .ok e →
          ¬(before ++ [t]).map (·.lexeme) <+: tokens.map (·.lexeme)) ∧
      ∃ text more e, more ≠ [] ∧
        tokenize text = .ok ([⟨.not, 0, 1⟩, ⟨.opening, 1, 2⟩, ⟨.identifier "y", 2, 3⟩,
          ⟨.operator (.compare .lt), 4, 5⟩] ++ more) ∧
        parse text 64 = .ok e := by
  constructor
  · obtain ⟨before, t, after, htokens, ht⟩ :=
      (@parse_refuses_earliest "some(xs as x, x.a == ) && y" _ rfl 64).1 ")" 21 rfl
    exact ⟨before, t, after, congrArg Except.ok htokens, ht⟩
  · exact (@parse_refuses_earliest "!(y <" _ rfl 64).2 5 rfl

end Expr

end Criteria
