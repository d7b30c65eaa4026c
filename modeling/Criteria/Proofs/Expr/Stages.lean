import Criteria.Proofs.Expr.Grammar

/-!
# How far a condition has been read

The grammar of conditions is read from left to right by a machine with a stack: a `Stage` says what
may come next and which parentheses are open. On the tokens of a condition the machine does not get
stuck (`Reads.run`), so a list of tokens on which it does is the start of no condition.

`Expects layer n before` says that after these tokens the grammar asks for an operand. There the
machine waits for one too (`Expects.run`), and some tokens can be added that complete the condition
(`Expects.complete`).
-/

namespace Criteria.Expr

/-! ## The machine -/

/-- What an open parenthesis is waiting for. -/
inductive Opened
  /-- The end of a group. -/
  | group
  /-- The comma after the collection of a quantifier. -/
  | collection
  /-- The end of the predicate of a quantifier. -/
  | predicate
  deriving DecidableEq, Repr

/-- What may come next, within the open parentheses, innermost first. -/
inductive Stage
  /-- An operand. -/
  | operand (opened : List Opened)
  /-- What follows an operand; after the name of a quantifier, its arguments may. -/
  | operator (call : Bool) (opened : List Opened)
  /-- The alias after `as`. -/
  | alias (opened : List Opened)
  /-- The comma after an alias. -/
  | comma (opened : List Opened)
  deriving DecidableEq, Repr

/-- The lexeme names a quantifier. -/
def namesQuantifier : Lexeme → Bool
  | .identifier name => (Quantifier.ofSymbol? name).isSome
  | _ => false

/-- The stage after a lexeme, unless it cannot stand here. -/
def Stage.next : Stage → Lexeme → Option Stage
  | .operand opened, .number text =>
    if (numeral? text).isSome then some (.operator false opened) else none
  | .operand opened, .string _ => some (.operator false opened)
  | .operand opened, .bool _ => some (.operator false opened)
  | .operand opened, .identifier name =>
    some (.operator (namesQuantifier (.identifier name)) opened)
  | .operand opened, .not => some (.operand opened)
  | .operand opened, .opening => some (.operand (.group :: opened))
  | .operator _ opened, .operator _ => some (.operand opened)
  | .operator true opened, .opening => some (.operand (.collection :: opened))
  | .operator _ (.group :: opened), .closing => some (.operator false opened)
  | .operator _ (.predicate :: opened), .closing => some (.operator false opened)
  | .operator _ (.collection :: opened), .comma => some (.operand (.predicate :: opened))
  | .operator _ (.collection :: opened), .identifier "as" => some (.alias opened)
  | .alias opened, .identifier name =>
    if name.toList.contains '.' then none else some (.comma opened)
  | .comma opened, .comma => some (.operand (.predicate :: opened))
  | _, _ => none

/-- The stage after tokens. -/
def Stage.run (stage : Stage) (ts : List Token) : Option Stage :=
  ts.foldlM (fun stage t => stage.next t.lexeme) stage

@[simp] theorem Stage.next_operator (call : Bool) (opened : List Opened) (op : BinaryOp) :
    (Stage.operator call opened).next (.operator op) = some (.operand opened) := by
  cases call <;> rfl

@[simp] theorem Stage.next_closing_group (call : Bool) (opened : List Opened) :
    (Stage.operator call (.group :: opened)).next .closing = some (.operator false opened) := by
  cases call <;> rfl

@[simp] theorem Stage.next_closing_predicate (call : Bool) (opened : List Opened) :
    (Stage.operator call (.predicate :: opened)).next .closing = some (.operator false opened) := by
  cases call <;> rfl

@[simp] theorem Stage.next_comma (call : Bool) (opened : List Opened) :
    (Stage.operator call (.collection :: opened)).next .comma =
      some (.operand (.predicate :: opened)) := by
  cases call <;> rfl

@[simp] theorem Stage.next_as (call : Bool) (opened : List Opened) :
    (Stage.operator call (.collection :: opened)).next (.identifier "as") =
      some (.alias opened) := by
  cases call <;> rfl

theorem Stage.next_alias {name : String} (h : name.toList.contains '.' = false)
    (opened : List Opened) :
    (Stage.alias opened).next (.identifier name) = some (.comma opened) := by
  rw [next, h]
  rfl

@[simp] theorem Stage.run_nil (stage : Stage) : stage.run [] = some stage := rfl

@[simp] theorem Stage.run_cons (stage : Stage) (t : Token) (ts : List Token) :
    stage.run (t :: ts) = (stage.next t.lexeme).bind fun next => next.run ts := rfl

theorem Stage.run_append (stage : Stage) (ts us : List Token) :
    stage.run (ts ++ us) = (stage.run ts).bind fun next => next.run us :=
  List.foldlM_append

/-- The name of a quantifier and a parenthesis open a collection. -/
theorem Stage.run_call {name : String} {q : Quantifier} (hq : Quantifier.ofSymbol? name = some q)
    (opened : List Opened) (i j k l : Nat) (ts : List Token) :
    (Stage.operand opened).run (⟨.identifier name, i, j⟩ :: ⟨.opening, k, l⟩ :: ts) =
      (Stage.operand (.collection :: opened)).run ts := by
  have hname : namesQuantifier (.identifier name) = true := by rw [namesQuantifier, hq]; rfl
  rw [run_cons, next, hname]
  rfl

/-- A machine that is stuck stays so. -/
theorem Stage.run_append_eq_none {stage : Stage} {ts : List Token} (h : stage.run ts = none)
    (us : List Token) : stage.run (ts ++ us) = none := by
  rw [run_append, h]
  rfl

/-- Only what the tokens say matters. -/
theorem Stage.run_congr {ts us : List Token}
    (h : ts.map (·.lexeme) = us.map (·.lexeme)) (stage : Stage) : stage.run ts = stage.run us := by
  have hrun : ∀ ts : List Token, stage.run ts = (ts.map (·.lexeme)).foldlM Stage.next stage :=
    fun ts => by rw [List.foldlM_map]; rfl
  rw [hrun, hrun, h]

/-! ## The machine on a condition -/

/-- After an alias clause and a comma the machine waits for the predicate. -/
theorem AliasClause.run {as : List Token} {binder : Alias} {span : Option Span}
    (h : AliasClause as binder span) (call : Bool) (opened : List Opened) (s t : Nat)
    (rest : List Token) :
    (Stage.operator call (.collection :: opened)).run (as ++ ⟨.comma, s, t⟩ :: rest) =
      (Stage.operand (.predicate :: opened)).run rest := by
  cases h with
  | absent => simp
  | present hdot =>
    rw [List.cons_append, Stage.run_cons, Stage.next_as, Option.bind_some, List.cons_append,
      Stage.run_cons, Stage.next_alias hdot]
    rfl

/-- **On the tokens of a condition the machine takes one operand**, whatever is open around it. After
it arguments may follow if the last token names a quantifier. -/
theorem Reads.run {layer : Layer} {n : Nat} {ts : List Token} {e : Expr} (h : Reads layer n ts e) :
    ∃ init t, ts = init ++ [t] ∧ ∀ opened,
      (Stage.operand opened).run ts = some (.operator (namesQuantifier t.lexeme) opened) := by
  induction h with
  | number h => exact ⟨[], _, rfl, fun opened => by simp [Stage.next, h, namesQuantifier]⟩
  | string => exact ⟨[], _, rfl, fun opened => rfl⟩
  | bool => exact ⟨[], _, rfl, fun opened => rfl⟩
  | null => exact ⟨[], _, rfl, fun opened => rfl⟩
  | reference => exact ⟨[], _, rfl, fun opened => rfl⟩
  | @group _ inside _ i j k l _ ih =>
    obtain ⟨-, t, -, hrun⟩ := ih
    refine ⟨⟨.opening, i, j⟩ :: inside, ⟨.closing, k, l⟩, rfl, fun opened => ?_⟩
    rw [Stage.run_cons, Stage.next, Option.bind_some, Stage.run_append, hrun, Option.bind_some]
    simp [namesQuantifier]
  | @quantified _ name _ _ cs as ps _ _ _ _ i j k l s t u v hq _ ha _ ihc ihp =>
    obtain ⟨-, c, -, hc⟩ := ihc
    obtain ⟨-, p, -, hp⟩ := ihp
    refine ⟨⟨.identifier name, i, j⟩ :: ⟨.opening, k, l⟩ :: (cs ++ (as ++ ⟨.comma, s, t⟩ :: ps)),
      ⟨.closing, u, v⟩, by simp, fun opened => ?_⟩
    rw [Stage.run_call hq, Stage.run_append, hc, Option.bind_some, ha.run, Stage.run_append, hp,
      Option.bind_some]
    simp [namesQuantifier]
  | @not _ ts _ i j _ ih =>
    obtain ⟨init, t, rfl, hrun⟩ := ih
    refine ⟨⟨.not, i, j⟩ :: init, t, rfl, fun opened => ?_⟩
    rw [Stage.run_cons, Stage.next, Option.bind_some, hrun]
  | single _ ih => exact ih
  | @join _ op _ _ ls rs _ _ i j _ _ _ ihl ihr =>
    obtain ⟨-, t, -, hl⟩ := ihl
    obtain ⟨init, u, rfl, hr⟩ := ihr
    refine ⟨ls ++ ⟨.operator op, i, j⟩ :: init, u, by simp, fun opened => ?_⟩
    rw [Stage.run_append, hl, Option.bind_some, Stage.run_cons, Stage.next_operator,
      Option.bind_some, hr]

/-- Where the machine gets stuck no condition goes on. -/
theorem Reads.not_prefix {layer : Layer} {n : Nat} {ts us : List Token} {e : Expr}
    (h : Reads layer n us e) (hstuck : (Stage.operand []).run ts = none) :
    ¬ts.map (·.lexeme) <+: us.map (·.lexeme) := by
  intro hprefix
  have htake : (us.take ts.length).map (·.lexeme) = ts.map (·.lexeme) := by
    rw [List.map_take, List.prefix_iff_eq_take.1 hprefix, List.length_map]
  obtain ⟨-, t, -, hrun⟩ := h.run
  have hnone := Stage.run_append_eq_none ((Stage.run_congr htake _).trans hstuck)
    (us.drop ts.length)
  rw [List.take_append_drop, hrun] at hnone
  cases hnone

/-! ## Where an operand is missing -/

/-- The grammar asks for an operand after these tokens, at a layer around it. The number says how many
groups, quantifier arguments and negations stand around a token at most. -/
inductive Expects : Layer → Nat → List Token → Prop
  | here : Expects .operand 0 []
  | not {n : Nat} {ts : List Token} {i j : Nat} (h : Expects .operand n ts) :
      Expects .operand (n + 1) (⟨.not, i, j⟩ :: ts)
  | group {n : Nat} {ts : List Token} {i j : Nat} (h : Expects (.level .or) n ts) :
      Expects .operand (n + 1) (⟨.opening, i, j⟩ :: ts)
  | collection {q : Quantifier} {name : String} {n : Nat} {ts : List Token} {i j k l : Nat}
      (hq : Quantifier.ofSymbol? name = some q) (h : Expects (.level .or) n ts) :
      Expects .operand (n + 1) (⟨.identifier name, i, j⟩ :: ⟨.opening, k, l⟩ :: ts)
  | predicate {q : Quantifier} {name : String} {m n : Nat} {cs as ts : List Token}
      {collection : Expr} {binder : Alias} {binderSpan : Option Span} {i j k l s t : Nat}
      (hq : Quantifier.ofSymbol? name = some q) (hc : Reads (.level .or) m cs collection)
      (ha : AliasClause as binder binderSpan) (h : Expects (.level .or) n ts) :
      Expects .operand (max m n + 1)
        (⟨.identifier name, i, j⟩ :: ⟨.opening, k, l⟩ :: (cs ++ (as ++ ⟨.comma, s, t⟩ :: ts)))
  | single {l : Level} {n : Nat} {ts : List Token} (h : Expects l.inner n ts) :
      Expects (.level l) n ts
  | join {l : Level} {op : BinaryOp} {m n : Nat} {ls ts : List Token} {a : Expr} {i j : Nat}
      (hl : Reads (.level l) m ls a) (hop : Level.of op = l) (h : Expects l.inner n ts) :
      Expects (.level l) (max m n) (ls ++ ⟨.operator op, i, j⟩ :: ts)

/-- Where the grammar asks for an operand the machine waits for one. -/
theorem Expects.run {layer : Layer} {n : Nat} {ts : List Token} (h : Expects layer n ts)
    (opened : List Opened) :
    ∃ opened', (Stage.operand opened).run ts = some (.operand opened') := by
  induction h generalizing opened with
  | here => exact ⟨opened, rfl⟩
  | not _ ih => exact ih opened
  | group _ ih => exact ih (.group :: opened)
  | collection hq _ ih =>
    rw [Stage.run_call hq]
    exact ih (.collection :: opened)
  | predicate hq hc ha _ ih =>
    obtain ⟨-, c, -, hrun⟩ := hc.run
    rw [Stage.run_call hq, Stage.run_append, hrun, Option.bind_some, ha.run]
    exact ih (.predicate :: opened)
  | single _ ih => exact ih opened
  | join hl _ _ ih =>
    obtain ⟨-, t, -, hrun⟩ := hl.run
    rw [Stage.run_append, hrun, Option.bind_some, Stage.run_cons, Stage.next_operator]
    exact ih opened

/-! ## What completes a condition -/

/-- The lexemes that complete a condition. -/
def fillers : List Lexeme := [.identifier "x", .comma, .closing]

/-- A name is a condition by itself. -/
theorem reads_name (layer : Layer) (i j : Nat) :
    Reads layer 0 [⟨.identifier "x", i, j⟩] (.reference "x" (some ⟨i, j⟩)) := by
  refine Reads.of_tighter (.reference (by decide)) ?_
  cases layer with
  | operand => exact Nat.le_refl _
  | level l => cases l <;> decide

/-- **Where the grammar asks for an operand, the condition can be completed**, without more nesting,
by tokens that say something fixed. -/
theorem Expects.complete {layer : Layer} {n : Nat} {ts : List Token} (h : Expects layer n ts) :
    ∃ fill, fill ≠ [] ∧ fill ⊆ fillers ∧
      ∀ more : List Token, more.map (·.lexeme) = fill → ∃ e, Reads layer n (ts ++ more) e := by
  induction h with
  | here =>
    refine ⟨[.identifier "x"], by simp, by decide, fun more hmore => ?_⟩
    obtain ⟨⟨_, i, j⟩, rfl, rfl⟩ := List.map_eq_singleton_iff.1 hmore
    exact ⟨_, reads_name .operand i j⟩
  | not _ ih =>
    obtain ⟨fill, hne, hfill, hreads⟩ := ih
    refine ⟨fill, hne, hfill, fun more hmore => ?_⟩
    obtain ⟨e, he⟩ := hreads more hmore
    exact ⟨_, .not he⟩
  | group _ ih =>
    obtain ⟨fill, -, hfill, hreads⟩ := ih
    refine ⟨fill ++ [.closing], by simp, List.append_subset.2 ⟨hfill, by decide⟩,
      fun more hmore => ?_⟩
    obtain ⟨inside, last, rfl, hinside, hlast⟩ := List.map_eq_append_iff.1 hmore
    obtain ⟨⟨_, k, l⟩, rfl, rfl⟩ := List.map_eq_singleton_iff.1 hlast
    obtain ⟨e, he⟩ := hreads inside hinside
    rw [List.cons_append, ← List.append_assoc]
    exact ⟨_, .group he⟩
  | @collection _ _ n _ _ _ _ _ hq _ ih =>
    obtain ⟨fill, -, hfill, hreads⟩ := ih
    refine ⟨fill ++ [.comma, .identifier "x", .closing], by simp,
      List.append_subset.2 ⟨hfill, by decide⟩, fun more hmore => ?_⟩
    obtain ⟨inside, last, rfl, hinside, hlast⟩ := List.map_eq_append_iff.1 hmore
    obtain ⟨⟨_, s, t⟩, last', rfl, rfl, hlast'⟩ := List.map_eq_cons_iff.1 hlast
    obtain ⟨⟨_, i, j⟩, last'', rfl, rfl, hlast''⟩ := List.map_eq_cons_iff.1 hlast'
    obtain ⟨⟨_, u, v⟩, rfl, rfl⟩ := List.map_eq_singleton_iff.1 hlast''
    obtain ⟨e, he⟩ := hreads inside hinside
    rw [List.cons_append, List.cons_append, ← List.append_assoc, ← Nat.max_zero n]
    exact ⟨_, .quantified hq he .absent (reads_name (.level .or) i j)⟩
  | @predicate _ _ _ _ _ _ ts' _ _ _ _ _ _ _ _ _ hq hc ha _ ih =>
    obtain ⟨fill, -, hfill, hreads⟩ := ih
    refine ⟨fill ++ [.closing], by simp, List.append_subset.2 ⟨hfill, by decide⟩,
      fun more hmore => ?_⟩
    obtain ⟨inside, last, rfl, hinside, hlast⟩ := List.map_eq_append_iff.1 hmore
    obtain ⟨⟨_, u, v⟩, rfl, rfl⟩ := List.map_eq_singleton_iff.1 hlast
    obtain ⟨e, he⟩ := hreads inside hinside
    rw [List.cons_append, List.cons_append, List.append_assoc, List.append_assoc, List.cons_append,
      ← List.append_assoc ts']
    exact ⟨_, .quantified hq hc ha he⟩
  | single _ ih =>
    obtain ⟨fill, hne, hfill, hreads⟩ := ih
    refine ⟨fill, hne, hfill, fun more hmore => ?_⟩
    obtain ⟨e, he⟩ := hreads more hmore
    exact ⟨e, .single he⟩
  | join hl hop _ ih =>
    obtain ⟨fill, hne, hfill, hreads⟩ := ih
    refine ⟨fill, hne, hfill, fun more hmore => ?_⟩
    obtain ⟨e, he⟩ := hreads more hmore
    rw [List.append_assoc, List.cons_append]
    exact ⟨_, .join hl hop he⟩

end Criteria.Expr
