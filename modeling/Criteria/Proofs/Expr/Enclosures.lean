import Criteria.Proofs.Expr.Derivation
import Criteria.Proofs.Expr.Spans

/-!
# What stands around the points of a text

`Derivation.enclosures` counts, at every lexeme of a derivation, the groups, quantifier arguments and
negations around it. What was closed before a lexeme is not around it, so it does not count there.

The parser counts on the way down what it is inside of, and that comes to the same: a limit admits
a text exactly when no point of it has that many around it, and the limit has no other influence
(`Expr.parse_eq_ok_iff_fullNesting`).
-/

namespace Criteria.Expr

mutual

/-- How many groups, quantifier arguments and negations stand around each lexeme of a derivation. A
parenthesis is not inside the group or the arguments that it bounds, nor a sign of negation inside
its own negation. -/
def Derivation.enclosures {layer : Layer} : Derivation layer → List Nat
  | .number .. => [0]
  | .string _ => [0]
  | .bool _ => [0]
  | .name _ => [0]
  | .group inside => 0 :: (inside.enclosures.map (· + 1) ++ [0])
  | .quantified _ collection binder predicate =>
    0 :: 0 :: (collection.enclosures.map (· + 1) ++ ((clauseLexemes binder).map (fun _ => 0) ++
      0 :: (predicate.enclosures.map (· + 1) ++ [0])))
  | .not argument => 0 :: argument.enclosures.map (· + 1)
  | .chain first more => first.enclosures ++ more.enclosures

/-- The same for the rest of a chain, where an operator is inside of nothing. -/
def Continuation.enclosures {l : Level} : Continuation l → List Nat
  | .done => []
  | .more _ _ operand rest => 0 :: (operand.enclosures ++ rest.enclosures)

end

mutual

/-- There is one count for every lexeme. -/
theorem Derivation.length_enclosures : ∀ {layer : Layer} (d : Derivation layer),
    d.enclosures.length = d.lexemes.length
  | _, .number .. => rfl
  | _, .string _ => rfl
  | _, .bool _ => rfl
  | _, .name _ => rfl
  | _, .group inside => by simp [Derivation.enclosures, Derivation.lexemes, inside.length_enclosures]
  | _, .quantified _ collection _ predicate => by
    simp [Derivation.enclosures, Derivation.lexemes, collection.length_enclosures, predicate.length_enclosures]
  | _, .not argument => by simp [Derivation.enclosures, Derivation.lexemes, argument.length_enclosures]
  | _, .chain first more => by
    simp [Derivation.enclosures, Derivation.lexemes, first.length_enclosures, more.length_enclosures]

theorem Continuation.length_enclosures : ∀ {l : Level} (more : Continuation l),
    more.enclosures.length = more.lexemes.length
  | _, .done => rfl
  | _, .more _ _ operand rest => by
    simp [Continuation.enclosures, Continuation.lexemes, operand.length_enclosures, rest.length_enclosures]

end

/-- The largest of some counts, or 0. -/
def largest (counts : List Nat) : Nat := counts.foldr max 0

@[simp] theorem largest_nil : largest [] = 0 := rfl

@[simp] theorem largest_cons (n : Nat) (counts : List Nat) :
    largest (n :: counts) = max n (largest counts) := rfl

@[simp] theorem largest_append (a b : List Nat) : largest (a ++ b) = max (largest a) (largest b) := by
  induction a with
  | nil => simp
  | cons n a ih => rw [List.cons_append, largest_cons, ih, largest_cons, Nat.max_assoc]

@[simp] theorem largest_replicate_zero (n : Nat) : largest (List.replicate n 0) = 0 := by
  induction n with
  | zero => rfl
  | succ n ih => rw [List.replicate_succ, largest_cons, ih, Nat.max_self]

/-- Inside one more, all are inside one more. -/
theorem largest_map_succ {counts : List Nat} (h : counts ≠ []) :
    largest (counts.map (· + 1)) = largest counts + 1 := by
  induction counts with
  | nil => exact absurd rfl h
  | cons n counts ih =>
    rw [List.map_cons, largest_cons, largest_cons]
    cases counts with
    | nil => simp
    | cons m counts => rw [ih (List.cons_ne_nil _ _), Nat.succ_max_succ]

/-- A derivation spells something. -/
theorem Derivation.lexemes_ne_nil : ∀ {layer : Layer} (d : Derivation layer), d.lexemes ≠ []
  | _, .number .. => List.cons_ne_nil _ _
  | _, .string _ => List.cons_ne_nil _ _
  | _, .bool _ => List.cons_ne_nil _ _
  | _, .name _ => List.cons_ne_nil _ _
  | _, .group _ => List.cons_ne_nil _ _
  | _, .quantified .. => List.cons_ne_nil _ _
  | _, .not _ => List.cons_ne_nil _ _
  | _, .chain first _ => List.append_ne_nil_of_left_ne_nil first.lexemes_ne_nil _

theorem Derivation.enclosures_ne_nil {layer : Layer} (d : Derivation layer) : d.enclosures ≠ [] := by
  rw [← List.length_pos_iff, d.length_enclosures, List.length_pos_iff]
  exact d.lexemes_ne_nil

mutual

/-- **What the derivation nests is the most that stands around a lexeme of it.** -/
theorem Derivation.largest_enclosures : ∀ {layer : Layer} (d : Derivation layer),
    largest d.enclosures = d.nesting
  | _, .number .. => rfl
  | _, .string _ => rfl
  | _, .bool _ => rfl
  | _, .name _ => rfl
  | _, .group inside => by
    simp [Derivation.enclosures, Derivation.nesting, largest_map_succ inside.enclosures_ne_nil, inside.largest_enclosures]
  | _, .quantified _ collection _ predicate => by
    rw [Derivation.nesting, ← Nat.add_max_add_right]
    simp [Derivation.enclosures, largest_map_succ collection.enclosures_ne_nil,
      largest_map_succ predicate.enclosures_ne_nil, collection.largest_enclosures,
      predicate.largest_enclosures]
  | _, .not argument => by
    simp [Derivation.enclosures, Derivation.nesting, largest_map_succ argument.enclosures_ne_nil,
      argument.largest_enclosures]
  | _, .chain first more => by
    simp [Derivation.enclosures, Derivation.nesting, first.largest_enclosures, more.largest_enclosures]

theorem Continuation.largest_enclosures : ∀ {l : Level} (more : Continuation l),
    largest more.enclosures = more.nesting
  | _, .done => rfl
  | _, .more _ _ operand rest => by
    simp [Continuation.enclosures, Continuation.nesting, operand.largest_enclosures, rest.largest_enclosures]

end

/-- The nesting of a derivation, the whole included: one more than the most that stands around a
lexeme of it. -/
def Derivation.fullNesting {layer : Layer} (d : Derivation layer) : Nat := 1 + largest d.enclosures

/-! ## The limit -/

/-- The text has the derivation. -/
def Derives (text : String) (d : Derivation (.level .or)) : Prop :=
  ∃ tokens, tokenize text = .ok tokens ∧ d.lexemes = tokens.map (·.lexeme)

/-- The text is read as the expression when nesting is not limited: under every limit from some one
on. -/
def ReadsUnlimited (text : String) (e : Expr) : Prop :=
  ∃ least, ∀ limit, least ≤ limit → parse text limit = .ok e

section Limit

variable {text : String} {limit limit' : Int} {e : Expr} {d d' : Derivation (.level .or)}

theorem Derives.unique (h : Derives text d) (h' : Derives text d') : d = d' := by
  obtain ⟨tokens, htokens, hd⟩ := h
  obtain ⟨tokens', htokens', hd'⟩ := h'
  obtain rfl := Except.ok.inj (htokens.symm.trans htokens')
  exact Derivation.eq_of_lexemes_eq (hd.trans hd'.symm)

/-- What is read has a derivation that the limit admits. -/
theorem exists_derives_of_parse (h : parse text limit = .ok e) :
    ∃ d, Derives text d ∧ (d.fullNesting : Int) ≤ limit := by
  obtain ⟨tokens, -, htokens, -⟩ := exists_reads_of_parse h
  obtain ⟨d, hd, -, hlt⟩ := exists_derivation_of_parse htokens h
  refine ⟨d, ⟨tokens, htokens, hd⟩, ?_⟩
  rw [Derivation.fullNesting, d.largest_enclosures]
  omega

/-- What has a derivation is read under the limits that admit it. -/
theorem Derives.exists_parse (h : Derives text d) (hlimit : (d.fullNesting : Int) ≤ limit) :
    ∃ e, parse text limit = .ok e := by
  obtain ⟨tokens, htokens, hd⟩ := h
  rw [Derivation.fullNesting, d.largest_enclosures] at hlimit
  exact (d.exists_parse limit htokens hd).1 (by omega)

/-- A larger limit makes no difference to what is read. -/
theorem parse_mono (h : parse text limit = .ok e) (hle : limit ≤ limit') :
    parse text limit' = .ok e := by
  obtain ⟨tokens, -, htokens, -⟩ := exists_reads_of_parse h
  obtain ⟨n, hreads, hn⟩ := ofTokens_eq_ok_iff.1 ((parse_eq_ok_iff htokens).1 h)
  exact (parse_eq_ok_iff htokens).2 (ofTokens_eq_ok_iff.2 ⟨n, hreads, hn.trans hle⟩)

theorem readsUnlimited_of_parse (h : parse text limit = .ok e) : ReadsUnlimited text e :=
  ⟨limit, fun _ hle => parse_mono h hle⟩

/-- Without a limit, what is read under some limit is read. -/
theorem ReadsUnlimited.eq_of_parse {e' : Expr} (h : ReadsUnlimited text e)
    (h' : parse text limit = .ok e') : e' = e := by
  obtain ⟨least, hleast⟩ := h
  have hboth := parse_mono h' (Int.le_max_right least limit)
  rw [hleast _ (Int.le_max_left least limit)] at hboth
  exact (Except.ok.inj hboth).symm

end Limit

/-- **The limit is on the nesting, and exact.** A text has one derivation at most, and is read
without a limit exactly when it has one. Under a limit it is read exactly when it is without one
and the limit is at least the nesting of its derivation; what is read is the same then, and so it is
under every larger limit. -/
theorem parse_eq_ok_iff_fullNesting (text : String) :
    (∀ d d', Derives text d → Derives text d' → d = d') ∧
      ((∃ e, ReadsUnlimited text e) ↔ ∃ d, Derives text d) ∧
      (∀ limit e, parse text limit = .ok e ↔
        ReadsUnlimited text e ∧ ∃ d, Derives text d ∧ (d.fullNesting : Int) ≤ limit) ∧
      ∀ limit limit' e, limit ≤ limit' → parse text limit = .ok e → parse text limit' = .ok e := by
  refine ⟨fun _ _ => Derives.unique, ⟨?_, ?_⟩, fun limit e => ⟨?_, ?_⟩,
    fun _ _ _ hle h => parse_mono h hle⟩
  · rintro ⟨e, least, hleast⟩
    obtain ⟨d, hd, -⟩ := exists_derives_of_parse (hleast least (Int.le_refl _))
    exact ⟨d, hd⟩
  · rintro ⟨d, hd⟩
    obtain ⟨e, he⟩ := hd.exists_parse (Int.le_refl _)
    exact ⟨e, readsUnlimited_of_parse he⟩
  · intro h
    exact ⟨readsUnlimited_of_parse h, exists_derives_of_parse h⟩
  · rintro ⟨hunlimited, d, hd, hlimit⟩
    obtain ⟨e', he'⟩ := hd.exists_parse hlimit
    rwa [hunlimited.eq_of_parse he'] at he'

/-- What was closed does not count: of three groups and two negations, no more than two are around a
point. -/
example : (parse "((a)) && !!b || (c)" 2).toBool = false ∧
    (parse "((a)) && !!b || (c)" 3).toBool = true := by
  decide +kernel

end Criteria.Expr
