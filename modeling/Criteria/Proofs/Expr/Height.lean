import Criteria.Proofs.Expr.Enclosures
import Criteria.Proofs.Expr.RoundTrip

/-!
# The height of a condition

Whatever recurses over a condition (checking, writing, compiling, listing its nodes) is nested as
deep as the condition is high (`Expr.height`). Groups, quantifier arguments and negations are held to
a limit, but operators are not: the operands of a chain are joined one after the other, and every
operator puts one more node on top of the first operand. So no bound on the height follows from the
limit (`Expr.height_unbounded`). It follows from the limit and the length of the longest chain, and
it cannot be had without the latter (`Expr.height_bounds_of_parse`).
-/

namespace Criteria.Expr

/-- How many nodes stand on the longest way down. -/
def height : Expr → Nat
  | .literal .. => 1
  | .reference .. => 1
  | .not argument _ _ => argument.height + 1
  | .binary _ left right _ _ => max left.height right.height + 1
  | .quantified _ collection predicate _ _ => max collection.height predicate.height + 1

theorem height_pos (e : Expr) : 0 < e.height := by
  cases e <;> simp [height]

theorem height_erase (e : Expr) : e.erase.height = e.height := by
  induction e with
  | literal => rfl
  | reference => rfl
  | not _ _ _ ih => rw [erase, height, height, ih]
  | binary _ _ _ _ _ ihl ihr => rw [erase, height, height, ihl, ihr]
  | quantified _ _ _ _ _ ihc ihp => rw [erase, height, height, ihc, ihp]

/-! ## Chains -/

/-- How many operators follow the first operand of a chain. -/
def Continuation.operators {l : Level} : Continuation l → Nat
  | .done => 0
  | .more _ _ _ rest => rest.operators + 1

mutual

/-- The most operators that one chain of a derivation has. -/
def Derivation.longestChain {layer : Layer} : Derivation layer → Nat
  | .number .. => 0
  | .string _ => 0
  | .bool _ => 0
  | .name _ => 0
  | .group inside => inside.longestChain
  | .quantified _ collection _ predicate => max collection.longestChain predicate.longestChain
  | .not argument => argument.longestChain
  | .chain first more => max more.operators (max first.longestChain more.longestChain)

/-- The same for the chains inside the operands of the rest of a chain. -/
def Continuation.longestChain {l : Level} : Continuation l → Nat
  | .done => 0
  | .more _ _ operand rest => max operand.longestChain rest.longestChain

end

/-- A chain is higher than its first operand by at least the number of its operators. -/
theorem Continuation.height_add_operators_le {l : Level} (more : Continuation l) (left : Expr) :
    left.height + more.operators ≤ (more.expr left).height := by
  match more with
  | .done => exact Nat.le_refl _
  | .more op hop operand rest =>
    have hrest := rest.height_add_operators_le (.binary op left operand.expr none none)
    rw [height] at hrest
    rw [operators, Continuation.expr]
    omega

mutual

/-- No chain has as many operators as the condition is high. -/
theorem Derivation.longestChain_lt_height : ∀ {layer : Layer} (d : Derivation layer),
    d.longestChain < d.expr.height
  | _, .number .. => Nat.one_pos
  | _, .string _ => Nat.one_pos
  | _, .bool _ => Nat.one_pos
  | _, .name _ => height_pos _
  | _, .group inside => inside.longestChain_lt_height
  | _, .quantified _ collection _ predicate => by
    have hcollection := collection.longestChain_lt_height
    have hpredicate := predicate.longestChain_lt_height
    rw [Derivation.longestChain, Derivation.expr, height]
    omega
  | _, .not argument => Nat.lt_succ_of_lt argument.longestChain_lt_height
  | _, .chain first more => by
    have hfirst := first.longestChain_lt_height
    have hmore := more.longestChain_lt_height first.expr
    have hoperators := more.height_add_operators_le first.expr
    rw [Derivation.longestChain, Derivation.expr]
    omega

theorem Continuation.longestChain_lt_height : ∀ {l : Level} (more : Continuation l) (left : Expr),
    more.longestChain < (more.expr left).height
  | _, .done, left => left.height_pos
  | _, .more op hop operand rest, left => by
    have hoperand := operand.longestChain_lt_height
    have hrest := rest.longestChain_lt_height (.binary op left operand.expr none none)
    have hoperators := rest.height_add_operators_le (.binary op left operand.expr none none)
    rw [height] at hoperators
    rw [Continuation.longestChain, Continuation.expr]
    omega

end

/-! ## The limit and the longest chain -/

/-- How high a condition can be that is derived at a layer, when its chains have `k` operators at
most and so much is nested in it. What is nested adds a node and four levels of chains, and the
levels from the layer on add a chain each. -/
def heightBound (k n : Nat) (layer : Layer) : Nat :=
  (4 * k + 1) * n + 1 + k * (Layer.operand.tightness - layer.tightness)

theorem heightBound_mono {k m n : Nat} (layer : Layer) (h : m ≤ n) :
    heightBound k m layer ≤ heightBound k n layer := by
  have hmul : (4 * k + 1) * m ≤ (4 * k + 1) * n := Nat.mul_le_mul_left _ h
  unfold heightBound
  omega

/-- A level adds one chain to what it joins. -/
theorem heightBound_level (k n : Nat) (l : Level) :
    heightBound k n (.level l) = heightBound k n l.inner + k := by
  have htight : Layer.operand.tightness - (Layer.level l).tightness =
      Layer.operand.tightness - l.inner.tightness + 1 := by
    cases l <;> rfl
  rw [heightBound, heightBound, htight, Nat.mul_succ, ← Nat.add_assoc]

/-- One more node around all levels is within the bound of one more nesting. -/
theorem heightBound_nested (k n : Nat) :
    heightBound k n (.level .or) + 1 = heightBound k (n + 1) .operand := by
  change (4 * k + 1) * n + 1 + k * 4 + 1 = (4 * k + 1) * (n + 1) + 1 + k * 0
  ring

variable {k : Nat}

mutual

theorem Derivation.height_le : ∀ {layer : Layer} (d : Derivation layer), d.longestChain ≤ k →
    d.expr.height ≤ heightBound k d.nesting layer
  | _, .number .., _ => Nat.le_refl 1
  | _, .string _, _ => Nat.le_refl 1
  | _, .bool _, _ => Nat.le_refl 1
  | _, .name name, _ => by
    rw [Derivation.expr]
    split <;> exact Nat.le_refl 1
  | _, .group inside, hk => by
    have hinside := inside.height_le hk
    have hnested := heightBound_nested k inside.nesting
    rw [Derivation.expr, Derivation.nesting]
    omega
  | _, .quantified _ collection _ predicate, hk => by
    rw [Derivation.longestChain, Nat.max_le] at hk
    have hcollection := collection.height_le hk.1
    have hpredicate := predicate.height_le hk.2
    have hleft := heightBound_mono (k := k) (.level .or)
      (Nat.le_max_left collection.nesting predicate.nesting)
    have hright := heightBound_mono (k := k) (.level .or)
      (Nat.le_max_right collection.nesting predicate.nesting)
    rw [Derivation.expr, Derivation.nesting, ← heightBound_nested, height]
    omega
  | _, .not argument, hk => by
    have hargument := argument.height_le hk
    have hnested := heightBound_nested k argument.nesting
    have hlevels : heightBound k argument.nesting .operand ≤
        heightBound k argument.nesting (.level .or) := by
      simp only [heightBound, Nat.sub_self]
      omega
    rw [Derivation.expr, Derivation.nesting, height]
    omega
  | _, .chain (l := l) first more, hk => by
    rw [Derivation.longestChain, Nat.max_le, Nat.max_le] at hk
    obtain ⟨hoperators, hfirst, hmore⟩ := hk
    have hchain := more.height_le hmore (Nat.le_max_right first.nesting more.nesting) 0
      ((first.height_le hfirst).trans (heightBound_mono _ (Nat.le_max_left _ more.nesting)))
    rw [Derivation.expr, Derivation.nesting, heightBound_level]
    omega

/-- The operators still to come add a node each to what has been joined so far, which is as high as
an operand may be and the operators before. -/
theorem Continuation.height_le : ∀ {l : Level} (more : Continuation l), more.longestChain ≤ k →
    ∀ {n : Nat}, more.nesting ≤ n → ∀ (before : Nat) {left : Expr},
      left.height ≤ heightBound k n l.inner + before →
      (more.expr left).height ≤ heightBound k n l.inner + before + more.operators
  | _, .done, _, _, _, _, _, hleft => hleft
  | l, .more op _ operand rest, hk, n, hn, before, left, hleft => by
    rw [Continuation.longestChain, Nat.max_le] at hk
    rw [Continuation.nesting, Nat.max_le] at hn
    have hoperand := (operand.height_le hk.1).trans (heightBound_mono _ hn.1)
    have hjoined : (Expr.binary op left operand.expr none none).height ≤
        heightBound k n l.inner + (before + 1) := by
      rw [height]
      omega
    have hrest := rest.height_le hk.2 hn.2 (before + 1) hjoined
    rw [Continuation.expr, Continuation.operators]
    omega

end

/-! ## Texts -/

/-- **The limit and the longest chain bound the height of a condition**, and there is no bound
without the chain: the condition is higher than any of its chains is long. -/
theorem height_bounds_of_parse {text : String} {limit : Int} {e : Expr}
    (h : parse text limit = .ok e) :
    ∃ d, Derives text d ∧ d.expr = e.erase ∧ d.longestChain < e.height ∧
      (e.height : Int) ≤ (4 * d.longestChain + 1) * limit := by
  obtain ⟨tokens, -, htokens, -⟩ := exists_reads_of_parse h
  obtain ⟨d, hd, hexpr, hlt⟩ := exists_derivation_of_parse htokens h
  have hheight : d.expr.height = e.height := by rw [hexpr, height_erase]
  refine ⟨d, ⟨tokens, htokens, hd⟩, hexpr, ?_, ?_⟩
  · rw [← hheight]
    exact d.longestChain_lt_height
  · have hle := d.height_le (Nat.le_refl _)
    have hnested := heightBound_nested d.longestChain d.nesting
    have hbound : heightBound d.longestChain (d.nesting + 1) .operand =
        (4 * d.longestChain + 1) * (d.nesting + 1) + 1 := rfl
    calc (e.height : Int)
        ≤ ((4 * d.longestChain + 1) * (d.nesting + 1) : Nat) := by rw [← hheight]; omega
      _ = (4 * d.longestChain + 1) * ((d.nesting : Int) + 1) := by push_cast; rfl
      _ ≤ (4 * d.longestChain + 1) * limit := by
        exact Int.mul_le_mul_of_nonneg_left (by omega) (by omega)

/-- A chain of two operators in a group makes the condition four nodes high. -/
theorem height_bounds_of_parse_grouped : ∃ e, parse "!(a || b || c)" 3 = .ok e ∧ e.height = 4 ∧
    ∃ d, Derives "!(a || b || c)" d ∧ d.expr = e.erase ∧ d.longestChain < 4 ∧
      (4 : Int) ≤ (4 * d.longestChain + 1) * 3 := by
  obtain ⟨e, he, hheight⟩ : ∃ e, parse "!(a || b || c)" 3 = .ok e ∧ e.height = 4 := ⟨_, rfl, rfl⟩
  have hbounds := height_bounds_of_parse he
  rw [hheight] at hbounds
  exact ⟨e, he, hheight, hbounds⟩

/-! ## Long chains -/

/-- A variable, and so many disjunctions of it. -/
def disjunctions : Nat → Expr
  | 0 => .reference "a" none
  | n + 1 => .binary (.logical .or) (disjunctions n) (.reference "a" none) none none

theorem disjunctions_wellFormed (n : Nat) : (disjunctions n).WellFormed := by
  have hname : (Expr.reference "a" none).WellFormed := by decide
  induction n with
  | zero => exact hname
  | succ n ih => exact ⟨ih, hname⟩

theorem lexemes_disjunctions (n : Nat) : (disjunctions (n + 1)).lexemes =
    (disjunctions n).lexemes ++ [.operator (.logical .or), .identifier "a"] := by
  cases n <;> rfl

/-- The tokens of the disjunctions are read with one node for every operator, and nothing nested. -/
theorem exists_reads_disjunctions (n : Nat) {ts : List Token}
    (hts : ts.map (·.lexeme) = (disjunctions n).lexemes) :
    ∃ e, Reads (.level .or) 0 ts e ∧ e.height = n + 1 := by
  induction n generalizing ts with
  | zero =>
    obtain ⟨⟨_, i, j⟩, _, rfl, rfl, hnil⟩ := List.map_eq_cons_iff.1 hts
    obtain rfl := List.map_eq_nil_iff.1 hnil
    exact ⟨_, (Reads.reference (by decide)).of_tighter (by decide), rfl⟩
  | succ n ih =>
    rw [lexemes_disjunctions] at hts
    obtain ⟨ls, _, rfl, hls, hrest⟩ := List.map_eq_append_iff.1 hts
    obtain ⟨⟨_, i, j⟩, _, rfl, rfl, hlast⟩ := List.map_eq_cons_iff.1 hrest
    obtain ⟨⟨_, k, l⟩, _, rfl, rfl, hnil⟩ := List.map_eq_cons_iff.1 hlast
    obtain rfl := List.map_eq_nil_iff.1 hnil
    obtain ⟨e, he, hheight⟩ := ih hls
    have hright : Reads (Level.inner .or) 0 [⟨.identifier "a", k, l⟩]
        (.reference "a" (some ⟨k, l⟩)) := (Reads.reference (by decide)).of_tighter (by decide)
    refine ⟨_, .join (i := i) (j := j) he rfl hright, ?_⟩
    rw [join, height, hheight, height]
    omega

/-- Every limit that admits anything admits conditions of any height. -/
theorem exists_parse_of_height {limit : Int} (hlimit : 1 ≤ limit) (n : Nat) :
    ∃ e, parse (disjunctions n).text limit = .ok e ∧ e.height = n + 1 := by
  obtain ⟨tokens, htokens, hlexemes⟩ := tokenize_text (disjunctions_wellFormed n)
  obtain ⟨e, he, hheight⟩ := exists_reads_disjunctions n hlexemes
  exact ⟨e, (parse_eq_ok_iff htokens).2 (ofTokens_eq_ok_iff.2 ⟨0, he, hlimit⟩), hheight⟩

/-- **The limit alone does not bound the height of a condition.** -/
theorem height_unbounded : ¬∃ bound : Int → Nat, ∀ (limit : Int) (text : String) (e : Expr),
    parse text limit = .ok e → e.height ≤ bound limit := by
  rintro ⟨bound, hbound⟩
  obtain ⟨e, he, hheight⟩ := exists_parse_of_height (Int.le_refl 1) (bound 1)
  have hle := hbound 1 _ e he
  omega

end Criteria.Expr
