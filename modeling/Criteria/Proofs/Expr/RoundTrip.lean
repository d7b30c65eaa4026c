import Criteria.Proofs.Expr.Alike
import Criteria.Proofs.Expr.Grammar
import Criteria.Proofs.Expr.Lexemes
import Criteria.Proofs.Expr.Nesting
import Criteria.Proofs.Token.Tiling

/-!
# Writing a condition and reading it again

A condition read from text is well-formed (`Expr.wellFormed_of_parse`), and the canonical text of a
well-formed condition of any shape is read as a condition that is alike, for every limit from its
nesting on and for none below it (`Expr.exists_alike_of_wellFormed`).

The grammar has more layers than the canonical text has binding levels, and it is left-recursive
where the text may come from a chain nested to the right. So the derivation of an operand that is
written without parentheses is either tighter than its operator (`Reads.of_tighter`) or a chain of
the same connective, which is appended (`Reads.append_chain`).
-/

namespace Criteria.Expr

/-! ## Conditions read from text -/

/-- The identifiers among the tokens are names. -/
def NamesOnly (ts : List Token) : Prop :=
  ∀ t ∈ ts, ∀ name, t.lexeme = .identifier name → IsName name

theorem NamesOnly.append {ts us : List Token} :
    NamesOnly (ts ++ us) ↔ NamesOnly ts ∧ NamesOnly us := by
  simp only [NamesOnly, List.mem_append, or_imp, forall_and]

theorem NamesOnly.cons {t : Token} {ts : List Token} (h : NamesOnly (t :: ts)) : NamesOnly ts :=
  fun u hu => h u (List.mem_cons_of_mem t hu)

theorem AliasClause.wellFormed {as : List Token} {binder : Alias} {span : Option Span}
    (h : AliasClause as binder span) (hnames : NamesOnly as) : binder.WellFormed := by
  cases h with
  | absent => decide
  | present hdot =>
    refine ⟨hnames _ (List.mem_cons_of_mem _ (List.mem_cons_self ..)) _ rfl, ?_, .inl rfl⟩
    simpa using hdot

/-- What the grammar derives from tokens of a text is well-formed. -/
theorem Reads.wellFormed {layer : Layer} {n : Nat} {ts : List Token} {e : Expr}
    (h : Reads layer n ts e) (hnames : NamesOnly ts) : e.WellFormed := by
  induction h with
  | number h => exact Scalar.wellFormed_of_numeral? h
  | string => trivial
  | bool => trivial
  | null => trivial
  | reference h => exact ⟨hnames _ (List.mem_cons_self ..) _ rfl, h⟩
  | group _ ih => exact withSpan_wellFormed.2 (ih (NamesOnly.append.1 hnames.cons).1)
  | quantified _ _ ha _ ihc ihp =>
    obtain ⟨hcs, hrest⟩ := NamesOnly.append.1 hnames.cons.cons
    obtain ⟨has, hrest⟩ := NamesOnly.append.1 hrest
    exact ⟨ihc hcs, ihp (NamesOnly.append.1 hrest.cons).1, ha.wellFormed has⟩
  | not _ ih => exact ih hnames.cons
  | single _ ih => exact ih hnames
  | join _ _ _ ihl ihr =>
    obtain ⟨hls, hrs⟩ := NamesOnly.append.1 hnames
    exact ⟨ihl hls, ihr hrs.cons⟩

/-- What is read from a text is derived from its tokens, within the limit. -/
theorem reads_of_parse {text : String} {limit : Int} {e : Expr}
    (h : parse text limit = .ok e) :
    ∃ tokens n, tokenize text = .ok tokens ∧ Reads (.level .or) n tokens e ∧
      (n : Int) + 1 ≤ limit := by
  obtain ⟨tokens, htokens, h⟩ := bind_ok h
  obtain ⟨n, hreads, hn⟩ := ofTokens_eq_ok_iff.1 (mapError_ok h)
  exact ⟨tokens, n, mapError_ok htokens, hreads, hn⟩

/-- **A condition read from text is well-formed.** -/
theorem wellFormed_of_parse {text : String} {limit : Int} {e : Expr}
    (h : parse text limit = .ok e) : e.WellFormed := by
  obtain ⟨tokens, n, htokens, hreads, -⟩ := reads_of_parse h
  exact hreads.wellFormed fun t ht name hname => isName_of_mem_tokenize htokens ht hname

/-- A limit that admits a text of a condition admits the canonical text, when no comparison is an
operand of a comparison. -/
theorem nesting_le_of_parse {text : String} {limit : Int} {e : Expr}
    (h : parse text limit = .ok e) (hapart : e.ComparisonsApart) : (e.nesting : Int) ≤ limit := by
  obtain ⟨tokens, n, -, hreads, hn⟩ := reads_of_parse h
  have hdepth : e.depth ≤ n := (hreads.depth_le hapart).1
  rw [nesting]
  omega

/-! ## Derivations of canonical text -/

/-- The tokens spell a condition that is alike. -/
def Spells (layer : Layer) (n : Nat) (ts : List Token) (a : Expr) : Prop :=
  ∃ e, Reads layer n ts e ∧ Alike e a

/-- **A chain of a connective is read on after another.** The chain that the grammar derives
associates to the left. -/
theorem Reads.append_chain {c : Connective} {l : Level} {m n : Nat} {ls rs : List Token}
    {a b : Expr} (hc : Level.of (.logical c) = l) (ha : Reads (.level l) m ls a) (i j : Nat)
    (hb : Reads (.level l) n rs b) :
    ∃ e, Reads (.level l) (max m n) (ls ++ ⟨.operator (.logical c), i, j⟩ :: rs) e ∧
      Alike e (.binary (.logical c) a b none none) := by
  generalize hlayer : Layer.level l = layer at hb
  induction hb with
  | single h =>
    obtain rfl := Layer.level.inj hlayer
    exact ⟨_, .join ha hc h, .binary (.refl a) (.refl _)⟩
  | @join l' op m' n' ls' rs' a' b' i' j' hl hop hr ihl =>
    obtain rfl := Layer.level.inj hlayer
    obtain ⟨e, he, halike⟩ := ihl rfl
    obtain rfl : op = .logical c := by
      rw [← hc] at hop
      cases op with
      | logical c' => cases c <;> cases c' <;> first | rfl | cases hop
      | compare c' => cases c <;> cases c' <;> cases hop
    refine ⟨Expr.join (.logical c) ⟨i', j'⟩ e b', ?_, ?_⟩
    · have hjoin := Reads.join (i := i') (j := j') he hop hr
      rwa [Nat.max_assoc, List.append_assoc, List.cons_append] at hjoin
    · have hleft : Alike (Expr.join (.logical c) ⟨i', j'⟩ e b')
          (.binary (.logical c) (.binary (.logical c) a a' none none) b' none none) :=
        .binary halike (.refl b')
      have hright : Alike (.binary (.logical c) a (.binary (.logical c) a' b' none none) none none)
          (.binary (.logical c) a (Expr.join (.logical c) ⟨i', j'⟩ a' b') none none) :=
        .binary (.refl a) (.binary (.refl a') (.refl b'))
      exact hleft.trans (.trans .assoc hright)
  | _ => cases hlayer

variable {a : Expr} {n : Nat} {ts : List Token}

theorem Spells.of_tighter {layer layer' : Layer} (h : Spells layer n ts a)
    (hle : layer'.tightness ≤ layer.tightness) : Spells layer' n ts a := by
  obtain ⟨e, he, halike⟩ := h
  exact ⟨e, he.of_tighter hle, halike⟩

theorem Spells.loosest {layer : Layer} (h : Spells layer n ts a) : Spells (.level .or) n ts a :=
  h.of_tighter (Nat.zero_le _)

/-- A condition in parentheses is an operand. -/
theorem Spells.group {layer : Layer} (h : Spells layer n ts a) (i j k l : Nat) :
    Spells .operand (n + 1) (⟨.opening, i, j⟩ :: (ts ++ [⟨.closing, k, l⟩])) a := by
  obtain ⟨e, he, halike⟩ := h.loosest
  exact ⟨_, .group he, .trans (.withSpan e _) halike⟩

/-- An operand is spelled at its own layer, or as an operand where it is in parentheses. -/
theorem spells_grouped (group : Bool) (hts : ts.map (·.lexeme) = groupedLexemes group a.lexemes)
    (h : ∀ {ts : List Token}, ts.map (·.lexeme) = a.lexemes → Spells a.layer a.depth ts a) :
    Spells (if group then .operand else a.layer) (groupedDepth group a.depth) ts a := by
  cases group with
  | false => exact h hts
  | true =>
    change ts.map _ = .opening :: (a.lexemes ++ [.closing]) at hts
    obtain ⟨⟨_, i, j⟩, rest, rfl, rfl, hrest⟩ := List.map_eq_cons_iff.1 hts
    obtain ⟨inside, last, rfl, hinside, hlast⟩ := List.map_eq_append_iff.1 hrest
    obtain ⟨⟨_, k, l⟩, _, rfl, rfl, hnil⟩ := List.map_eq_cons_iff.1 hlast
    obtain rfl := List.map_eq_nil_iff.1 hnil
    exact (h hinside).group i j k l

/-- The left operand is spelled at the level of its operator. -/
theorem Spells.left {op : BinaryOp}
    (h : Spells (if needsGroup op a then .operand else a.layer) n ts a) :
    Spells (.level (Level.of op)) n ts a := by
  apply h.of_tighter
  change (Level.of op).tightness ≤ _
  have hinner := tightness_inner (Level.of op)
  cases hgroup : needsGroup op a with
  | true =>
    have hmax := tightness_inner_le (Level.of op)
    rw [if_pos rfl]
    omega
  | false =>
    rw [if_neg (by decide)]
    rcases layer_of_not_needsGroup hgroup with htight | ⟨hlayer, -⟩
    · omega
    · rw [hlayer]
      exact Nat.le_refl _

/-- **Two operands around an operator are spelled as the operation.** -/
theorem Spells.binary {op : BinaryOp} {b : Expr} {m : Nat} {us : List Token} {s t : Option Span}
    (ha : Spells (if needsGroup op a then .operand else a.layer) n ts a)
    (hb : Spells (if needsGroup op b then .operand else b.layer) m us b) (i j : Nat) :
    Spells (.level (Level.of op)) (max n m) (ts ++ ⟨.operator op, i, j⟩ :: us)
      (.binary op a b s t) := by
  obtain ⟨e, he, halike⟩ := ha.left
  have htighter : Spells (Level.of op).inner m us b →
      Spells (.level (Level.of op)) (max n m) (ts ++ ⟨.operator op, i, j⟩ :: us)
        (.binary op a b s t) := by
    rintro ⟨f, hf, halike'⟩
    exact ⟨_, .join he rfl hf, .binary halike halike'⟩
  cases hgroup : needsGroup op b with
  | true =>
    rw [hgroup] at hb
    exact htighter (hb.of_tighter (tightness_inner_le _))
  | false =>
    rw [hgroup] at hb
    rcases layer_of_not_needsGroup hgroup with htight | ⟨hlayer, c, rfl⟩
    · exact htighter (hb.of_tighter htight)
    · rw [if_neg (by decide), hlayer] at hb
      obtain ⟨f, hf, halike'⟩ := hb
      obtain ⟨g, hg, hchain⟩ := he.append_chain rfl i j hf
      exact ⟨g, hg, hchain.trans (.binary halike halike')⟩

/-- The argument of a negation is spelled as an operand. -/
theorem Spells.argument
    (h : Spells (if needsGroupUnderNot a then .operand else a.layer) n ts a) :
    Spells .operand n ts a := by
  cases a <;> exact h

theorem aliasClause_of_lexemes {binder : Alias} (h : binder.WellFormed)
    (hts : ts.map (·.lexeme) = aliasLexemes binder) : ∃ span, AliasClause ts binder span := by
  obtain ⟨name, written⟩ := binder
  cases written with
  | false =>
    obtain rfl := List.map_eq_nil_iff.1 hts
    obtain ⟨-, -, hwritten | hdefault⟩ := h
    · cases hwritten
    · obtain rfl : name = defaultAlias := hdefault
      exact ⟨none, .absent⟩
  | true =>
    obtain ⟨⟨_, i, j⟩, _, rfl, rfl, hrest⟩ := List.map_eq_cons_iff.1 hts
    obtain ⟨⟨_, k, l⟩, _, rfl, rfl, hnil⟩ := List.map_eq_cons_iff.1 hrest
    obtain rfl := List.map_eq_nil_iff.1 hnil
    exact ⟨_, .present (by simpa using h.2.1)⟩

theorem spells_literal {v : Scalar} (hv : v.WellFormed) {s : Option Span}
    (hts : ts.map (·.lexeme) = [v.lexeme]) : Spells .operand 0 ts (.literal v s) := by
  obtain ⟨⟨_, i, j⟩, _, rfl, rfl, hnil⟩ := List.map_eq_cons_iff.1 hts
  obtain rfl := List.map_eq_nil_iff.1 hnil
  have hnumber : v.IsNumber → v.lexeme = .number v.text →
      Spells .operand 0 [⟨v.lexeme, i, j⟩] (.literal v s) := by
    intro hnum hlexeme
    rw [hlexeme]
    exact ⟨_, .number (Scalar.numeral?_text hv hnum), .literal (Scalar.exact_alike v)⟩
  cases v with
  | null => exact ⟨_, .null, .literal (.refl _)⟩
  | bool b => exact ⟨_, .bool, .literal (.refl _)⟩
  | int n => exact hnumber trivial rfl
  | double d => exact hnumber trivial rfl
  | string s => exact ⟨_, .string, .literal (.refl _)⟩

/-- **The lexemes of canonical text spell the condition**, at its own layer and with its own
nesting. -/
theorem spells_of_lexemes (h : a.WellFormed) (hts : ts.map (·.lexeme) = a.lexemes) :
    Spells a.layer a.depth ts a := by
  induction a generalizing ts with
  | literal v => exact spells_literal h hts
  | reference path =>
    obtain ⟨⟨_, i, j⟩, _, rfl, rfl, hnil⟩ := List.map_eq_cons_iff.1 hts
    obtain rfl := List.map_eq_nil_iff.1 hnil
    exact ⟨_, .reference h.2, .reference⟩
  | not argument _ _ ih =>
    obtain ⟨⟨_, i, j⟩, rest, rfl, rfl, hrest⟩ := List.map_eq_cons_iff.1 hts
    obtain ⟨e, he, halike⟩ := (spells_grouped _ hrest (ih h)).argument
    exact ⟨_, .not he, .not halike⟩
  | binary op left right _ _ ihl ihr =>
    obtain ⟨ls, rest, rfl, hls, hrest⟩ := List.map_eq_append_iff.1 hts
    obtain ⟨⟨_, i, j⟩, rs, rfl, rfl, hrs⟩ := List.map_eq_cons_iff.1 hrest
    exact (spells_grouped _ hls (ihl h.1)).binary (spells_grouped _ hrs (ihr h.2)) i j
  | quantified q collection predicate binder _ ihc ihp =>
    obtain ⟨⟨_, i, j⟩, _, rfl, rfl, htail⟩ := List.map_eq_cons_iff.1 hts
    obtain ⟨⟨_, k, l⟩, _, rfl, rfl, hinside⟩ := List.map_eq_cons_iff.1 htail
    obtain ⟨front, _, rfl, hfront, hback⟩ := List.map_eq_append_iff.1 hinside
    obtain ⟨cs, as, rfl, hcs, has⟩ := List.map_eq_append_iff.1 hfront
    obtain ⟨⟨_, s, t⟩, _, rfl, rfl, hlast⟩ := List.map_eq_cons_iff.1 hback
    obtain ⟨ps, _, rfl, hps, hclosing⟩ := List.map_eq_append_iff.1 hlast
    obtain ⟨⟨_, u, v⟩, _, rfl, rfl, hnil⟩ := List.map_eq_cons_iff.1 hclosing
    obtain rfl := List.map_eq_nil_iff.1 hnil
    obtain ⟨c, hc, halike⟩ := (ihc h.1 hcs).loosest
    obtain ⟨p, hp, halike'⟩ := (ihp h.2.1 hps).loosest
    obtain ⟨span, ha⟩ := aliasClause_of_lexemes h.2.2 has
    rw [List.append_assoc]
    refine ⟨_, .quantified (by cases q <;> rfl) hc ha hp, .quantified halike halike'⟩

/-! ## The round trip -/

/-- **Canonical text is read as a condition that is alike**, exactly when the limit admits its
nesting. -/
theorem exists_alike_of_wellFormed (h : a.WellFormed) :
    ∃ e, Alike e a ∧ ∀ limit : Int,
      ((a.nesting : Int) ≤ limit → parse a.text limit = .ok e) ∧
      (limit < a.nesting → ∃ offset,
        parse a.text limit = .error (.grammatical ⟨.tooDeep limit, offset⟩)) := by
  obtain ⟨tokens, htokens, hlexemes⟩ := tokenize_text h
  obtain ⟨e, he, halike⟩ := (spells_of_lexemes h hlexemes).loosest
  refine ⟨e, halike, fun limit => ⟨fun hle => ?_, fun hlt => ?_⟩⟩
  · have hread := ofTokens_eq_ok_iff.2 ⟨a.depth, he, by exact_mod_cast hle⟩
    rw [parse, htokens]
    change (ofTokens limit tokens).mapError _ = _
    rw [hread]
    rfl
  · obtain ⟨offset, hread⟩ := ofTokens_eq_tooDeep he (by exact_mod_cast hlt)
    refine ⟨offset, ?_⟩
    rw [parse, htokens]
    change (ofTokens limit tokens).mapError _ = _
    rw [hread]
    rfl

/-- **Writing a condition and reading it again loses nothing.** A condition read from text is
well-formed. The canonical text of a well-formed condition is read, under the limits that admit its
nesting, as a condition that is alike, so it has the same JSON-Logic up to the form of its numbers
and the same canonical text. -/
theorem text_round_trip :
    (∀ (text : String) (limit : Int) (e : Expr), parse text limit = .ok e → e.WellFormed) ∧
      ∀ a : Expr, a.WellFormed → ∃ e : Expr,
        (∀ limit : Int, parse a.text limit = .ok e ↔ (a.nesting : Int) ≤ limit) ∧
          e.Alike a ∧ e.toLogic.Alike a.toLogic ∧ e.text = a.text := by
  refine ⟨fun _ _ _ h => wellFormed_of_parse h, fun a h => ?_⟩
  obtain ⟨e, halike, hparse⟩ := exists_alike_of_wellFormed h
  refine ⟨e, fun limit => ⟨fun hread => ?_, (hparse limit).1⟩, halike, halike.toLogic,
    halike.text_eq⟩
  rw [← Int.not_lt]
  intro hlt
  obtain ⟨offset, hdeep⟩ := (hparse limit).2 hlt
  rw [hread] at hdeep
  cases hdeep

/-- The double two under a conjunction nested to the right. -/
def rightNested : Expr :=
  .binary (.logical .and) (.reference "a" none)
    (.binary (.logical .and) (.reference "b" none)
      (.not (.binary (.compare .eq) (.reference "c" none) (.literal (.double (Double.ofInt 2)) none)
        none none) none none) none none) none none

theorem rightNested_wellFormed : rightNested.WellFormed := by decide +kernel

theorem text_round_trip_rightNested :
    rightNested.text = "a && b && !(c == 2)" ∧ ∃ e : Expr,
      parse "a && b && !(c == 2)" 3 = .ok e ∧ e.WellFormed ∧ e.Alike rightNested := by
  have htext : rightNested.text = "a && b && !(c == 2)" := by decide +kernel
  obtain ⟨hsound, hcomplete⟩ := text_round_trip
  obtain ⟨e, hparse, halike, -⟩ := hcomplete rightNested rightNested_wellFormed
  have hread := (hparse 3).2 (by decide)
  rw [htext] at hread
  exact ⟨htext, e, hread, hsound _ _ _ hread, halike⟩

end Criteria.Expr
