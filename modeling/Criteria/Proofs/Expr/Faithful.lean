import Criteria.Proofs.Expr.Enclosures
import Criteria.Proofs.Expr.Shift

/-!
# Spans are faithful

A node that was read from a text has its own tokens, one after another, and stands from the first of
them to the last (`Expr.Reads.covers`). Its parts have tokens among them, each part behind the one
before (`Expr.Reads.exists_pieces`).

The tokens of a node are all it takes to read it: the characters where it stands are read, alone,
as that node (`Expr.readsUnlimited_piece`), whatever stood around it. So all that the nodes of a
condition note about their places is faithful to the text (`Expr.faithful_of_parse`).
-/

namespace Criteria

/-- The characters of a text from one place up to another. -/
def piece (text : String) (a b : Nat) : String :=
  String.ofList ((text.toList.drop a).take (b - a))

/-- The span starts where one of the tokens starts and ends where one of them ends. -/
def Span.At (ts : List Token) (s : Span) : Prop :=
  (∃ t ∈ ts, s.start = t.start) ∧ ∃ t ∈ ts, s.stop = t.stop

theorem Span.At.mono {ts us : List Token} {s : Span} (h : Span.At ts s) (hsubset : ts ⊆ us) :
    Span.At us s := by
  obtain ⟨⟨t, ht, hstart⟩, u, hu, hstop⟩ := h
  exact ⟨⟨t, hsubset ht, hstart⟩, u, hsubset hu, hstop⟩

namespace Expr

/-! ## The parts of a node -/

/-- Where the parts of a node stand that it is put together from, left to right: its operator and
its operands or arguments, and the alias when it is written out. -/
def partSpans : Expr → List (Option Span)
  | .literal .. | .reference .. => []
  | .not argument _ operatorSpan => [operatorSpan, argument.span]
  | .binary _ left right _ operatorSpan => [left.span, operatorSpan, right.span]
  | .quantified _ collection predicate binder spans =>
    spans.operator :: collection.span ::
      ((if binder.written then [spans.binder] else []) ++ [predicate.span])

/-- The words of a node beside its operands and arguments, with the places noted for them: its
operator, and the alias when it is written out. -/
def words : Expr → List (String × Option Span)
  | .literal .. | .reference .. => []
  | .not _ _ operatorSpan => [("!", operatorSpan)]
  | .binary op _ _ _ operatorSpan => [(op.symbol, operatorSpan)]
  | .quantified q _ _ binder spans =>
    (q.symbol, spans.operator) :: if binder.written then [(binder.name, spans.binder)] else []

/-- A quantifier notes where its arguments stand, and no place for an alias that is not written. -/
def NotesArguments : Expr → Prop
  | .quantified _ collection predicate binder spans =>
    spans.collection = collection.span ∧ spans.predicate = predicate.span ∧
      (binder.written = false → spans.binder = none)
  | _ => True

theorem partSpans_withSpan (e : Expr) (span : Option Span) :
    (e.withSpan span).partSpans = e.partSpans := by
  cases e <;> rfl

theorem words_withSpan (e : Expr) (span : Option Span) : (e.withSpan span).words = e.words := by
  cases e <;> rfl

theorem notesArguments_withSpan {e : Expr} {span : Option Span} :
    (e.withSpan span).NotesArguments ↔ e.NotesArguments := by
  cases e <;> rfl

theorem span_withSpan (e : Expr) (span : Option Span) : (e.withSpan span).span = span := by
  cases e <;> rfl

theorem nodes_withSpan {e x : Expr} {span : Option Span} (h : x ∈ (e.withSpan span).nodes) :
    x = e.withSpan span ∨ x ∈ e.nodes := by
  cases e <;> exact (List.mem_cons.1 h).imp_right (List.mem_cons_of_mem _)

/-! ## The tokens of a node -/

variable {layer : Layer} {n : Nat} {ts : List Token} {e : Expr}

/-- The span goes from the first of the tokens to the last. -/
def Covers (ts : List Token) (span : Option Span) : Prop :=
  ∃ t u, ts.head? = some t ∧ ts.getLast? = some u ∧ span = some ⟨t.start, u.stop⟩

/-- **What was read stands from the first of its tokens to the last.** -/
theorem Reads.covers (h : Reads layer n ts e) (horder : Ordered ts) : Covers ts e.span := by
  induction h with
  | number | string | bool | null | reference => exact ⟨_, _, rfl, rfl, rfl⟩
  | @group n inside e i j k l _ _ =>
    exact ⟨_, ⟨.closing, k, l⟩, rfl, by simp [List.getLast?_cons], span_withSpan ..⟩
  | @quantified q name m n cs as ps collection predicate binder binderSpan i j k l s t u v =>
    exact ⟨_, ⟨.closing, u, v⟩, rfl, by simp [List.getLast?_cons], rfl⟩
  | @not n ts e i j _ ih =>
    obtain ⟨t, u, hhead, hlast, hspan⟩ := ih (horder.sublist (List.sublist_cons_self ..))
    obtain ⟨hafter, -⟩ := List.pairwise_cons.1 horder.1
    have ht := hafter t (List.mem_of_mem_head? hhead)
    have hu := hafter u (List.mem_of_getLast? hlast)
    have hsign := horder.2 _ (List.mem_cons_self ..)
    have hend := horder.2 u (List.mem_cons_of_mem _ (List.mem_of_getLast? hlast))
    dsimp only at ht hu hsign
    refine ⟨_, u, rfl, by rw [List.getLast?_cons, hlast]; rfl, ?_⟩
    change Span.cover? (some ⟨i, j⟩) e.span = _
    rw [hspan, Span.cover?]
    simp only [Span.cover, Option.some.injEq, Span.mk.injEq]
    omega
  | single _ ih => exact ih horder
  | @join l op m n ls rs a b i j _ _ _ ihl ihr =>
    obtain ⟨t, u, hhead, hlast, hspan⟩ := ihl (horder.sublist (List.sublist_append_left ..))
    obtain ⟨t', u', hhead', hlast', hspan'⟩ :=
      ihr (horder.sublist ((List.sublist_cons_self ..).trans (List.sublist_append_right ..)))
    obtain ⟨-, -, hbetween⟩ := List.pairwise_append.1 horder.1
    have ht := hbetween t (List.mem_of_mem_head? hhead) t'
      (List.mem_cons_of_mem _ (List.mem_of_mem_head? hhead'))
    have hu := hbetween u (List.mem_of_getLast? hlast) u'
      (List.mem_cons_of_mem _ (List.mem_of_getLast? hlast'))
    have hstart := horder.2 t (List.mem_append_left _ (List.mem_of_mem_head? hhead))
    have hstop := horder.2 u'
      (List.mem_append_right _ (List.mem_cons_of_mem _ (List.mem_of_getLast? hlast')))
    refine ⟨t, u', by rw [List.head?_append, hhead]; rfl,
      by rw [List.getLast?_append, List.getLast?_cons, hlast']; rfl, ?_⟩
    change Span.cover? a.span b.span = _
    rw [hspan, hspan', Span.cover?]
    simp only [Span.cover, Option.some.injEq, Span.mk.injEq]
    omega

/-- **Every node was read from tokens of its own.** -/
theorem Reads.of_mem_nodes {x : Expr} (h : Reads layer n ts e) (hx : x ∈ e.nodes) :
    ∃ layer' m us, us <:+: ts ∧ Reads layer' m us x := by
  induction h with
  | number | string | bool | null | reference =>
    obtain rfl := List.mem_singleton.1 hx
    exact ⟨_, _, _, List.infix_rfl, by constructor <;> assumption⟩
  | @group n inside e i j k l h ih =>
    rcases nodes_withSpan hx with rfl | hx
    · exact ⟨_, _, _, List.infix_rfl, .group h⟩
    · obtain ⟨layer', m, us, hus, hreads⟩ := ih hx
      exact ⟨layer', m, us, hus.trans ⟨[_], [_], rfl⟩, hreads⟩
  | @quantified q name m n cs as ps collection predicate binder binderSpan i j k l s t u v hq hc ha
      hp ihc ihp =>
    rcases List.mem_cons.1 hx with rfl | hx
    · exact ⟨_, _, _, List.infix_rfl, .quantified hq hc ha hp⟩
    · rcases List.mem_append.1 hx with hx | hx
      · obtain ⟨layer', m, us, hus, hreads⟩ := ihc hx
        refine ⟨layer', m, us, hus.trans ?_, hreads⟩
        exact ⟨[⟨.identifier name, i, j⟩, ⟨.opening, k, l⟩], _, rfl⟩
      · obtain ⟨layer', m, us, hus, hreads⟩ := ihp hx
        refine ⟨layer', m, us, hus.trans ?_, hreads⟩
        exact ⟨⟨.identifier name, i, j⟩ :: ⟨.opening, k, l⟩ :: (cs ++ (as ++ [⟨.comma, s, t⟩])),
          [⟨.closing, u, v⟩], by simp⟩
  | @not n ts e i j h ih =>
    rcases List.mem_cons.1 hx with rfl | hx
    · exact ⟨_, _, _, List.infix_rfl, .not h⟩
    · obtain ⟨layer', m, us, hus, hreads⟩ := ih hx
      exact ⟨layer', m, us, List.infix_cons hus, hreads⟩
  | single _ ih => exact ih hx
  | @join l op m n ls rs a b i j hl hop hr ihl ihr =>
    rcases List.mem_cons.1 hx with rfl | hx
    · exact ⟨_, _, _, List.infix_rfl, .join hl hop hr⟩
    · rcases List.mem_append.1 hx with hx | hx
      · obtain ⟨layer', m, us, hus, hreads⟩ := ihl hx
        exact ⟨layer', m, us, hus.trans (List.infix_append' [] ls _), hreads⟩
      · obtain ⟨layer', m, us, hus, hreads⟩ := ihr hx
        have hrs : rs <:+ ls ++ ⟨.operator op, i, j⟩ :: rs :=
          (List.suffix_cons ..).trans (List.suffix_append ..)
        exact ⟨layer', m, us, hus.trans hrs.isInfix, hreads⟩

/-! ## The parts of a node -/

theorem covers_token (t : Token) : Covers [t] (some t.span) := ⟨t, t, rfl, rfl, rfl⟩

/-- **The parts of a node have tokens among its own**, each part behind the one before. -/
theorem Reads.exists_pieces (h : Reads layer n ts e) (horder : Ordered ts) :
    ∃ pieces : List (List Token), pieces.flatten.Sublist ts ∧
      List.Forall₂ Covers pieces e.partSpans := by
  induction h with
  | number | string | bool | null | reference => exact ⟨[], List.nil_sublist _, .nil⟩
  | group _ ih =>
    obtain ⟨pieces, hsub, hcovers⟩ := ih (horder.sublist (sublist_group ..))
    exact ⟨pieces, hsub.trans (sublist_group ..), by rwa [partSpans_withSpan]⟩
  | @quantified q name m n cs as ps collection predicate binder binderSpan i j k l s t u v _ hc ha
      hp _ _ =>
    have hparts := sublist_arguments cs as ps ⟨.opening, k, l⟩ ⟨.comma, s, t⟩ ⟨.closing, u, v⟩
    have horder' := horder.sublist (hparts.cons _)
    have hcovers := hc.covers (horder'.sublist (List.sublist_append_left ..))
    have hcovers' := hp.covers (horder'.sublist
      ((List.sublist_append_right ..).trans (List.sublist_append_right ..)))
    cases ha with
    | absent =>
      exact ⟨[[⟨.identifier name, i, j⟩], cs, ps], by simpa using hparts,
        .cons (covers_token _) (.cons hcovers (.cons hcovers' .nil))⟩
    | @present binder i' j' k' l' _ =>
      refine ⟨[[⟨.identifier name, i, j⟩], cs, [⟨.identifier binder, k', l'⟩], ps], ?_,
        .cons (covers_token _) (.cons hcovers
          (.cons (covers_token ⟨.identifier binder, k', l'⟩) (.cons hcovers' .nil)))⟩
      have hclause : (cs ++ ⟨.identifier binder, k', l'⟩ :: ps).Sublist
          (cs ++ ([⟨.identifier "as", i', j'⟩, ⟨.identifier binder, k', l'⟩] ++ ps)) :=
        (List.Sublist.refl cs).append (List.sublist_cons_self ..)
      simpa using hclause.trans hparts
  | @not n ts e i j h _ =>
    have hcovers := h.covers (horder.sublist (List.sublist_cons_self ..))
    exact ⟨[[⟨.not, i, j⟩], ts], by simp, .cons (covers_token _) (.cons hcovers .nil)⟩
  | single _ ih => exact ih horder
  | @join l op m n ls rs a b i j hl _ hr _ _ =>
    have hcovers := hl.covers (horder.sublist (List.sublist_append_left ..))
    have hcovers' := hr.covers
      (horder.sublist ((List.sublist_cons_self ..).trans (List.sublist_append_right ..)))
    exact ⟨[ls, [⟨.operator op, i, j⟩], rs], by simp,
      .cons hcovers (.cons (covers_token _) (.cons hcovers' .nil))⟩

/-- **The words of a node are tokens of it**, at the places noted. -/
theorem Reads.exists_token_of_mem_words {word : String × Option Span} (h : Reads layer n ts e)
    (hword : word ∈ e.words) :
    ∃ t ∈ ts, word = (t.lexeme.text, some t.span) ∧ ∀ value, t.lexeme ≠ .string value := by
  induction h with
  | number | string | bool | null | reference => cases hword
  | group _ ih =>
    rw [words_withSpan] at hword
    obtain ⟨t, ht, heq⟩ := ih hword
    exact ⟨t, List.mem_cons_of_mem _ (List.mem_append_left _ ht), heq⟩
  | @quantified q name m n cs as ps collection predicate binder binderSpan i j k l s t u v hq _ ha =>
    rcases List.mem_cons.1 hword with rfl | hword
    · exact ⟨_, List.mem_cons_self .., by rw [symbol_of_ofSymbol? hq]; rfl, nofun⟩
    · cases ha with
      | absent => cases hword
      | @present binder i' j' k' l' _ =>
        obtain rfl := List.mem_singleton.1 hword
        exact ⟨⟨.identifier binder, k', l'⟩, by simp, rfl, nofun⟩
  | not =>
    obtain rfl := List.mem_singleton.1 hword
    exact ⟨_, List.mem_cons_self .., rfl, nofun⟩
  | single _ ih => exact ih hword
  | @join l op m n ls rs a b i j =>
    obtain rfl := List.mem_singleton.1 hword
    exact ⟨⟨.operator op, i, j⟩, by simp, rfl, nofun⟩

theorem Reads.notesArguments (h : Reads layer n ts e) : e.NotesArguments := by
  induction h with
  | group _ ih => exact notesArguments_withSpan.2 ih
  | quantified _ _ ha =>
    refine ⟨rfl, rfl, fun hwritten => ?_⟩
    cases ha with
    | absent => rfl
    | present => cases hwritten
  | single _ ih => exact ih
  | _ => trivial

/-- All tokens stand between the start of the first and the end of the last. -/
theorem Ordered.bounds {t u : Token} (h : Ordered ts) (hhead : ts.head? = some t)
    (hlast : ts.getLast? = some u) : ∀ v ∈ ts, t.start ≤ v.start ∧ v.stop ≤ u.stop := by
  intro v hv
  constructor
  · obtain ⟨rest, rfl⟩ := List.head?_eq_some_iff.1 hhead
    rcases List.mem_cons.1 hv with rfl | hv
    · exact Nat.le_refl _
    · exact (h.2 t (List.mem_cons_self ..)).le.trans ((List.pairwise_cons.1 h.1).1 v hv)
  · obtain ⟨front, rfl⟩ := List.getLast?_eq_some_iff.1 hlast
    rcases List.mem_append.1 hv with hv | hv
    · have hbefore := (List.pairwise_append.1 h.1).2.2 v hv u (List.mem_singleton_self u)
      exact hbefore.trans (h.2 u (by simp)).le
    · rw [List.mem_singleton.1 hv]

/-- Spans from tokens that stand one after another stand one after another. -/
theorem exists_spans_of_covers {pieces : List (List Token)} {spans : List (Option Span)}
    (h : List.Forall₂ Covers pieces spans) (horder : Ordered pieces.flatten) :
    ∃ known : List Span, spans = known.map some ∧
      known.Pairwise (fun s s' => s.stop ≤ s'.start) ∧
        ∀ s ∈ known, Span.At pieces.flatten s ∧ s.start < s.stop := by
  induction h with
  | nil => exact ⟨[], rfl, .nil, by simp⟩
  | @cons us span pieces spans hcovers _ ih =>
    obtain ⟨t, u, hhead, hlast, rfl⟩ := hcovers
    rw [List.flatten_cons] at horder ⊢
    obtain ⟨known, rfl, hpairwise, hknown⟩ := ih (horder.sublist (List.sublist_append_right ..))
    have ht := List.mem_of_mem_head? hhead
    have hu := List.mem_of_getLast? hlast
    refine ⟨⟨t.start, u.stop⟩ :: known, rfl, List.pairwise_cons.2 ⟨fun s hs => ?_, hpairwise⟩,
      List.forall_mem_cons.2 ⟨⟨⟨⟨t, List.mem_append_left _ ht, rfl⟩, u, List.mem_append_left _ hu,
        rfl⟩, ?_⟩, fun s hs => ⟨(hknown s hs).1.mono (List.subset_append_right ..),
          (hknown s hs).2⟩⟩⟩
    · obtain ⟨⟨⟨v, hv, hstart⟩, -⟩, -⟩ := hknown s hs
      have hbetween := (List.pairwise_append.1 horder.1).2.2 u hu v hv
      dsimp only
      omega
    · have hlt := horder.2 t (List.mem_append_left _ ht)
      have hle := ((horder.sublist (List.sublist_append_left ..)).bounds hhead hlast t ht).2
      dsimp only
      omega

/-! ## A node alone -/

/-- **The characters from one token to another are read, alone, as the tokens from the one to the
other**, further in front. -/
theorem tokenize_piece {text : String} {us : List Token} {t u : Token}
    (htokens : tokenize text = .ok ts) (hus : us <:+: ts) (hhead : us.head? = some t)
    (hlast : us.getLast? = some u) :
    ∃ tokens, tokenize (piece text t.start u.stop) = .ok tokens ∧
      us = tokens.map (Token.shift t.start) := by
  obtain ⟨before, after, rfl⟩ := hus
  have hscan := tokenize_eq_ok_iff.1 htokens
  have hlt : t.start < u.stop := by
    have horder := (ordered_of_tokenize htokens).sublist
      ((List.sublist_append_right before us).trans (List.sublist_append_left _ after))
    have ht := List.mem_of_mem_head? hhead
    exact (horder.2 t ht).trans_le (horder.bounds hhead hlast t ht).2
  have hstop : u.stop ≤ text.toList.length := by
    have hbounds := scan_bounds 0 0 text.toList u
      (by rw [hscan]; simp [List.mem_of_getLast? hlast])
    omega
  -- cut off behind the last token, then in front of the first
  have hfront : scan 0 0 (text.toList.take u.stop) = (before ++ us, none) := by
    obtain ⟨front, rfl⟩ := List.getLast?_eq_some_iff.1 hlast
    rw [← List.append_assoc] at hscan ⊢
    exact (scan_split (between_stop hscan) (Nat.zero_le _) hstop hscan).1
  obtain ⟨rest, rfl⟩ := List.head?_eq_some_iff.1 hhead
  obtain ⟨-, hpiece⟩ := scan_split (between_start hfront) (Nat.zero_le _)
    (by rw [List.length_take]; omega) hfront
  rw [scan_shift, List.drop_take, Prod.mk.injEq, Option.map_eq_none_iff] at hpiece
  have hchars : (piece text t.start u.stop).toList =
      (text.toList.drop t.start).take (u.stop - t.start) := String.toList_ofList
  rw [← hchars] at hpiece
  exact ⟨_, tokenize_eq_ok_iff.2 (Prod.ext rfl hpiece.2), hpiece.1.symm⟩

/-- **What was read from some tokens is read from their characters alone**, nearer to the front. -/
theorem readsUnlimited_piece {text : String} {us : List Token} {t u : Token}
    (htokens : tokenize text = .ok ts) (hus : us <:+: ts) (hhead : us.head? = some t)
    (hlast : us.getLast? = some u) (h : Reads layer n us e) :
    ReadsUnlimited (piece text t.start u.stop) (e.back t.start) := by
  obtain ⟨tokens, hpiece, rfl⟩ := tokenize_piece htokens hus hhead hlast
  have hne : tokens ≠ [] := by
    rintro rfl
    cases hhead
  refine ⟨n + 1, fun limit hlimit => (parse_eq_ok_iff hpiece).2 ?_⟩
  have hread := ofTokens_eq_ok_iff.2 ⟨n, h.of_tighter (Nat.zero_le _), hlimit⟩
  rw [ofTokens_shift _ _ hne] at hread
  obtain ⟨e', he', rfl⟩ := map_ok (mapError_ok hread)
  rw [he', back_shift]

/-- A node stands in the text from one place up to another, and all that it notes about places is
so. -/
structure Faithful (text : String) (e : Expr) (a b : Nat) : Prop where
  span : e.span = some ⟨a, b⟩
  within : a < b ∧ b ≤ text.toList.length
  /-- Its parts stand inside, one after another. -/
  parts : ∃ spans : List Span, e.partSpans = spans.map some ∧
    spans.Pairwise (fun s s' => s.stop ≤ s'.start) ∧
      ∀ s ∈ spans, a ≤ s.start ∧ s.start < s.stop ∧ s.stop ≤ b
  /-- Its operator and its alias stand where it says. -/
  words : ∀ word ∈ e.words, ∃ i j : Nat, word = (piece text i j, some ⟨i, j⟩)
  arguments : e.NotesArguments
  /-- It is what these characters are read as, alone. -/
  alone : ReadsUnlimited (piece text a b) (e.back a)

/-- **The spans of a condition that was read from a text are faithful**, at every node. -/
theorem faithful_of_parse {text : String} {limit : Int} (h : parse text limit = .ok e) :
    ∀ x ∈ e.nodes, ∃ a b, Faithful text x a b := by
  intro x hx
  obtain ⟨tokens, n, htokens, hreads⟩ := exists_reads_of_parse h
  obtain ⟨layer, m, us, hus, hx⟩ := hreads.of_mem_nodes hx
  have horder := (ordered_of_tokenize htokens).sublist hus.sublist
  obtain ⟨t, u, hhead, hlast, hspan⟩ := hx.covers horder
  have hbounds := horder.bounds hhead hlast
  have htiles := tiles_of_tokenize htokens
  have ht := List.mem_of_mem_head? hhead
  have hu := List.mem_of_getLast? hlast
  refine ⟨t.start, u.stop, hspan, ⟨(horder.2 t ht).trans_le (hbounds t ht).2,
    (htiles.within u (hus.subset hu)).2⟩, ?_, ?_, hx.notesArguments,
    readsUnlimited_piece htokens hus hhead hlast hx⟩
  · obtain ⟨pieces, hsub, hcovers⟩ := hx.exists_pieces horder
    obtain ⟨spans, hspans, hpairwise, hknown⟩ :=
      exists_spans_of_covers hcovers (horder.sublist hsub)
    refine ⟨spans, hspans, hpairwise, fun s hs => ?_⟩
    obtain ⟨⟨⟨v, hv, hstart⟩, w, hw, hstop⟩, hlt⟩ := hknown s hs
    have hv' := (hbounds v (hsub.subset hv)).1
    have hw' := (hbounds w (hsub.subset hw)).2
    omega
  · intro word hword
    obtain ⟨v, hv, rfl, hstring⟩ := hx.exists_token_of_mem_words hword
    refine ⟨v.start, v.stop, ?_⟩
    rw [piece, htiles.spelled (hus.subset hv) hstring, String.ofList_toList]
    rfl

theorem faithful_of_parse_quantified :
    ∃ e, parse "!(a == b) && some(xs as x, x)" 64 = .ok e ∧
      ∀ x ∈ e.nodes, ∃ a b, Faithful "!(a == b) && some(xs as x, x)" x a b := by
  obtain ⟨e, he⟩ : ∃ e, parse "!(a == b) && some(xs as x, x)" 64 = .ok e := ⟨_, rfl⟩
  exact ⟨e, he, faithful_of_parse he⟩

end Expr

end Criteria
