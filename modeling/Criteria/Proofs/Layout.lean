import Criteria.Proofs.Condition
import Criteria.Proofs.Expr.Relocation
import Criteria.Proofs.Expr.Typing

/-!
# The layout of a text

Blanks, quotes and the spelling of escapes are the layout of a text. They are no part of what its
tokens say, and the rest of the work only looks at that: two texts with the same tokens, wherever
these stand, are the same condition or wrong in the same way (`Condition.parse_layout`).
-/

namespace Criteria

/-- What a token says, as its kind and its text. -/
def Token.word (t : Token) : String × String := (t.lexeme.kind, t.lexeme.text)

/-! ## Nowhere in particular -/

/-- All points of a text taken for one. -/
def Relocation.origin : Relocation where
  point _ := 0
  span _ := ⟨0, 0⟩
  span_mk _ _ := rfl
  span_cover _ _ := rfl

/-- Tokens that say the same are the same but for their places. -/
theorem map_origin_of_words {ss ts : List Token} (h : ss.map Token.word = ts.map Token.word) :
    ss.map Relocation.origin.token = ts.map Relocation.origin.token := by
  have hall := List.forall₂_map_left_iff.1
    (List.forall₂_map_right_iff.1 (List.forall₂_eq_eq_eq ▸ h))
  rw [← List.forall₂_eq_eq_eq, List.forall₂_map_left_iff, List.forall₂_map_right_iff]
  refine hall.imp fun s t hword => ?_
  obtain ⟨hkind, htext⟩ := Prod.mk.inj hword
  rw [Relocation.token, Relocation.token, Lexeme.eq_of_kind_of_text hkind htext]
  rfl

/-- Only a blank text has no tokens. -/
theorem tokenize_eq_nil_iff {text : String} {tokens : List Token}
    (h : tokenize text = .ok tokens) : tokens = [] ↔ Text.allBlank text = true := by
  have hscan := tokenize_eq_ok_iff.1 h
  constructor
  · rintro rfl
    exact List.all_eq_true.2 (blank_of_scan_eq_nil hscan)
  · intro hblank
    have hnil := scan_append_blank (List.all_eq_true.1 hblank) 0 []
    rw [List.append_nil, hscan] at hnil
    exact congrArg Prod.fst hnil

/-! ## Conditions -/

/-- A condition without the places that its text gives it. -/
def Condition.erase (c : Condition) : Condition := { c with expr := c.expr.erase }

/-- What is said about a text, without the places. -/
def ConditionError.told (text : String) (error : ConditionError) : List (ErrorCode × String) :=
  (error.diagnostics text).map fun d => (d.code, d.message)

namespace Condition

variable {s t : String} {ss ts : List Token}

/-- What becomes of an expression in a catalog. -/
def ofChecked (catalog : Catalog) (e : Expr) : Except ConditionError Condition :=
  match e.check catalog with
  | [] => .ok (ofExpr catalog e)
  | findings => .error (.invalid findings)

/-- What a text that is not blank is by its tokens. -/
theorem parse_of_tokenize (h : tokenize s = .ok ss) (hne : ss ≠ []) (catalog : Catalog)
    (limit : Int) :
    parse s catalog limit =
      match Expr.ofTokens limit ss with
      | .error error => .error (.unreadable (.grammatical error))
      | .ok e => ofChecked catalog e := by
  have hblank : Text.allBlank s = false :=
    eq_false_of_ne_true (mt (tokenize_eq_nil_iff h).2 hne)
  have hread : Expr.parse s limit = (Expr.ofTokens limit ss).mapError .grammatical := by
    rw [Expr.parse, h]
    rfl
  simp only [parse, hblank, hread]
  cases Expr.ofTokens limit ss <;> rfl

/-- An expression at other places is the same condition, or wrong in the same way. -/
theorem ofChecked_of_mapSpans_eq {e e' : Expr} {f : Span → Span}
    (h : e.mapSpans f = e'.mapSpans f) (catalog : Catalog) :
    ((ofChecked catalog e).map erase).mapError (·.told s) =
      ((ofChecked catalog e').map erase).mapError (·.told t) := by
  have hcheck : (e.check catalog).map (Located.mapSpan f) =
      (e'.check catalog).map (Located.mapSpan f) := by
    rw [← Expr.check_mapSpans, ← Expr.check_mapSpans, h]
  have hform : (ofExpr catalog e).erase = (ofExpr catalog e').erase := by
    have herase : e.erase = e'.erase := by rw [← e.erase_mapSpans f, h, e'.erase_mapSpans]
    have hlogic : e.toLogic = e'.toLogic := by rw [← e.toLogic_mapSpans f, h, e'.toLogic_mapSpans]
    have htext : e.text = e'.text := by rw [← e.text_mapSpans f, h, e'.text_mapSpans]
    have hdefinitions : catalog.definitionsUnder e = catalog.definitionsUnder e' := by
      rw [← e.definitionsUnder_mapSpans f, h, e'.definitionsUnder_mapSpans]
    simp only [erase, ofExpr, herase, hlogic, htext, hdefinitions]
  have htold : ConditionError.told s (.invalid (e.check catalog)) =
      ConditionError.told t (.invalid (e'.check catalog)) := by
    have hfindings := Located.told_mapSpan f (.ofText t) (.ofText s) (e.check catalog)
    rw [hcheck, Located.told_mapSpan f (.ofText t) (.ofText t)] at hfindings
    exact hfindings.symm
  revert hcheck htold
  rw [ofChecked, ofChecked]
  cases e.check catalog <;> cases e'.check catalog <;> intro hcheck htold
  · exact congrArg Except.ok hform
  · cases hcheck
  · cases hcheck
  · exact congrArg Except.error htold

/-- **Texts with the same tokens are the same condition, or wrong in the same way**, up to
places. -/
theorem parse_layout (hs : tokenize s = .ok ss) (ht : tokenize t = .ok ts)
    (h : ss.map Token.word = ts.map Token.word) (catalog : Catalog) (limit : Int) :
    ((parse s catalog limit).map erase).mapError (·.told s) =
      ((parse t catalog limit).map erase).mapError (·.told t) := by
  by_cases hne : ss = []
  · obtain rfl : ts = [] := List.map_eq_nil_iff.1 (by rw [← h, hne, List.map_nil])
    rw [parse, parse, (tokenize_eq_nil_iff hs).1 hne, (tokenize_eq_nil_iff ht).1 rfl]
    rfl
  · have hne' : ts ≠ [] := fun hnil => hne (List.map_eq_nil_iff.1 (by rw [h, hnil, List.map_nil]))
    have hsame := Expr.ofTokens_relocate .origin limit hne
    rw [map_origin_of_words h, Expr.ofTokens_relocate .origin limit hne'] at hsame
    rw [parse_of_tokenize hs hne, parse_of_tokenize ht hne']
    revert hsame
    cases Expr.ofTokens limit ss <;> cases Expr.ofTokens limit ts <;> intro hsame
    · -- the faults are the same, and only they are told
      obtain ⟨hfault, -⟩ := ParseError.mk.inj (Except.error.inj hsame)
      exact congrArg
        (fun fault : ParseFault => Except.error [(ErrorCode.syntaxError, fault.message)]) hfault.symm
    · cases hsame
    · cases hsame
    · exact ofChecked_of_mapSpans_eq (Except.ok.inj hsame).symm catalog

/-- The quotes, an escape and the blanks are layout. -/
theorem parse_layout_quotes :
    let s := "!( status == \"it's\" )"
    let t := "!(status=='it\\'s')"
    tokenize s ≠ tokenize t ∧
      ((parse s Expr.stockCatalog 3).map erase).mapError (·.told s) =
        ((parse t Expr.stockCatalog 3).map erase).mapError (·.told t) ∧
      (parse s Expr.stockCatalog 3).toOption.map (·.canonical) = some "!(status == \"it's\")" := by
  have hs : tokenize "!( status == \"it's\" )" = .ok
      [⟨.not, 0, 1⟩, ⟨.opening, 1, 2⟩, ⟨.identifier "status", 3, 9⟩,
        ⟨.operator (.compare .eq), 10, 12⟩, ⟨.string "it's", 13, 19⟩, ⟨.closing, 20, 21⟩] := by
    decide +kernel
  have ht : tokenize "!(status=='it\\'s')" = .ok
      [⟨.not, 0, 1⟩, ⟨.opening, 1, 2⟩, ⟨.identifier "status", 2, 8⟩,
        ⟨.operator (.compare .eq), 8, 10⟩, ⟨.string "it's", 10, 17⟩, ⟨.closing, 17, 18⟩] := by
    decide +kernel
  refine ⟨?_, parse_layout hs ht rfl Expr.stockCatalog 3, by decide +kernel⟩
  rw [hs, ht]
  decide

end Condition

end Criteria
