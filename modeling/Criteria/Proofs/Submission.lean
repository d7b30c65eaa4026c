import Criteria.Proofs.Diagnostics
import Criteria.Proofs.Text.LineIndex
import Criteria.Proofs.Text.Trim
import Criteria.Submission

/-!
# Submitted text

Submitted text is read without the blanks around it. They are no part of any token, so the condition
is the one that the text itself is, in all forms that are kept, and what is wrong with it is the
same (`Condition.parse_strip`). But what is wrong is placed in the text without blanks: behind
blanks, clients are told places too far in front (`Submission.normalize_text`).
-/

namespace Criteria

/-! ## What is found in the text without blanks -/

/-- The errors further on. -/
def ConditionError.shift (k : Nat) : ConditionError → ConditionError
  | .blank => .blank
  | .unreadable error => .unreadable (error.shift k)
  | .invalid findings => .invalid (findings.map (Located.mapSpan (Span.shift k)))

namespace Condition

/-- The condition further on: all forms of it are the same, but for the spans in its syntax tree. -/
def shift (k : Nat) (c : Condition) : Condition := { c with expr := c.expr.shift k }

theorem ofExpr_shift (k : Nat) (catalog : Catalog) (e : Expr) :
    ofExpr catalog (e.shift k) = (ofExpr catalog e).shift k := by
  simp only [ofExpr, shift, Expr.shift, Expr.toLogic_mapSpans, Expr.text_mapSpans,
    Expr.definitionsUnder_mapSpans]

/-- **A text is the condition that it is without the blanks around it**, further on, or wrong in the
same way, further on. -/
theorem parse_strip {text : String} (h : Text.allBlank text = false) (catalog : Catalog)
    (limit : Int) :
    parse text catalog limit =
      ((parse (Text.strip text) catalog limit).map (shift (Text.front text).length)).mapError
        (ConditionError.shift (Text.front text).length) := by
  obtain ⟨behind, htext, hfront, hbehind⟩ := Text.exists_strip text
  have hstrip := Text.allBlank_strip h
  have hread := Expr.parse_blanks limit hfront hbehind hstrip
  rw [← htext, String.ofList_toList] at hread
  simp only [parse, h, hstrip, hread]
  cases Expr.parse (Text.strip text) limit with
  | error error => rfl
  | ok e =>
    have hcheck : (e.shift (Text.front text).length).check catalog =
        (e.check catalog).map (Located.mapSpan (Span.shift (Text.front text).length)) :=
      Expr.check_mapSpans ..
    simp only [Except.map, Except.mapError, Bool.false_eq_true, if_false, hcheck]
    cases e.check catalog with
    | nil => simp only [List.map_nil, ofExpr_shift]
    | cons located rest => rfl

end Condition

/-! ## Diagnostics -/

theorem LineIndex.before_append {cs : List Char} {offset : Int} (h : offset ≤ cs.length)
    (ds : List Char) : before (cs ++ ds) offset = before cs offset := by
  have hclamp : (ofChars (cs ++ ds)).clamp offset = (ofChars cs).clamp offset := by
    simp only [clamp, ofChars, List.length_append]
    omega
  have hle : (ofChars cs).clamp offset ≤ cs.length := Nat.min_le_right ..
  rw [before, before, hclamp, List.take_append_of_le_length hle]

namespace Diagnostic

variable {code : ErrorCode} {message : String} {cs ds : List Char}

/-- What is said about a part of a text is placed alike when more text follows. -/
theorem spanning_append {start stop : Int} (hstart : start ≤ cs.length) (hstop : stop ≤ cs.length)
    (ds : List Char) :
    spanning code message (.ofChars (cs ++ ds)) start stop =
      spanning code message (.ofChars cs) start stop := by
  have hmax : max start stop ≤ cs.length := Int.max_le.2 ⟨hstart, hstop⟩
  rw [spanning, spanning,
    LineIndex.position_eq_of_before_eq (LineIndex.before_append hstart ds),
    LineIndex.position_eq_of_before_eq (LineIndex.before_append hmax ds)]

/-- What is said about the end of a text is placed differently when more text follows: it is said
about the next character, too. -/
theorem spanning_append_ne {offset : Nat} (h : cs.length ≤ offset) (hds : ds ≠ []) :
    spanning code message (.ofChars (cs ++ ds)) offset (offset + 1) ≠
      spanning code message (.ofChars cs) offset (offset + 1) := by
  intro heq
  have hmax : max (offset : Int) (offset + 1) = (offset + 1 : Nat) := by omega
  simp only [spanning, Diagnostic.mk.injEq, Option.some.injEq, Extent.mk.injEq, hmax,
    LineIndex.position, Position.mk.injEq, true_and, and_true] at heq
  obtain ⟨-, hline, hcolumn⟩ := heq
  -- the end falls on the end of the shorter text, and behind it in the longer one
  have hlength := List.length_pos_iff.2 hds
  have hclamp : (LineIndex.ofChars (cs ++ ds)).clamp cs.length <
      (LineIndex.ofChars (cs ++ ds)).clamp (offset + 1 : Nat) := by
    simp only [LineIndex.clamp, LineIndex.ofChars, List.length_append]
    omega
  have hend : LineIndex.before (cs ++ ds) cs.length = LineIndex.before cs (offset + 1 : Nat) := by
    have hsame : (LineIndex.ofChars cs).clamp cs.length =
        (LineIndex.ofChars cs).clamp (offset + 1 : Nat) := by
      simp only [LineIndex.clamp, LineIndex.ofChars]
      omega
    rw [LineIndex.before_append (Int.le_refl _), LineIndex.before, LineIndex.before, hsame]
  have hlt := LineIndex.lt_of_clamp_lt hclamp
  rw [hline, hcolumn, LineIndex.line_ofChars, LineIndex.line_ofChars, LineIndex.column_ofChars,
    LineIndex.column_ofChars, hend] at hlt
  omega

end Diagnostic

namespace ConditionError

variable {text : String} {catalog : Catalog} {limit : Int} {error : ConditionError}

/-- Further on the same is said, elsewhere. -/
theorem diagnostics_shift (k : Nat) (text text' : String) (error : ConditionError) :
    ((error.shift k).diagnostics text).map (fun d => (d.code, d.message)) =
      (error.diagnostics text').map (fun d => (d.code, d.message)) := by
  cases error with
  | blank => rfl
  | unreadable error => cases error <;> rfl
  | invalid findings => exact Located.told_mapSpan ..

theorem shift_zero (error : ConditionError) : error.shift 0 = error := by
  have hspan : Span.shift 0 = id := funext fun s => by simp [Span.shift]
  have hlocated : Located.mapSpan (Span.shift 0) = id := funext fun located => by
    simp [Located.mapSpan, hspan]
  cases error with
  | blank => rfl
  | unreadable error => cases error <;> rfl
  | invalid findings => rw [shift, hlocated, List.map_id]

/-- Where a diagnostic starts. -/
theorem start_diagnostic {located : Located} {s : Span} (h : located.span = some s)
    (index : LineIndex) :
    (located.diagnostic index).extent.map (·.start.offset) = some s.start := by
  simp only [Located.diagnostic, h]
  rfl

/-- Behind blanks everything is placed further on. -/
theorem diagnostics_shift_ne {k : Nat} (hk : k ≠ 0) (hblank : Text.allBlank text = false)
    (h : Condition.parse text catalog limit = .error error) (text' : String) :
    (error.shift k).diagnostics text' ≠ error.diagnostics text := by
  intro heq
  have hstarts := congrArg (fun ds => ds.map fun d => d.extent.map (·.start.offset)) heq
  rcases Condition.cases_of_parse_error hblank h with
    ⟨e, -, rfl⟩ | ⟨e, located, rest, hparse, hcheck, rfl⟩
  · have hoffset : (e.shift k).offset = e.offset + k := by cases e <;> rfl
    have hstart : some ((e.shift k).offset : Int) = some (e.offset : Int) :=
      (List.cons.inj hstarts).1
    rw [hoffset, Option.some.injEq] at hstart
    omega
  · obtain ⟨s, hs, -⟩ := Expr.findings_inside hparse catalog located (by simp [hcheck])
    have hs' : (located.mapSpan (Span.shift k)).span = some (s.shift k) := by
      rw [Located.mapSpan, hs]
      rfl
    have hstart := (List.cons.inj hstarts).1
    dsimp only at hstart
    rw [start_diagnostic hs, start_diagnostic hs', Option.some.injEq, Span.shift] at hstart
    dsimp only at hstart
    omega

/-- What follows a text does not matter for what is found in it. -/
theorem diagnostics_append {text' : String} {ds : List Char}
    (htext : text'.toList = text.toList ++ ds)
    (hblank : Text.allBlank text = false) (h : Condition.parse text catalog limit = .error error)
    (hoffset : ∀ e, error = .unreadable e → e.offset < text.toList.length) :
    error.diagnostics text' = error.diagnostics text := by
  have hindex : LineIndex.ofText text' = .ofChars (text.toList ++ ds) := congrArg LineIndex.ofChars htext
  rcases Condition.cases_of_parse_error hblank h with
    ⟨e, -, rfl⟩ | ⟨e, located, rest, hparse, hcheck, rfl⟩
  · have hlt := hoffset e rfl
    rw [diagnostics, hindex, Diagnostic.spanning_append (by omega) (by omega)]
    rfl
  · rw [diagnostics, diagnostics, hindex]
    refine List.map_congr_left fun found hfound => ?_
    obtain ⟨s, hs, -, hlt, hstop⟩ := Expr.findings_inside hparse catalog found (hcheck ▸ hfound)
    simp only [Located.diagnostic, hs]
    rw [Diagnostic.spanning_append (hlt.le.trans hstop) hstop]
    rfl

/-- **Without the blanks around a text its errors are placed alike** when there are no blanks, or
only blanks behind it and no error at its very end, and never else. -/
theorem diagnostics_strip_iff (hblank : Text.allBlank text = false)
    (h : Condition.parse (Text.strip text) catalog limit = .error error) :
    (error.shift (Text.front text).length).diagnostics text =
        error.diagnostics (Text.strip text) ↔
      Text.strip text = text ∨ Text.front text = [] ∧
        ∀ e, error = .unreadable e → e.offset < (Text.strip text).toList.length := by
  have hstrip := Text.allBlank_strip hblank
  obtain ⟨behind, htext, -, -⟩ := Text.exists_strip text
  by_cases hfront : Text.front text = []
  · rw [hfront, List.nil_append] at htext
    rw [hfront, List.length_nil, shift_zero]
    constructor
    · intro heq
      by_cases hbehind : behind = []
      · rw [hbehind, List.append_nil] at htext
        exact .inl (String.toList_inj.1 htext.symm)
      · refine .inr ⟨rfl, ?_⟩
        rintro e rfl
        by_contra hend
        have hindex : LineIndex.ofText text = .ofChars ((Text.strip text).toList ++ behind) :=
          congrArg LineIndex.ofChars htext
        have hsame := (List.cons.inj heq).1
        rw [hindex] at hsame
        exact Diagnostic.spanning_append_ne (Nat.not_lt.1 hend) hbehind hsame
    · rintro (heq | ⟨-, hoffset⟩)
      · rw [heq]
      · exact diagnostics_append htext hstrip h hoffset
  · have hlength : (Text.front text).length ≠ 0 := mt List.length_eq_zero_iff.1 hfront
    refine iff_of_false (diagnostics_shift_ne hlength hstrip h text) ?_
    rintro (heq | ⟨hnil, -⟩)
    · have hlengths := congrArg List.length htext
      rw [heq, List.length_append, List.length_append] at hlengths
      omega
    · exact hfront hnil

end ConditionError

namespace Submission

/-- Where something is left of the text it counts, and the JSON-Logic does not. -/
theorem normalize_of_ne_empty {text : String} (h : Text.strip text ≠ "") (logic : Json)
    (catalog : Catalog) (limit : Int) (env : Environment) (files : Files) :
    normalize ⟨some text, logic⟩ (some catalog) (some limit) env files =
      match Condition.parse (Text.strip text) catalog limit with
      | .ok c => .ok (.ofCondition c)
      | .error error => .error (.invalid (error.diagnostics (Text.strip text))) := by
  have hsurroundings : surroundings (some catalog) (some limit) env files = .ok (catalog, limit) :=
    rfl
  simp only [normalize, Option.getD_some, hsurroundings, if_pos h, bind, Except.bind]
  cases Condition.parse (Text.strip text) catalog limit <;> rfl

/-- **Submitted text is kept as the condition that it is, or refused for what is wrong with it**,
whatever JSON-Logic is submitted beside it. What is said about it is what is said about the text
without the blanks around it: codes and messages are those for the text itself, and so are all
places exactly when there are no blanks around it, or only blanks behind it and no error at its very
end. -/
theorem normalize_text {data : Json} {text : String} (hdata : data.get? "dsl" = some (.string text))
    (hblank : Text.allBlank text = false) (catalog : Catalog) (limit : Int) (env : Environment)
    (files : Files) :
    ∃ submission, ofFields? data = some submission ∧
      (∀ c, Condition.parse text catalog limit = .ok c →
        submission.normalize (some catalog) (some limit) env files = .ok (.ofCondition c)) ∧
      ∀ error, Condition.parse text catalog limit = .error error →
        ∃ ds, submission.normalize (some catalog) (some limit) env files = .error (.invalid ds) ∧
          ds.map (fun d => (d.code, d.message)) =
            (error.diagnostics text).map (fun d => (d.code, d.message)) ∧
          (∃ stripped, Condition.parse (Text.strip text) catalog limit = .error stripped ∧
            ds = stripped.diagnostics (Text.strip text)) ∧
          (ds = error.diagnostics text ↔
            Text.strip text = text ∨ Text.front text = [] ∧
              ∀ e, error = .unreadable e → e.offset < (Text.strip text).toList.length) := by
  have hshifted := Condition.parse_strip hblank catalog limit
  have hnonempty : Text.strip text ≠ "" := by
    intro hempty
    have hstrip := Text.allBlank_strip hblank
    rw [hempty] at hstrip
    cases hstrip
  refine ⟨⟨some text, ((data.get? "jsonLogic").or (data.get? "json_logic")).getD .null⟩, ?_, ?_, ?_⟩
  · simp only [ofFields?, hdata]
    rfl
  · intro c hc
    rw [hc] at hshifted
    cases hparse : Condition.parse (Text.strip text) catalog limit with
    | error stripped =>
      rw [hparse] at hshifted
      cases hshifted
    | ok c' =>
      rw [hparse] at hshifted
      obtain rfl := Except.ok.inj hshifted
      rw [normalize_of_ne_empty hnonempty, hparse]
      rfl
  · intro error herror
    rw [herror] at hshifted
    cases hparse : Condition.parse (Text.strip text) catalog limit with
    | ok c =>
      rw [hparse] at hshifted
      cases hshifted
    | error stripped =>
      rw [hparse] at hshifted
      obtain rfl := Except.error.inj hshifted
      refine ⟨stripped.diagnostics (Text.strip text), ?_, ?_, ⟨stripped, rfl, rfl⟩, ?_⟩
      · rw [normalize_of_ne_empty hnonempty, hparse]
      · exact (ConditionError.diagnostics_shift _ _ _ stripped).symm
      · rw [eq_comm, ConditionError.diagnostics_strip_iff hblank hparse]
        refine or_congr Iff.rfl (and_congr_right fun hfront => ?_)
        rw [hfront, List.length_nil, ConditionError.shift_zero]

theorem normalize_text_blanks :
    ∃ submission artifact,
      ofFields? (.object [("dsl", .string "\n !(false) "), ("jsonLogic", .bool true)]) =
          some submission ∧
        submission.normalize (some .empty) (some 3) (fun _ => none) (fun _ => none) =
            .ok artifact ∧
          artifact.logic = .object [("!", .bool false)] ∧ artifact.canonical = some "!false" := by
  have hdata : (Json.object
      [("dsl", .string "\n !(false) "), ("jsonLogic", .bool true)]).get? "dsl" =
        some (.string "\n !(false) ") := rfl
  obtain ⟨submission, hfields, hok, -⟩ :=
    normalize_text hdata rfl .empty 3 (fun _ => none) (fun _ => none)
  obtain ⟨c, hc⟩ : ∃ c, Condition.parse "\n !(false) " .empty 3 = .ok c := ⟨_, rfl⟩
  refine ⟨submission, _, hfields, hok c hc, ?_⟩
  obtain rfl := Except.ok.inj hc
  exact ⟨rfl, rfl⟩

/-- Behind blanks a client is told a place too far in front. -/
theorem normalize_misplaced :
    ∃ submission error ds,
      ofFields? (.object [("dsl", .string "  foo")]) = some submission ∧
        Condition.parse "  foo" .empty 64 = .error error ∧
        submission.normalize (some .empty) (some 64) (fun _ => none) (fun _ => none) =
          .error (.invalid ds) ∧
        (error.diagnostics "  foo").map (·.extent) = [some ⟨⟨2, 1, 3⟩, ⟨5, 1, 6⟩⟩] ∧
        ds.map (·.extent) = [some ⟨⟨0, 1, 1⟩, ⟨3, 1, 4⟩⟩] :=
  ⟨_, _, _, rfl, rfl, rfl, by decide +kernel, by decide +kernel⟩

end Submission

end Criteria
