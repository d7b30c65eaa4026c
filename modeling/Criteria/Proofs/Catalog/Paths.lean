import Criteria.Proofs.Catalog.Shape
import Criteria.Proofs.Expr.Derivation
import Criteria.Proofs.Token.Positions

/-!
# Paths that catalogs declare

A catalog document may declare a variable under any word of the text, perhaps with a line feed
behind it, and under nothing else (`exists_declares_iff`).

Three words are not names of variables in conditions: they are read as the literals. Every other
word is read as the variable of that path (`Expr.parse_of_declares`).
-/

namespace Criteria

/-! ## Accepted paths -/

/-- The document is accepted, and lists a variable under the path. -/
def Declares (document : Datum) (path : String) : Prop :=
  documentIssues document = [] ∧ ∃ listed, document.get? "variables" = some (.list listed) ∧
    ∃ entry ∈ listed, entry.get? "path" = some (.string path)

namespace Shape

variable {path word : String} {c : Char} {rest : List Char}

/-- Names have the letters that paths have. -/
theorem isWord_cons (h : word.toList = c :: rest) :
    IsWord word ↔ isPathStart c = true ∧ rest.all isPathChar = true := by
  simp only [isWord_iff, h, List.head?_cons, Option.any_some, List.tail_cons]
  rfl

theorem getLast?_ne_of_isWord (h : IsWord word) : word.toList.getLast? ≠ some '\n' := by
  obtain ⟨first, more, hword, hfirst, hmore⟩ := h
  intro hlast
  rw [hword] at hlast
  rcases List.mem_cons.1 (List.mem_of_getLast? hlast) with rfl | hmem
  · cases hfirst
  · cases hmore _ hmem

/-- One line feed behind a path makes no difference. -/
theorem isPath_append_line : isPath (word ++ "\n") = true ↔ IsWord word := by
  rcases hword : word.toList with _ | ⟨c, rest⟩
  · simp [isPath, isWord_iff, hword, isPathStart]
  · simp [isPath, isWord_cons hword, hword]

theorem isPath_iff_isWord (h : path.toList.getLast? ≠ some '\n') :
    isPath path = true ↔ IsWord path := by
  rcases hpath : path.toList with _ | ⟨c, rest⟩
  · simp [isPath, isWord_iff, hpath]
  · have hlast : rest.getLast? ≠ some '\n' := by
      intro hlast
      rw [hpath, List.getLast?_cons, hlast] at h
      exact h rfl
    simp [isPath, isWord_cons hpath, hpath, hlast]

/-- The paths that the shape of a variable accepts are words, perhaps with a line feed behind. -/
theorem isPath_iff :
    isPath path = true ↔ IsWord path ∨ ∃ word, IsWord word ∧ path = word ++ "\n" := by
  by_cases hlast : path.toList.getLast? = some '\n'
  · obtain ⟨front, hfront⟩ := List.getLast?_eq_some_iff.1 hlast
    obtain ⟨word, rfl⟩ : ∃ word, path = word ++ "\n" :=
      ⟨String.ofList front, by rw [← String.toList_inj, hfront]; simp⟩
    rw [isPath_append_line]
    constructor
    · exact fun h => .inr ⟨word, h, rfl⟩
    · rintro (h | ⟨word', h, heq⟩)
      · exact absurd hlast (getLast?_ne_of_isWord h)
      · rwa [(String.append_left_inj "\n").1 heq]
  · rw [isPath_iff_isWord hlast]
    refine ⟨.inl, ?_⟩
    rintro (h | ⟨word, -, rfl⟩)
    · exact h
    · exact absurd (by simp) hlast

end Shape

/-- What an accepted document lists a variable under is accepted as a path. -/
theorem Declares.isPath {document : Datum} {path : String} (h : Declares document path) :
    Shape.isPath path = true := by
  obtain ⟨hissues, listed, hlisted, entry, hentry, hpath⟩ := h
  have hlist := (documentIssues_eq_nil_iff.1 hissues).field (.head _) hlisted
  rw [Shape.Admits] at hlist
  obtain ⟨items, hitems, hall, -⟩ := hlist
  cases hitems
  have htext := (hall entry hentry).field (.tail _ (.head _)) hpath
  rw [Shape.Admits] at htext
  obtain ⟨s, hs, hpath, -⟩ := htext
  cases hs
  exact hpath rfl

/-- The document that lists one variable, under the path. -/
def listing (path : String) : Datum :=
  .record [(.string "variables",
    .list [.record [(.string "path", .string path), (.string "type", .string "boolean")]])]

theorem declares_listing {path : String} (h : Shape.isPath path = true) :
    Declares (listing path) path := by
  have hpath : (Shape.text false true).Admits (.string path) := by
    rw [Shape.Admits]
    exact ⟨path, rfl, fun _ => h, nofun⟩
  have htype : (Shape.oneOf (VariableType.all.map VariableType.name)).Admits (.string "boolean") := by
    rw [Shape.Admits]
    exact ⟨"boolean", by decide, rfl⟩
  have habsent : ∀ {shape : Shape}, ∀ x ∈ (none : Option Datum), shape.Admits x := nofun
  have hentry : variableShape.Admits
      (.record [(.string "path", .string path), (.string "type", .string "boolean")]) := by
    rw [variableShape, Shape.Admits]
    refine ⟨_, rfl, List.forall_mem_cons.2 ⟨rfl, List.forall_mem_singleton.2 rfl⟩, ?_, ?_⟩
    · simp only [Shape.AdmitsFields]
      refine ⟨habsent, ?_, habsent, habsent, habsent, ?_, habsent, habsent, habsent, trivial⟩
      · rintro _ ⟨⟩
        exact hpath
      · rintro _ ⟨⟩
        exact htype
    · rintro _ (_ | ⟨_, _ | ⟨_, ⟨⟩⟩⟩) ⟨⟩
  have hcatalog : catalogShape.Admits (listing path) := by
    rw [catalogShape, Shape.Admits]
    refine ⟨_, rfl, nofun, ?_, ?_⟩
    · simp only [Shape.AdmitsFields]
      refine ⟨?_, habsent, habsent, trivial⟩
      rintro _ ⟨⟩
      rw [Shape.Admits]
      exact ⟨_, rfl, by simpa using hentry, nofun⟩
    · rintro _ (_ | ⟨_, ⟨⟩⟩) ⟨⟩
  exact ⟨documentIssues_eq_nil_iff.2 hcatalog, _, rfl, _, List.mem_singleton_self _, rfl⟩

/-- **The paths that documents may declare.** -/
theorem exists_declares_iff {path : String} :
    (∃ document, Declares document path) ↔
      IsWord path ∨ ∃ word, IsWord word ∧ path = word ++ "\n" := by
  rw [← Shape.isPath_iff]
  exact ⟨fun ⟨_, h⟩ => h.isPath, fun h => ⟨_, declares_listing h⟩⟩

/-! ## Paths in conditions -/

/-- A word is one token, from end to end. -/
theorem tokenize_word {word : String} (h : IsWord word) :
    tokenize word = .ok [⟨Lexeme.ofName word.toList, 0, word.length⟩] := by
  obtain ⟨first, more, hword, hfirst, hmore⟩ := h
  have hlexeme := lexeme?_word hfirst hmore Ends.nil
  rw [List.append_nil] at hlexeme
  have hinside := scan_inside more [] 1
  rw [List.append_nil] at hinside
  rw [tokenize_eq_ok_iff, hword,
    scan_token (isBlank_of_isNameChar (isNameChar_of_isNameStart hfirst)) hlexeme, Nat.zero_add,
    Nat.zero_add, hinside, ← String.length_toList, hword]
  rfl

namespace Expr

/-- The condition that a word is, alone: one of three literals, or a variable. -/
def ofWord (word : String) : Expr :=
  let span : Span := ⟨0, word.length⟩
  if word = "true" then .literal (.bool true) span
  else if word = "false" then .literal (.bool false) span
  else if word = "null" then .literal .null span
  else .reference word span

/-- A word is read, under every limit that admits anything. -/
theorem parse_word {word : String} {limit : Int} (h : IsWord word) (hlimit : 1 ≤ limit) :
    parse word limit = .ok (ofWord word) := by
  have hread : ∀ {lexeme : Lexeme} {e : Expr}, Lexeme.ofName word.toList = lexeme →
      Reads .operand 0 [⟨lexeme, 0, word.length⟩] e → parse word limit = .ok e := by
    rintro _ e rfl hreads
    exact (parse_eq_ok_iff (tokenize_word h)).2
      (ofTokens_eq_ok_iff.2 ⟨0, hreads.of_tighter (Nat.zero_le _), by simpa using hlimit⟩)
  unfold ofWord
  split_ifs with htrue hfalse hnull
  · exact hread (by rw [htrue]; rfl) .bool
  · exact hread (by rw [hfalse]; rfl) .bool
  · exact hread (by rw [hnull]; rfl) .null
  · exact hread (ofName_of_isName ⟨h, htrue, hfalse⟩) (.reference hnull)

/-- **What a catalog declares can be written in conditions.** A path that an accepted document
declares, and that no line feed ends, is read under every limit that admits anything: as the
variable of that path, unless it is one of the three words that are literals. -/
theorem parse_of_declares {document : Datum} {path : String} {limit : Int}
    (h : Declares document path) (hline : path.toList.getLast? ≠ some '\n') (hlimit : 1 ≤ limit) :
    parse path limit = .ok (ofWord path) :=
  parse_word ((Shape.isPath_iff_isWord hline).1 h.isPath) hlimit

theorem parse_of_declares_facets :
    Declares (listing "facets.score") "facets.score" ∧
      "facets.score".toList.getLast? ≠ some '\n' ∧
      parse "facets.score" 64 = .ok (.reference "facets.score" (some ⟨0, 12⟩)) := by
  have hdeclares : Declares (listing "facets.score") "facets.score" := declares_listing rfl
  exact ⟨hdeclares, by decide, parse_of_declares hdeclares (by decide) (by decide)⟩

/-- The words of the literals may be declared, and so may a word with a line feed behind it, but they
are not read as the variables of these paths. -/
theorem parse_not_variable_of_declares :
    (Declares (listing "true") "true" ∧
      parse "true" 64 = .ok (.literal (.bool true) (some ⟨0, 4⟩)) ∧
        ¬∃ span, parse "true" 64 = .ok (.reference "true" span)) ∧
      Declares (listing "a\n") "a\n" ∧ parse "a\n" 64 = .ok (.reference "a" (some ⟨0, 1⟩)) ∧
        ¬∃ span, parse "a\n" 64 = .ok (.reference "a\n" span) := by
  have htrue : parse "true" 64 = .ok (.literal (.bool true) (some ⟨0, 4⟩)) := rfl
  have hline : parse "a\n" 64 = .ok (.reference "a" (some ⟨0, 1⟩)) := rfl
  refine ⟨⟨declares_listing rfl, htrue, ?_⟩, declares_listing rfl, hline, ?_⟩
  · rintro ⟨span, hread⟩
    rw [htrue] at hread
    cases hread
  · rintro ⟨span, hread⟩
    rw [hline] at hread
    exact absurd hread (by simp)

end Expr

end Criteria
