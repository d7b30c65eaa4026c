import Criteria.Proofs.Evaluation.Forms
import Criteria.Proofs.Evaluation.Places
import Criteria.Proofs.Evaluation.Scopes
import Criteria.Proofs.Expr.Renaming

/-!
# Quantifiers as connectives

A quantifier over an array of the payload is a connective: `some` the disjunction and `all` the
conjunction of its predicate, written once for every element with the path of the element in the
place of the alias (`Evaluation.run_instances`).

`Logic.mapPaths` writes other paths into an expression. Where the paths mean the same, so does the
expression (`Evaluation.lockstep_mapPaths`); and a path that is relative to the alias means in the
element what the path through the collection means in the payload
(`Evaluation.readVariable_element`).
-/

namespace Criteria

/-! ## Expressions with other paths -/

namespace Logic

/-- The operand of a variable with another path. -/
def mapOperand (f : String → String) : Json → Json
  | .string path => .string (f path)
  | .array (.string path :: rest) => .array (.string (f path) :: rest)
  | operand => operand

mutual

/-- The expression with other paths in its variables. -/
def mapPaths (f : String → String) : Json → Json
  | .scalar value => .scalar value
  | .array items => .array (mapItems f items)
  | .object [(key, operand)] =>
    .object [(key, if key = "var" then mapOperand f operand else mapPaths f operand)]
  | .object fields => .object fields

/-- The expressions with other paths in their variables. -/
def mapItems (f : String → String) : List Json → List Json
  | [] => []
  | item :: rest => mapPaths f item :: mapItems f rest

end

mutual

/-- There is no quantifier in the expression, and its variables have paths with a property. -/
def Plain (P : String → Prop) : Json → Prop
  | .scalar _ => True
  | .array items => PlainItems P items
  | .object [(key, operand)] =>
    (∀ q : Quantifier, key ≠ q.symbol) ∧
      if key = "var" then ∀ path, variablePath? operand = some path → P path
      else Plain P operand
  | .object _ => True

/-- There is no quantifier in the expressions, and their variables have paths with a property. -/
def PlainItems (P : String → Prop) : List Json → Prop
  | [] => True
  | item :: rest => Plain P item ∧ PlainItems P rest

end

variable {f : String → String} {P : String → Prop}

theorem plain_object {key : String} (h : key ≠ "var") {operand : Json} :
    Plain P (.object [(key, operand)]) ↔ (∀ q : Quantifier, key ≠ q.symbol) ∧ Plain P operand := by
  conv_lhs => unfold Plain
  rw [if_neg h]

theorem plain_variable {operand : Json} :
    Plain P (.object [("var", operand)]) ↔
      ∀ path, variablePath? operand = some path → P path := by
  conv_lhs => unfold Plain
  rw [if_pos rfl]
  exact and_iff_right fun q => by cases q <;> decide

theorem plainItems_iff {items : List Json} : PlainItems P items ↔ ∀ item ∈ items, Plain P item := by
  induction items with
  | nil => simp [PlainItems]
  | cons item rest ih => rw [PlainItems, ih, List.forall_mem_cons]

theorem mapItems_eq_map (items : List Json) : mapItems f items = items.map (mapPaths f) := by
  induction items with
  | nil => rfl
  | cons item rest ih => rw [mapItems, ih, List.map_cons]

theorem mapPaths_array (items : List Json) :
    mapPaths f (.array items) = .array (items.map (mapPaths f)) := by
  rw [mapPaths, mapItems_eq_map]

theorem mapPaths_object {key : String} (h : key ≠ "var") (operand : Json) :
    mapPaths f (.object [(key, operand)]) = .object [(key, mapPaths f operand)] := by
  conv_lhs => unfold mapPaths
  rw [if_neg h]

theorem mapPaths_variable (operand : Json) :
    mapPaths f (.object [("var", operand)]) = .object [("var", mapOperand f operand)] := by
  conv_lhs => unfold mapPaths
  rw [if_pos rfl]

/-- What becomes an array with other paths was one. -/
theorem exists_of_mapPaths_eq_array {value : Json} {items : List Json}
    (h : mapPaths f value = .array items) :
    ∃ items', value = .array items' ∧ items = items'.map (mapPaths f) := by
  match value with
  | .array items' =>
    rw [mapPaths_array] at h
    cases h
    exact ⟨items', rfl, rfl⟩
  | .scalar _ => unfold mapPaths at h; cases h
  | .object [] => unfold mapPaths at h; cases h
  | .object [(_, _)] => unfold mapPaths at h; cases h
  | .object (_ :: _ :: _) => unfold mapPaths at h; cases h

theorem variablePath?_mapOperand {operand : Json} {path : String}
    (h : variablePath? operand = some path) :
    variablePath? (mapOperand f operand) = some (f path) := by
  unfold variablePath? at h
  split at h
  · cases h
    rfl
  · cases h
    rfl
  · cases h

theorem mapOperand_eq_self {operand : Json} (h : variablePath? operand = none) :
    mapOperand f operand = operand := by
  unfold variablePath? at h
  split at h
  · cases h
  · cases h
  · rename_i hstring hlist
    unfold mapOperand
    split
    · exact (hstring _ rfl).elim
    · exact (hlist _ _ rfl).elim
    · rfl

end Logic

namespace Evaluation

open Logic

variable {payload : Value} {f : String → String} {P : String → Prop} {scope scope' : Scope}

theorem ne_var_of_ofKey? {key : String} {op : Operation} (h : Operation.ofKey? key = some op)
    (hop : op ≠ .variable) : key ≠ "var" := by
  rintro rfl
  exact hop (Option.some.inj h).symm

/-- A malformed expression stays so with other paths. -/
theorem Malformed.mapPaths {value : Json} {error : EvaluationError} (h : Malformed value error) :
    Malformed (mapPaths f value) error := by
  cases h with
  | unsupported hkey =>
    rw [mapPaths_object (by rintro rfl; cases hkey)]
    exact .unsupported hkey
  | badPath hkey h =>
    cases ofKey?_eq_some_iff.1 hkey
    rw [show Operation.variable.key = "var" from rfl, mapPaths_variable, mapOperand_eq_self h]
    exact .badPath hkey h
  | badVariable hkey h hlist =>
    cases ofKey?_eq_some_iff.1 hkey
    rw [show Operation.variable.key = "var" from rfl, mapPaths_variable, mapOperand_eq_self h]
    exact .badVariable hkey h hlist
  | compare hkey h =>
    rw [mapPaths_object (ne_var_of_ofKey? hkey nofun)]
    refine .compare hkey fun left right heq => ?_
    obtain ⟨items, rfl, hitems⟩ := exists_of_mapPaths_eq_array heq
    rcases items with _ | ⟨a, _ | ⟨b, _ | ⟨c, rest⟩⟩⟩ <;> cases hitems
    exact h _ _ rfl
  | quantify hkey htwo hthree =>
    rw [mapPaths_object (ne_var_of_ofKey? hkey nofun)]
    refine .quantify hkey (fun source predicate heq => ?_) fun source predicate third heq => ?_
    · obtain ⟨items, rfl, hitems⟩ := exists_of_mapPaths_eq_array heq
      rcases items with _ | ⟨a, _ | ⟨b, _ | ⟨c, rest⟩⟩⟩ <;> cases hitems
      exact htwo _ _ rfl
    · obtain ⟨items, rfl, hitems⟩ := exists_of_mapPaths_eq_array heq
      rcases items with _ | ⟨a, _ | ⟨b, _ | ⟨c, _ | ⟨d, rest⟩⟩⟩⟩ <;> cases hitems
      exact hthree _ _ _ rfl
  | @fields fields h =>
    rcases fields with _ | ⟨⟨key, operand⟩, _ | _⟩
    · exact .fields h
    · exact (h key operand rfl).elim
    · exact .fields h

/-! ## Paths that mean the same -/

/-- The next array is placed in the same tree. -/
def SameRoot (s t : Trace) : Prop := s.nextRoot = t.nextRoot

theorem lockstep_newArray (values : List Value) :
    Lockstep SameRoot Eq Eq (newArray values) (newArray values) := by
  intro s t h
  have hvalue : Value.array ⟨s.nextRoot, []⟩ values = .array ⟨t.nextRoot, []⟩ values := by rw [h]
  exact ⟨.ok hvalue, congrArg (· + 1) h⟩

/-- **An expression means the same with other paths** that mean the same. -/
theorem lockstep_mapPaths
    (hread : ∀ path, P path → Lockstep SameRoot Eq Eq (readVariable payload scope path)
      (readVariable payload scope' (f path))) {value : Json} (h : Plain P value) :
    Lockstep SameRoot Eq Eq (eval payload value scope)
      (eval payload (mapPaths f value) scope') := by
  have hitems : ∀ {items : List Json}, (∀ item ∈ items, Plain P item → Lockstep SameRoot Eq Eq
      (eval payload item scope) (eval payload (mapPaths f item) scope')) → PlainItems P items →
      List.Forall₂ (fun item item' => Lockstep SameRoot Eq Eq (eval payload item scope)
        (eval payload item' scope')) items (items.map (mapPaths f)) := fun ih h => by
    rw [List.forall₂_map_right_iff, List.forall₂_same]
    exact fun item hitem => ih item hitem (plainItems_iff.1 h item hitem)
  induction value using induction_on_forms with
  | scalar => exact .pure rfl
  | array items ih =>
    rw [mapPaths_array]
    refine .bind (.evalItems (hitems ih h)) fun values values' hvalues _ => ?_
    rw [List.forall₂_eq_eq_eq] at hvalues
    rw [hvalues]
    exact lockstep_newArray values'
  | connective c items ih =>
    have hkey : c.key ≠ "var" := by cases c <;> decide
    rw [mapPaths_object hkey, mapPaths_array, eval_connective, eval_connective]
    refine .bind (.evalFirst (fun _ _ => congrArg _) (hitems ih ((plain_object hkey).1 h).2)) ?_
    rintro b _ rfl -
    exact .pure rfl
  | single c operand hoperand ih =>
    have hkey : c.key ≠ "var" := by cases c <;> decide
    have hoperand' : ∀ items, mapPaths f operand ≠ .array items := fun items heq =>
      let ⟨items', heq', _⟩ := exists_of_mapPaths_eq_array heq
      hoperand items' heq'
    rw [mapPaths_object hkey, eval_single c hoperand, eval_single c hoperand']
    refine .bind (ih ((plain_object hkey).1 h).2) ?_
    rintro value _ rfl -
    exact .pure rfl
  | not operand ih =>
    have hkey : "!" ≠ "var" := by decide
    rw [mapPaths_object hkey]
    refine .bind (ih ((plain_object hkey).1 h).2) ?_
    rintro value _ rfl -
    exact .pure rfl
  | var operand path hpath =>
    rw [mapPaths_variable, eval_variable hpath, eval_variable (variablePath?_mapOperand hpath)]
    exact hread path (plain_variable.1 h path hpath)
  | compare c left right hl hr =>
    have hkey : c.symbol ≠ "var" := by cases c <;> decide
    obtain ⟨-, hleft, hright, -⟩ := (plain_object hkey).1 h
    rw [mapPaths_object hkey, mapPaths_array, List.map_cons, List.map_singleton, eval_compare,
      eval_compare]
    refine .bind (hl hleft) ?_
    rintro l _ rfl -
    refine .bind (hr hright) ?_
    rintro r _ rfl -
    refine .bind (.lift (.refl (compareValues c l r))) ?_
    rintro b _ rfl -
    exact .pure rfl
  | quantify q =>
    have hkey : q.symbol ≠ "var" := by cases q <;> decide
    exact (((plain_object hkey).1 h).1 q rfl).elim
  | malformed value error hmalformed =>
    rw [hmalformed.eval_eq, hmalformed.mapPaths.eval_eq]
    exact fun _ _ hR => ⟨.error rfl, hR⟩

end Evaluation

/-! ## Elements and their paths -/

/-- The path is a name, or continues it by something after a point. -/
def Path.Extends (name path : String) : Prop :=
  path = name ∨ ∃ rest, rest ≠ "" ∧ path = name ++ "." ++ rest

/-- The keys of a value. -/
def Value.keys : Value → List String
  | .object _ fields => fields.map Prod.fst
  | _ => []

/-- A word is not the index of an element. -/
theorem Path.isIndex_of_isWord {name : String} (h : IsWord name) : isIndex name = false := by
  obtain ⟨first, rest, hname, hfirst, -⟩ := h
  have hdigit : first.isDigit = false := by
    rw [← Bool.not_eq_true]
    intro hdigit
    rw [isNameStart_of_isDigit hdigit] at hfirst
    cases hfirst
  have hzero : first ≠ '0' := by
    rintro rfl
    cases hdigit
  unfold isIndex
  rw [hname]
  split
  · rfl
  · rename_i heq
    exact (hzero (List.head_eq_of_cons_eq heq)).elim
  · rename_i heq
    obtain ⟨rfl, rfl⟩ := List.cons.inj heq
    rw [hdigit, Bool.and_false, Bool.false_and]

namespace Value

variable {value : Value} {name path : String}

theorem follow_append {found : Value} {first : List String}
    (h : value.follow first = .ok (some found)) (second : List String) :
    value.follow (first ++ second) = found.follow second := by
  induction first generalizing value with
  | nil =>
    cases h
    rfl
  | cons segment first ih =>
    rw [follow] at h
    obtain ⟨part, hpart, h⟩ := bind_ok h
    rw [List.cons_append, follow, hpart]
    cases part with
    | none => cases h
    | some next => exact ih h

/-- A value has no part under an alias that is none of its keys. -/
theorem part?_eq_none (hword : IsWord name) (hkey : name ∉ value.keys) :
    value.part? name = .ok none := by
  cases value with
  | missing | scalar => rfl
  | object mark fields =>
    refine congrArg Except.ok (List.lookup_eq_none_iff.2 fun field hfield => ?_)
    rw [bne_iff_ne]
    rintro rfl
    exact hkey (List.mem_map_of_mem hfield)
  | array =>
    rw [part?, Path.isIndex_of_isWord hword, if_neg Bool.false_ne_true]

/-- What is relative to an alias without points is not found in a value that lacks it as a key. -/
theorem read_eq_none (hword : IsWord name) (hdot : '.' ∉ name.toList) (hkey : name ∉ value.keys)
    (h : Path.Extends name path) : value.read path = .ok none := by
  have hsegments : ∃ more, path ≠ "" ∧ Path.segments path = name :: more := by
    have hne := ne_empty_of_isWord hword
    rcases h with rfl | ⟨rest, -, rfl⟩
    · exact ⟨[], hne, Path.segments_eq_singleton hdot⟩
    · refine ⟨Path.segments rest, fun h => ?_, ?_⟩
      · have hlength := congrArg String.length h
        simp at hlength
      · rw [Path.segments_append, Path.segments_eq_singleton hdot]
        rfl
  obtain ⟨more, hne, hsegments⟩ := hsegments
  rw [read, if_neg hne, hsegments, follow, part?_eq_none hword hkey]
  rfl

/-- An element of an array is read at the path of the array and the index. -/
theorem read_index {payload item : Value} {collection : String} {mark : Mark} {items : List Value}
    {i : Nat} (hne : collection ≠ "")
    (hread : payload.read collection = .ok (some (.array mark items))) (hitem : items[i]? = some item)
    (hi : i < 10 ^ maxIntDigits) :
    payload.read (collection ++ "." ++ toString i) = .ok (some item) ∧
      ∀ rest ≠ "", payload.read (collection ++ "." ++ toString i ++ "." ++ rest) = item.read rest := by
  rw [read, if_neg hne] at hread
  have hpart : (Value.array mark items).part? (toString i) = .ok (some item) := by
    have hlength := Path.length_toString_le hi
    rw [part?, if_pos (Path.isIndex_toString i), if_neg (by omega), Path.indexValue_toString, hitem]
  have hindex : Path.segments (toString i) = [toString i] := by
    refine Path.segments_eq_singleton fun hmem => ?_
    have hdigit := Nat.isDigit_of_mem_toDigits (by decide) (by decide) (Nat.toList_repr ▸ hmem)
    cases hdigit
  have hfollow : payload.follow (Path.segments (collection ++ "." ++ toString i)) =
      .ok (some item) := by
    rw [Path.segments_append, follow_append hread, hindex, follow, hpart]
    rfl
  constructor
  · rw [read, if_neg (by simp), hfollow]
  · intro rest hrest
    rw [read, if_neg (by simp), Path.segments_append, follow_append hfollow, read, if_neg hrest]

end Value

namespace Evaluation

open Logic

variable {payload item : Value} {collection name path : String} {mark : Mark} {items : List Value}
  {i : Nat}

/-- **A path through the alias means in the element what the path through the collection means in the
payload.** -/
theorem readVariable_element (hne : collection ≠ "")
    (hread : payload.read collection = .ok (some (.array mark items)))
    (hitem : items[i]? = some item) (hi : i < 10 ^ maxIntDigits) (hword : IsWord name)
    (hdot : '.' ∉ name.toList) (hpayload : name ∉ payload.keys) (hkey : name ∉ item.keys)
    (hpath : Path.Extends name path) :
    Lockstep SameRoot Eq Eq (readVariable payload [⟨item, some name⟩] path)
      (readVariable payload []
        (Path.rename name (collection ++ "." ++ toString i) path)) := by
  intro s t hR
  obtain ⟨hindex, hafter⟩ := Value.read_index hne hread hitem hi
  have hname := ne_empty_of_isWord hword
  rcases hpath with rfl | ⟨rest, hrest, rfl⟩
  · have hserved : Scope.resolve path [⟨item, some path⟩] = .ok (some item) := by
      rw [Scope.resolve_cons, Frame.resolve_name hname]
      rfl
    rw [Path.rename_self, run_readVariable_served hserved, run_readVariable_read rfl hindex]
    exact ⟨.ok rfl, hR.trans (nextRoot_note _ _ t).symm⟩
  -- where the element lacks the rest, neither it nor the payload has the whole path
  have hextends : Path.Extends name (name ++ "." ++ rest) := .inr ⟨rest, hrest, rfl⟩
  have hframe : Scope.resolve (name ++ "." ++ rest) [⟨item, some name⟩] = item.read rest := by
    rw [Scope.resolve_cons, Frame.resolve_after hname (Path.append_ne_self name rest)
      (Path.after?_append name rest), Value.read_eq_none hword hdot hkey hextends]
    rcases item.read rest with error | _ | found <;> rfl
  rw [Path.rename_append]
  rcases hfound : item.read rest with error | _ | found
  · rw [run_readVariable_failed (hframe.trans hfound),
      run_readVariable_unread rfl ((hafter rest hrest).trans hfound)]
    exact ⟨.error rfl, hR⟩
  · rw [run_readVariable_read (hframe.trans hfound)
        (Value.read_eq_none hword hdot hpayload hextends),
      run_readVariable_read rfl ((hafter rest hrest).trans hfound)]
    exact ⟨.ok rfl, (nextRoot_note _ _ s).trans (hR.trans (nextRoot_note _ _ t).symm)⟩
  · rw [run_readVariable_served (hframe.trans hfound),
      run_readVariable_read rfl ((hafter rest hrest).trans hfound)]
    exact ⟨.ok rfl, hR.trans (nextRoot_note _ _ t).symm⟩

/-! ## Unrolling -/

/-- A quantifier tries the elements as a connective tries operands that are as true. -/
theorem lockstep_decideFirst {decider : Bool} {holds : Value → Evaluation Bool} {scope : Scope}
    {operands : List Json} (h : List.Forall₂ (fun item operand => Lockstep SameRoot Eq Eq
      (holds item) (do return (← eval payload operand scope).truthy)) items operands) :
    Lockstep SameRoot Eq Eq (decideFirst decider holds items)
      (evalFirst payload decider operands scope) := by
  induction h with
  | nil => exact .pure rfl
  | @cons item operand items operands hitem _ ih =>
    have hfirst : evalFirst payload decider (operand :: operands) scope = (do
        if (← (do return (← eval payload operand scope).truthy : Evaluation Bool)) = decider then
          return decider
        else evalFirst payload decider operands scope) := by
      rw [evalFirst, bind_assoc]
      simp only [pure_bind]
    rw [hfirst]
    refine .bind hitem ?_
    rintro b _ rfl -
    split
    · exact .pure rfl
    · exact ih

end Evaluation

/-- The connective of the instances of a quantified predicate. -/
def Quantifier.connective : Quantifier → Connective
  | .any => .or
  | .all => .and

/-- The instances of a predicate for the elements of a collection of the payload: each has the path of
its element in the place of the alias. -/
def Logic.instances (collection name : String) (predicate : Json) (count : Nat) : List Json :=
  (List.range count).map fun i =>
    mapPaths (Path.rename name (collection ++ "." ++ toString i)) predicate

namespace Evaluation

open Logic

variable {payload : Value} {collection name : String} {mark : Mark} {items : List Value}
  {predicate : Json}

/-- The outcome of a truth value is that of the truth. -/
theorem run_bool (x : Evaluation Bool) (trace : Trace) :
    ((do return Value.bool (← x) : Evaluation Value).run trace).1 = (x.run trace).1.map .bool := by
  rw [run_bind]
  rcases x.run trace with ⟨_ | b, next⟩ <;> rfl

/-- **A quantifier is the connective of the instances of its predicate.** Over an array of the payload
it has the same truth as they, or fails with the same error, whatever was evaluated before. -/
theorem run_instances (hne : collection ≠ "")
    (hread : payload.read collection = .ok (some (.array mark items)))
    (hlength : items.length ≤ 10 ^ maxIntDigits) (hword : IsWord name) (hdot : '.' ∉ name.toList)
    (hpayload : name ∉ payload.keys) (hitems : ∀ item ∈ items, name ∉ item.keys)
    (hplain : Plain (Path.Extends name) predicate) (q : Quantifier) (trace : Trace) :
    ∃ outcome : Except EvaluationError Bool,
      ((eval payload (.object [(q.symbol, .array
        [.object [("var", .string collection)], predicate, .string name])]) []).run trace).1 =
          outcome.map .bool ∧
      ((eval payload (.object [(q.connective.key, .array
        (instances collection name predicate items.length))]) []).run trace).1 =
          outcome.map .bool := by
  have hholds : Lockstep SameRoot Eq Eq
      (decideFirst q.decider (fun item => do
        return (← eval payload predicate [⟨item, some name⟩]).truthy) items)
      (evalFirst payload q.decider (instances collection name predicate items.length) []) := by
    refine lockstep_decideFirst (List.forall₂_iff_get.2 ⟨by simp [instances], fun i hi hi' => ?_⟩)
    have hinstance : (instances collection name predicate items.length).get ⟨i, hi'⟩ =
        mapPaths (Path.rename name (collection ++ "." ++ toString i)) predicate := by
      simp [instances]
    rw [hinstance, List.get_eq_getElem]
    refine .bind (lockstep_mapPaths (fun path hpath => ?_) hplain) ?_
    · exact readVariable_element hne hread (List.getElem?_eq_getElem hi) (hi.trans_le hlength) hword
        hdot hpayload (hitems _ (List.getElem_mem hi)) hpath
    · rintro value _ rfl -
      exact .pure rfl
  have hdecider : q.decider = q.connective.decider := by cases q <;> rfl
  have hmore : [Json.string name].length ≤ 1 := Nat.le_refl 1
  refine ⟨((evalFirst payload q.decider (instances collection name predicate items.length) []).run
    trace).1, ?_, ?_⟩
  · rw [eval_quantify q _ _ hmore, aliasName_of_isWord hword, eval_variable rfl, run_bind,
      run_readVariable_read rfl hread, ← (hholds _ trace (nextRoot_note _ _ trace)).1.eq]
    exact run_bool _ _
  · rw [eval_connective, ← hdecider]
    exact run_bool _ _

/-- An order with two lines. -/
def linesPayload : Value :=
  .ofJson ⟨0, []⟩ (.object [("order", .object [("lines", .array
    [.object [("price", .int 3)], .object [("price", .int 12), ("gift", .bool true)]])])])

/-- The line at a path is cheap or a gift. -/
def cheapOrGift (line : String) : Json :=
  .object [("or", .array
    [.object [("<", .array [.object [("var", .string (line ++ ".price"))], .int 5])],
      .object [("var", .array [.string (line ++ ".gift"), .bool false])]])]

theorem run_instances_lines :
    ∃ outcome : Except EvaluationError Bool,
      ((eval linesPayload (.object [("all", .array
        [.object [("var", .string "order.lines")], cheapOrGift "x", .string "x"])]) []).run .start).1 =
          outcome.map .bool ∧
      ((eval linesPayload (.object [("and", .array
        [cheapOrGift "order.lines.0", cheapOrGift "order.lines.1"])]) []).run .start).1 =
          outcome.map .bool := by
  have hplain : Plain (Path.Extends "x") (cheapOrGift "x") := by
    refine (plain_object (by decide)).2 ⟨fun q => by cases q <;> decide, ?_, ?_, trivial⟩
    · refine (plain_object (by decide)).2
        ⟨fun q => by cases q <;> decide, plain_variable.2 ?_, trivial, trivial⟩
      rintro path ⟨⟩
      exact .inr ⟨"price", by decide, rfl⟩
    · refine plain_variable.2 ?_
      rintro path ⟨⟩
      exact .inr ⟨"gift", by decide, rfl⟩
  have hlength : 2 ≤ 10 ^ maxIntDigits :=
    Nat.le_trans (by decide : 2 ≤ 10 ^ 1) (Nat.pow_le_pow_right (by decide) (by decide))
  obtain ⟨mark, items, hread, hcount, hitems⟩ : ∃ mark items,
      linesPayload.read "order.lines" = .ok (some (.array mark items)) ∧ items.length = 2 ∧
        ∀ item ∈ items, "x" ∉ item.keys := ⟨_, _, rfl, rfl, by decide⟩
  have hsame := run_instances (by decide) hread (hcount ▸ hlength) (by decide) (by decide)
    (by decide) hitems hplain .all .start
  rw [hcount] at hsame
  exact hsame

end Evaluation

end Criteria
