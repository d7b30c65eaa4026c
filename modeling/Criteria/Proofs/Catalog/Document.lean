import Criteria.Log
import Criteria.Proofs.Catalog.Shape
import Criteria.Proofs.Except
import Mathlib.Data.List.Forall2
import Mathlib.Data.List.Induction
import Mathlib.Data.List.Nodup
import Mathlib.Data.Set.List

/-!
# The catalogs of accepted documents

Whatever document is accepted builds a catalog (`Catalog.ofDocument_of_accepts`). The rules for the
entries of a document ask for all that definitions are read from, so an accepted entry is a
definition, the one that it describes (`Definition.exists_of_admits`).

Two rules decide between definitions of one path. Those from facets are sorted by path after the
first of each path has been taken; then, of the listed variables and those from facets together, the
first of each path is kept. What is kept and what is left out is told by the place of an item in the
list (`firstsBy_eq_firstOccurrences`, `repeatsBy_eq_laterOccurrences`).
-/

namespace Criteria

/-! ## Items whose key comes first, and later -/

section Occurrences

variable {α : Type}

/-- The items whose key no item before them has. -/
def firstOccurrences (key : α → String) (items : List α) : List α :=
  (items.zipIdx.filter fun (item, i) => key item ∉ (items.take i).map key).map Prod.fst

/-- The items whose key an item before them has. -/
def laterOccurrences (key : α → String) (items : List α) : List α :=
  (items.zipIdx.filter fun (item, i) => key item ∈ (items.take i).map key).map Prod.fst

variable {key : α → String}

/-- What comes behind has no part in which items are chosen by what comes before them. -/
theorem filter_zipIdx_concat (p : α → List α → Bool) (items : List α) (item : α) :
    (((items ++ [item]).zipIdx.filter fun (x, i) => p x ((items ++ [item]).take i)).map Prod.fst) =
      ((items.zipIdx.filter fun (x, i) => p x (items.take i)).map Prod.fst) ++
        [item].filter fun x => p x items := by
  have hfront : (items.zipIdx.filter fun (x, i) => p x ((items ++ [item]).take i)) =
      items.zipIdx.filter fun (x, i) => p x (items.take i) := by
    refine List.filter_congr fun ⟨x, i⟩ hmem => ?_
    have hi : i < items.length := List.snd_lt_of_mem_zipIdx hmem
    simp only [List.take_append_of_le_length (Nat.le_of_lt hi)]
  rw [List.zipIdx_append, List.filter_append, List.map_append, hfront]
  congr 1
  simp only [List.zipIdx_singleton, Nat.zero_add, List.filter_cons, List.filter_nil,
    List.take_left]
  split <;> rfl

theorem firstsBy_eq_firstOccurrences (items : List α) :
    firstsBy key items = firstOccurrences key items := by
  induction items using List.reverseRecOn with
  | nil => rfl
  | append_singleton items item ih =>
    have hconcat : firstOccurrences key (items ++ [item]) =
        firstOccurrences key items ++ [item].filter fun x => key x ∉ items.map key :=
      filter_zipIdx_concat (fun x before => decide (key x ∉ before.map key)) items item
    rw [firstsBy_concat, ih, hconcat]
    split <;> simp_all

/-- Keys known beforehand are those of items that come before. -/
theorem repeatsBy_concat (seen : List String) (items : List α) (item : α) :
    repeatsBy key seen (items ++ [item]) = repeatsBy key seen items ++
      if key item ∈ seen ∨ key item ∈ items.map key then [key item] else [] := by
  induction items generalizing seen with
  | nil => simp [repeatsBy]
  | cons first rest ih =>
    rw [List.cons_append, repeatsBy, repeatsBy]
    split
    · rename_i hseen
      rw [ih, List.cons_append]
      have hfirst : key first ∈ seen := List.contains_iff_mem.1 hseen
      congr 3
      rw [List.map_cons, List.mem_cons, eq_iff_iff]
      constructor
      · tauto
      · rintro (h | h | h)
        · exact .inl h
        · exact .inl (h ▸ hfirst)
        · exact .inr h
    · rw [ih]
      simp only [List.mem_cons, List.map_cons, or_assoc, or_left_comm]

theorem repeatsBy_eq_laterOccurrences (items : List α) :
    repeatsBy key [] items = (laterOccurrences key items).map key := by
  induction items using List.reverseRecOn with
  | nil => rfl
  | append_singleton items item ih =>
    have hconcat : laterOccurrences key (items ++ [item]) =
        laterOccurrences key items ++ [item].filter fun x => key x ∈ items.map key :=
      filter_zipIdx_concat (fun x before => decide (key x ∈ before.map key)) items item
    rw [repeatsBy_concat, ih, hconcat, List.map_append]
    congr 1
    split <;> simp_all

/-- Of two lists of items, those of the second are kept whose key is new. -/
theorem firstsBy_append (items more : List α) :
    firstsBy key (items ++ more) =
      firstsBy key items ++ (firstsBy key more).filter fun other => key other ∉ items.map key := by
  induction items with
  | nil => simp [firstsBy]
  | cons item rest ih =>
    rw [List.cons_append, firstsBy, ih, firstsBy, List.cons_append, List.filter_append,
      List.filter_filter]
    congr 2
    refine List.filter_congr fun other _ => ?_
    simp only [List.map_cons, List.mem_cons, not_or, Bool.decide_and]

end Occurrences

/-! ## Entries of an accepted document -/

/-- The text under a name. -/
def Datum.text? (datum : Datum) (name : String) : Option String :=
  (datum.get? name).bind Datum.asString?

/-- The text under a name, unless it is empty or there is none. -/
def Datum.textOr (datum : Datum) (name otherwise : String) : String :=
  ((datum.text? name).filter (· ≠ "")).getD otherwise

/-- The definition is what an entry says of a variable. Where it names no comparisons they are those
of the type, the entry and its label are named by the path when nothing else is given, and the path
is shown unless another one is, be it empty. -/
structure Describes (entry : Datum) (d : Definition) : Prop where
  path : entry.get? "path" = some (.string d.path)
  type : entry.get? "type" = some (.string d.type.name)
  comparisons : ∃ declared : List Comparison,
    (entry.get? "allowedOperators").getD (.list []) =
        .list (declared.map fun c => .string c.symbol) ∧
      d.comparisons = if declared = [] then d.type.comparisons else declared
  id : d.id = .string (entry.textOr "id" d.path)
  label : d.label = .string (entry.textOr "label" d.path)
  shownPath : d.shownPath = .string ((entry.text? "dslPath").getD d.path)
  group : d.group = .optionalText (entry.text? "group")
  description : d.description = .optionalText (entry.text? "description")
  sample : d.sample = ((entry.get? "example").map Datum.toJson).getD .null

theorem VariableType.ofJson_name (type : VariableType) :
    VariableType.ofJson (.string type.name) = .ok type := by
  cases type <;> rfl

theorem Comparison.ofSymbol?_symbol (c : Comparison) : Comparison.ofSymbol? c.symbol = some c := by
  cases c <;> rfl

/-- The spellings of comparisons are read as these. -/
theorem Definition.readComparisons_symbols (path : String) (type : VariableType)
    (declared : List Comparison) :
    readComparisons path type (declared.map Comparison.symbol) =
      .ok (if declared = [] then type.comparisons else declared) := by
  have hunknown : (declared.map Comparison.symbol).filter
      (fun name => (Comparison.ofSymbol? name).isNone) = [] := by
    simp [List.filter_eq_nil_iff, Comparison.ofSymbol?_symbol]
  have hread : (declared.map Comparison.symbol).filterMap Comparison.ofSymbol? = declared := by
    simp [List.filterMap_map, Comparison.ofSymbol?_symbol]
  rw [readComparisons, hunknown, hread]
  simp only [List.isEmpty_map, List.isEmpty_iff]
  split_ifs <;> rfl

/-- Names lead to the same values in a record whose keys are all names and in its JSON. -/
theorem Datum.get?_toJson {entries : List (Atom × Datum)}
    (h : ∀ entry ∈ entries, ∃ name, entry.1 = .string name) (name : String) :
    (Datum.record entries).toJson.get? name = ((Datum.record entries).get? name).map toJson := by
  change (toFields entries).lookup name = (entries.lookup (.string name)).map toJson
  induction entries with
  | nil => rfl
  | cons entry rest ih =>
    obtain ⟨key, value⟩ := entry
    obtain ⟨⟨other, rfl⟩, hrest⟩ := List.forall_mem_cons.1 h
    rw [toFields, List.lookup_cons, List.lookup_cons, ih hrest]
    by_cases hname : name = other
    · simp [hname, Atom.name]
    · have hkey : (Atom.string name == Atom.string other) = false := by simpa using hname
      have hkey' : (name == other) = false := by simpa using hname
      simp only [Atom.name, hkey, hkey']

section Entry

variable {entry : Datum} {required : List String} {fields : List (String × Shape)} {name : String}

/-- Only the names of fields are keys where no others are allowed. -/
theorem Shape.Admits.keys (h : (Shape.record required fields none).Admits entry) :
    ∃ entries, entry = .record entries ∧
      ∀ item ∈ entries, ∃ name, item.1 = .string name ∧ (fields.lookup name).isSome = true := by
  rw [Shape.Admits] at h
  obtain ⟨entries, rfl, -, -, hothers⟩ := h
  refine ⟨entries, rfl, fun item hitem => ?_⟩
  have hfield : isField fields item.1 = true := by
    by_contra hno
    exact hothers item hitem (Bool.not_eq_true _ ▸ hno)
  unfold isField at hfield
  split at hfield
  · exact ⟨_, ‹_›, hfield⟩
  · cases hfield

theorem Shape.Admits.get?_toJson (h : (Shape.record required fields none).Admits entry)
    (name : String) : entry.toJson.get? name = (entry.get? name).map Datum.toJson := by
  obtain ⟨entries, rfl, hkeys⟩ := h.keys
  refine Datum.get?_toJson (fun item hitem => ?_) name
  obtain ⟨key, hkey, -⟩ := hkeys item hitem
  exact ⟨key, hkey⟩

/-- There is nothing under the name of no field. -/
theorem Shape.Admits.get?_eq_none (h : (Shape.record required fields none).Admits entry)
    (hname : fields.lookup name = none) : entry.get? name = none := by
  obtain ⟨entries, rfl, hkeys⟩ := h.keys
  refine List.lookup_eq_none_iff.2 fun item hitem => ?_
  obtain ⟨key, hkey, hsome⟩ := hkeys item hitem
  rw [hkey, bne_iff_ne]
  rintro ⟨⟩
  rw [hname] at hsome
  cases hsome

/-- What stands under the name of a field has the shape of the field. -/
theorem Shape.Admits.of_lookup {others : Option Shape} {shape : Shape} {x : Datum}
    (h : (Shape.record required fields others).Admits entry)
    (hshape : fields.lookup name = some shape) (hx : entry.get? name = some x) :
    shape.Admits x := by
  obtain ⟨before, after, rfl, -⟩ := List.lookup_eq_some_iff.1 hshape
  exact h.field (List.mem_append_right before (List.mem_cons_self ..)) hx

/-- There is something under every required name. -/
theorem Shape.Admits.exists_of_required {others : Option Shape}
    (h : (Shape.record required fields others).Admits entry) (hname : name ∈ required) :
    ∃ x, entry.get? name = some x := by
  rw [Shape.Admits] at h
  obtain ⟨_, rfl, hrequired, -⟩ := h
  exact Option.isSome_iff_exists.1 (hrequired name hname)

/-- Under the name of a text stands a text, if anything. -/
theorem Shape.Admits.text {nonempty path : Bool}
    (h : (Shape.record required fields none).Admits entry)
    (hname : fields.lookup name = some (.text nonempty path)) :
    entry.toJson.get? name = (entry.text? name).map .string := by
  rw [h.get?_toJson, Datum.text?]
  cases hx : entry.get? name with
  | none => rfl
  | some x =>
    have htext := h.of_lookup hname hx
    rw [Shape.Admits] at htext
    obtain ⟨s, rfl, -⟩ := htext
    rfl

namespace Definition

theorem givenOr_of_text (h : entry.toJson.get? name = (entry.text? name).map .string)
    (otherwise : String) :
    givenOr entry.toJson name otherwise = .string (entry.textOr name otherwise) := by
  rw [givenOr, h, Datum.textOr]
  cases entry.text? name with
  | none => rfl
  | some s => by_cases hs : s = "" <;> simp [hs, Json.isGiven, Option.filter_some]

theorem entry_of_text (h : entry.toJson.get? name = (entry.text? name).map .string) :
    Definition.entry entry.toJson name = .optionalText (entry.text? name) := by
  rw [Definition.entry, h]
  cases entry.text? name <;> rfl

/-- The comparisons that an accepted entry names, none when it names none. -/
theorem exists_declared (h : variableShape.Admits entry) : ∃ declared : List Comparison,
    (entry.get? "allowedOperators").getD (.list []) =
        .list (declared.map fun c => .string c.symbol) ∧
      operatorNames ((entry.toJson.get? "allowedOperators").getD .null) =
        declared.map Comparison.symbol := by
  rw [h.get?_toJson]
  cases hx : entry.get? "allowedOperators" with
  | none => exact ⟨[], rfl, rfl⟩
  | some x =>
    have hlist := h.of_lookup rfl hx
    rw [Shape.Admits] at hlist
    obtain ⟨items, rfl, hitems, -⟩ := hlist
    obtain ⟨declared, rfl⟩ : items ∈ Set.range (List.map fun c : Comparison =>
        Datum.string c.symbol) := by
      rw [Set.range_list_map]
      intro item hitem
      have hname := hitems item hitem
      rw [Shape.Admits] at hname
      obtain ⟨s, hs, rfl⟩ := hname
      obtain ⟨c, -, rfl⟩ := List.mem_map.1 hs
      exact ⟨c, rfl⟩
    refine ⟨declared, rfl, ?_⟩
    change (Datum.toItems _).filterMap Json.asString? = _
    clear hitems hx
    induction declared with
    | nil => rfl
    | cons c rest ih =>
      rw [List.map_cons, List.map_cons, Datum.toItems, List.filterMap_cons, ih]
      rfl

/-- Of two spellings of a name, only that of a field is found. -/
theorem either_of_admits (h : (Shape.record required fields none).Admits entry) {other : String}
    (hother : fields.lookup other = none) :
    either entry.toJson other name = entry.toJson.get? name := by
  rw [either, h.get?_toJson other, h.get?_eq_none hother]
  rfl

theorem shownOr_of_admits (h : variableShape.Admits entry) (path : String) :
    shownOr entry.toJson path = .string ((entry.text? "dslPath").getD path) := by
  have htext : entry.toJson.get? "dslPath" = (entry.text? "dslPath").map .string :=
    h.text rfl
  rw [shownOr, either_of_admits h rfl, htext]
  cases entry.text? "dslPath" <;> rfl

/-- **An accepted entry is a definition**: the one that it describes. -/
theorem exists_of_admits (h : variableShape.Admits entry) :
    ∃ d, ofJson entry.toJson = .ok d ∧ Describes entry d := by
  obtain ⟨path, hpath⟩ : ∃ path, entry.get? "path" = some (.string path) := by
    obtain ⟨x, hx⟩ := h.exists_of_required (List.mem_cons_self ..)
    have htext := h.of_lookup rfl hx
    rw [Shape.Admits] at htext
    obtain ⟨path, rfl, -⟩ := htext
    exact ⟨path, hx⟩
  obtain ⟨type, htype⟩ : ∃ type : VariableType, entry.get? "type" = some (.string type.name) := by
    obtain ⟨x, hx⟩ := h.exists_of_required (List.mem_cons_of_mem _ (List.mem_cons_self ..))
    have hname := h.of_lookup rfl hx
    rw [Shape.Admits] at hname
    obtain ⟨_, hname, rfl⟩ := hname
    obtain ⟨type, -, rfl⟩ := List.mem_map.1 hname
    exact ⟨type, hx⟩
  obtain ⟨declared, hdeclared, hsymbols⟩ := exists_declared h
  refine ⟨{
    path
    type
    comparisons := if declared = [] then type.comparisons else declared
    id := .string (entry.textOr "id" path)
    label := .string (entry.textOr "label" path)
    shownPath := .string ((entry.text? "dslPath").getD path)
    group := .optionalText (entry.text? "group")
    description := .optionalText (entry.text? "description")
    sample := ((entry.get? "example").map Datum.toJson).getD .null }, ?_,
    ⟨hpath, htype, ⟨declared, hdeclared, rfl⟩, rfl, rfl, rfl, rfl, rfl, rfl⟩⟩
  have hpathJson : entry.toJson.get? "path" = some (.string path) := by
    rw [h.get?_toJson, hpath]
    rfl
  have htypeJson : entry.toJson.get? "type" = some (.string type.name) := by
    rw [h.get?_toJson, htype]
    rfl
  have hoperators : either entry.toJson "allowed_operators" "allowedOperators" =
      entry.toJson.get? "allowedOperators" := either_of_admits h rfl
  have hid : givenOr entry.toJson "id" path = .string (entry.textOr "id" path) :=
    givenOr_of_text (h.text rfl) path
  have hlabel : givenOr entry.toJson "label" path = .string (entry.textOr "label" path) :=
    givenOr_of_text (h.text rfl) path
  have hgroup : Definition.entry entry.toJson "group" = .optionalText (entry.text? "group") :=
    entry_of_text (h.text rfl)
  have hdescription : Definition.entry entry.toJson "description" =
      .optionalText (entry.text? "description") := entry_of_text (h.text rfl)
  have hsample : Definition.entry entry.toJson "example" =
      ((entry.get? "example").map Datum.toJson).getD .null := by
    rw [Definition.entry, h.get?_toJson]
  rw [ofJson, hpathJson, htypeJson, hoperators, hsymbols]
  simp only [Json.asString?, Option.getD_some, VariableType.ofJson_name, Except.mapError, pure_bind,
    readComparisons_symbols, hid, hlabel, shownOr_of_admits h, hgroup, hdescription, hsample]
  rfl

end Definition

end Entry

/-- Where every item is read, all are. -/
theorem exists_mapM_eq_ok {α β ε : Type} {read : α → Except ε β} {R : α → β → Prop}
    {items : List α} (h : ∀ item ∈ items, ∃ value, read item = .ok value ∧ R item value) :
    ∃ values, items.mapM read = .ok values ∧ List.Forall₂ R items values := by
  induction items with
  | nil => exact ⟨[], rfl, .nil⟩
  | cons item rest ih =>
    obtain ⟨⟨value, hread, hR⟩, hrest⟩ := List.forall_mem_cons.1 h
    obtain ⟨values, hvalues, hall⟩ := ih hrest
    refine ⟨value :: values, ?_, .cons hR hall⟩
    rw [List.mapM_cons, hread, hvalues]
    rfl

/-! ## Accepted documents -/

namespace Schema

mutual

/-- Where variables are read from a schema, the data has the parts that are looked for: lists of
further schemas, and entries under names, whose titles are texts. What does not count as given is
passed over, and so is data that is no schema. -/
def isTyped : Datum → Bool
  | .record entries => partsTyped (kindOf (.record entries)) entries
  | _ => true

/-- The same for the entries of a schema of some kind. -/
def partsTyped (kind : SchemaKind) : List (Atom × Datum) → Bool
  | [] => true
  | (key, value) :: rest =>
    (if key = .string "allOf" ∨ key = .string "anyOf" ∨ key = .string "oneOf" then
      match value with
      | .list members => allTyped members
      | _ => !value.isGiven
    else if key = .string "properties" ∧ kind = .object then
      match value with
      | .record properties => propertiesTyped properties
      | _ => !value.isGiven
    else if key = .string "items" ∧ kind = .array then isTyped value
    else true) && partsTyped kind rest

/-- The same for all of some schemas. -/
def allTyped : List Datum → Bool
  | [] => true
  | value :: rest => isTyped value && allTyped rest

/-- The same for the entries that values of a schema have. -/
def propertiesTyped : List (Atom × Datum) → Bool
  | [] => true
  | (key, value) :: rest =>
    (match key, value with
      | .string _, .record entries =>
        match (Datum.record entries).get? "title" with
        | some title => title.asString?.isSome || !title.isGiven
        | none => true
      | _, .record _ => false
      | _, _ => true) && isTyped value && propertiesTyped rest

end

end Schema

namespace Catalog

/-- The document has the shape of a catalog, its facets have names, and their schemas are typed. A
catalog is read without the latter, since reading a schema passes over what is ill-typed; but
nothing is promised of the variables of such a schema, and so it is not accepted. -/
structure Accepts (document : Datum) : Prop where
  shaped : documentIssues document = []
  typed : ∀ facet ∈ ((document.get? "facets").getD .null).entries,
    (∃ name, facet.1 = .string name) ∧
      ∀ schema ∈ facet.2.get? "schema", Schema.isTyped schema = true

/-- The variables that a document lists. -/
def documentEntries (document : Datum) : List Datum :=
  ((document.get? "variables").bind Datum.asList?).getD []

variable {document : Datum}

/-- The variables that an accepted document lists have their shape. -/
theorem admits_of_mem_documentEntries (h : documentIssues document = []) {entry : Datum}
    (hentry : entry ∈ documentEntries document) : variableShape.Admits entry := by
  rw [documentEntries] at hentry
  cases hlisted : document.get? "variables" with
  | none =>
    rw [hlisted] at hentry
    cases hentry
  | some x =>
    have hlist := (documentIssues_eq_nil_iff.1 h).of_lookup rfl hlisted
    rw [Shape.Admits] at hlist
    obtain ⟨entries, rfl, hall, -⟩ := hlist
    rw [hlisted] at hentry
    exact hall entry hentry

/-- The definitions of an accepted document's variables. -/
theorem exists_listed (h : documentIssues document = []) : ∃ listed,
    List.Forall₂ Describes (documentEntries document) listed ∧
      ofDocument document = .ok (ofDefinitions (listed ++ documentFacets document)) := by
  obtain ⟨listed, hread, hall⟩ := exists_mapM_eq_ok
    (fun entry hentry => Definition.exists_of_admits (admits_of_mem_documentEntries h hentry))
  refine ⟨listed, hall, ?_⟩
  rw [ofDocument, h]
  change Except.bind
    (Except.mapError _ (((documentEntries document).map Datum.toJson).mapM _)) _ = _
  rw [List.mapM_map, Function.comp_def, hread]
  rfl

/-- Definitions with distinct paths ascend strictly when they are sorted by path. -/
theorem ascending_mergeSort {definitions : List Definition}
    (h : (definitions.map Definition.path).Nodup) :
    ((definitions.mergeSort fun a b => a.path ≤ b.path).map Definition.path).Pairwise (· < ·) := by
  have hsorted : (definitions.mergeSort fun a b => a.path ≤ b.path).Pairwise (·.path ≤ ·.path) := by
    refine (List.pairwise_mergeSort (fun a b c hab hbc => ?_) (fun a b => ?_) definitions).imp
      of_decide_eq_true
    · exact decide_eq_true (String.le_trans (of_decide_eq_true hab) (of_decide_eq_true hbc))
    · simpa using String.le_total a.path b.path
  have hdistinct := ((List.mergeSort_perm definitions fun a b => a.path ≤ b.path).map
    Definition.path).nodup_iff.2 h
  refine List.pairwise_map.2 ((hsorted.and (List.pairwise_map.1 hdistinct)).imp ?_)
  rintro a b ⟨hle, hne⟩
  exact String.not_le.1 fun hge => hne (String.le_antisymm hle hge)

/-- The paths of the variables from facets ascend. -/
theorem documentFacets_ascending (document : Datum) :
    ((documentFacets document).map Definition.path).Pairwise (· < ·) :=
  ascending_mergeSort (nodup_map_firstsBy Definition.path _)

/-- **An accepted document builds the catalog that it describes.** Every variable that it lists is
read as what its entry says. Of those, and of the definitions from facets behind them, the catalog
has the first for every path: the listed ones in the order in which their paths first occur, then,
in ascending order, those from facets whose paths are not listed. A path leads to the first listed
definition of it, else to that from the facets. For each of the other definitions one warning is
noted, in order. -/
theorem ofDocument_of_accepts (h : Accepts document) : ∃ (listed : List Definition)
    (catalog : Catalog),
    List.Forall₂ Describes (documentEntries document) listed ∧
    ofDocument document = .ok (catalog,
      (laterOccurrences Definition.path (listed ++ documentFacets document)).map Definition.path) ∧
    catalog.paths.Nodup ∧
    (∀ path, catalog.lookup? path = (listed.find? (·.path = path)).or
      ((documentFacets document).find? (·.path = path))) ∧
    catalog.definitions = firstOccurrences Definition.path listed ++
      (documentFacets document).filter (·.path ∉ listed.map Definition.path) ∧
    ((documentFacets document).map Definition.path).Pairwise (· < ·) ∧
    ∀ file, (Log.ofCatalog file
        ((ofDocument document).mapError fun error => ⟨file, error.fault⟩)).filter
          (·.severity = .warning) =
      (laterOccurrences Definition.path (listed ++ documentFacets document)).map fun d => ⟨.warning,
        "conditionforge.dsl.catalog", s!"Duplicate catalog path '{d.path}' ignored"⟩ := by
  obtain ⟨listed, hlisted, hdocument⟩ := exists_listed h.shaped
  have hascending := documentFacets_ascending document
  have hrepeated : (ofDefinitions (listed ++ documentFacets document)).2 =
      (laterOccurrences Definition.path (listed ++ documentFacets document)).map Definition.path :=
    repeatsBy_eq_laterOccurrences _
  refine ⟨listed, (ofDefinitions (listed ++ documentFacets document)).1, hlisted, ?_,
    Catalog.distinct _, ?_, ?_, hascending, ?_⟩
  · rw [hdocument, ← hrepeated]
  · intro path
    exact (find?_firstsBy _ path _).trans List.find?_append
  · have hdistinct : ((documentFacets document).map Definition.path).Nodup := by
      refine hascending.imp ?_
      rintro path _ hlt rfl
      exact String.lt_irrefl path hlt
    change firstsBy Definition.path (listed ++ documentFacets document) = _
    rw [firstsBy_append, firstsBy_eq_firstOccurrences, firstsBy_eq_self hdistinct]
  · intro file
    rw [hdocument]
    change (List.map _ (ofDefinitions _).2 ++ [_]).filter _ = _
    rw [hrepeated]
    simp [List.filter_map, Function.comp_def]

/-- A document that lists one path twice and has a facet under another path that it lists. -/
def collisions : Datum :=
  .record [
    (.string "variables", .list [
      .record [(.string "path", .string "s"), (.string "type", .string "string"),
        (.string "label", .string "")],
      .record [(.string "path", .string "facets.risk.value"), (.string "type", .string "number"),
        (.string "allowedOperators", .list [.string "<"])],
      .record [(.string "path", .string "s"), (.string "type", .string "boolean")]]),
    (.string "facets", .record [(.string "risk",
      .record [(.string "schema", .record [(.string "type", .string "string")])])]),
    (.string "facetBasePath", .string "facets")]

theorem accepts_collisions : Accepts collisions where
  shaped := by
    have hfaults : catalogShape.faults [] collisions = [] := rfl
    rw [documentIssues, Shape.issues, hfaults, List.mergeSort_nil]
  typed := by
    rintro facet (_ | ⟨_, ⟨⟩⟩)
    exact ⟨⟨"risk", rfl⟩, by rintro schema ⟨⟩; rfl⟩

theorem ofDocument_collisions : Accepts collisions ∧ ∃ catalog,
    ofDocument collisions = .ok (catalog, ["s", "facets.risk.value"]) := by
  refine ⟨accepts_collisions, ?_⟩
  obtain ⟨listed, catalog, hlisted, hdocument, -⟩ := ofDocument_of_accepts accepts_collisions
  refine ⟨catalog, ?_⟩
  have hfacets : ∃ d, documentFacets collisions = [d] ∧ d.path = "facets.risk.value" :=
    ⟨_, List.mergeSort_singleton _, rfl⟩
  obtain ⟨d, hd, hpath⟩ := hfacets
  rcases hlisted with _ | ⟨h₁, _ | ⟨h₂, _ | ⟨h₃, _ | _⟩⟩⟩
  have hread : ∀ {s t : String}, some (Datum.string s) = some (.string t) → t = s := by
    rintro s t ⟨⟩
    rfl
  have hpath₁ := hread (s := "s") h₁.path
  have hpath₂ := hread (s := "facets.risk.value") h₂.path
  have hpath₃ := hread (s := "s") h₃.path
  rw [hdocument, ← repeatsBy_eq_laterOccurrences, hd]
  simp [repeatsBy, hpath₁, hpath₂, hpath₃, hpath]

end Catalog

end Criteria
