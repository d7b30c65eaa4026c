import Criteria.Proofs.Catalog.Document

/-!
# Schemas as data

A schema is read from a record entry by entry. What counts is what stands under the names that the
reader looks for, as long as no key is repeated (`Schema.partsOf_eq`), and so the variables that a
schema describes are told by an equation over the data: those of the schemas that it is composed of,
its own, and those of its parts (`Schema.described_record`). All of them stand at the place of the
schema or below it (`Schema.saidBelow_of_mem_described`).
-/

namespace Criteria

/-! ## Records without repeated keys -/

namespace Datum

mutual

/-- No record in the data, however deep, has two entries under one key. -/
def keysDistinct : Datum → Bool
  | .atom _ => true
  | .list items => keysDistinctItems items
  | .record entries => decide (entries.map Prod.fst).Nodup && keysDistinctEntries entries

/-- The same for all of some values. -/
def keysDistinctItems : List Datum → Bool
  | [] => true
  | value :: rest => keysDistinct value && keysDistinctItems rest

/-- The same for the values of some entries. -/
def keysDistinctEntries : List (Atom × Datum) → Bool
  | [] => true
  | (_, value) :: rest => keysDistinct value && keysDistinctEntries rest

end

variable {entries : List (Atom × Datum)}

theorem keysDistinct_list {items : List Datum} :
    (Datum.list items).keysDistinct = true ↔ ∀ x ∈ items, x.keysDistinct = true := by
  rw [keysDistinct]
  induction items with
  | nil => simp [keysDistinctItems]
  | cons x rest ih => simp [keysDistinctItems, ih]

theorem keysDistinct_record : (Datum.record entries).keysDistinct = true ↔
    (entries.map Prod.fst).Nodup ∧ ∀ entry ∈ entries, entry.2.keysDistinct = true := by
  have hentries : keysDistinctEntries entries = true ↔
      ∀ entry ∈ entries, entry.2.keysDistinct = true := by
    induction entries with
    | nil => simp [keysDistinctEntries]
    | cons entry rest ih => simp [keysDistinctEntries, ih]
  rw [keysDistinct, Bool.and_eq_true, decide_eq_true_iff, hentries]

theorem mem_entries_of_get? {data x : Datum} {name : String} (h : data.get? name = some x) :
    ∃ entries, data = .record entries ∧ (Atom.string name, x) ∈ entries := by
  cases data with
  | record entries =>
    obtain ⟨before, after, rfl, -⟩ := List.lookup_eq_some_iff.1 h
    exact ⟨_, rfl, by simp⟩
  | _ => cases h

theorem keysDistinct_of_get? {data x : Datum} {name : String} (hdata : data.keysDistinct = true)
    (h : data.get? name = some x) : x.keysDistinct = true := by
  obtain ⟨entries, rfl, hmem⟩ := mem_entries_of_get? h
  exact (keysDistinct_record.1 hdata).2 _ hmem

/-- The items of a list; other data has none. -/
def items : Datum → List Datum
  | .list items => items
  | _ => []

end Datum

/-! ## The parts of a schema -/

namespace Schema

/-- The values that are listed under a name. -/
def listed (data : Datum) (name : String) : List Datum := ((data.get? name).getD .null).items

/-- The entries that the values of a schema are described to have. -/
def propertyEntries (data : Datum) : List (Atom × Datum) :=
  ((data.get? "properties").getD .null).entries

theorem schemasOf_eq (values : List Datum) : schemasOf values = values.filterMap ofDatum? := by
  induction values with
  | nil => rfl
  | cons value rest ih =>
    rw [schemasOf, ih, List.filterMap_cons]
    cases ofDatum? value <;> rfl

theorem propertiesOf_eq (entries : List (Atom × Datum)) :
    propertiesOf entries = entries.filterMap fun entry =>
      (ofDatum? entry.2).map (entry.1.text, ·) := by
  induction entries with
  | nil => rfl
  | cons entry rest ih =>
    obtain ⟨key, value⟩ := entry
    rw [propertiesOf, ih, List.filterMap_cons]
    cases ofDatum? value <;> rfl

/-- What stands under a name is the first entry's value, if that is the name, or stands in the other
entries. -/
theorem get?_cons (key : Atom) (value : Datum) (rest : List (Atom × Datum)) (name : String) :
    (Datum.record ((key, value) :: rest)).get? name =
      if key = .string name then some value else (Datum.record rest).get? name := by
  change List.lookup _ ((key, value) :: rest) = _
  rw [List.lookup_cons]
  by_cases hkey : key = .string name
  · simp [hkey]
  · have hne : (Atom.string name == key) = false := beq_eq_false_iff_ne.2 (Ne.symm hkey)
    rw [hne, if_neg hkey]
    rfl

/-- The parts of a schema are what stands under their names. -/
theorem partsOf_eq {entries : List (Atom × Datum)} (h : (entries.map Prod.fst).Nodup) :
    partsOf entries = {
      all := (listed (.record entries) "allOf").filterMap ofDatum?
      any := (listed (.record entries) "anyOf").filterMap ofDatum?
      one := (listed (.record entries) "oneOf").filterMap ofDatum?
      properties := (propertyEntries (.record entries)).filterMap fun entry =>
        (ofDatum? entry.2).map (entry.1.text, ·)
      items := ((Datum.record entries).get? "items").bind ofDatum? } := by
  induction entries with
  | nil => rfl
  | cons entry rest ih =>
    obtain ⟨key, value⟩ := entry
    rw [List.map_cons, List.nodup_cons] at h
    have habsent : ∀ name, key = .string name → (Datum.record rest).get? name = none := by
      rintro name rfl
      refine List.lookup_eq_none_iff.2 fun entry hentry => ?_
      rw [bne_iff_ne]
      intro heq
      exact h.1 (List.mem_map.2 ⟨entry, hentry, heq.symm⟩)
    have hrest := ih h.2
    unfold partsOf
    rw [hrest]
    simp only [listed, propertyEntries, get?_cons]
    by_cases hall : key = .string "allOf"
    · subst hall
      cases value <;> simp [schemasOf_eq, Datum.items, habsent "allOf" rfl]
    by_cases hany : key = .string "anyOf"
    · subst hany
      cases value <;> simp [schemasOf_eq, Datum.items, habsent "anyOf" rfl]
    by_cases hone : key = .string "oneOf"
    · subst hone
      cases value <;> simp [schemasOf_eq, Datum.items, habsent "oneOf" rfl]
    by_cases hproperties : key = .string "properties"
    · subst hproperties
      cases value <;> simp [propertiesOf_eq, Datum.entries, habsent "properties" rfl]
    by_cases hitems : key = .string "items"
    · subst hitems
      simp
    · simp [hall, hany, hone, hproperties, hitems]

/-- The names under which a schema lists the schemas that it is composed of, in order. -/
def compositeNames : List String := ["allOf", "anyOf", "oneOf"]

end Schema

/-- The type of the variables for values of a kind, if there is one. -/
def SchemaKind.type? : SchemaKind → Option VariableType
  | .array => some .array
  | .string => some .string
  | .number => some .number
  | .boolean => some .boolean
  | .object => none
  | .unknown => none

namespace Schema

/-- The schema of the items, when the values are arrays. -/
def itemSchema? (data : Datum) : Option Datum :=
  if kindOf data = .array then data.get? "items" else none

/-- The entries with their schemas, when the values are objects. -/
def objectEntries (data : Datum) : List (Atom × Datum) :=
  if kindOf data = .object then propertyEntries data else []

/-- The variables that data describes as a schema. -/
def described (context : FacetContext) (data : Datum) : List Definition :=
  ((ofDatum? data).map (definitions context)).getD []

theorem definitionsOfAll_eq (context : FacetContext) (values : List Datum) :
    definitionsOfAll context (values.filterMap ofDatum?) = values.flatMap (described context) := by
  induction values with
  | nil => rfl
  | cons value rest ih =>
    rw [List.filterMap_cons, List.flatMap_cons, described, ← ih]
    cases ofDatum? value <;> rfl

theorem notes_of_ofDatum? {data : Datum} {schema : Schema} (h : ofDatum? data = some schema) :
    schema.notes = notesOf data := by
  cases data with
  | record entries =>
    cases h
    rfl
  | _ => cases h

theorem definitionsOfProperties_eq (context : FacetContext) (entries : List (Atom × Datum)) :
    definitionsOfProperties context
        (entries.filterMap fun entry => (ofDatum? entry.2).map (entry.1.text, ·)) =
      entries.flatMap fun entry =>
        described (context.enter entry.1.text (notesOf entry.2)) entry.2 := by
  induction entries with
  | nil => rfl
  | cons entry rest ih =>
    rw [List.filterMap_cons, List.flatMap_cons, ← ih, described]
    cases hschema : ofDatum? entry.2 with
    | none => rfl
    | some schema =>
      rw [← notes_of_ofDatum? hschema]
      rfl

/-- **The variables that a schema describes**: those of the schemas that it is composed of, the one
for its own values, and those of the parts that these have. -/
theorem described_record (context : FacetContext) {entries : List (Atom × Datum)}
    (h : (entries.map Prod.fst).Nodup) :
    described context (.record entries) =
      (compositeNames.flatMap fun name =>
          (listed (.record entries) name).flatMap (described context)) ++
        ((kindOf (.record entries)).type?.map fun type =>
          context.definition type (notesOf (.record entries))).toList ++
        ((objectEntries (.record entries)).flatMap fun entry =>
          described (context.enter entry.1.text (notesOf entry.2)) entry.2) ++
        (itemSchema? (.record entries)).toList.flatMap (described context) := by
  have hdefinitions : described context (.record entries) =
      definitions context (.node
        ((partsOf entries).all ++ (partsOf entries).any ++ (partsOf entries).one)
        (kindOf (.record entries)) (partsOf entries).properties (partsOf entries).items
        (notesOf (.record entries))) := rfl
  rw [hdefinitions, partsOf_eq h, definitions.eq_def]
  simp only [← List.filterMap_append, definitionsOfAll_eq, compositeNames, List.flatMap_cons,
    List.flatMap_nil, List.flatMap_append, List.append_nil, List.append_assoc]
  congr 3
  cases hkind : kindOf (.record entries) with
  | object =>
    simp [objectEntries, itemSchema?, hkind, SchemaKind.type?, definitionsOfProperties_eq]
  | array =>
    simp only [objectEntries, itemSchema?, hkind, SchemaKind.type?]
    cases (Datum.record entries).get? "items" with
    | none => rfl
    | some x =>
      simp [described]
      cases ofDatum? x <;> rfl
  | _ => simp [objectEntries, itemSchema?, hkind, SchemaKind.type?]

end Schema

/-! ## Places -/

namespace FacetContext

/-- The place is the other one or below it: some keys with their labels are added. -/
structure Below (inner context : FacetContext) : Prop where
  title : inner.title = context.title
  base : inner.base = context.base
  added : ∃ keys labels, keys.length = labels.length ∧ inner.keys = context.keys ++ keys ∧
    inner.labels = context.labels ++ labels

theorem Below.refl (context : FacetContext) : context.Below context :=
  ⟨rfl, rfl, [], [], rfl, by simp, by simp⟩

theorem Below.of_enter {inner context : FacetContext} {key : String} {notes : SchemaNotes}
    (h : inner.Below (context.enter key notes)) : inner.Below context := by
  obtain ⟨htitle, hbase, keys, labels, hlength, hkeys, hlabels⟩ := h
  refine ⟨htitle, hbase, key :: keys, notes.title.getD (Label.ofName key) :: labels, ?_, ?_, ?_⟩
  · simp [hlength]
  · simp [hkeys, enter]
  · simp [hlabels, enter]

end FacetContext

namespace Schema

/-- The definition says of a place, or of one below it, what a schema says there. -/
def SaidBelow (context : FacetContext) (d : Definition) : Prop :=
  ∃ (inner : FacetContext) (type : VariableType) (notes : SchemaNotes),
    inner.Below context ∧ d = inner.definition type notes

theorem SaidBelow.here (context : FacetContext) (type : VariableType) (notes : SchemaNotes) :
    SaidBelow context (context.definition type notes) := ⟨_, _, _, .refl context, rfl⟩

mutual

/-- All that a schema describes is said at its place or below. -/
theorem saidBelow : ∀ (schema : Schema) (context : FacetContext),
    ∀ d ∈ definitions context schema, SaidBelow context d
  | .node composites kind properties items notes, context => by
    rw [definitions.eq_def]
    simp only [List.forall_mem_append]
    refine ⟨saidBelow_all composites context, ?_⟩
    cases kind with
    | object => exact saidBelow_properties properties context
    | array => exact List.forall_mem_cons.2 ⟨.here .., saidBelow_items items context⟩
    | unknown => exact List.forall_mem_nil _
    | string => exact List.forall_mem_singleton.2 (.here ..)
    | number => exact List.forall_mem_singleton.2 (.here ..)
    | boolean => exact List.forall_mem_singleton.2 (.here ..)

theorem saidBelow_all : ∀ (schemas : List Schema) (context : FacetContext),
    ∀ d ∈ definitionsOfAll context schemas, SaidBelow context d
  | [], _ => List.forall_mem_nil _
  | schema :: rest, context => List.forall_mem_append.2
      ⟨saidBelow schema context, saidBelow_all rest context⟩

theorem saidBelow_items : ∀ (items : Option Schema) (context : FacetContext),
    ∀ d ∈ definitionsOfItems context items, SaidBelow context d
  | none, _ => List.forall_mem_nil _
  | some schema, context => saidBelow schema context

theorem saidBelow_properties : ∀ (properties : List (String × Schema)) (context : FacetContext),
    ∀ d ∈ definitionsOfProperties context properties, SaidBelow context d
  | [], _ => List.forall_mem_nil _
  | (key, schema) :: rest, context => List.forall_mem_append.2
      ⟨fun d hd => by
        obtain ⟨inner, type, notes, hbelow, heq⟩ := saidBelow schema _ d hd
        exact ⟨inner, type, notes, hbelow.of_enter, heq⟩,
      saidBelow_properties rest context⟩

end

theorem saidBelow_of_mem_described {context : FacetContext} {data : Datum} {d : Definition}
    (h : d ∈ described context data) : SaidBelow context d := by
  rw [described] at h
  cases hschema : ofDatum? data with
  | none =>
    rw [hschema] at h
    cases h
  | some schema =>
    rw [hschema] at h
    exact schema.saidBelow context d h

end Schema

/-! ## Facets -/

/-- What is known where a facet's schema begins. -/
def FacetContext.start (base name : String) (facet : Datum) : FacetContext where
  title := (Schema.note? (facet.get? "title")).getD (Label.ofName name)
  base := base ++ "." ++ name ++ ".value"
  description := Schema.note? (facet.get? "description")
  keys := []
  labels := []

theorem facetVariables_eq (base name : String) (facet : Datum) :
    facetVariables base name facet = (facet.get? "schema").toList.flatMap
      (Schema.described (.start base name facet)) := by
  rw [facetVariables]
  cases facet.get? "schema" with
  | none => rfl
  | some schema =>
    rw [Option.bind_some, Option.toList_some, List.flatMap_singleton, Schema.described]
    cases Schema.ofDatum? schema <;> rfl

/-- What a facet describes is said at the place of its value, or below it. -/
theorem saidBelow_of_mem_facetVariables {base name : String} {facet : Datum} {d : Definition}
    (h : d ∈ facetVariables base name facet) : Schema.SaidBelow (.start base name facet) d := by
  rw [facetVariables_eq] at h
  obtain ⟨data, -, hd⟩ := List.mem_flatMap.1 h
  exact Schema.saidBelow_of_mem_described hd

theorem exists_facet_of_mem_facetDefinitions {facets : List (Atom × Datum)} {base : String}
    {d : Definition} (h : d ∈ facetDefinitions facets base) :
    ∃ facet ∈ facets, d ∈ facetVariables base facet.1.text facet.2 :=
  List.mem_flatMap.1 ((firstsBy_sublist _ _).subset ((List.mergeSort_perm _ _).mem_iff.1 h))

end Criteria
