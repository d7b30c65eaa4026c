import Criteria.Proofs.Catalog.Schema

/-!
# Exported catalogs

A catalog is exported as the data of its definitions, and read again from these. All that is read
from data or described by a facet is settled (`Catalog.Built.settled`): what the reader takes for
missing is not in it, so that a definition is read back as it was written
(`Definition.ofJson_toJson`). There is one exception, the label: it is empty for the value of a
facet that has no title and no word in its name (`label_eq_empty_of_mem_facetVariables`), and the
reader puts the path in its place. Nothing else of a catalog changes
(`Catalog.ofEntries_toEntries`).
-/

namespace Criteria

/-! ## Definitions as data -/

namespace Definition

/-- The definition has comparisons, a name and a shown path. Its label may be empty. -/
structure Settled (d : Definition) : Prop where
  comparisons : d.comparisons ≠ []
  id : d.id.isGiven = true ∨ d.id = .string d.path
  label : d.label.isGiven = true ∨ d.label = .string d.path ∨ d.label = .string ""
  shownPath : d.shownPath ≠ .null

/-- The definition with its path as its label, unless it has one. -/
def labelled (d : Definition) : Definition :=
  { d with label := if d.label.isGiven then d.label else .string d.path }

theorem labelled_eq_self_iff {d : Definition} :
    d.labelled = d ↔ d.label.isGiven = true ∨ d.label = .string d.path := by
  obtain ⟨path, type, comparisons, id, label, shownPath, group, description, sample⟩ := d
  simp only [labelled, Definition.mk.injEq, true_and, and_true]
  split
  · simp [*]
  · simp [*, eq_comm]

variable {data : Json}

theorem givenOr_cases (data : Json) (name otherwise : String) :
    (givenOr data name otherwise).isGiven = true ∨
      givenOr data name otherwise = .string otherwise := by
  unfold givenOr
  split
  · split
    · exact .inl ‹_›
    · exact .inr rfl
  · exact .inr rfl

theorem shownOr_ne_null (data : Json) (path : String) : shownOr data path ≠ .null := by
  unfold shownOr
  split
  · simp
  · simp
  · rename_i hvalue _
    rintro rfl
    simp at hvalue

theorem readComparisons_ne_nil {path : String} {type : VariableType} {names : List String}
    {comparisons : List Comparison} (h : readComparisons path type names = .ok comparisons) :
    comparisons ≠ [] := by
  unfold readComparisons at h
  split at h
  · cases h
    cases type <;> simp [VariableType.comparisons, Comparison.all]
  · rename_i hnames
    split at h
    · rename_i hunknown
      cases h
      -- there is a name, and it is known
      obtain ⟨name, rest, rfl⟩ := List.exists_cons_of_ne_nil (mt List.isEmpty_iff.2 hnames)
      have hknown := List.filter_eq_nil_iff.1 hunknown name (List.mem_cons_self ..)
      rw [Option.isNone_iff_eq_none] at hknown
      obtain ⟨c, hc⟩ := Option.ne_none_iff_exists'.1 hknown
      simp [hc]
    · cases h

/-- What is read from data is settled. -/
theorem settled_of_ofJson {d : Definition} (h : ofJson data = .ok d) : d.Settled := by
  unfold ofJson at h
  cases hpath : data.get? "path" with
  | none =>
    rw [hpath] at h
    cases h
  | some path =>
    cases htype : data.get? "type" with
    | none =>
      rw [hpath, htype] at h
      cases h
    | some type =>
      rw [hpath, htype] at h
      obtain ⟨path, -, h⟩ := bind_ok h
      obtain ⟨type, -, h⟩ := bind_ok h
      obtain ⟨comparisons, hcomparisons, h⟩ := bind_ok h
      cases h
      exact ⟨readComparisons_ne_nil hcomparisons, givenOr_cases ..,
        (givenOr_cases ..).imp_right .inl, shownOr_ne_null _ _⟩

/-- **A settled definition is read back as it was written**, but for an empty label. -/
theorem ofJson_toJson {d : Definition} (h : d.Settled) : ofJson d.toJson = .ok d.labelled := by
  have hpath : d.toJson.get? "path" = some (.string d.path) := rfl
  have htype : d.toJson.get? "type" = some (.string d.type.name) := rfl
  have hnames : operatorNames
      ((either d.toJson "allowed_operators" "allowedOperators").getD .null) =
      d.comparisons.map Comparison.symbol := by
    change (d.comparisons.map fun c => Json.string c.symbol).filterMap Json.asString? = _
    have hread : (Json.asString? ∘ fun c : Comparison => Json.string c.symbol) =
        some ∘ Comparison.symbol := rfl
    rw [List.filterMap_map, hread, List.filterMap_eq_map]
  have hid : givenOr d.toJson "id" d.path = d.id := by
    change (if d.id.isGiven then d.id else .string d.path) = d.id
    rcases h.id with hgiven | heq
    · rw [if_pos hgiven]
    · rw [heq, ite_self]
  have hlabel : givenOr d.toJson "label" d.path = d.labelled.label := rfl
  have hshown : shownOr d.toJson d.path = d.shownPath := by
    have heither : either d.toJson "dsl_path" "dslPath" = some d.shownPath := rfl
    rw [shownOr, heither]
    split
    · rename_i heq
      cases heq
    · rename_i heq
      exact absurd (Option.some.inj heq) h.shownPath
    · rename_i heq
      exact (Option.some.inj heq).symm
  rw [ofJson, hpath, htype, hnames]
  simp only [Json.asString?, Option.getD_some, VariableType.ofJson_name, Except.mapError, pure_bind,
    hid, hlabel, hshown, readComparisons_symbols, if_neg h.comparisons]
  rfl

end Definition

/-! ## Definitions of facets -/

theorem Schema.SaidBelow.settled {context : FacetContext} {d : Definition}
    (h : Schema.SaidBelow context d) : d.Settled := by
  obtain ⟨inner, type, notes, -, rfl⟩ := h
  refine ⟨?_, .inr rfl, ?_, by simp [FacetContext.definition]⟩
  · cases type <;> simp [FacetContext.definition, VariableType.comparisons, Comparison.all]
  · by_cases hlabel : " · ".intercalate (inner.title :: inner.labels) = ""
    · exact .inr (.inr (congrArg Json.string hlabel))
    · refine .inl ?_
      simpa [FacetContext.definition, Json.isGiven] using hlabel

/-- **Only the value of a facet without a title has no label**: neither is a title given, nor is
there a word in the name. -/
theorem label_eq_empty_of_mem_facetVariables {base name : String} {facet : Datum} {d : Definition}
    (h : d ∈ facetVariables base name facet) (hlabel : d.label = .string "") :
    (FacetContext.start base name facet).title = "" ∧ d.path = base ++ "." ++ name ++ ".value" := by
  obtain ⟨inner, type, notes, ⟨htitle, hbase, keys, labels, hlength, hkeys, hlabels⟩, rfl⟩ :=
    saidBelow_of_mem_facetVariables h
  have hempty : " · ".intercalate (inner.title :: inner.labels) = "" := by
    simpa [FacetContext.definition] using hlabel
  rw [htitle, hlabels, FacetContext.start, List.nil_append] at hempty
  cases labels with
  | nil =>
    obtain rfl := List.length_eq_zero_iff.1 hlength
    rw [String.intercalate_singleton] at hempty
    refine ⟨hempty, ?_⟩
    rw [FacetContext.definition, FacetContext.path, hbase, hkeys, FacetContext.start,
      List.append_nil, String.intercalate_singleton]
  | cons label labels =>
    rw [String.intercalate_cons_cons] at hempty
    simp [String.append_eq_empty_iff] at hempty

/-! ## Catalogs -/

namespace Catalog

/-- The exported catalog: its definitions as data, in order. -/
def toEntries (catalog : Catalog) : List Json := catalog.definitions.map Definition.toJson

/-- The catalog with paths for missing labels. -/
def labelled (catalog : Catalog) : Catalog where
  definitions := catalog.definitions.map Definition.labelled
  distinct := by
    rw [List.map_map]
    exact catalog.distinct

/-- The catalogs that are built from entries, from facets, or from a document. -/
inductive Built : Catalog → Prop
  | entries {entries : List Json} {catalog : Catalog} {repeats : List String}
      (h : ofEntries entries = .ok (catalog, repeats)) : Built catalog
  | facets (facets : List (Atom × Datum)) (base : String) :
      Built (ofDefinitions (facetDefinitions facets base)).1
  | document {document : Datum} {catalog : Catalog} {repeats : List String}
      (h : ofDocument document = .ok (catalog, repeats)) : Built catalog

variable {catalog : Catalog}

theorem exists_of_mem_mapM {α β ε : Type} {read : α → Except ε β} {items : List α} {values : List β}
    (h : items.mapM read = .ok values) :
    ∀ value ∈ values, ∃ item ∈ items, read item = .ok value := by
  induction items generalizing values with
  | nil =>
    cases h
    exact List.forall_mem_nil _
  | cons item rest ih =>
    rw [List.mapM_cons] at h
    obtain ⟨value, hvalue, h⟩ := bind_ok h
    obtain ⟨more, hmore, h⟩ := bind_ok h
    cases h
    refine List.forall_mem_cons.2 ⟨⟨item, List.mem_cons_self .., hvalue⟩, fun other hother => ?_⟩
    obtain ⟨source, hsource, hread⟩ := ih hmore other hother
    exact ⟨source, List.mem_cons_of_mem _ hsource, hread⟩

theorem Built.settled (h : catalog.Built) : ∀ d ∈ catalog.definitions, d.Settled := by
  have hfacets : ∀ {facets : List (Atom × Datum)} {base : String},
      ∀ d ∈ facetDefinitions facets base, d.Settled := fun d hd => by
    obtain ⟨facet, -, hd⟩ := exists_facet_of_mem_facetDefinitions hd
    exact (saidBelow_of_mem_facetVariables hd).settled
  have hread : ∀ {entries : List Json} {ds : List Definition},
      entries.mapM Definition.ofJson = .ok ds → ∀ d ∈ ds, d.Settled := fun h d hd => by
    obtain ⟨entry, -, hentry⟩ := exists_of_mem_mapM h d hd
    exact Definition.settled_of_ofJson hentry
  cases h with
  | entries h =>
    obtain ⟨ds, hds, h⟩ := bind_ok h
    cases h
    exact fun d hd => hread hds d ((firstsBy_sublist _ _).subset hd)
  | facets facets base => exact fun d hd => hfacets d ((firstsBy_sublist _ _).subset hd)
  | @document document _ repeats h =>
    unfold ofDocument at h
    split at h
    · obtain ⟨listed, hlisted, h⟩ := bind_ok h
      cases h
      intro d hd
      rcases List.mem_append.1 ((firstsBy_sublist _ _).subset hd) with hd | hd
      · exact hread (mapError_ok hlisted) d hd
      · exact hfacets d hd
    · cases h

/-- Settled definitions are all read back. -/
theorem ofEntries_toEntries_of_settled (h : ∀ d ∈ catalog.definitions, d.Settled) :
    ofEntries catalog.toEntries = .ok (catalog.labelled, []) := by
  have hread : ∀ {ds : List Definition}, (∀ d ∈ ds, d.Settled) →
      (ds.map Definition.toJson).mapM Definition.ofJson = .ok (ds.map Definition.labelled) := by
    intro ds hds
    induction ds with
    | nil => rfl
    | cons d rest ih =>
      obtain ⟨hd, hrest⟩ := List.forall_mem_cons.1 hds
      rw [List.map_cons, List.mapM_cons, Definition.ofJson_toJson hd, ih hrest]
      rfl
  rw [ofEntries, toEntries, hread h]
  exact congrArg Except.ok catalog.labelled.ofDefinitions_definitions

theorem labelled_eq_self_iff (h : ∀ d ∈ catalog.definitions, d.Settled) :
    catalog.labelled = catalog ↔ ∀ d ∈ catalog.definitions, d.label = .string "" → d.path = "" := by
  have heq : catalog.labelled = catalog ↔ ∀ d ∈ catalog.definitions, d.labelled = d := by
    obtain ⟨ds, hds⟩ := catalog
    rw [labelled, Catalog.mk.injEq]
    calc ds.map Definition.labelled = ds
        ↔ ds.map Definition.labelled = ds.map id := by rw [List.map_id]
      _ ↔ ∀ d ∈ ds, d.labelled = d := List.map_inj_left
  rw [heq]
  refine forall₂_congr fun d hd => ?_
  rw [Definition.labelled_eq_self_iff]
  constructor
  · rintro (hgiven | hpath) hlabel
    · rw [hlabel] at hgiven
      cases hgiven
    · simpa [hlabel] using hpath.symm
  · intro himp
    rcases (h d hd).label with hgiven | hpath | hempty
    · exact .inl hgiven
    · exact .inr hpath
    · exact .inr (by rw [hempty, himp hempty])

/-- Where every facet has a title, or a word in its name, no label is missing. -/
theorem labelled_ofFacets {facets : List (Atom × Datum)} {base : String}
    (h : ∀ facet ∈ facets, (FacetContext.start base facet.1.text facet.2).title ≠ "") :
    (ofDefinitions (facetDefinitions facets base)).1.labelled =
      (ofDefinitions (facetDefinitions facets base)).1 := by
  refine (labelled_eq_self_iff (Built.facets facets base).settled).2 fun d hd hlabel => ?_
  obtain ⟨facet, hfacet, hmem⟩ :=
    exists_facet_of_mem_facetDefinitions ((firstsBy_sublist _ _).subset hd)
  exact absurd (label_eq_empty_of_mem_facetVariables hmem hlabel).1 (h facet hfacet)

/-- **An exported catalog is read back with nothing changed but empty labels**, in whose place the
paths stand. The definitions are the same, in the same order and none left out, exactly when none
has an empty label and a path that is not empty. -/
theorem ofEntries_toEntries (h : catalog.Built) :
    ofEntries catalog.toEntries = .ok (catalog.labelled, []) ∧
    catalog.labelled.paths = catalog.paths ∧
    (∀ path, catalog.labelled.contains path = catalog.contains path) ∧
    (∀ path, catalog.labelled.lookup? path = (catalog.lookup? path).map Definition.labelled) ∧
    (catalog.labelled = catalog ↔
      ∀ d ∈ catalog.definitions, d.label = .string "" → d.path = "") := by
  have hlookup : ∀ path,
      catalog.labelled.lookup? path = (catalog.lookup? path).map Definition.labelled := fun path =>
    List.find?_map
  refine ⟨ofEntries_toEntries_of_settled h.settled, List.map_map, fun path => ?_, hlookup,
    labelled_eq_self_iff h.settled⟩
  rw [contains, contains, hlookup, Option.isSome_map]

/-- A facet of texts. -/
def textFacet (name : String) : List (Atom × Datum) :=
  [(.string name, .record [(.string "schema", .record [(.string "type", .string "string")])])]

/-- The catalog of one facet. -/
def ofTextFacet (name : String) : Catalog :=
  (ofDefinitions (facetDefinitions (textFacet name) "ctx")).1

theorem definitions_ofTextFacet (name : String) : ∃ d, (ofTextFacet name).definitions = [d] ∧
    d.path = "ctx" ++ "." ++ name ++ ".value" ∧ d.label = .string (Label.ofName name) := by
  refine ⟨_, congrArg (firstsBy Definition.path) (List.mergeSort_singleton _), ?_, ?_⟩
  · exact String.intercalate_singleton (s := ".")
  · exact congrArg Json.string (String.intercalate_singleton (s := " · "))

theorem ofEntries_toEntries_titled : (ofTextFacet "risk").Built ∧
    ofEntries (ofTextFacet "risk").toEntries = .ok (ofTextFacet "risk", []) := by
  have hbuilt : (ofTextFacet "risk").Built := .facets _ _
  obtain ⟨hread, -, -, -, hsame⟩ := ofEntries_toEntries hbuilt
  obtain ⟨d, hd, -, hlabel⟩ := definitions_ofTextFacet "risk"
  have hrisk : Label.ofName "risk" = "Risk" := by decide +kernel
  rw [hsame.2 (by rw [hd]; simp [hlabel, hrisk])] at hread
  exact ⟨hbuilt, hread⟩

/-- A name of an underscore is no label. -/
theorem ofEntries_toEntries_wordless : (ofTextFacet "_").Built ∧
    ofEntries (ofTextFacet "_").toEntries ≠ .ok (ofTextFacet "_", []) := by
  have hbuilt : (ofTextFacet "_").Built := .facets _ _
  refine ⟨hbuilt, fun hread => ?_⟩
  obtain ⟨d, hd, hpath, hlabel⟩ := definitions_ofTextFacet "_"
  have hwordless : Label.ofName "_" = "" := by decide +kernel
  rw [ofEntries_toEntries_of_settled hbuilt.settled, Except.ok.injEq, Prod.mk.injEq] at hread
  have hempty := (labelled_eq_self_iff hbuilt.settled).1 hread.1 d (by simp [hd])
    (by rw [hlabel, hwordless])
  rw [hpath] at hempty
  revert hempty
  decide

end Catalog

end Criteria
