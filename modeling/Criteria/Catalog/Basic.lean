import Criteria.Catalog.Definition
import Criteria.Firsts

/-!
# Catalogs

A catalog lists the variables that conditions may refer to, no path twice. `Catalog.ofDefinitions`
keeps the first definition of every path and reports the paths of the others.
-/

namespace Criteria

/-- The variables that conditions may refer to. -/
structure Catalog where
  definitions : List Definition
  /-- No path is defined twice. -/
  distinct : (definitions.map Definition.path).Nodup

namespace Catalog

/-- The catalog without variables. -/
def empty : Catalog := ⟨[], by simp⟩

instance : Inhabited Catalog := ⟨empty⟩

/-- The definition of a path. -/
def lookup? (catalog : Catalog) (path : String) : Option Definition :=
  catalog.definitions.find? (·.path = path)

/-- The path is defined. -/
def contains (catalog : Catalog) (path : String) : Bool := (catalog.lookup? path).isSome

/-- The defined paths, in order. -/
def paths (catalog : Catalog) : List String := catalog.definitions.map (·.path)

/-- The catalog of the first definition of every path, and the paths of the definitions left out. -/
def ofDefinitions (definitions : List Definition) : Catalog × List String :=
  (⟨firstsBy Definition.path definitions, nodup_map_firstsBy _ _⟩,
    repeatsBy Definition.path [] definitions)

/-- A catalog is built from its own definitions again, and none of them is left out. -/
theorem ofDefinitions_definitions (catalog : Catalog) :
    ofDefinitions catalog.definitions = (catalog, []) := by
  have hfirsts := firstsBy_eq_self catalog.distinct
  have hrepeats := repeatsBy_eq_nil catalog.distinct fun _ _ => List.not_mem_nil
  rw [ofDefinitions, hrepeats]
  simp only [hfirsts]

/-- The catalog that a list of data describes, and the paths of the definitions left out. -/
def ofEntries (entries : List Json) : Except DefinitionError (Catalog × List String) := do
  return ofDefinitions (← entries.mapM Definition.ofJson)

end Catalog

end Criteria
