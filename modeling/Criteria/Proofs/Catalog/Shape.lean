import Criteria.Catalog.Document

/-!
# What a shape admits

`Shape.Admits value shape` says what the rules of a shape ask of data, and no fault is found exactly
when it is so (`Shape.faults_eq_nil_iff`). The place of the data has no part in that.
-/

namespace Criteria

namespace Shape

mutual

/-- The data has the shape. -/
def Admits (value : Datum) : Shape → Prop
  | .any => True
  | .oneOf names => ∃ s ∈ names, value = .string s
  | .text nonempty path =>
    ∃ s, value = .string s ∧ (path = true → isPath s = true) ∧ (nonempty = true → s ≠ "")
  | .list item distinct =>
    ∃ items, value = .list items ∧ (∀ x ∈ items, item.Admits x) ∧
      (distinct = true → Datum.allDistinct items = true)
  | .record required fields others =>
    ∃ entries, value = .record entries ∧ (∀ name ∈ required, (value.get? name).isSome = true) ∧
      AdmitsFields value fields ∧
        ∀ entry ∈ entries, isField fields entry.1 = false →
          match others with
          | some shape => shape.Admits entry.2
          | none => False

/-- The entries that are fields have their shapes. -/
def AdmitsFields (value : Datum) : List (String × Shape) → Prop
  | [] => True
  | (name, shape) :: rest => (∀ x ∈ value.get? name, shape.Admits x) ∧ AdmitsFields value rest

end

/-- Every item of a list is there under its index. -/
theorem mem_zip_range {α : Type} {items : List α} {x : α} (h : x ∈ items) :
    ∃ i, (i, x) ∈ (List.range items.length).zip items := by
  have hsnd : ((List.range items.length).zip items).map Prod.snd = items :=
    List.map_snd_zip (by simp)
  rw [← hsnd] at h
  obtain ⟨⟨i, y⟩, hmem, rfl⟩ := List.mem_map.1 h
  exact ⟨i, hmem⟩

mutual

/-- **No fault is found exactly when the data has the shape.** -/
theorem faults_eq_nil_iff : ∀ (shape : Shape) (place : List Step) (value : Datum),
    shape.faults place value = [] ↔ shape.Admits value
  | .any, place, value => by simp [faults, Admits]
  | .oneOf names, place, value => by
    rw [Admits]
    cases value with
    | atom value =>
      unfold faults
      split <;> simp_all
    | _ => simp [faults]
  | .text nonempty path, place, value => by
    rw [Admits]
    unfold faults
    split
    · simp
    · simp_all
  | .list item distinct, place, value => by
    rw [Admits]
    cases value with
    | list items =>
      have hitems : (((List.range items.length).zip items).flatMap fun (i, x) =>
          faults (place ++ [.index i]) x item) = [] ↔ ∀ x ∈ items, item.Admits x := by
        simp only [List.flatMap_eq_nil_iff, Prod.forall, faults_eq_nil_iff item]
        constructor
        · intro h x hx
          obtain ⟨i, hmem⟩ := mem_zip_range hx
          exact h i x hmem
        · intro h i x hmem
          exact h x (List.of_mem_zip hmem).2
      rw [faults, List.append_eq_nil_iff, hitems]
      simp
    | _ => simp [faults]
  | .record required fields others, place, value => by
    rw [Admits]
    cases value with
    | record entries =>
      have habsent : (required.filter fun name => ((Datum.record entries).get? name).isNone) = [] ↔
          ∀ name ∈ required, ((Datum.record entries).get? name).isSome = true := by
        simp [List.filter_eq_nil_iff, Option.isSome_iff_ne_none]
      have hfields := faultsOfFields_eq_nil_iff fields place (.record entries)
      unfold faults
      simp only [List.append_eq_nil_iff, List.map_eq_nil_iff]
      rw [habsent, hfields]
      cases others with
      | none => simp [and_assoc]
      | some shape => simp [faults_eq_nil_iff shape, and_assoc]
    | _ => simp [faults]

/-- The same for the entries that are fields. -/
theorem faultsOfFields_eq_nil_iff : ∀ (fields : List (String × Shape)) (place : List Step)
    (value : Datum), faultsOfFields place value fields = [] ↔ AdmitsFields value fields
  | [], place, value => by simp [faultsOfFields, AdmitsFields]
  | (name, shape) :: rest, place, value => by
    rw [faultsOfFields, AdmitsFields, List.append_eq_nil_iff, faultsOfFields_eq_nil_iff rest]
    cases value.get? name with
    | none => simp
    | some x => simp [faults_eq_nil_iff shape]

end

theorem AdmitsFields.of_mem {value x : Datum} {name : String} {shape : Shape}
    {fields : List (String × Shape)} (h : AdmitsFields value fields)
    (hmem : (name, shape) ∈ fields) (hx : value.get? name = some x) : shape.Admits x := by
  induction fields with
  | nil => cases hmem
  | cons field rest ih =>
    rw [AdmitsFields] at h
    obtain ⟨hfirst, hrest⟩ := h
    rcases List.mem_cons.1 hmem with rfl | hmem
    · exact hfirst x hx
    · exact ih hrest hmem

/-- A field of a record has its shape. -/
theorem Admits.field {value x : Datum} {required : List String} {fields : List (String × Shape)}
    {others : Option Shape} {name : String} {shape : Shape}
    (h : (record required fields others).Admits value) (hmem : (name, shape) ∈ fields)
    (hx : value.get? name = some x) : shape.Admits x := by
  rw [Admits] at h
  obtain ⟨entries, -, -, hfields, -⟩ := h
  exact hfields.of_mem hmem hx

end Shape

/-- A document is accepted exactly when it has the shape of a catalog. -/
theorem documentIssues_eq_nil_iff {document : Datum} :
    documentIssues document = [] ↔ catalogShape.Admits document := by
  rw [documentIssues, Shape.issues, ← List.length_eq_zero_iff, List.length_mergeSort,
    List.length_eq_zero_iff, Shape.faults_eq_nil_iff]

end Criteria
