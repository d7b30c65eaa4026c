import Criteria.Catalog.Schema
import Criteria.Proofs.Catalog.Label
import Criteria.Proofs.Text.Trim

/-!
# What schemas say

What a schema says about its values is told by the places in the data where it is said, in the
order in which they count: the first of them that says anything does (`Said`). The functions that
read a schema follow these rules:

* `Schema.says_iff`: a word to people is a text that is not blank, without the blanks around it;
* `Schema.isTitle_iff`: a title is given, or else the name is spelled out;
* `Schema.isDescription_iff`: the description is given by the first data that gives one;
* `Schema.isKind_iff`: the kind is that of the widest type named, else that of the parts described,
  else that of the first value enumerated;
* `Schema.isSample_iff`: the example is the first of several, else the only one, else the first
  value enumerated, else null.
-/

namespace Criteria

/-- Of some sources, in order, the first that says anything says this. -/
inductive Said {α : Type} : List (α → Prop) → α → Prop
  | here {source : α → Prop} {sources : List (α → Prop)} {a : α} (h : source a) :
      Said (source :: sources) a
  | later {source : α → Prop} {sources : List (α → Prop)} {a : α} (hsilent : ∀ b, ¬source b)
      (h : Said sources a) : Said (source :: sources) a

section

variable {α : Type} {sources : List (α → Prop)} {a : α}

/-- The first source says it, or is silent and it is said after it. -/
theorem said_cons {source : α → Prop} :
    Said (source :: sources) a ↔ source a ∨ (∀ b, ¬source b) ∧ Said sources a := by
  constructor
  · intro h
    cases h with
    | here h => exact .inl h
    | later hsilent h => exact .inr ⟨hsilent, h⟩
  · rintro (h | ⟨hsilent, h⟩)
    · exact .here h
    · exact .later hsilent h

/-- Where every source says one thing at most, the first thing that is there is said. -/
theorem said_iff {options : List (Option α)}
    (h : List.Forall₂ (fun source option => ∀ a, source a ↔ option = some a) sources options) :
    Said sources a ↔ options.findSome? id = some a := by
  induction h with
  | nil => exact ⟨nofun, nofun⟩
  | @cons source option sources options hsource _ ih =>
    rw [said_cons, hsource, ih, List.findSome?_cons]
    cases option with
    | some b => exact or_iff_left fun h => h.1 b ((hsource b).2 rfl)
    | none =>
      have hsilent : ∀ b, ¬source b := fun b hb => nomatch (hsource b).1 hb
      exact ⟨fun h => (h.resolve_left nofun).2, fun h => .inr ⟨hsilent, h⟩⟩

/-- A source that says one thing under a condition is a case of a definition. -/
theorem said_rule {p c : Prop} [Decidable c] {x y : α} (hc : p ↔ c)
    (hrest : Said sources a ↔ y = a) :
    Said ((fun b => p ∧ b = x) :: sources) a ↔ (if c then x else y) = a := by
  rw [said_cons, hrest]
  split
  · rename_i h
    have hp := hc.2 h
    rw [or_iff_left fun hsilent => hsilent.1 x ⟨hp, rfl⟩, and_iff_right hp, eq_comm]
  · rename_i h
    have hp := mt hc.1 h
    simp [hp]

end

theorem Datum.asString?_eq_some_iff {x : Datum} {s : String} :
    x.asString? = some s ↔ x = .string s := by
  unfold Datum.asString?
  split <;> simp_all

namespace Schema

/-! ## Words to people -/

/-- Under the name stands a text that is not blank: this is it, without the blanks around it. -/
def Says (data : Datum) (name s : String) : Prop :=
  ∃ raw, data.get? name = some (.string raw) ∧ Text.IsTrimmed raw.toList s.toList ∧ s ≠ ""

/-- The title of what has a name: the one that is given, or else the name spelled out. -/
def IsTitle (data : Datum) (name title : String) : Prop :=
  Said [Says data "title", Label.Spells name] title

theorem says_iff {data : Datum} {name s : String} :
    Says data name s ↔ note? (data.get? name) = some s := by
  rw [note?]
  constructor
  · rintro ⟨raw, hget, htrimmed, hne⟩
    rw [hget]
    simp [Datum.asString?, htrimmed.allBlank_eq_false hne, htrimmed.strip_eq hne]
  · intro h
    split at h
    · rename_i raw hraw
      obtain ⟨x, hget, hx⟩ := Option.bind_eq_some_iff.1 hraw
      obtain rfl := Datum.asString?_eq_some_iff.1 hx
      split at h
      · cases h
      · rename_i hblank
        obtain rfl := Option.some.inj h
        refine ⟨raw, hget, Text.isTrimmed_strip raw, fun hempty => ?_⟩
        have hleft := Text.allBlank_strip (by simpa using hblank)
        rw [hempty] at hleft
        cases hleft
    · cases h

theorem isTitle_iff {data : Datum} {name title : String} :
    IsTitle data name title ↔
      (note? (data.get? "title")).getD (Label.ofName name) = title := by
  have hsources : List.Forall₂ (fun source option => ∀ s, source s ↔ option = some s)
      [Says data "title", Label.Spells name]
      [note? (data.get? "title"), some (Label.ofName name)] :=
    .cons (fun _ => says_iff) (.cons (fun _ => Label.spells_iff.trans Option.some_inj.symm) .nil)
  rw [IsTitle, said_iff hsources]
  cases note? (data.get? "title") <;> simp

/-- What is said of values to people: a text by the first data that gives one, or else null. -/
def IsDescription (sources : List Datum) (value : Json) : Prop :=
  Said ((sources.map fun data value => ∃ s, Says data "description" s ∧ value = .string s) ++
    [fun value => value = .null]) value

theorem isDescription_iff {sources : List Datum} {value : Json} : IsDescription sources value ↔
    .optionalText (sources.findSome? fun data => note? (data.get? "description")) = value := by
  have hsources : List.Forall₂ (fun source option => ∀ value, source value ↔ option = some value)
      ((sources.map fun data value => ∃ s, Says data "description" s ∧ value = Json.string s) ++
        [fun value => value = Json.null])
      ((sources.map fun data => (note? (data.get? "description")).map Json.string) ++
        [some .null]) := by
    refine List.rel_append ?_ (.cons (fun _ => ?_) .nil)
    · rw [List.forall₂_map_left_iff, List.forall₂_map_right_iff, List.forall₂_same]
      intro data _ value
      rw [Option.map_eq_some_iff]
      exact exists_congr fun s => and_congr says_iff eq_comm
    · rw [Option.some_inj, eq_comm]
  have hfirst : (sources.map fun data => (note? (data.get? "description")).map Json.string).findSome?
      id = (sources.findSome? fun data => note? (data.get? "description")).map Json.string := by
    rw [List.findSome?_map, List.map_findSome?]
    rfl
  rw [IsDescription, said_iff hsources, List.findSome?_append, hfirst]
  cases sources.findSome? fun data => note? (data.get? "description") <;> simp [Json.optionalText]

/-! ## The kind of values -/

/-- The schema names a type, alone or among others. -/
def Names (data : Datum) (name : String) : Prop :=
  data.get? "type" = some (.string name) ∨
    ∃ items, data.get? "type" = some (.list items) ∧ .string name ∈ items

/-- Values that count as not given. -/
inductive Hollow : Datum → Prop
  | null : Hollow .null
  | false : Hollow (.bool false)
  | zero : Hollow (.atom (.scalar (.int 0)))
  | double (negative : Bool) : Hollow (.atom (.scalar (.double (.zero negative))))
  | text : Hollow (.string "")
  | list : Hollow (.list [])
  | record : Hollow (.record [])

/-- The schema gives something under the name. -/
def Gives (data : Datum) (name : String) : Prop := ∃ x, data.get? name = some x ∧ ¬Hollow x

/-- Some values are listed under the name, and this is the first. -/
def ListsFirst (data : Datum) (name : String) (x : Datum) : Prop :=
  ∃ rest, data.get? name = some (.list (x :: rest))

/-- The kind of a value that has one. -/
inductive HasKind : Datum → SchemaKind → Prop
  | bool (b : Bool) : HasKind (.bool b) .boolean
  | int (n : Int) : HasKind (.atom (.scalar (.int n))) .number
  | double (d : Double) : HasKind (.atom (.scalar (.double d))) .number
  | string (s : String) : HasKind (.string s) .string
  | list (items : List Datum) : HasKind (.list items) .array

/-- The kind of the values that a schema describes. -/
def IsKind (data : Datum) (kind : SchemaKind) : Prop :=
  Said [
    fun k => Names data "object" ∧ k = .object,
    fun k => Names data "array" ∧ k = .array,
    fun k => (Names data "number" ∨ Names data "integer") ∧ k = .number,
    fun k => Names data "boolean" ∧ k = .boolean,
    fun k => Names data "string" ∧ k = .string,
    fun k => Gives data "properties" ∧ k = .object,
    fun k => Gives data "items" ∧ k = .array,
    fun k => ∃ x, ListsFirst data "enum" x ∧ HasKind x k,
    fun k => k = .unknown] kind

theorem names_iff {data : Datum} {name : String} :
    Names data name ↔ (typeNames data).contains name = true := by
  rw [List.contains_iff_mem, Names, typeNames]
  split
  · rename_i s hget
    simp [hget, eq_comm]
  · rename_i items hget
    simp [hget, List.mem_filterMap, Datum.asString?_eq_some_iff]
  · rename_i hstring hlist
    refine ⟨?_, fun h => absurd h List.not_mem_nil⟩
    rintro (hget | ⟨items, hget, -⟩)
    · exact absurd hget (hstring _)
    · exact absurd hget (hlist _)

/-- A finite double without a significand is a zero. -/
theorem eqInt_zero_iff {d : Double} : d.eqInt 0 = true ↔ ∃ negative, d = .zero negative := by
  rw [Double.eqInt, beq_iff_eq, Int.zero_mul]
  constructor
  · intro h
    cases d with
    | nan => cases h
    | infinite => cases h
    | finite negative significand scale canonical =>
      have hsize : significand * Nat.pow 2 scale = 0 := by
        have hunits := Option.some.inj h
        split at hunits <;> omega
      have hpow : Nat.pow 2 scale ≠ 0 := Nat.ne_of_gt (Nat.pow_pos Nat.two_pos)
      obtain rfl := (Nat.mul_eq_zero.1 hsize).resolve_right hpow
      obtain rfl : scale = 0 := canonical.2.2.resolve_right (by decide)
      exact ⟨negative, rfl⟩
  · rintro ⟨negative, rfl⟩
    cases negative <;> rfl

theorem hollow_iff {x : Datum} : Hollow x ↔ x.isGiven = false := by
  constructor
  · intro h
    cases h with
    | double negative =>
      have hzero : (Double.zero negative).eqInt 0 = true := eqInt_zero_iff.2 ⟨negative, rfl⟩
      simp [Datum.isGiven, Json.isGiven, hzero]
    | _ => rfl
  · intro h
    match x with
    | .null => exact .null
    | .bool b =>
      obtain rfl : b = false := h
      exact .false
    | .atom (.scalar (.int n)) =>
      obtain rfl : n = 0 := by simpa [Datum.isGiven, Json.isGiven] using h
      exact .zero
    | .atom (.scalar (.double d)) =>
      obtain ⟨negative, rfl⟩ : ∃ negative, d = .zero negative :=
        eqInt_zero_iff.1 (by simpa [Datum.isGiven, Json.isGiven] using h)
      exact .double negative
    | .string s =>
      obtain rfl : s = "" := by simpa [Datum.isGiven, Json.isGiven] using h
      exact .text
    | .atom (.moment _) => cases h
    | .list items =>
      obtain rfl : items = [] := by simpa [Datum.isGiven] using h
      exact .list
    | .record entries =>
      obtain rfl : entries = [] := by simpa [Datum.isGiven] using h
      exact .record

theorem gives_iff {data : Datum} {name : String} :
    Gives data name ↔ ((data.get? name).map Datum.isGiven).getD false = true := by
  cases hget : data.get? name with
  | none => simp [Gives, hget]
  | some x => simp [Gives, hget, hollow_iff]

/-- The first of the values listed under a name. -/
theorem listsFirst_iff {data x : Datum} {name : String} :
    ListsFirst data name x ↔ ((data.get? name).bind Datum.asList?).bind List.head? = some x := by
  cases hget : data.get? name with
  | none => simp [ListsFirst, hget]
  | some y =>
    cases y with
    | list items => cases items <;> simp [ListsFirst, hget, Datum.asList?]
    | _ => simp [ListsFirst, hget, Datum.asList?]

theorem firstEnumerated?_eq (data : Datum) :
    firstEnumerated? data = ((data.get? "enum").bind Datum.asList?).bind List.head? := by
  rw [Option.bind_assoc]
  rfl

/-- The kind of a value, if it has one. -/
theorem hasKind_iff {x : Datum} {kind : SchemaKind} :
    HasKind x kind ↔ kindOfValue x = kind ∧ kind ≠ .unknown := by
  constructor
  · intro h
    cases h <;> exact ⟨rfl, by decide⟩
  · rintro ⟨rfl, hknown⟩
    match x with
    | .bool b => exact .bool b
    | .atom (.scalar (.int n)) => exact .int n
    | .atom (.scalar (.double d)) => exact .double d
    | .string s => exact .string s
    | .list items => exact .list items
    | .null => exact absurd rfl hknown
    | .atom (.moment _) => exact absurd rfl hknown
    | .record _ => exact absurd rfl hknown

/-- By the first value enumerated, where it has a kind. -/
theorem said_enumerated_iff {data : Datum} {kind : SchemaKind} :
    Said [fun k => ∃ x, ListsFirst data "enum" x ∧ HasKind x k, fun k => k = .unknown] kind ↔
      ((firstEnumerated? data).map kindOfValue).getD .unknown = kind := by
  have hsources : List.Forall₂ (fun source option => ∀ k, source k ↔ option = some k)
      [fun k => ∃ x, ListsFirst data "enum" x ∧ HasKind x k, fun k => k = SchemaKind.unknown]
      [((firstEnumerated? data).map kindOfValue).filter (· ≠ .unknown), some .unknown] := by
    refine .cons (fun k => ?_) (.cons (fun k => ?_) .nil)
    · rw [Option.filter_eq_some_iff, Option.map_eq_some_iff, decide_eq_true_iff]
      simp only [listsFirst_iff, ← firstEnumerated?_eq, hasKind_iff, ← exists_and_right, and_assoc]
    · rw [Option.some_inj, eq_comm]
  rw [said_iff hsources]
  cases (firstEnumerated? data).map kindOfValue with
  | none => simp
  | some k => by_cases hk : k = .unknown <;> simp [hk, Option.filter_some]

/-- **The kind is found by the rules.** -/
theorem isKind_iff {data : Datum} {kind : SchemaKind} : IsKind data kind ↔ kindOf data = kind := by
  have hnumber : Names data "number" ∨ Names data "integer" ↔
      ((typeNames data).contains "number" || (typeNames data).contains "integer") = true := by
    rw [Bool.or_eq_true, names_iff, names_iff]
  rw [kindOf]
  exact said_rule names_iff (said_rule names_iff (said_rule hnumber (said_rule names_iff
    (said_rule names_iff (said_rule gives_iff (said_rule gives_iff said_enumerated_iff))))))

/-! ## Examples -/

/-- The example that a schema gives. -/
def IsSample (data x : Datum) : Prop :=
  Said [ListsFirst data "examples", fun x => data.get? "example" = some x, ListsFirst data "enum",
    fun x => x = .null] x

/-- **The example is found by the rules.** -/
theorem isSample_iff {data x : Datum} : IsSample data x ↔ sampleOf data = x := by
  have hsources : List.Forall₂ (fun source option => ∀ x, source x ↔ option = some x)
      [ListsFirst data "examples", fun x => data.get? "example" = some x, ListsFirst data "enum",
        fun x => x = Datum.null]
      [((data.get? "examples").bind Datum.asList?).bind List.head?, data.get? "example",
        firstEnumerated? data, some .null] := by
    refine .cons (fun _ => listsFirst_iff) (.cons (fun _ => Iff.rfl)
      (.cons (fun _ => ?_) (.cons (fun _ => ?_) .nil)))
    · rw [firstEnumerated?_eq, listsFirst_iff]
    · rw [Option.some_inj, eq_comm]
  rw [IsSample, said_iff hsources, sampleOf]
  split
  · rename_i first rest hlist
    simp [hlist]
  · rename_i hnone
    have hfirst : ((data.get? "examples").bind Datum.asList?).bind List.head? = none := by
      cases hlist : (data.get? "examples").bind Datum.asList? with
      | none => rfl
      | some items =>
        cases items with
        | nil => rfl
        | cons first rest => exact absurd hlist (hnone first rest)
    rw [hfirst]
    cases data.get? "example" with
    | some value => simp
    | none => cases firstEnumerated? data <;> simp

end Schema

end Criteria
