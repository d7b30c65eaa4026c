import Criteria.Proofs.Catalog.Meaning
import Criteria.Proofs.Catalog.Schema

/-!
# The variables of facets

Which variables do facets have? A variable stands at the end of every way down from a facet's schema
to a schema of an array or of plain values. A way takes turns (`Schema.Takes`): to a schema that a
schema is composed of, to that of an entry, to that of the items. Where several ways have one path,
the first in the order of the traversal counts, which compares ways turn by turn
(`Schema.Turn.Before`).

`Schema.exists_listing` lists the ways down from one schema in this order, by induction on the size
of the data, and `FacetVisit.exists_listing` those down from all facets. With them the definitions
are told without the traversal (`facetDefinitions_complete`): what a definition says of its variable
follows the rules for what schemas say (`FacetVisit.Describes`).
-/

namespace Criteria

/-! ## Ways through a schema -/

namespace FacetContext

/-- Some keys further down, each to the schema that stands under it. -/
def along (context : FacetContext) (entries : List (Atom × Datum)) : FacetContext :=
  entries.foldl (fun context entry => context.enter entry.1.text (Schema.notesOf entry.2)) context

/-- The label of a key: the title of the schema under it, or else the key spelled out. -/
def keyLabel (entry : Atom × Datum) : String :=
  (Schema.note? (entry.2.get? "title")).getD (Label.ofName entry.1.text)

/-- Further down the keys and their labels are added, and the innermost description holds. -/
theorem along_eq (context : FacetContext) (entries : List (Atom × Datum)) :
    context.along entries = { context with
      description := (entries.reverse.findSome? fun entry =>
        Schema.note? (entry.2.get? "description")).or context.description
      keys := context.keys ++ entries.map fun entry => entry.1.text
      labels := context.labels ++ entries.map keyLabel } := by
  induction entries generalizing context with
  | nil => simp [along]
  | cons entry rest ih =>
    change (context.enter entry.1.text (Schema.notesOf entry.2)).along rest = _
    rw [ih]
    simp [enter, Schema.notesOf, keyLabel, List.findSome?_append, Option.or_assoc]

end FacetContext

namespace Schema

/-- A turn on the way down through a schema. -/
inductive Turn
  /-- To a schema that it is composed of: in which list, and where in the list. -/
  | member (list place : Nat)
  /-- None: the way ends. -/
  | stop
  /-- To the schema of an entry. -/
  | property (place : Nat)
  /-- To the schema of the items. -/
  | item

/-- What a schema is composed of comes first, then the schema itself, then its parts. -/
def Turn.phase : Turn → Nat
  | .member .. => 0
  | .stop => 1
  | .property _ => 2
  | .item => 2

/-- One turn is taken before another: lists and mappings are gone through in order. -/
inductive Turn.Before : Turn → Turn → Prop
  | phase {a b : Turn} (h : a.phase < b.phase) : Before a b
  | list {l m i j : Nat} (h : l < m) : Before (.member l i) (.member m j)
  | member {l i j : Nat} (h : i < j) : Before (.member l i) (.member l j)
  | property {i j : Nat} (h : i < j) : Before (.property i) (.property j)

theorem Turn.Before.asymm {a b : Turn} (h : a.Before b) : ¬b.Before a := by
  intro h'
  cases h with
  | phase h =>
    cases h' with
    | phase h' => exact Nat.lt_asymm h h'
    | list | member | property => exact Nat.lt_irrefl _ h
  | list h =>
    cases h' with
    | phase h' => exact Nat.lt_irrefl _ h'
    | list h' => exact Nat.lt_asymm h h'
    | member => exact Nat.lt_irrefl _ h
  | member h =>
    cases h' with
    | phase h' => exact Nat.lt_irrefl _ h'
    | list h' => exact Nat.lt_irrefl _ h'
    | member h' => exact Nat.lt_asymm h h'
  | property h =>
    cases h' with
    | phase h' => exact Nat.lt_irrefl _ h'
    | property h' => exact Nat.lt_asymm h h'

/-- A turn leads from a schema to another one, past the entry that it enters, if any. -/
inductive Takes (data : Datum) : Turn → List (Atom × Datum) → Datum → Prop
  | member {l i : Nat} {name : String} {x : Datum} (hname : compositeNames[l]? = some name)
      (hx : (listed data name)[i]? = some x) : Takes data (.member l i) [] x
  | property {i : Nat} {key : Atom} {x : Datum} (hkind : IsKind data .object)
      (hx : (propertyEntries data)[i]? = some (key, x)) :
      Takes data (.property i) [(key, x)] x
  | item {x : Datum} (hkind : IsKind data .array) (hx : data.get? "items" = some x) :
      Takes data .item [] x

/-- Turns lead from data down to a schema, past some entries. Only a record is a schema. -/
inductive Leads : Datum → List Turn → List (Atom × Datum) → Datum → Prop
  | stop {entries : List (Atom × Datum)} :
      Leads (.record entries) [.stop] [] (.record entries)
  | turn {data x target : Datum} {turn : Turn} {route : List Turn}
      {passed entries : List (Atom × Datum)} (h : Takes data turn passed x)
      (hrest : Leads x route entries target) :
      Leads data (turn :: route) (passed ++ entries) target

/-- The values of the schema are variables of the type. -/
def IsType (data : Datum) (type : VariableType) : Prop :=
  ∃ kind, IsKind data kind ∧ kind.type? = some type

theorem isType_iff {data : Datum} {type : VariableType} :
    IsType data type ↔ (kindOf data).type? = some type := by
  simp only [IsType, isKind_iff, exists_eq_left']

/-- A way down to a schema whose values are variables of a type. -/
structure Descent where
  route : List Turn
  /-- The entries on the way. -/
  entries : List (Atom × Datum)
  target : Datum
  type : VariableType

namespace Descent

/-- The way goes down from the data. -/
def From (data : Datum) (d : Descent) : Prop :=
  Leads data d.route d.entries d.target ∧ IsType d.target d.type

/-- One way comes before another in the traversal. -/
def Before (a b : Descent) : Prop := List.Lex Turn.Before a.route b.route

/-- The variable at the end of a way. -/
def definition (context : FacetContext) (d : Descent) : Definition :=
  (context.along d.entries).definition d.type (notesOf d.target)

/-- The way after a turn. -/
def after (turn : Turn) (passed : List (Atom × Datum)) (d : Descent) : Descent :=
  ⟨turn :: d.route, passed ++ d.entries, d.target, d.type⟩

theorem definition_after (context : FacetContext) (turn : Turn) (passed : List (Atom × Datum))
    (d : Descent) : (d.after turn passed).definition context =
      d.definition (context.along passed) := by
  rw [definition, definition, FacetContext.along, FacetContext.along, after, List.foldl_append]
  rfl

end Descent

/-! ## The traversal -/

/-- A turn that can be taken. -/
structure Branch where
  turn : Turn
  passed : List (Atom × Datum)
  target : Datum

/-- The turns to the schemas that a schema is composed of. -/
def compositeBranches (data : Datum) : List Branch :=
  compositeNames.zipIdx.flatMap fun (name, l) =>
    (listed data name).zipIdx.map fun (x, i) => ⟨.member l i, [], x⟩

/-- The turns to the parts of the values. -/
def partBranches (data : Datum) : List Branch :=
  ((objectEntries data).zipIdx.map fun (entry, i) => ⟨.property i, [entry], entry.2⟩) ++
    (itemSchema? data).toList.map fun x => ⟨.item, [], x⟩

/-- The branches are the turns that can be taken. -/
theorem mem_branches {data : Datum} {b : Branch} :
    b ∈ compositeBranches data ∨ b ∈ partBranches data ↔ Takes data b.turn b.passed b.target := by
  constructor
  · rintro (h | h)
    · obtain ⟨⟨name, l⟩, hname, h⟩ := List.mem_flatMap.1 h
      obtain ⟨⟨x, i⟩, hx, rfl⟩ := List.mem_map.1 h
      exact .member (List.mem_zipIdx_iff_getElem?.1 hname) (List.mem_zipIdx_iff_getElem?.1 hx)
    · rcases List.mem_append.1 h with h | h
      · obtain ⟨⟨entry, i⟩, hentry, rfl⟩ := List.mem_map.1 h
        have hget := List.mem_zipIdx_iff_getElem?.1 hentry
        rw [objectEntries] at hget
        split at hget
        · exact .property (isKind_iff.2 ‹_›) hget
        · simp at hget
      · obtain ⟨x, hx, rfl⟩ := List.mem_map.1 h
        rw [Option.mem_toList, itemSchema?] at hx
        split at hx
        · exact .item (isKind_iff.2 ‹_›) hx
        · cases hx
  · obtain ⟨turn, passed, x⟩ := b
    intro h
    change Takes data turn passed x at h
    cases h with
    | @member l i name x hname hx =>
      exact .inl (List.mem_flatMap.2 ⟨(name, l), List.mem_zipIdx_iff_getElem?.2 hname,
        List.mem_map.2 ⟨(x, i), List.mem_zipIdx_iff_getElem?.2 hx, rfl⟩⟩)
    | @property i key x hkind hx =>
      refine .inr (List.mem_append_left _
        (List.mem_map.2 ⟨((key, x), i), List.mem_zipIdx_iff_getElem?.2 ?_, rfl⟩))
      rwa [objectEntries, if_pos (isKind_iff.1 hkind)]
    | item hkind hx =>
      refine .inr (List.mem_append_right _ (List.mem_map.2 ⟨x, ?_, rfl⟩))
      rwa [Option.mem_toList, itemSchema?, if_pos (isKind_iff.1 hkind)]

/-- Items are numbered in order. -/
theorem pairwise_zipIdx {α : Type} (items : List α) :
    items.zipIdx.Pairwise fun a b => a.2 < b.2 := by
  have hmap : (items.zipIdx.map Prod.snd).Pairwise (· < ·) := by
    rw [List.zipIdx_map_snd]
    exact List.pairwise_lt_range'
  exact List.pairwise_map.1 hmap

theorem compositeBranches_ordered (data : Datum) :
    (compositeBranches data).Pairwise fun a b => a.turn.Before b.turn := by
  refine List.pairwise_flatMap.2 ⟨fun (name, l) _ => ?_, (pairwise_zipIdx _).imp ?_⟩
  · exact List.pairwise_map.2 ((pairwise_zipIdx _).imp .member)
  · rintro ⟨name, l⟩ ⟨name', m⟩ hlt a ha b hb
    obtain ⟨_, -, rfl⟩ := List.mem_map.1 ha
    obtain ⟨_, -, rfl⟩ := List.mem_map.1 hb
    exact .list hlt

theorem partBranches_ordered (data : Datum) :
    (partBranches data).Pairwise fun a b => a.turn.Before b.turn := by
  refine List.pairwise_append.2 ⟨?_, ?_, ?_⟩
  · exact List.pairwise_map.2 ((pairwise_zipIdx _).imp .property)
  · cases itemSchema? data <;> simp
  · intro a ha b hb
    obtain ⟨⟨entry, i⟩, hentry, rfl⟩ := List.mem_map.1 ha
    obtain ⟨x, hx, rfl⟩ := List.mem_map.1 hb
    -- values that are objects are not arrays
    have hget := List.mem_zipIdx_iff_getElem?.1 hentry
    rw [objectEntries] at hget
    rw [Option.mem_toList, itemSchema?] at hx
    split at hget
    · rename_i hkind
      rw [hkind, if_neg (by decide)] at hx
      cases hx
    · simp at hget

/-- Numbering does not matter where the numbers are not looked at. -/
theorem flatMap_zipIdx {α β : Type} (f : α → List β) (items : List α) :
    (items.zipIdx.flatMap fun item => f item.1) = items.flatMap f := by
  conv_rhs => rw [← List.zipIdx_map_fst 0 items, List.flatMap_map]

theorem flatMap_compositeBranches {β : Type} (data : Datum)
    (f : List (Atom × Datum) → Datum → List β) :
    ((compositeBranches data).flatMap fun b => f b.passed b.target) =
      compositeNames.flatMap fun name => (listed data name).flatMap (f []) := by
  rw [compositeBranches, List.flatMap_assoc,
    ← flatMap_zipIdx (fun name => (listed data name).flatMap (f [])) compositeNames]
  refine List.flatMap_congr fun item _ => ?_
  rw [List.flatMap_map]
  exact flatMap_zipIdx (f []) (listed data item.1)

theorem flatMap_partBranches {β : Type} (data : Datum)
    (f : List (Atom × Datum) → Datum → List β) :
    ((partBranches data).flatMap fun b => f b.passed b.target) =
      ((objectEntries data).flatMap fun entry => f [entry] entry.2) ++
        (itemSchema? data).toList.flatMap (f []) := by
  rw [partBranches, List.flatMap_append, List.flatMap_map, List.flatMap_map]
  congr 1
  exact flatMap_zipIdx (fun entry => f [entry] entry.2) (objectEntries data)

theorem phase_of_compositeBranch {data : Datum} {b : Branch} (h : b ∈ compositeBranches data) :
    b.turn.phase = 0 := by
  obtain ⟨_, -, h⟩ := List.mem_flatMap.1 h
  obtain ⟨_, -, rfl⟩ := List.mem_map.1 h
  rfl

theorem phase_of_partBranch {data : Datum} {b : Branch} (h : b ∈ partBranches data) :
    b.turn.phase = 2 := by
  rcases List.mem_append.1 h with h | h <;> obtain ⟨_, -, rfl⟩ := List.mem_map.1 h <;> rfl

/-- The ways down from data in the order of the traversal, with the variables at their ends. -/
structure Listing (data : Datum) (ds : List Descent) : Prop where
  ordered : ds.Pairwise Descent.Before
  mem_iff : ∀ d, d ∈ ds ↔ d.From data
  described : ∀ context, Schema.described context data = ds.map (Descent.definition context)

/-- The ways that start with one of some turns. -/
def descentsAfter (ways : Datum → List Descent) (branches : List Branch) : List Descent :=
  branches.flatMap fun b => (ways b.target).map (Descent.after b.turn b.passed)

/-- Ways whose first turns are in different phases. -/
theorem Descent.before_of_phase {a b : Descent} {s t : Turn} {route route' : List Turn}
    (ha : a.route = s :: route) (hb : b.route = t :: route') (h : s.phase < t.phase) :
    a.Before b := by
  rw [Before, ha, hb]
  exact .rel (.phase h)

section DescentsAfter

variable {ways : Datum → List Descent} {branches : List Branch}

theorem mem_descentsAfter (hways : ∀ b ∈ branches, Listing b.target (ways b.target))
    {d : Descent} : d ∈ descentsAfter ways branches ↔
      ∃ b ∈ branches, ∃ d' : Descent, d'.From b.target ∧ d'.after b.turn b.passed = d := by
  simp only [descentsAfter, List.mem_flatMap, List.mem_map]
  exact exists_congr fun b => and_congr_right fun hb =>
    exists_congr fun d' => and_congr_left fun _ => (hways b hb).mem_iff d'

theorem exists_turn_of_mem_descentsAfter {d : Descent} (h : d ∈ descentsAfter ways branches) :
    ∃ b ∈ branches, ∃ route, d.route = b.turn :: route := by
  obtain ⟨b, hb, h⟩ := List.mem_flatMap.1 h
  obtain ⟨d', -, rfl⟩ := List.mem_map.1 h
  exact ⟨b, hb, d'.route, rfl⟩

theorem descentsAfter_ordered (hways : ∀ b ∈ branches, Listing b.target (ways b.target))
    (hbranches : branches.Pairwise fun a b => a.turn.Before b.turn) :
    (descentsAfter ways branches).Pairwise Descent.Before := by
  refine List.pairwise_flatMap.2 ⟨fun b hb => ?_, hbranches.imp ?_⟩
  · exact List.pairwise_map.2 ((hways b hb).ordered.imp fun h => .cons h)
  · intro a b hturn c hc d hd
    obtain ⟨_, -, rfl⟩ := List.mem_map.1 hc
    obtain ⟨_, -, rfl⟩ := List.mem_map.1 hd
    exact .rel hturn

theorem map_definition_descentsAfter (hways : ∀ b ∈ branches, Listing b.target (ways b.target))
    (context : FacetContext) :
    (descentsAfter ways branches).map (Descent.definition context) =
      branches.flatMap fun b => described (context.along b.passed) b.target := by
  rw [descentsAfter, List.map_flatMap]
  refine List.flatMap_congr fun b hb => ?_
  rw [(hways b hb).described, List.map_map]
  exact List.map_congr_left fun d _ => d.definition_after context b.turn b.passed

end DescentsAfter

/-- The way that ends at once, when the schema itself describes a variable. -/
def endings (data : Datum) : List Descent :=
  (kindOf data).type?.toList.map fun type => ⟨[.stop], [], data, type⟩

theorem route_of_mem_endings {data : Datum} {d : Descent} (h : d ∈ endings data) :
    d.route = [.stop] := by
  obtain ⟨_, -, rfl⟩ := List.mem_map.1 h
  rfl

theorem endings_ordered (data : Datum) : (endings data).Pairwise Descent.Before := by
  rw [endings]
  cases (kindOf data).type? <;> simp

/-- What a turn leads to is a value of an entry of the record, or stands in one. -/
theorem Takes.below {data x : Datum} {turn : Turn} {passed : List (Atom × Datum)}
    (h : Takes data turn passed x) : ∃ entries, data = .record entries ∧ ∃ entry ∈ entries,
      x = entry.2 ∨ x ∈ entry.2.items ∨ ∃ inner ∈ entry.2.entries, x = inner.2 := by
  cases h with
  | @member l i name x hname hx =>
    have hmem := List.mem_of_getElem? hx
    rw [listed] at hmem
    cases hget : data.get? name with
    | none =>
      rw [hget] at hmem
      cases hmem
    | some y =>
      obtain ⟨entries, rfl, hentry⟩ := Datum.mem_entries_of_get? hget
      rw [hget] at hmem
      exact ⟨entries, rfl, _, hentry, .inr (.inl hmem)⟩
  | property _ hx =>
    have hmem := List.mem_of_getElem? hx
    rw [propertyEntries] at hmem
    cases hget : data.get? "properties" with
    | none =>
      rw [hget] at hmem
      cases hmem
    | some y =>
      obtain ⟨entries, rfl, hentry⟩ := Datum.mem_entries_of_get? hget
      rw [hget] at hmem
      exact ⟨entries, rfl, _, hentry, .inr (.inr ⟨_, hmem, rfl⟩)⟩
  | item _ hx =>
    obtain ⟨entries, rfl, hentry⟩ := Datum.mem_entries_of_get? hx
    exact ⟨entries, rfl, _, hentry, .inl rfl⟩

theorem sizeOf_lt_of_takes {data x : Datum} {turn : Turn} {passed : List (Atom × Datum)}
    (h : Takes data turn passed x) : sizeOf x < sizeOf data := by
  have hvalue : ∀ {entries : List (Atom × Datum)} {entry : Atom × Datum}, entry ∈ entries →
      sizeOf entry.2 < sizeOf (Datum.record entries) := by
    intro entries entry hentry
    have hlt := List.sizeOf_lt_of_mem hentry
    have hpair : sizeOf entry = 1 + sizeOf entry.1 + sizeOf entry.2 := by cases entry; rfl
    have hrecord : sizeOf (Datum.record entries) = 1 + sizeOf entries := by simp
    omega
  obtain ⟨entries, rfl, entry, hentry, rfl | hx | ⟨inner, hinner, rfl⟩⟩ := h.below
  · exact hvalue hentry
  · refine Nat.lt_trans ?_ (hvalue hentry)
    cases hlist : entry.2 with
    | list items =>
      rw [hlist] at hx
      have hlt := List.sizeOf_lt_of_mem hx
      have hsize : sizeOf (Datum.list items) = 1 + sizeOf items := by simp
      change sizeOf x < sizeOf items at hlt
      omega
    | _ =>
      rw [hlist] at hx
      cases hx
  · refine Nat.lt_trans ?_ (hvalue hentry)
    cases hrecord : entry.2 with
    | record inners =>
      rw [hrecord] at hinner
      exact hvalue hinner
    | _ =>
      rw [hrecord] at hinner
      cases hinner

theorem keysDistinct_of_takes {data x : Datum} {turn : Turn} {passed : List (Atom × Datum)}
    (hdata : data.keysDistinct = true) (h : Takes data turn passed x) :
    x.keysDistinct = true := by
  obtain ⟨entries, rfl, entry, hentry, rfl | hx | ⟨inner, hinner, rfl⟩⟩ := h.below
  · exact (Datum.keysDistinct_record.1 hdata).2 _ hentry
  · have hvalue := (Datum.keysDistinct_record.1 hdata).2 _ hentry
    cases hlist : entry.2 with
    | list items =>
      rw [hlist] at hx hvalue
      exact Datum.keysDistinct_list.1 hvalue _ hx
    | _ =>
      rw [hlist] at hx
      cases hx
  · have hvalue := (Datum.keysDistinct_record.1 hdata).2 _ hentry
    cases hrecord : entry.2 with
    | record inners =>
      rw [hrecord] at hinner hvalue
      exact (Datum.keysDistinct_record.1 hvalue).2 _ hinner
    | _ =>
      rw [hrecord] at hinner
      cases hinner

/-- Only a record leads on. -/
theorem Leads.of_record {data target : Datum} {route : List Turn} {entries : List (Atom × Datum)}
    (h : Leads data route entries target) : ∃ entries, data = .record entries := by
  cases h with
  | stop => exact ⟨_, rfl⟩
  | turn h =>
    obtain ⟨entries, rfl, -⟩ := h.below
    exact ⟨entries, rfl⟩

/-- A way down ends at once, or takes a turn first. -/
theorem Descent.from_record {entries : List (Atom × Datum)} {d : Descent} :
    d.From (.record entries) ↔ d ∈ endings (.record entries) ∨
      ∃ b : Branch, Takes (.record entries) b.turn b.passed b.target ∧
        ∃ d' : Descent, d'.From b.target ∧ d'.after b.turn b.passed = d := by
  obtain ⟨route, passed, target, type⟩ := d
  simp only [From, isType_iff, endings, List.mem_map, Option.mem_toList]
  constructor
  · rintro ⟨hleads, htype⟩
    cases hleads with
    | stop => exact .inl ⟨type, htype, rfl⟩
    | @turn _ x _ turn route passed entries' h hrest =>
      exact .inr ⟨⟨turn, passed, x⟩, h, ⟨route, entries', target, type⟩, ⟨hrest, htype⟩, rfl⟩
  · rintro (⟨_, htype, heq⟩ | ⟨b, hb, d, ⟨hleads, htype⟩, heq⟩)
    · cases heq
      exact ⟨.stop, htype⟩
    · cases heq
      exact ⟨.turn hb hleads, htype⟩

/-- **The ways down can be listed in the order of the traversal**, and the variables that are
described are those at their ends. -/
theorem exists_listing (data : Datum) (h : data.keysDistinct = true) :
    ∃ ds, Listing data ds := by
  -- what a turn leads to stands deeper than in an entry: the induction is on the size of the data
  induction hsize : sizeOf data using Nat.strong_induction_on generalizing data with
  | _ size ih =>
    cases data with
    | record entries =>
      choose! ways hways using fun (x : Datum) (hlt : sizeOf x < size)
        (hx : x.keysDistinct = true) => ih _ hlt x hx rfl
      have hbranch : ∀ b : Branch, Takes (.record entries) b.turn b.passed b.target →
          Listing b.target (ways b.target) := fun b hb =>
        hways _ (hsize ▸ sizeOf_lt_of_takes hb) (keysDistinct_of_takes h hb)
      have hmembers : ∀ b ∈ compositeBranches (.record entries), Listing b.target (ways b.target) :=
        fun b hb => hbranch b (mem_branches.1 (.inl hb))
      have hparts : ∀ b ∈ partBranches (.record entries), Listing b.target (ways b.target) :=
        fun b hb => hbranch b (mem_branches.1 (.inr hb))
      refine ⟨descentsAfter ways (compositeBranches (.record entries)) ++
        (endings (.record entries) ++ descentsAfter ways (partBranches (.record entries))),
        ?_, ?_, ?_⟩
      · refine List.pairwise_append.2 ⟨descentsAfter_ordered hmembers (compositeBranches_ordered _),
          List.pairwise_append.2 ⟨endings_ordered _,
            descentsAfter_ordered hparts (partBranches_ordered _), ?_⟩, ?_⟩
        · intro a ha d hd
          obtain ⟨b, hb, route, hroute⟩ := exists_turn_of_mem_descentsAfter hd
          refine Descent.before_of_phase (route_of_mem_endings ha) hroute ?_
          rw [phase_of_partBranch hb]
          exact Nat.one_lt_two
        · intro a ha d hd
          obtain ⟨b, hb, route, hroute⟩ := exists_turn_of_mem_descentsAfter ha
          have hphase := phase_of_compositeBranch hb
          rcases List.mem_append.1 hd with hd | hd
          · refine Descent.before_of_phase hroute (route_of_mem_endings hd) ?_
            rw [hphase]
            exact Nat.one_pos
          · obtain ⟨b', hb', route', hroute'⟩ := exists_turn_of_mem_descentsAfter hd
            refine Descent.before_of_phase hroute hroute' ?_
            rw [hphase, phase_of_partBranch hb']
            exact Nat.two_pos
      · intro d
        rw [List.mem_append, List.mem_append, mem_descentsAfter hmembers, mem_descentsAfter hparts,
          Descent.from_record, or_left_comm]
        simp only [← mem_branches, or_and_right, exists_or]
      · intro context
        rw [described_record context (Datum.keysDistinct_record.1 h).1, List.map_append,
          List.map_append, map_definition_descentsAfter hmembers,
          map_definition_descentsAfter hparts,
          flatMap_compositeBranches _ fun passed x => described (context.along passed) x,
          flatMap_partBranches _ fun passed x => described (context.along passed) x]
        rw [endings, List.map_map]
        simp only [FacetContext.along, List.foldl_nil, List.foldl_cons, List.append_assoc]
        cases (kindOf (.record entries)).type? <;> rfl
    | _ =>
      refine ⟨[], .nil, fun d => ⟨by simp, fun hd => ?_⟩, fun context => rfl⟩
      obtain ⟨_, heq⟩ := hd.1.of_record
      cases heq

end Schema

/-! ## Facets -/

/-- A way from some facets down to a schema whose values are variables of a type. -/
structure FacetVisit where
  /-- Where the facet stands among the facets. -/
  place : Nat
  name : Atom
  facet : Datum
  /-- The way down from the facet's schema. -/
  descent : Schema.Descent

namespace FacetVisit

/-- The way goes down from one of the facets. -/
def In (facets : List (Atom × Datum)) (v : FacetVisit) : Prop :=
  facets[v.place]? = some (v.name, v.facet) ∧
    ∃ schema, v.facet.get? "schema" = some schema ∧ v.descent.From schema

/-- One way comes before another in the traversal of the facets. -/
def Before (v w : FacetVisit) : Prop :=
  v.place < w.place ∨ v.place = w.place ∧ v.descent.Before w.descent

/-- Of two ways one at most comes before the other, so that there is one first way at most. -/
theorem Before.asymm {v w : FacetVisit} (h : v.Before w) : ¬w.Before v := by
  rintro (hlt' | ⟨heq', hdescent'⟩)
  · rcases h with hlt | ⟨heq, -⟩ <;> omega
  · rcases h with hlt | ⟨-, hdescent⟩
    · omega
    · exact List.lex_asymm Schema.Turn.Before.asymm hdescent hdescent'

/-- The path at the end of a way: the place of the facet's value and the keys passed. -/
def path (base : String) (v : FacetVisit) : String :=
  ".".intercalate ((base ++ "." ++ v.name.text ++ ".value") ::
    v.descent.entries.map fun entry => entry.1.text)

/-- The variable at the end of a way. -/
def definition (base : String) (v : FacetVisit) : Definition :=
  v.descent.definition (.start base v.name.text v.facet)

/-- Who may describe the values at the end of a way: their schema, else the innermost of the schemas
of the entries passed, else the facet. -/
def describers (v : FacetVisit) : List Datum :=
  v.descent.target :: (v.descent.entries.map Prod.snd).reverse ++ [v.facet]

/-- The definition is that of the variable at the end of a way: of the type that the schema there is
of, labelled by the titles of the facet and of the entries passed, and with what the schemas say. -/
structure Describes (base : String) (v : FacetVisit) (d : Definition) : Prop where
  path : d.path = v.path base
  type : Schema.IsType v.descent.target d.type
  comparisons : d.comparisons = d.type.comparisons
  id : d.id = .string d.path
  shownPath : d.shownPath = .string d.path
  label : ∃ title labels, Schema.IsTitle v.facet v.name.text title ∧
    List.Forall₂ (fun entry => Schema.IsTitle entry.2 entry.1.text) v.descent.entries labels ∧
    d.group = .string title ∧ d.label = .string (" · ".intercalate (title :: labels))
  description : Schema.IsDescription v.describers d.description
  sample : ∃ x, Schema.IsSample v.descent.target x ∧ d.sample = x.toJson

theorem describes_definition (base : String) {facets : List (Atom × Datum)} {v : FacetVisit}
    (h : v.In facets) : v.Describes base (v.definition base) := by
  obtain ⟨-, _, -, -, htype⟩ := h
  have hcontext := (FacetContext.start base v.name.text v.facet).along_eq v.descent.entries
  refine ⟨?_, htype, rfl, rfl, rfl, ?_, ?_, ⟨_, Schema.isSample_iff.2 rfl, rfl⟩⟩
  · rw [definition, Schema.Descent.definition, hcontext]
    rfl
  · refine ⟨_, v.descent.entries.map FacetContext.keyLabel, Schema.isTitle_iff.2 rfl, ?_, ?_, ?_⟩
    · rw [List.forall₂_map_right_iff, List.forall₂_same]
      exact fun entry _ => Schema.isTitle_iff.2 rfl
    · rw [definition, Schema.Descent.definition, hcontext]
      rfl
    · rw [definition, Schema.Descent.definition, hcontext]
      rfl
  · rw [Schema.isDescription_iff, definition, Schema.Descent.definition, hcontext, describers,
      List.findSome?_append, List.findSome?_cons, ← List.map_reverse, List.findSome?_map]
    simp only [FacetContext.definition, FacetContext.start, Schema.notesOf]
    cases Schema.note? (v.descent.target.get? "description") <;> simp [Function.comp_def]

/-- **The ways down from facets can be listed in the order of the traversal**, and the variables
that the facets describe are those at their ends. -/
theorem exists_listing {facets : List (Atom × Datum)}
    (h : ∀ facet ∈ facets, facet.2.keysDistinct = true) : ∃ vs : List FacetVisit,
      vs.Pairwise Before ∧ (∀ v, v ∈ vs ↔ v.In facets) ∧
      ∀ base, (facets.flatMap fun (key, facet) => facetVariables base key.text facet) =
        vs.map (definition base) := by
  choose! ways hways using Schema.exists_listing
  have hschema : ∀ facet ∈ facets, ∀ schema ∈ facet.2.get? "schema",
      Schema.Listing schema (ways schema) := fun facet hfacet schema hget =>
    hways schema (Datum.keysDistinct_of_get? (h facet hfacet) hget)
  let ofFacet (item : (Atom × Datum) × Nat) : List FacetVisit :=
    (item.1.2.get? "schema").toList.flatMap fun schema =>
      (ways schema).map (FacetVisit.mk item.2 item.1.1 item.1.2)
  refine ⟨facets.zipIdx.flatMap ofFacet, ?_, ?_, ?_⟩
  · refine List.pairwise_flatMap.2 ⟨?_, (Schema.pairwise_zipIdx facets).imp ?_⟩
    · rintro ⟨⟨name, facet⟩, i⟩ hitem
      have hfacet := List.mem_of_getElem? (List.mem_zipIdx_iff_getElem?.1 hitem)
      simp only [ofFacet]
      cases hget : facet.get? "schema" with
      | none => exact .nil
      | some schema =>
        rw [Option.toList_some, List.flatMap_singleton]
        exact List.pairwise_map.2 ((hschema _ hfacet _ hget).ordered.imp fun hd => .inr ⟨rfl, hd⟩)
    · intro a b hlt v hv w hw
      obtain ⟨_, -, hv⟩ := List.mem_flatMap.1 hv
      obtain ⟨_, -, hw⟩ := List.mem_flatMap.1 hw
      obtain ⟨_, -, rfl⟩ := List.mem_map.1 hv
      obtain ⟨_, -, rfl⟩ := List.mem_map.1 hw
      exact .inl hlt
  · rintro ⟨place, name, facet, d⟩
    simp only [List.mem_flatMap, ofFacet, Option.mem_toList, List.mem_map, In]
    constructor
    · rintro ⟨item, hitem, schema, hget, _, hd, heq⟩
      cases heq
      have hplace := List.mem_zipIdx_iff_getElem?.1 hitem
      exact ⟨hplace, schema, hget,
        ((hschema _ (List.mem_of_getElem? hplace) _ hget).mem_iff _).1 hd⟩
    · rintro ⟨hplace, schema, hget, hd⟩
      exact ⟨((name, facet), place), List.mem_zipIdx_iff_getElem?.2 hplace, schema, hget, d,
        ((hschema _ (List.mem_of_getElem? hplace) _ hget).mem_iff _).2 hd, rfl⟩
  · intro base
    rw [List.map_flatMap, ← Schema.flatMap_zipIdx]
    refine List.flatMap_congr fun ⟨⟨name, facet⟩, i⟩ hitem => ?_
    have hfacet := List.mem_of_getElem? (List.mem_zipIdx_iff_getElem?.1 hitem)
    simp only [ofFacet, facetVariables_eq, List.map_flatMap]
    refine List.flatMap_congr fun schema hget => ?_
    rw [(hschema _ hfacet _ (Option.mem_toList.1 hget)).described, List.map_map]
    rfl

end FacetVisit

/-- **The variables of facets are those that the ways down lead to.** Their paths ascend strictly;
they are the paths at the ends of all ways down from the facets; and of the ways that lead to one
path, the first in the traversal says what the variable is. -/
theorem facetDefinitions_complete {facets : List (Atom × Datum)} (base : String)
    (h : ∀ facet ∈ facets, facet.2.keysDistinct = true) :
    ((facetDefinitions facets base).map Definition.path).Pairwise (· < ·) ∧
    (∀ path, path ∈ (facetDefinitions facets base).map Definition.path ↔
      ∃ v : FacetVisit, v.In facets ∧ v.path base = path) ∧
    ∀ d ∈ facetDefinitions facets base, ∃ v : FacetVisit, v.In facets ∧ v.Describes base d ∧
      ∀ w : FacetVisit, w.In facets → w.path base = d.path → w = v ∨ v.Before w := by
  obtain ⟨vs, hordered, hmem, hall⟩ := FacetVisit.exists_listing h
  have hpath : ∀ v ∈ vs, (v.definition base).path = v.path base := fun v hv =>
    (FacetVisit.describes_definition base ((hmem v).1 hv)).path
  have hperm := List.mergeSort_perm (firstsBy Definition.path (vs.map (FacetVisit.definition base)))
    fun a b => a.path ≤ b.path
  unfold facetDefinitions
  rw [hall base]
  refine ⟨Catalog.ascending_mergeSort (nodup_map_firstsBy _ _), fun path => ?_, fun d hd => ?_⟩
  · rw [(hperm.map Definition.path).mem_iff, mem_map_firstsBy, List.map_map, List.mem_map]
    refine exists_congr fun v => ?_
    rw [hmem]
    refine and_congr_right fun hv => ?_
    rw [Function.comp_apply, hpath v ((hmem v).2 hv)]
  · rw [hperm.mem_iff, firstsBy_map, List.mem_map] at hd
    obtain ⟨v, hv, rfl⟩ := hd
    have hvmem := (firstsBy_sublist _ _).subset hv
    have hin := (hmem v).1 hvmem
    refine ⟨v, hin, FacetVisit.describes_definition base hin, fun w hw hsame => ?_⟩
    have hwmem := (hmem w).2 hw
    rw [← hpath w hwmem] at hsame
    exact (rel_of_mem_firstsBy hordered hv hwmem hsame).imp_left Eq.symm

/-- A schema that enumerates values and gives nothing else. -/
def enumerated : Datum :=
  .record [(.string "title", .string " "), (.string "examples", .list []),
    (.string "enum", .list [.atom (.scalar (.int 1)), .atom (.scalar (.int 2))])]

/-- A facet whose schema is composed of two, which describe one path differently. -/
def sharedPath : List (Atom × Datum) :=
  [(.string "mix", .record [(.string "description", .string "The mix."),
    (.string "schema", .record [(.string "allOf", .list [
      .record [(.string "properties", .record [(.string "topLevel", enumerated)])],
      .record [(.string "properties", .record [
        (.string "topLevel", .record [(.string "type", .string "string"),
          (.string "example", .string "loud")])])]])])])]

/-- The variable at that path, as the first of the two describes it. -/
def sharedVariable : Definition where
  path := "ctx.mix.value.topLevel"
  type := .number
  comparisons := Comparison.all
  id := .string "ctx.mix.value.topLevel"
  label := .string "Mix · Top Level"
  shownPath := .string "ctx.mix.value.topLevel"
  group := .string "Mix"
  description := .string "The mix."
  sample := .int 1

theorem facetDefinitions_complete_sharedPath :
    (∀ facet ∈ sharedPath, facet.2.keysDistinct = true) ∧
      "ctx.mix.value.topLevel" ∈ (facetDefinitions sharedPath "ctx").map Definition.path ∧
      sharedVariable ∈ facetDefinitions sharedPath "ctx" ∧
      ∃ v : FacetVisit, v.In sharedPath ∧ v.Describes "ctx" sharedVariable ∧
        ∀ w : FacetVisit, w.In sharedPath → w.path "ctx" = sharedVariable.path →
          w = v ∨ v.Before w := by
  have hdistinct : ∀ facet ∈ sharedPath, facet.2.keysDistinct = true := by
    rintro facet (_ | ⟨_, ⟨⟩⟩)
    rfl
  have hin : (FacetVisit.mk 0 (.string "mix") (sharedPath.head (by decide)).2
      ⟨[.member 0 0, .property 0, .stop], [(.string "topLevel", enumerated)], enumerated,
        .number⟩).In sharedPath :=
    ⟨rfl, _, rfl, .turn (.member rfl rfl) (.turn (.property (Schema.isKind_iff.2 rfl) rfl) .stop),
      Schema.isType_iff.2 rfl⟩
  have hmem : sharedVariable ∈ facetDefinitions sharedPath "ctx" := by
    change _ ∈ (firstsBy Definition.path [sharedVariable, _]).mergeSort _
    exact List.mem_mergeSort.2 (List.mem_singleton.2 rfl)
  obtain ⟨-, hpaths, hfirst⟩ := facetDefinitions_complete "ctx" hdistinct
  exact ⟨hdistinct, (hpaths _).2 ⟨_, hin, rfl⟩, hmem, hfirst _ hmem⟩

end Criteria
