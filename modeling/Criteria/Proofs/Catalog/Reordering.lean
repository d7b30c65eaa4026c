import Criteria.Proofs.Catalog.Schema
import Criteria.Proofs.Path

/-!
# The order in which facets and properties are written

Facets and the properties of schemas are written in some order, and the first variable of a path
counts. Yet the order does not matter (`facetDefinitions_reordered`) where the names of facets and
the keys of properties have no points: the paths below two facets, or below two properties of one
schema, are different then (`Schema.eq_of_mem_described`), so that variables of one path never
stand below different entries of a mapping. What decides between them is the order of a list, or
that a schema comes after those that it is composed of.

Two lists of definitions are compared by what the paths lead to in them (`SameLookups`), and
schemas by steps, each of which changes the order of one mapping (`Datum.Reordered`).
-/

namespace Criteria

/-! ## Reordering -/

/-- The key is a text without points, so that it is one segment of a path. -/
def Atom.isSegment : Atom → Bool
  | .string name => !name.toList.contains '.'
  | _ => false

theorem Atom.text_of_isSegment {key : Atom} (h : key.isSegment = true) :
    key = .string key.text ∧ '.' ∉ key.text.toList := by
  unfold isSegment at h
  split at h
  · exact ⟨rfl, by simpa [Atom.text] using h⟩
  · cases h

/-- A path is relative to one key at most. -/
theorem Atom.eq_of_isRelativeTo {a b : Atom} {path : String} (ha : a.isSegment = true)
    (hb : b.isSegment = true) (h : Path.isRelativeTo a.text path = true)
    (h' : Path.isRelativeTo b.text path = true) : a = b := by
  obtain ⟨hname, hdot⟩ := text_of_isSegment ha
  obtain ⟨hname', hdot'⟩ := text_of_isSegment hb
  rw [hname, hname', Path.eq_of_isRelativeTo hdot hdot' h h']

namespace Datum

/-- The keys of a schema under which no schemas stand, but words about its values and examples. -/
def noteKeys : List String := ["type", "title", "description", "examples", "example", "enum"]

/-- Data that differs in the order of properties, at any depth. Notes are not looked into. -/
inductive Reordered : Datum → Datum → Prop
  | refl (x : Datum) : Reordered x x
  | trans {x y z : Datum} (h : Reordered x y) (h' : Reordered y z) : Reordered x z
  /-- An item of a list is reordered. -/
  | item (before after : List Datum) {x y : Datum} (h : Reordered x y) :
      Reordered (.list (before ++ x :: after)) (.list (before ++ y :: after))
  /-- A part of a schema is reordered. -/
  | entry (before after : List (Atom × Datum)) {key : Atom} {x y : Datum}
      (hkey : key ∉ ("properties" :: noteKeys).map Atom.string) (h : Reordered x y) :
      Reordered (.record (before ++ (key, x) :: after)) (.record (before ++ (key, y) :: after))
  /-- The schema of a property is reordered. -/
  | property (before after first last : List (Atom × Datum)) (key : Atom) {x y : Datum}
      (h : Reordered x y) : Reordered
        (.record (before ++ (.string "properties", .record (first ++ (key, x) :: last)) :: after))
        (.record (before ++ (.string "properties", .record (first ++ (key, y) :: last)) :: after))
  /-- The properties of a schema are written in another order. -/
  | properties (before after : List (Atom × Datum)) {ps qs : List (Atom × Datum)}
      (h : ps.Perm qs) : Reordered (.record (before ++ (.string "properties", .record ps) :: after))
        (.record (before ++ (.string "properties", .record qs) :: after))

mutual

/-- The keys of the properties in a schema are single segments of paths. -/
def pointFree : Datum → Bool
  | .record entries => pointFreeParts entries
  | _ => true

/-- The same for the entries of a schema. -/
def pointFreeParts : List (Atom × Datum) → Bool
  | [] => true
  | (key, value) :: rest => pointFreePart key value && pointFreeParts rest

/-- The same for what stands under a key of a schema. -/
def pointFreePart (key : Atom) : Datum → Bool
  | .list members =>
    !decide (key ∈ Schema.compositeNames.map Atom.string) || pointFreeAll members
  | .record entries =>
    if key = .string "properties" then pointFreeProperties entries
    else !decide (key = .string "items") || pointFreeParts entries
  | .atom _ => true

/-- The same for all of some schemas. -/
def pointFreeAll : List Datum → Bool
  | [] => true
  | value :: rest => pointFree value && pointFreeAll rest

/-- The same for some properties. -/
def pointFreeProperties : List (Atom × Datum) → Bool
  | [] => true
  | (key, value) :: rest => key.isSegment && pointFree value && pointFreeProperties rest

end

theorem pointFreeAll_iff {values : List Datum} :
    pointFreeAll values = true ↔ ∀ x ∈ values, x.pointFree = true := by
  induction values with
  | nil => simp [pointFreeAll]
  | cons x rest ih => simp [pointFreeAll, ih]

theorem pointFreeProperties_iff {entries : List (Atom × Datum)} :
    pointFreeProperties entries = true ↔
      ∀ entry ∈ entries, entry.1.isSegment = true ∧ entry.2.pointFree = true := by
  induction entries with
  | nil => simp [pointFreeProperties]
  | cons entry rest ih => simp [pointFreeProperties, ih]

/-- What an entry of a schema is, when the keys of the properties are segments. -/
structure PointFreePart (key : Atom) (value : Datum) : Prop where
  members : key ∈ Schema.compositeNames.map Atom.string → ∀ x ∈ value.items, x.pointFree = true
  properties : key = .string "properties" →
    ∀ entry ∈ value.entries, entry.1.isSegment = true ∧ entry.2.pointFree = true
  items : key = .string "items" → value.pointFree = true

theorem pointFreePart_iff {key : Atom} {value : Datum} :
    pointFreePart key value = true ↔ PointFreePart key value := by
  cases value with
  | atom value => exact ⟨fun _ => ⟨by simp [items], by simp [entries], fun _ => rfl⟩, fun _ => rfl⟩
  | list members =>
    rw [pointFreePart, Bool.or_eq_true, Bool.not_eq_true', decide_eq_false_iff_not,
      pointFreeAll_iff, ← imp_iff_not_or]
    exact ⟨fun h => ⟨h, by simp [entries], fun _ => rfl⟩, fun h => h.members⟩
  | record entries =>
    rw [pointFreePart]
    split
    · rename_i hkey
      rw [pointFreeProperties_iff]
      refine ⟨fun h => ⟨by simp [items], fun _ => h, ?_⟩, fun h => h.properties hkey⟩
      simp [hkey]
    · rename_i hkey
      rw [Bool.or_eq_true, Bool.not_eq_true', decide_eq_false_iff_not, ← imp_iff_not_or]
      exact ⟨fun h => ⟨by simp [items], fun heq => absurd heq hkey, h⟩, fun h => h.items⟩

theorem pointFree_record {entries : List (Atom × Datum)} :
    (Datum.record entries).pointFree = true ↔ ∀ entry ∈ entries, PointFreePart entry.1 entry.2 := by
  rw [pointFree]
  induction entries with
  | nil => simp [pointFreeParts]
  | cons entry rest ih => simp [pointFreeParts, pointFreePart_iff, ih]

/-! ## What reordering keeps -/

variable {x y : Datum}

theorem Reordered.keysDistinct (h : Reordered x y) :
    x.keysDistinct = true → y.keysDistinct = true := by
  induction h with
  | refl => exact id
  | trans _ _ ih ih' => exact ih' ∘ ih
  | item before after _ ih =>
    simp only [keysDistinct_list, List.forall_mem_append, List.forall_mem_cons]
    rintro ⟨hbefore, hx, hafter⟩
    exact ⟨hbefore, ih hx, hafter⟩
  | entry before after _ _ ih =>
    simp only [keysDistinct_record, List.map_append, List.map_cons, List.forall_mem_append,
      List.forall_mem_cons]
    rintro ⟨hkeys, hbefore, hx, hafter⟩
    exact ⟨hkeys, hbefore, ih hx, hafter⟩
  | property before after first last key _ ih =>
    simp only [keysDistinct_record, List.map_append, List.map_cons, List.forall_mem_append,
      List.forall_mem_cons]
    rintro ⟨hkeys, hbefore, ⟨hinner, hfirst, hx, hlast⟩, hafter⟩
    exact ⟨hkeys, hbefore, ⟨hinner, hfirst, ih hx, hlast⟩, hafter⟩
  | properties before after hperm =>
    simp only [keysDistinct_record, List.map_append, List.map_cons, List.forall_mem_append,
      List.forall_mem_cons]
    rintro ⟨hkeys, hbefore, ⟨hinner, hps⟩, hafter⟩
    refine ⟨hkeys, hbefore, ⟨(hperm.map Prod.fst).nodup_iff.1 hinner, fun entry hentry => ?_⟩,
      hafter⟩
    exact hps entry (hperm.mem_iff.2 hentry)

/-- The keys of properties stay the same, in a schema and in a list of schemas. -/
theorem Reordered.pointFree (h : Reordered x y) : (x.pointFree = true → y.pointFree = true) ∧
    ((∀ z ∈ x.items, z.pointFree = true) → ∀ z ∈ y.items, z.pointFree = true) := by
  induction h with
  | refl => exact ⟨id, id⟩
  | trans _ _ ih ih' => exact ⟨ih'.1 ∘ ih.1, ih'.2 ∘ ih.2⟩
  | item before after _ ih =>
    refine ⟨id, ?_⟩
    simp only [items, List.forall_mem_append, List.forall_mem_cons]
    rintro ⟨hbefore, hx, hafter⟩
    exact ⟨hbefore, ih.1 hx, hafter⟩
  | entry before after hkey _ ih =>
    refine ⟨?_, id⟩
    simp only [pointFree_record, List.forall_mem_append, List.forall_mem_cons]
    rintro ⟨hbefore, hx, hafter⟩
    exact ⟨hbefore, ⟨fun hname => ih.2 (hx.members hname),
      fun heq => absurd (heq ▸ List.mem_cons_self ..) hkey, fun heq => ih.1 (hx.items heq)⟩,
      hafter⟩
  | property before after first last key _ ih =>
    refine ⟨?_, id⟩
    simp only [pointFree_record, List.forall_mem_append, List.forall_mem_cons]
    rintro ⟨hbefore, hx, hafter⟩
    refine ⟨hbefore, ⟨by simp [items], fun heq => ?_, by simp⟩, hafter⟩
    have hproperties := hx.properties heq
    simp only [entries, List.forall_mem_append, List.forall_mem_cons] at hproperties ⊢
    exact ⟨hproperties.1, ⟨hproperties.2.1.1, ih.1 hproperties.2.1.2⟩, hproperties.2.2⟩
  | properties before after hperm =>
    refine ⟨?_, id⟩
    simp only [pointFree_record, List.forall_mem_append, List.forall_mem_cons]
    rintro ⟨hbefore, hx, hafter⟩
    refine ⟨hbefore, ⟨by simp [items], fun heq entry hentry => ?_, by simp⟩, hafter⟩
    exact hx.properties heq entry (hperm.mem_iff.2 hentry)

theorem Reordered.isGiven_eq (h : Reordered x y) : x.isGiven = y.isGiven := by
  induction h with
  | refl => rfl
  | trans _ _ ih ih' => exact ih.trans ih'
  | item before => cases before <;> rfl
  | entry before => cases before <;> rfl
  | property before => cases before <;> rfl
  | properties before => cases before <;> rfl

end Datum

/-! ## What paths lead to -/

/-- Every path leads to the same definition among the one as among the other. -/
def SameLookups (ds es : List Definition) : Prop :=
  ∀ path, ds.find? (·.path = path) = es.find? (·.path = path)

namespace SameLookups

variable {ds ds' es es' : List Definition}

theorem refl (ds : List Definition) : SameLookups ds ds := fun _ => rfl

theorem trans (h : SameLookups ds ds') (h' : SameLookups ds' es) : SameLookups ds es :=
  fun path => (h path).trans (h' path)

theorem append (h : SameLookups ds es) (h' : SameLookups ds' es') :
    SameLookups (ds ++ ds') (es ++ es') := fun path => by
  rw [List.find?_append, List.find?_append, h path, h' path]

/-- One of several parts is exchanged. -/
theorem flatMap_middle {α : Type} {f : α → List Definition} {a b : α}
    (h : SameLookups (f a) (f b)) (before after : List α) :
    SameLookups ((before ++ a :: after).flatMap f) ((before ++ b :: after).flatMap f) := by
  rw [List.flatMap_append, List.flatMap_append, List.flatMap_cons, List.flatMap_cons]
  exact (refl _).append (h.append (refl _))

theorem flatMap_congr {α : Type} {f g : α → List Definition} {items : List α}
    (h : ∀ a ∈ items, SameLookups (f a) (g a)) :
    SameLookups (items.flatMap f) (items.flatMap g) := by
  induction items with
  | nil => exact refl []
  | cons a rest ih =>
    obtain ⟨ha, hrest⟩ := List.forall_mem_cons.1 h
    exact ha.append (ih hrest)

/-- The order of parts that have no path in common does not matter. -/
theorem flatMap_perm {α : Type} {f : α → List Definition} {as bs : List α} (h : as.Perm bs)
    (hapart : ∀ a ∈ as, ∀ b ∈ as, ∀ d ∈ f a, ∀ e ∈ f b, d.path = e.path → a = b) :
    SameLookups (as.flatMap f) (bs.flatMap f) := by
  induction h with
  | nil => exact refl []
  | cons a _ ih =>
    refine (refl (f a)).append (ih fun b hb c hc => ?_)
    exact hapart b (List.mem_cons_of_mem a hb) c (List.mem_cons_of_mem a hc)
  | swap a b rest =>
    intro path
    simp only [List.flatMap_cons, List.find?_append, ← Option.or_assoc]
    congr 1
    -- a path that both lead to is a path of one part
    cases ha : (f a).find? (·.path = path) with
    | none => rw [Option.or_none, Option.none_or]
    | some d =>
      cases hb : (f b).find? (·.path = path) with
      | none => rw [Option.or_none, Option.none_or]
      | some e =>
        have hd : d.path = path := by simpa using List.find?_some ha
        have he : e.path = path := by simpa using List.find?_some hb
        obtain rfl := hapart a (by simp) b (by simp) d (List.mem_of_find?_eq_some ha) e
          (List.mem_of_find?_eq_some hb) (hd.trans he.symm)
        rw [← ha, ← hb]
  | trans h _ ih ih' =>
    exact (ih hapart).trans (ih' fun a ha b hb => hapart a (h.mem_iff.2 ha) b (h.mem_iff.2 hb))

/-- The same definitions are kept of both, and in one order. -/
theorem mergeSort_eq (h : SameLookups ds es) :
    (firstsBy Definition.path ds).mergeSort (fun a b => a.path ≤ b.path) =
      (firstsBy Definition.path es).mergeSort fun a b => a.path ≤ b.path := by
  have hkept : (firstsBy Definition.path ds).Perm (firstsBy Definition.path es) :=
    (List.perm_ext_iff_of_nodup (.of_map _ (nodup_map_firstsBy _ ds))
      (.of_map _ (nodup_map_firstsBy _ es))).2 fun d => by
        rw [mem_firstsBy_iff, mem_firstsBy_iff, h d.path]
  have hsorted : ∀ cs : List Definition,
      ((firstsBy Definition.path cs).mergeSort fun a b => a.path ≤ b.path).Pairwise
        fun a b => a.path < b.path := fun cs =>
    List.pairwise_map.1 (Catalog.ascending_mergeSort (nodup_map_firstsBy _ cs))
  refine List.Perm.eq_of_pairwise (fun a b _ _ hab hba => absurd hab (String.lt_asymm hba))
    (hsorted ds) (hsorted es) ?_
  exact (List.mergeSort_perm _ _).trans (hkept.trans (List.mergeSort_perm _ _).symm)

end SameLookups

/-! ## Paths below different keys -/

namespace FacetContext

/-- Below a key every path continues the path of the place by one that is relative to the key. -/
theorem Below.path_of_enter {inner context : FacetContext} {key : String} {notes : SchemaNotes}
    (h : inner.Below (context.enter key notes)) : ∃ tail, Path.isRelativeTo key tail = true ∧
      inner.path = context.path ++ "." ++ tail := by
  obtain ⟨-, hbase, keys, -, -, hkeys, -⟩ := h
  refine ⟨".".intercalate (key :: keys), ?_, ?_⟩
  · cases keys with
    | nil => simp [Path.isRelativeTo]
    | cons other rest =>
      rw [String.intercalate_cons_cons, Path.isRelativeTo, Path.after?_append]
      simp
  · rw [path, path, hbase, hkeys, enter, List.append_assoc, ← List.cons_append,
      String.intercalate_append_of_ne_nil (List.cons_ne_nil _ _) (by simp)]
    rfl

end FacetContext

namespace Schema

/-- **Variables below different keys have different paths.** -/
theorem eq_of_mem_described {context : FacetContext} {a b : Atom × Datum} {d e : Definition}
    (hsegment : a.1.isSegment = true) (hsegment' : b.1.isSegment = true)
    (hd : d ∈ described (context.enter a.1.text (notesOf a.2)) a.2)
    (he : e ∈ described (context.enter b.1.text (notesOf b.2)) b.2) (h : d.path = e.path) :
    a.1 = b.1 := by
  obtain ⟨inner, type, notes, hbelow, rfl⟩ := saidBelow_of_mem_described hd
  obtain ⟨inner', type', notes', hbelow', rfl⟩ := saidBelow_of_mem_described he
  obtain ⟨tail, htail, hpath⟩ := hbelow.path_of_enter
  obtain ⟨tail', htail', hpath'⟩ := hbelow'.path_of_enter
  change inner.path = inner'.path at h
  rw [hpath, hpath', String.append_right_inj] at h
  exact Atom.eq_of_isRelativeTo hsegment hsegment' htail (h ▸ htail')

/-! ## Schemas -/

section Congruence

variable {data data' : Datum}

theorem notesOf_congr (h : ∀ name ∈ Datum.noteKeys, data.get? name = data'.get? name) :
    notesOf data = notesOf data' := by
  simp only [Datum.noteKeys, List.forall_mem_cons] at h
  simp only [notesOf, sampleOf, firstEnumerated?, h]

theorem kindOf_congr (h : ∀ name ∈ Datum.noteKeys, data.get? name = data'.get? name)
    (hgiven : ∀ name, (data.get? name).map Datum.isGiven = (data'.get? name).map Datum.isGiven) :
    kindOf data = kindOf data' := by
  have htypes : typeNames data = typeNames data' := by
    rw [typeNames, typeNames, h "type" (by decide)]
  have hfirst : firstEnumerated? data = firstEnumerated? data' := by
    rw [firstEnumerated?, firstEnumerated?, h "enum" (by decide)]
  unfold kindOf
  simp only [htypes, hfirst, hgiven]

end Congruence

section Middle

variable {before after : List (Atom × Datum)} {key : Atom} {x y : Datum}

/-- Under the key of an entry stands its value, and the other entries are under the other keys. -/
theorem get?_middle (h : ((before ++ (key, x) :: after).map Prod.fst).Nodup) (name : String) :
    (Datum.record (before ++ (key, x) :: after)).get? name =
      if key = .string name then some x else (Datum.record (before ++ after)).get? name := by
  induction before with
  | nil => exact get?_cons key x after name
  | cons entry rest ih =>
    obtain ⟨other, value⟩ := entry
    rw [List.cons_append, List.map_cons, List.nodup_cons] at h
    rw [List.cons_append, get?_cons, ih h.2, List.cons_append, get?_cons]
    split_ifs with hother hkey
    · exact absurd (by simp [hother, hkey]) h.1
    all_goals rfl

/-- One entry does not change the notes when it is none. -/
theorem get?_middle_eq (h : ((before ++ (key, x) :: after).map Prod.fst).Nodup)
    (hkey : key ∉ Datum.noteKeys.map Atom.string) : ∀ name ∈ Datum.noteKeys,
      (Datum.record (before ++ (key, x) :: after)).get? name =
        (Datum.record (before ++ (key, y) :: after)).get? name := by
  intro name hname
  have hy : ((before ++ (key, y) :: after).map Prod.fst).Nodup := by simpa using h
  have hne : key ≠ .string name := fun heq => hkey (heq ▸ List.mem_map_of_mem hname)
  rw [get?_middle h, get?_middle hy, if_neg hne, if_neg hne]

/-- The variables of a schema change with one of its parts as those of the part do. -/
theorem sameLookups_middle {context : FacetContext}
    (h : ((before ++ (key, x) :: after).map Prod.fst).Nodup)
    (hkey : key ∉ Datum.noteKeys.map Atom.string) (hgiven : x.isGiven = y.isGiven)
    (hmembers : key ∈ compositeNames.map Atom.string →
      SameLookups (x.items.flatMap (described context)) (y.items.flatMap (described context)))
    (hproperties : key = .string "properties" → SameLookups
      (x.entries.flatMap fun entry =>
        described (context.enter entry.1.text (notesOf entry.2)) entry.2)
      (y.entries.flatMap fun entry =>
        described (context.enter entry.1.text (notesOf entry.2)) entry.2))
    (hitem : key = .string "items" → SameLookups (described context x) (described context y)) :
    SameLookups (described context (.record (before ++ (key, x) :: after)))
      (described context (.record (before ++ (key, y) :: after))) := by
  have hy : ((before ++ (key, y) :: after).map Prod.fst).Nodup := by simpa using h
  have hnotes := get?_middle_eq (y := y) h hkey
  have hkind : kindOf (.record (before ++ (key, x) :: after)) =
      kindOf (.record (before ++ (key, y) :: after)) := by
    refine kindOf_congr hnotes fun name => ?_
    rw [get?_middle h, get?_middle hy]
    split
    · rw [Option.map_some, Option.map_some, hgiven]
    · rfl
  rw [described_record context h, described_record context hy, notesOf_congr hnotes, hkind]
  refine ((SameLookups.flatMap_congr fun name hname => ?_).append (.refl _)).append ?_ |>.append ?_
  · rw [listed, listed, get?_middle h, get?_middle hy]
    split
    · exact hmembers (by simp_all)
    · exact .refl _
  · rw [objectEntries, objectEntries, hkind, propertyEntries, propertyEntries, get?_middle h,
      get?_middle hy]
    split
    · split
      · exact hproperties ‹_›
      · exact .refl _
    · exact .refl _
  · rw [itemSchema?, itemSchema?, hkind, get?_middle h, get?_middle hy]
    split
    · split
      · simpa using hitem ‹_›
      · exact .refl _
    · exact .refl _

end Middle

end Schema

open Schema

namespace Datum

variable {x y : Datum}

theorem Reordered.notesOf_eq (h : Reordered x y) :
    x.keysDistinct = true → notesOf x = notesOf y := by
  induction h with
  | refl => exact fun _ => rfl
  | trans h _ ih ih' => exact fun hx => (ih hx).trans (ih' (h.keysDistinct hx))
  | item => exact fun _ => rfl
  | entry before after hkey =>
    refine fun hx => notesOf_congr (get?_middle_eq (keysDistinct_record.1 hx).1 fun hmem => hkey ?_)
    exact List.mem_cons_of_mem _ hmem
  | property =>
    exact fun hx => notesOf_congr (get?_middle_eq (keysDistinct_record.1 hx).1 (by decide))
  | properties =>
    exact fun hx => notesOf_congr (get?_middle_eq (keysDistinct_record.1 hx).1 (by decide))

/-- **Reordered schemas describe the same variables**, and so do reordered lists of schemas. -/
theorem Reordered.sameLookups (h : Reordered x y) : x.keysDistinct = true →
    (x.pointFree = true →
      ∀ context, SameLookups (described context x) (described context y)) ∧
    ((∀ z ∈ x.items, z.pointFree = true) →
      ∀ context, SameLookups (x.items.flatMap (described context))
        (y.items.flatMap (described context))) := by
  induction h with
  | refl => exact fun _ => ⟨fun _ _ => .refl _, fun _ _ => .refl _⟩
  | trans h _ ih ih' =>
    intro hx
    have hy := h.keysDistinct hx
    exact ⟨fun hfree context =>
        ((ih hx).1 hfree context).trans ((ih' hy).1 (h.pointFree.1 hfree) context),
      fun hfree context =>
        ((ih hx).2 hfree context).trans ((ih' hy).2 (h.pointFree.2 hfree) context)⟩
  | @item before after x y _ ih =>
    intro hx
    refine ⟨fun _ _ => .refl _, fun hfree context => ?_⟩
    have hmem : x ∈ before ++ x :: after := by simp
    have hsame := (ih (keysDistinct_list.1 hx x hmem)).1 (hfree x hmem) context
    exact .flatMap_middle hsame before after
  | @entry before after key x y hkey h ih =>
    intro hx
    refine ⟨fun hfree context => ?_, fun _ _ => .refl _⟩
    have hmem : (key, x) ∈ before ++ (key, x) :: after := by simp
    obtain ⟨hkeys, hvalues⟩ := keysDistinct_record.1 hx
    have hpart := pointFree_record.1 hfree _ hmem
    have ih := ih (hvalues _ hmem)
    rw [List.map_cons, List.mem_cons, not_or] at hkey
    exact sameLookups_middle hkeys hkey.2 h.isGiven_eq
      (fun hname => ih.2 (hpart.members hname) context) (fun heq => absurd heq hkey.1)
      (fun heq => ih.1 (hpart.items heq) context)
  | @property before after first last key x y h ih =>
    intro hx
    refine ⟨fun hfree context => ?_, fun _ _ => .refl _⟩
    have hmem : (Atom.string "properties", Datum.record (first ++ (key, x) :: last)) ∈
      before ++ (.string "properties", .record (first ++ (key, x) :: last)) :: after := by simp
    have hmem' : (key, x) ∈ first ++ (key, x) :: last := by simp
    obtain ⟨hkeys, hvalues⟩ := keysDistinct_record.1 hx
    have hdistinct := (keysDistinct_record.1 (hvalues _ hmem)).2 _ hmem'
    have hfree := ((pointFree_record.1 hfree _ hmem).properties rfl _ hmem').2
    refine sameLookups_middle hkeys (by decide) (by cases first <;> rfl) (fun _ => .refl _)
      (fun _ => .flatMap_middle ?_ first last) (by simp)
    rw [← h.notesOf_eq hdistinct]
    exact (ih hdistinct).1 hfree _
  | @properties before after ps qs hperm =>
    intro hx
    refine ⟨fun hfree context => ?_, fun _ _ => .refl _⟩
    have hmem : (Atom.string "properties", Datum.record ps) ∈
      before ++ (.string "properties", .record ps) :: after := by simp
    obtain ⟨hkeys, hvalues⟩ := keysDistinct_record.1 hx
    have hinner := (keysDistinct_record.1 (hvalues _ hmem)).1
    have hsegments := (pointFree_record.1 hfree _ hmem).properties rfl
    have hgiven : (Datum.record ps).isGiven = (Datum.record qs).isGiven := by
      rw [isGiven, isGiven, hperm.isEmpty_eq]
    refine sameLookups_middle hkeys (by decide) hgiven (fun _ => .refl _)
      (fun _ => .flatMap_perm hperm fun a ha b hb d hd e he hpath => ?_) (by simp)
    refine List.inj_on_of_nodup_map hinner ha hb ?_
    exact eq_of_mem_described (hsegments a ha).1 (hsegments b hb).1 hd he hpath

end Datum

/-! ## Facets -/

/-- Facets that differ in the order in which they, and the properties of their schemas, are
written. -/
inductive FacetsReordered : List (Atom × Datum) → List (Atom × Datum) → Prop
  | trans {F G H : List (Atom × Datum)} (h : FacetsReordered F G) (h' : FacetsReordered G H) :
      FacetsReordered F H
  /-- The facets are written in another order. -/
  | perm {F G : List (Atom × Datum)} (h : F.Perm G) : FacetsReordered F G
  /-- The schema of a facet is reordered. -/
  | schema (first last before after : List (Atom × Datum)) (name : Atom) {x y : Datum}
      (h : x.Reordered y) : FacetsReordered
        (first ++ (name, .record (before ++ (.string "schema", x) :: after)) :: last)
        (first ++ (name, .record (before ++ (.string "schema", y) :: after)) :: last)

/-- No key is repeated, and the names of the facets and the keys of their properties are single
segments of paths. -/
structure FacetsPlain (facets : List (Atom × Datum)) : Prop where
  distinct : (Datum.record facets).keysDistinct = true
  names : ∀ facet ∈ facets, facet.1.isSegment = true
  properties : ∀ facet ∈ facets, ∀ schema ∈ facet.2.get? "schema", schema.pointFree = true

variable {F G : List (Atom × Datum)} {base : String}

theorem FacetsReordered.plain (h : FacetsReordered F G) : FacetsPlain F → FacetsPlain G := by
  induction h with
  | trans _ _ ih ih' => exact ih' ∘ ih
  | perm hperm =>
    rintro ⟨hdistinct, hnames, hproperties⟩
    refine ⟨?_, fun facet hfacet => ?_, fun facet hfacet => ?_⟩
    · rw [Datum.keysDistinct_record] at hdistinct ⊢
      exact ⟨(hperm.map Prod.fst).nodup_iff.1 hdistinct.1, fun entry hentry =>
        hdistinct.2 entry (hperm.mem_iff.2 hentry)⟩
    · exact hnames facet (hperm.mem_iff.2 hfacet)
    · exact hproperties facet (hperm.mem_iff.2 hfacet)
  | schema first last before after name h =>
    rintro ⟨hdistinct, hnames, hproperties⟩
    simp only [Datum.keysDistinct_record, List.map_append, List.map_cons, List.forall_mem_append,
      List.forall_mem_cons] at hdistinct hnames hproperties
    obtain ⟨hfacets, hfirst, ⟨hkeys, hbefore, hx, hafter⟩, hlast⟩ := hdistinct
    obtain ⟨hproperties, hfree, hproperties'⟩ := hproperties
    rw [get?_middle (by simpa using hkeys), if_pos rfl] at hfree
    refine ⟨?_, ?_, ?_⟩
    · simp only [Datum.keysDistinct_record, List.map_append, List.map_cons, List.forall_mem_append,
        List.forall_mem_cons]
      exact ⟨hfacets, hfirst, ⟨hkeys, hbefore, h.keysDistinct hx, hafter⟩, hlast⟩
    · simpa only [List.forall_mem_append, List.forall_mem_cons] using hnames
    · simp only [List.forall_mem_append, List.forall_mem_cons]
      rw [get?_middle (by simpa using hkeys), if_pos rfl]
      refine ⟨hproperties, ?_, hproperties'⟩
      rintro schema ⟨⟩
      exact h.pointFree.1 (hfree _ rfl)

/-- The path of every variable of a facet continues the base by a path that is relative to the name
of the facet. -/
theorem path_of_mem_facetVariables {name : String} {facet : Datum} {d : Definition}
    (h : d ∈ facetVariables base name facet) :
    ∃ tail, Path.isRelativeTo name tail = true ∧ d.path = base ++ "." ++ tail := by
  obtain ⟨inner, type, notes, ⟨-, hbase, keys, -, -, hkeys, -⟩, rfl⟩ :=
    saidBelow_of_mem_facetVariables h
  have hstart : base ++ "." ++ name ++ ".value" = base ++ "." ++ (name ++ "." ++ "value") := by
    simp only [String.append_assoc]
    rfl
  refine ⟨name ++ "." ++ ".".intercalate ("value" :: keys), ?_, ?_⟩
  · rw [Path.isRelativeTo, Path.after?_append]
    simp
  · rw [FacetContext.definition, FacetContext.path, hbase, hkeys, ← String.intercalate_cons_append]
    simp only [FacetContext.start, List.nil_append]
    rw [hstart, String.intercalate_cons_append]

/-- Reordered facets describe the same variables. -/
theorem FacetsReordered.sameLookups (h : FacetsReordered F G) : FacetsPlain F →
    SameLookups (F.flatMap fun (key, facet) => facetVariables base key.text facet)
      (G.flatMap fun (key, facet) => facetVariables base key.text facet) := by
  induction h with
  | trans h _ ih ih' => exact fun hplain => (ih hplain).trans (ih' (h.plain hplain))
  | perm hperm =>
    rintro ⟨hdistinct, hnames, -⟩
    rw [Datum.keysDistinct_record] at hdistinct
    refine .flatMap_perm hperm fun a ha b hb d hd e he hpath => ?_
    obtain ⟨tail, htail, hdpath⟩ := path_of_mem_facetVariables hd
    obtain ⟨tail', htail', hepath⟩ := path_of_mem_facetVariables he
    rw [hdpath, hepath, String.append_right_inj] at hpath
    refine List.inj_on_of_nodup_map hdistinct.1 ha hb ?_
    exact Atom.eq_of_isRelativeTo (hnames a ha) (hnames b hb) htail (hpath ▸ htail')
  | @schema first last before after name x y h =>
    rintro ⟨hdistinct, -, hproperties⟩
    refine .flatMap_middle ?_ first last
    have hmem : (name, Datum.record (before ++ (.string "schema", x) :: after)) ∈
      first ++ (name, .record (before ++ (.string "schema", x) :: after)) :: last := by simp
    obtain ⟨hkeys, hvalues⟩ :=
      Datum.keysDistinct_record.1 ((Datum.keysDistinct_record.1 hdistinct).2 _ hmem)
    have hx : x.keysDistinct = true := hvalues (.string "schema", x) (by simp)
    have hkeys' : ((before ++ (Atom.string "schema", y) :: after).map Prod.fst).Nodup := by
      simpa using hkeys
    have hfree : x.pointFree = true :=
      hproperties _ hmem x (by rw [get?_middle hkeys, if_pos rfl]; rfl)
    have hstart : FacetContext.start base name.text
        (.record (before ++ (.string "schema", x) :: after)) =
        .start base name.text (.record (before ++ (.string "schema", y) :: after)) := by
      simp [FacetContext.start, get?_middle hkeys, get?_middle hkeys']
    simp only [facetVariables_eq, hstart, get?_middle hkeys, get?_middle hkeys', if_true,
      Option.toList_some, List.flatMap_singleton]
    exact (h.sameLookups hx).1 hfree _

/-- **The order in which facets and properties are written does not matter**, as long as the names
of facets and the keys of properties have no points: the definitions are the same, in the same
order. -/
theorem facetDefinitions_reordered (base : String) (h : FacetsReordered F G) (hF : FacetsPlain F) :
    facetDefinitions F base = facetDefinitions G base :=
  (h.sameLookups hF).mergeSort_eq

/-- Two facets, one of which has two properties. -/
def twoFacets : List (Atom × Datum) :=
  [(.string "plan", .record [(.string "schema", .record [(.string "properties", .record [
      (.string "size", .record [(.string "type", .string "number")]),
      (.string "kind", .record [(.string "enum", .list [.string "text"])])])])]),
    (.string "risk", .record [(.string "schema", .record [(.string "type", .string "string")])])]

/-- The same facets, and the properties, the other way round. -/
def twoFacetsReversed : List (Atom × Datum) :=
  [(.string "risk", .record [(.string "schema", .record [(.string "type", .string "string")])]),
    (.string "plan", .record [(.string "schema", .record [(.string "properties", .record [
      (.string "kind", .record [(.string "enum", .list [.string "text"])]),
      (.string "size", .record [(.string "type", .string "number")])])])])]

theorem facetDefinitions_reordered_twoFacets :
    FacetsReordered twoFacets twoFacetsReversed ∧ FacetsPlain twoFacets ∧
      facetDefinitions twoFacets "ctx" = facetDefinitions twoFacetsReversed "ctx" := by
  have hreordered : FacetsReordered twoFacets twoFacetsReversed :=
    .trans (.perm (.swap _ _ [])) (.schema [_] [] [] [] _ (.properties [] [] (.swap _ _ [])))
  have hplain : FacetsPlain twoFacets := by
    refine ⟨rfl, ?_, ?_⟩
    · rintro facet (_ | ⟨_, _ | ⟨_, ⟨⟩⟩⟩) <;> rfl
    · rintro facet (_ | ⟨_, _ | ⟨_, ⟨⟩⟩⟩) schema ⟨⟩ <;> rfl
  exact ⟨hreordered, hplain, facetDefinitions_reordered "ctx" hreordered hplain⟩

end Criteria
