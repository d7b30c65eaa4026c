/-!
# The first item for every key

`firstsBy key items` keeps, for every key, the first item that has it, and `repeatsBy` lists the
keys of the items left out. What is kept is looked up by key as before (`find?_firstsBy`), under
distinct keys (`nodup_map_firstsBy`); an item is kept when its key leads to it (`mem_firstsBy_iff`),
and nothing is left out when the keys are distinct already (`firstsBy_eq_self`,
`repeatsBy_eq_nil`).
-/

namespace Criteria

variable {α : Type}

/-- The items whose key no item before them has, in order. -/
def firstsBy (key : α → String) : List α → List α
  | [] => []
  | item :: rest => item :: (firstsBy key rest).filter fun other => key other ≠ key item

/-- The keys of the items that `firstsBy` leaves out, in order, when the keys `seen` come before. -/
def repeatsBy (key : α → String) (seen : List String) : List α → List String
  | [] => []
  | item :: rest =>
    if seen.contains (key item) then key item :: repeatsBy key seen rest
    else repeatsBy key (key item :: seen) rest

/-- The items kept are among the items, in order. -/
theorem firstsBy_sublist (key : α → String) (items : List α) :
    (firstsBy key items).Sublist items := by
  induction items with
  | nil => exact .slnil
  | cons item rest ih => exact (List.filter_sublist.trans ih).cons_cons item

/-- Something is kept when there is something. -/
theorem firstsBy_eq_nil {key : α → String} {items : List α} :
    firstsBy key items = [] ↔ items = [] := by
  cases items <;> simp [firstsBy]

/-- No key is kept twice. -/
theorem nodup_map_firstsBy (key : α → String) (items : List α) :
    ((firstsBy key items).map key).Nodup := by
  induction items with
  | nil => exact List.nodup_nil
  | cons item rest ih =>
    refine List.nodup_cons.2 ⟨?_, ih.sublist (List.filter_sublist.map key)⟩
    simp

/-- The item that a key leads to is kept. -/
theorem find?_firstsBy (key : α → String) (k : String) (items : List α) :
    (firstsBy key items).find? (key · = k) = items.find? (key · = k) := by
  induction items with
  | nil => rfl
  | cons item rest ih =>
    by_cases h : key item = k
    · simp [firstsBy, h]
    · rw [firstsBy, List.find?_cons_of_neg (by simpa using h),
        List.find?_cons_of_neg (by simpa using h), List.find?_filter, ← ih]
      congr 1
      funext other
      by_cases ho : key other = k
      · simp [ho, Ne.symm h]
      · simp [ho]

/-- An item is kept when its key leads to it. -/
theorem mem_firstsBy_iff {key : α → String} {items : List α} {item : α} :
    item ∈ firstsBy key items ↔ items.find? (key · = key item) = some item := by
  induction items with
  | nil => simp [firstsBy]
  | cons first rest ih =>
    rw [firstsBy, List.mem_cons, List.mem_filter, ih]
    by_cases h : key first = key item
    · simp [h, eq_comm]
    · rw [List.find?_cons_of_neg (by simpa using h)]
      have hne : item ≠ first := fun heq => h (heq ▸ rfl)
      simp [hne, Ne.symm h]

/-- Items can be exchanged for others with the same keys before or afterwards. -/
theorem firstsBy_map {β : Type} (key : β → String) (f : α → β) (items : List α) :
    firstsBy key (items.map f) = (firstsBy (key ∘ f) items).map f := by
  induction items with
  | nil => rfl
  | cons item rest ih =>
    rw [List.map_cons, firstsBy, ih, firstsBy, List.map_cons, List.filter_map]
    rfl

/-- Every key is kept. -/
theorem mem_map_firstsBy {key : α → String} {k : String} {items : List α} :
    k ∈ (firstsBy key items).map key ↔ k ∈ items.map key := by
  induction items with
  | nil => rfl
  | cons item rest ih =>
    rw [firstsBy, List.map_cons, List.map_cons, List.mem_cons, List.mem_cons, ← ih]
    by_cases h : k = key item
    · simp [h]
    · simp only [h, false_or, List.mem_map, List.mem_filter, decide_eq_true_eq]
      refine exists_congr fun other => ⟨fun ⟨hother, hkey⟩ => ⟨hother.1, hkey⟩, ?_⟩
      rintro ⟨hother, rfl⟩
      exact ⟨⟨hother, h⟩, rfl⟩

/-- A last item is kept when no item before it has its key. -/
theorem firstsBy_concat (key : α → String) (items : List α) (item : α) :
    firstsBy key (items ++ [item]) =
      if key item ∈ items.map key then firstsBy key items else firstsBy key items ++ [item] := by
  induction items with
  | nil => rfl
  | cons first rest ih =>
    rw [List.cons_append, firstsBy, ih, List.map_cons, firstsBy]
    by_cases hfirst : key item = key first
    · split <;> simp [hfirst]
    · have hmem : key item ∈ key first :: rest.map key ↔ key item ∈ rest.map key := by
        rw [List.mem_cons, or_iff_right hfirst]
      simp only [hmem]
      split
      · rfl
      · rw [List.filter_append, List.filter_cons_of_pos (by simpa using hfirst), List.filter_nil,
          List.cons_append]

/-- The items kept come before the others with their keys. -/
theorem rel_of_mem_firstsBy {key : α → String} {R : α → α → Prop} {items : List α}
    (h : items.Pairwise R) {item other : α} (hitem : item ∈ firstsBy key items)
    (hother : other ∈ items) (hkey : key other = key item) : item = other ∨ R item other := by
  induction items with
  | nil => cases hother
  | cons first rest ih =>
    obtain ⟨hfirst, hrest⟩ := List.pairwise_cons.1 h
    rcases List.mem_cons.1 hitem with rfl | hitem
    · rcases List.mem_cons.1 hother with rfl | hother
      · exact .inl rfl
      · exact .inr (hfirst other hother)
    · obtain ⟨hitem, hne⟩ := List.mem_filter.1 hitem
      rcases List.mem_cons.1 hother with rfl | hother
      · exact absurd hkey.symm (by simpa using hne)
      · exact ih hrest hitem hother

/-- Items with distinct keys are all kept. -/
theorem firstsBy_eq_self {key : α → String} {items : List α} (h : (items.map key).Nodup) :
    firstsBy key items = items := by
  induction items with
  | nil => rfl
  | cons item rest ih =>
    rw [List.map_cons, List.nodup_cons] at h
    rw [firstsBy, ih h.2, List.filter_eq_self.2]
    intro other ho
    simp only [ne_eq, decide_not, Bool.not_eq_eq_eq_not, Bool.not_true, decide_eq_false_iff_not]
    intro heq
    exact h.1 (List.mem_map.2 ⟨other, ho, heq⟩)

/-- Of items with distinct keys none is left out. -/
theorem repeatsBy_eq_nil {key : α → String} {seen : List String} {items : List α}
    (h : (items.map key).Nodup) (hseen : ∀ item ∈ items, key item ∉ seen) :
    repeatsBy key seen items = [] := by
  induction items generalizing seen with
  | nil => rfl
  | cons item rest ih =>
    obtain ⟨hitem, hrest⟩ := List.nodup_cons.1 h
    have hnew : ¬seen.contains (key item) = true := by
      rw [List.contains_iff_mem]
      exact hseen item (List.mem_cons_self ..)
    rw [repeatsBy, if_neg hnew]
    refine ih hrest fun other hother hmem => ?_
    rcases List.mem_cons.1 hmem with heq | hmem
    · exact hitem (List.mem_map.2 ⟨other, hother, heq⟩)
    · exact hseen other (List.mem_cons_of_mem _ hother) hmem

end Criteria
