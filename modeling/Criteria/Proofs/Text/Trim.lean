import Criteria.Text.Blank
import Mathlib.Data.List.TakeWhile

/-!
# Blanks around a text

`Text.strip` takes the blanks at either end of a text away, and nothing else (`Text.exists_strip`).
`Text.IsTrimmed` says the same without the function: what is left begins and ends with characters
that are not blank (`Text.isTrimmed_strip`). Where anything is left, it is what `Text.strip` leaves
(`Text.IsTrimmed.strip_eq`).
-/

namespace Criteria.Text

/-- The blanks at the front of a text. -/
def front (text : String) : List Char := text.toList.takeWhile isBlank

/-- Behind what `strip` leaves, only blanks follow. -/
theorem exists_strip_append (text : String) :
    ∃ behind, text.toList.dropWhile isBlank = (strip text).toList ++ behind ∧
      ∀ b ∈ behind, isBlank b = true := by
  have hstrip : (strip text).toList =
      ((text.toList.dropWhile isBlank).reverse.dropWhile isBlank).reverse := String.toList_ofList
  refine ⟨((text.toList.dropWhile isBlank).reverse.takeWhile isBlank).reverse, ?_, ?_⟩
  · rw [hstrip, ← List.reverse_append, List.takeWhile_append_dropWhile, List.reverse_reverse]
  · intro b hb
    exact List.mem_takeWhile_imp (List.mem_reverse.1 hb)

/-- A text is what `strip` leaves of it, between the blanks at its front and others. -/
theorem exists_strip (text : String) :
    ∃ behind, text.toList = front text ++ ((strip text).toList ++ behind) ∧
      (∀ b ∈ front text, isBlank b = true) ∧ ∀ b ∈ behind, isBlank b = true := by
  obtain ⟨behind, htext, hbehind⟩ := exists_strip_append text
  refine ⟨behind, ?_, fun b hb => List.mem_takeWhile_imp hb, hbehind⟩
  rw [front, ← htext, List.takeWhile_append_dropWhile]

/-- What is left of a text is blank only when the text is. -/
theorem allBlank_strip {text : String} (h : allBlank text = false) :
    allBlank (strip text) = false := by
  obtain ⟨behind, htext, hfront, hbehind⟩ := exists_strip text
  rw [← Bool.not_eq_true] at h ⊢
  intro hstrip
  refine h (List.all_eq_true.2 ?_)
  rw [htext]
  intro c hc
  rcases List.mem_append.1 hc with hc | hc
  · exact hfront c hc
  · rcases List.mem_append.1 hc with hc | hc
    · exact List.all_eq_true.1 hstrip c hc
    · exact hbehind c hc

/-! ## What is left, without the function -/

/-- A text is another one with blanks around it, which itself begins and ends with none. -/
structure IsTrimmed (cs trimmed : List Char) : Prop where
  around : ∃ before behind, cs = before ++ (trimmed ++ behind) ∧
    (∀ c ∈ before, isBlank c = true) ∧ ∀ c ∈ behind, isBlank c = true
  head : ∀ c ∈ trimmed.head?, isBlank c = false
  last : ∀ c ∈ trimmed.getLast?, isBlank c = false

theorem isBlank_head?_dropWhile {cs : List Char} {c : Char}
    (h : c ∈ (cs.dropWhile isBlank).head?) : isBlank c = false := by
  have hnot := List.head?_dropWhile_not isBlank cs
  rw [Option.mem_def.1 h] at hnot
  exact hnot

/-- Nothing is dropped from a text that does not begin with a blank. -/
theorem dropWhile_isBlank {cs : List Char} (h : ∀ c ∈ cs.head?, isBlank c = false) :
    cs.dropWhile isBlank = cs := by
  cases cs with
  | nil => rfl
  | cons c rest => rw [List.dropWhile_cons, h c rfl, if_neg Bool.false_ne_true]

theorem isTrimmed_strip (text : String) : IsTrimmed text.toList (strip text).toList := by
  obtain ⟨behind, htext, hfront, hbehind⟩ := exists_strip text
  refine ⟨⟨_, behind, htext, hfront, hbehind⟩, fun c hc => ?_, fun c hc => ?_⟩
  · obtain ⟨behind', htail, -⟩ := exists_strip_append text
    have hmem : c ∈ (text.toList.dropWhile isBlank).head? := by
      rw [htail, List.head?_append, Option.mem_def.1 hc]
      rfl
    exact isBlank_head?_dropWhile hmem
  · have hstrip : (strip text).toList =
        ((text.toList.dropWhile isBlank).reverse.dropWhile isBlank).reverse :=
      String.toList_ofList
    rw [hstrip, List.getLast?_reverse] at hc
    exact isBlank_head?_dropWhile hc

section

variable {text trimmed : String}

/-- Anything that is left is not blank. -/
theorem IsTrimmed.allBlank_eq_false (h : IsTrimmed text.toList trimmed.toList)
    (hne : trimmed ≠ "") : allBlank text = false := by
  obtain ⟨before, behind, htext, -, -⟩ := h.around
  rw [← Bool.not_eq_true]
  intro hall
  cases hchars : trimmed.toList with
  | nil => exact hne (String.toList_eq_nil_iff.1 hchars)
  | cons c rest =>
    have hblank : isBlank c = true := by
      refine List.all_eq_true.1 hall c ?_
      rw [htext, hchars]
      simp
    rw [h.head c (by rw [hchars]; rfl)] at hblank
    cases hblank

/-- Anything that is left is what `strip` leaves. -/
theorem IsTrimmed.strip_eq (h : IsTrimmed text.toList trimmed.toList) (hne : trimmed ≠ "") :
    strip text = trimmed := by
  obtain ⟨before, behind, htext, hbefore, hbehind⟩ := h.around
  have hchars : trimmed.toList ≠ [] := mt String.toList_eq_nil_iff.1 hne
  have hhead : ∀ c ∈ (trimmed.toList ++ behind).head?, isBlank c = false := by
    intro c hc
    rw [List.head?_append, Option.or_of_isSome (List.isSome_head?.2 hchars)] at hc
    exact h.head c hc
  have hlast : ∀ c ∈ trimmed.toList.reverse.head?, isBlank c = false := by
    rw [List.head?_reverse]
    exact h.last
  have htrim : trimBlank text.toList = trimmed.toList := by
    rw [trimBlank, trim, htext, List.dropWhile_append_of_pos hbefore, dropWhile_isBlank hhead,
      List.reverse_append,
      List.dropWhile_append_of_pos fun c hc => hbehind c (List.mem_reverse.1 hc),
      dropWhile_isBlank hlast, List.reverse_reverse]
  rw [strip, htrim, String.ofList_toList]

end

end Criteria.Text
