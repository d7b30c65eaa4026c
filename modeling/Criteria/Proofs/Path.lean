import Mathlib.Data.List.TakeWhile
import Criteria.Path

/-!
# Paths and their parts

A path that is relative to an alias is the alias, or the alias, a point and what follows it
(`Path.cases_of_isRelativeTo`). It is relative to one alias at most, as long as aliases have no
points (`Path.eq_of_isRelativeTo`).
-/

namespace Criteria.Path

/-! ## What follows a name -/

theorem after?_append (name rest : String) : after? name (name ++ "." ++ rest) = some rest := by
  have hhead : (name.toList ++ ['.']).isPrefixOf (name ++ "." ++ rest).toList = true :=
    List.isPrefixOf_iff_prefix.2 ⟨rest.toList, by simp⟩
  rw [after?, if_pos hhead]
  simp

theorem eq_of_after? {name path rest : String} (h : after? name path = some rest) :
    path = name ++ "." ++ rest := by
  rw [after?, Option.ite_none_right_eq_some, Option.some.injEq] at h
  obtain ⟨hstarts, rfl⟩ := h
  obtain ⟨more, hmore⟩ := List.isPrefixOf_iff_prefix.1 hstarts
  rw [← String.toList_inj, ← hmore]
  simp

theorem append_ne_self (name rest : String) : name ++ "." ++ rest ≠ name := by
  intro h
  have hlength := congrArg (fun s : String => s.toList.length) h
  simp at hlength

/-- A path that is relative to an alias is the alias, or continues it. -/
theorem cases_of_isRelativeTo {name path : String} (h : isRelativeTo name path = true) :
    path = name ∨ ∃ rest, after? name path = some rest ∧ path = name ++ "." ++ rest := by
  rw [isRelativeTo, Bool.or_eq_true, decide_eq_true_eq, Option.isSome_iff_exists] at h
  exact h.imp_right fun ⟨rest, hrest⟩ => ⟨rest, hrest, eq_of_after? hrest⟩

theorem isRelativeTo_iff {name path : String} :
    isRelativeTo name path = true ↔
      path = name ∨ ∃ rest, path.toList = name.toList ++ '.' :: rest := by
  constructor
  · intro h
    refine (cases_of_isRelativeTo h).imp_right ?_
    rintro ⟨rest, -, rfl⟩
    exact ⟨rest.toList, by simp⟩
  · rintro (rfl | ⟨rest, hrest⟩)
    · simp [isRelativeTo]
    · have hpath : path = name ++ "." ++ String.ofList rest := by
        rw [← String.toList_inj, hrest]
        simp
      rw [isRelativeTo, hpath, after?_append, Option.isSome_some, Bool.or_true]

/-- A path that is relative to an alias without points starts with it as its first segment. -/
theorem takeWhile_of_isRelativeTo {name path : String} (hdot : '.' ∉ name.toList)
    (h : isRelativeTo name path = true) :
    path.toList.takeWhile (· != '.') = name.toList := by
  have hname : ∀ c ∈ name.toList, (c != '.') = true := fun c hc => by
    rw [bne_iff_ne]
    rintro rfl
    exact hdot hc
  rcases isRelativeTo_iff.1 h with rfl | ⟨rest, hrest⟩
  · exact List.takeWhile_eq_self_iff.2 hname
  · rw [hrest, List.takeWhile_append_of_pos hname]
    simp

/-- **A path is relative to one alias at most** among aliases without points. -/
theorem eq_of_isRelativeTo {name name' path : String} (hdot : '.' ∉ name.toList)
    (hdot' : '.' ∉ name'.toList) (h : isRelativeTo name path = true)
    (h' : isRelativeTo name' path = true) : name = name' :=
  String.toList_inj.1
    ((takeWhile_of_isRelativeTo hdot h).symm.trans (takeWhile_of_isRelativeTo hdot' h'))

/-! ## Segments -/

/-- What follows a name contributes its segments to a path. -/
theorem segments_append (name rest : String) :
    segments (name ++ "." ++ rest) = segments name ++ segments rest := by
  have hlist : (name ++ "." ++ rest).toList = name.toList ++ '.' :: rest.toList := by simp
  rw [segments, hlist, Text.pieces_append, List.map_append]
  rfl

/-- A text without points is one segment. -/
theorem segments_eq_singleton {segment : String} (h : '.' ∉ segment.toList) :
    segments segment = [segment] := by
  rw [segments, Text.pieces_eq_singleton h, List.map_singleton, String.ofList_toList]

theorem segments_subset_of_after? {name path rest : String} (h : after? name path = some rest) :
    segments rest ⊆ segments path := by
  rw [eq_of_after? h, segments_append]
  exact List.subset_append_right _ _

end Criteria.Path
