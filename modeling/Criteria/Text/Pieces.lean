/-!
# Separated texts

`pieces sep cs` is what stands between the separators of a text; joining the pieces again gives the
text (`intercalate_pieces`).
-/

namespace Criteria.Text

/-- The pieces between the separators of a text; there is one more than there are separators. -/
def pieces (sep : Char) : List Char → List (List Char)
  | [] => [[]]
  | c :: rest =>
    if c = sep then [] :: pieces sep rest
    else match pieces sep rest with
      | [] => [[c]]
      | first :: more => (c :: first) :: more

/-- Every text has a piece. -/
theorem pieces_ne_nil (sep : Char) (cs : List Char) : pieces sep cs ≠ [] := by
  cases cs with
  | nil => simp [pieces]
  | cons c rest =>
    by_cases h : c = sep
    · simp [pieces, h]
    · simp only [pieces, h, if_false]
      split <;> simp

/-- A text without separators is one piece. -/
theorem pieces_eq_singleton {sep : Char} {cs : List Char} (h : sep ∉ cs) :
    pieces sep cs = [cs] := by
  induction cs with
  | nil => rfl
  | cons c rest ih =>
    obtain ⟨hc, hrest⟩ := not_or.1 (mt List.mem_cons.2 h)
    rw [pieces, if_neg (Ne.symm hc), ih hrest]

/-- A separator ends the pieces before it. -/
theorem pieces_append (sep : Char) (cs ds : List Char) :
    pieces sep (cs ++ sep :: ds) = pieces sep cs ++ pieces sep ds := by
  induction cs with
  | nil => simp [pieces]
  | cons c rest ih =>
    by_cases h : c = sep
    · simp [pieces, h, ih]
    · cases hp : pieces sep rest with
      | nil => exact absurd hp (pieces_ne_nil sep rest)
      | cons first more => simp [pieces, h, ih, hp]

/-- Joining the pieces gives the text. -/
theorem intercalate_pieces (sep : Char) (cs : List Char) :
    [sep].intercalate (pieces sep cs) = cs := by
  induction cs with
  | nil => rfl
  | cons c rest ih =>
    have hne := pieces_ne_nil sep rest
    by_cases h : c = sep
    · cases hp : pieces sep rest with
      | nil => exact absurd hp hne
      | cons first more =>
        rw [hp] at ih
        simp only [pieces, h, if_true, hp]
        simpa [List.intercalate] using ih
    · cases hp : pieces sep rest with
      | nil => exact absurd hp hne
      | cons first more =>
        rw [hp] at ih
        cases more <;> simp_all [pieces, List.intercalate, List.intersperse]

end Criteria.Text
