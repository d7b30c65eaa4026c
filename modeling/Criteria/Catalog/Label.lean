import Criteria.Text.Blank
import Criteria.Text.UpperCase

/-!
# Labels from names

`Label.ofName` spells a name out for people: `planKnobs` and `plan_knobs` become `Plan Knobs`.
-/

namespace Criteria.Label

/-- A name with a blank for every underscore and hyphen, and before every ASCII capital letter that
follows a small ASCII letter or a digit. -/
def expand : List Char → List Char
  | [] => []
  | c :: rest =>
    let shown := if c = '_' ∨ c = '-' then ' ' else c
    match rest with
    | next :: _ =>
      if (c.isLower || c.isDigit) && next.isUpper then shown :: ' ' :: expand rest
      else shown :: expand rest
    | [] => [shown]

/-- A word with its first letter in upper case. -/
def capitalize : List Char → List Char
  | [] => []
  | c :: rest => Text.upperChar c ++ rest

/-- The label for a name. -/
def ofName (name : String) : String :=
  " ".intercalate ((Text.words (expand name.toList)).map fun word => String.ofList (capitalize word))

end Criteria.Label
