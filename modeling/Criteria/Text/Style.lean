/-!
# Style sequences

A terminal takes an escape character, an opening bracket, parameters and a letter as a change of
style. `withoutStyles` is a text without such sequences, as it is printed where styles mean nothing.
-/

namespace Criteria.Text

/-- A character of the parameters of a style sequence. -/
def isStyleParameter (c : Char) : Bool := c.isDigit || c = ';' || c = '?'

/-- The length of the style sequence at the front. -/
def styleLength? : List Char → Option Nat
  | '\x1b' :: '[' :: rest =>
    let parameters := rest.takeWhile isStyleParameter
    match rest.drop parameters.length with
    | c :: _ => if c.isAlpha then some (parameters.length + 3) else none
    | [] => none
  | _ => none

/-- The characters without style sequences. What is left may look like one and is kept. -/
def withoutStyles (cs : List Char) : List Char :=
  match cs with
  | [] => []
  | c :: rest =>
    match styleLength? (c :: rest) with
    | some length => withoutStyles (rest.drop (length - 1))
    | none => c :: withoutStyles rest
termination_by cs.length
decreasing_by
  · simp only [List.length_drop, List.length_cons]; omega
  · exact Nat.lt_succ_self _

/-- The text without style sequences. -/
def plain (s : String) : String := String.ofList (withoutStyles s.toList)

end Criteria.Text
