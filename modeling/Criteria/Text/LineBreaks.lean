/-!
# Line breaks of files

Files end their lines with a line feed, a carriage return, or both; readers see line feeds.
-/

namespace Criteria.Text

/-- The characters with a line feed for every carriage return, and one for every carriage return
that a line feed follows. -/
def unifyBreaks : List Char → List Char
  | [] => []
  | '\r' :: '\n' :: rest => '\n' :: unifyBreaks rest
  | '\r' :: rest => '\n' :: unifyBreaks rest
  | c :: rest => c :: unifyBreaks rest

end Criteria.Text
