import Criteria.Datum.Moment

/-!
# Timestamps

A plain scalar that is a day, as `2024-01-15`, or a time, as `2024-01-15 10:00:00.5 +01:00`. A day
alone has two digits for month and day; a time may have fewer for month, day and hour, a `T` in
place of the blanks before it, a fraction of a second, and an offset from universal time, which is
`Z` or signed hours with or without minutes. `Yaml.timestamp?` reads the spelling.
-/

namespace Criteria.Yaml

/-- The number that a run of digits at the front denotes, the longest of at most `most` digits, and
the rest; there are at least `least` digits. -/
def digitRun? (least most : Nat) (cs : List Char) : Option (Nat × List Char) :=
  let run := (cs.take most).takeWhile Char.isDigit
  if least ≤ run.length then some (Nat.ofDigitChars 10 run 0, cs.drop run.length) else none

/-- What follows a character that comes first. -/
def after? (c : Char) : List Char → Option (List Char)
  | first :: rest => if first = c then some rest else none
  | [] => none

/-- A space or a tab. -/
def isSpaceOrTab (c : Char) : Bool := c = ' ' || c = '\t'

/-- What follows the separator of day and time: a letter, or blanks. -/
def afterSeparator? : List Char → Option (List Char)
  | 'T' :: rest => some rest
  | 't' :: rest => some rest
  | c :: rest => if isSpaceOrTab c then some (rest.dropWhile isSpaceOrTab) else none
  | [] => none

/-- The millionths of a second that a fraction of a second gives, and the rest; digits beyond the
sixth do not count. -/
def fraction : List Char → Nat × List Char
  | '.' :: rest =>
    let run := rest.takeWhile Char.isDigit
    let places := run.take 6
    (Nat.ofDigitChars 10 places 0 * Nat.pow 10 (6 - places.length), rest.drop run.length)
  | cs => (0, cs)

/-- The minutes that an offset after its sign gives; nothing follows. -/
def offsetSize? (cs : List Char) : Option Int := do
  let (hours, rest) ← digitRun? 1 2 cs
  match rest with
  | [] => return hours * 60
  | _ =>
    let (minutes, rest) ← digitRun? 2 2 (← after? ':' rest)
    guard rest.isEmpty
    return hours * 60 + minutes

/-- The offset in minutes at the end of a time, when there is one. -/
def offset? (cs : List Char) : Option (Option Int) :=
  match cs, cs.dropWhile isSpaceOrTab with
  | [], _ => some none
  | _, ['Z'] => some (some 0)
  | _, '+' :: rest => (offsetSize? rest).map some
  | _, '-' :: rest => (offsetSize? rest).map fun minutes => some (-minutes)
  | _, _ => none

/-- The moment that a spelling denotes, or what is out of range in it. The offset is judged before
the day, and the day before the time. -/
def timestamp? (cs : List Char) : Option (Except MomentFault Moment) := do
  let (year, rest) ← digitRun? 4 4 cs
  let (month, rest) ← digitRun? 1 2 (← after? '-' rest)
  let (day, rest) ← digitRun? 1 2 (← after? '-' rest)
  if rest.isEmpty then
    guard (cs.length = 10)
    return (Date.ofParts year month day).map .day
  else
    let (hour, rest) ← digitRun? 1 2 (← afterSeparator? rest)
    let (minute, rest) ← digitRun? 2 2 (← after? ':' rest)
    let (second, rest) ← digitRun? 2 2 (← after? ':' rest)
    let (micro, rest) := fraction rest
    let minutes ← offset? rest
    return do
      let offset ← minutes.mapM Offset.ofMinutes
      return .time (← Date.ofParts year month day) (← Clock.ofParts hour minute second micro) offset

end Criteria.Yaml
