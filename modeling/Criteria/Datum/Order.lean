import Criteria.Datum.Basic

/-!
# Order and distinctness of data

Numbers, strings, days and times are ordered among their own kind, and lists item by item; other
data has no order. Two equalities go with this: alike data counts truth values as numbers, as the
order does, and equal data does not.

`Datum.allDistinct` says whether some data holds no two equal items. Items that can be sorted are
sorted, and only neighbours are compared then; all pairs are compared where no order puts the items
in a row. As the order does not tell truth values from numbers, sorting may keep equal items apart
by an item that is only like them, and these count as distinct.
-/

namespace Criteria

namespace Atom

/-- How two numbers compare; NaN compares with nothing. -/
def compareNumbers? : Scalar → Scalar → Option Ordering
  | .int a, .int b => some (compare a b)
  | .int a, .double b => (b.compareInt? a).map Ordering.swap
  | .double a, .int b => a.compareInt? b
  | .double a, .double b => a.compare? b
  | _, _ => none

/-- The value is a number. -/
def isNumber : Scalar → Bool
  | .int _ => true
  | .double _ => true
  | _ => false

/-- Whether an atom comes before another; atoms of different kinds have no order. -/
def before? (a b : Atom) : Option Bool :=
  match a.counted, b.counted with
  | .string s, .string t => some (decide (s < t))
  | .scalar x, .scalar y =>
    if isNumber x && isNumber y then some (compareNumbers? x y == some .lt) else none
  | .moment x, .moment y => x.before? y
  | _, _ => none

/-- The atom is a truth value. -/
def isBool : Atom → Bool
  | .scalar (.bool _) => true
  | _ => false

/-- The atoms are equal: alike, and both truth values or neither. -/
def same (a b : Atom) : Bool := a.alike b && a.isBool == b.isBool

end Atom

namespace Datum

mutual

/-- Equality item by item and key by key, where atoms are compared as given. -/
def equalBy (eq : Atom → Atom → Bool) : Datum → Datum → Bool
  | .atom a, .atom b => eq a b
  | .list xs, .list ys => equalItems eq xs ys
  | .record xs, .record ys => xs.length == ys.length && equalEntries eq xs ys
  | _, _ => false

/-- Equality of items, place by place. -/
def equalItems (eq : Atom → Atom → Bool) : List Datum → List Datum → Bool
  | [], [] => true
  | x :: xs, y :: ys => equalBy eq x y && equalItems eq xs ys
  | _, _ => false

/-- Every entry of the first record has one like it in the second, with an equal value. -/
def equalEntries (eq : Atom → Atom → Bool) : List (Atom × Datum) → List (Atom × Datum) → Bool
  | [], _ => true
  | (key, x) :: rest, ys =>
    (match ys.find? fun entry => entry.1.alike key with
      | some (_, y) => equalBy eq x y
      | none => false) && equalEntries eq rest ys

end

/-- Equality with truth values counted as numbers. -/
def alike : Datum → Datum → Bool := equalBy Atom.alike

/-- Equality that tells truth values from numbers. -/
def same : Datum → Datum → Bool := equalBy Atom.same

mutual

/-- Whether data comes before other data; data of different kinds has no order. -/
def before? : Datum → Datum → Option Bool
  | .atom a, .atom b => a.before? b
  | .list xs, .list ys => itemsBefore? xs ys
  | _, _ => none

/-- Whether a list comes before another: by the first items that are not alike, and otherwise by
length. -/
def itemsBefore? : List Datum → List Datum → Option Bool
  | _, [] => some false
  | [], _ :: _ => some true
  | x :: xs, y :: ys => if x.alike y then itemsBefore? xs ys else before? x y

end

/-! ## Sorting -/

/-- The length of the run at the front in which every item after the first comes before its
predecessor, when `falling`, or does not, otherwise; the predecessor of the first is given. -/
def runLength? (falling : Bool) (previous : Datum) : List Datum → Option Nat
  | [] => some 0
  | item :: rest => do
    if (← item.before? previous) == falling then return (← runLength? falling item rest) + 1
    else return 0

/-- The place of an item among sorted ones, found by halving: after all that do not come after
it. -/
def place? (sorted : Array Datum) (item : Datum) (lo hi : Nat) (inside : hi ≤ sorted.size) :
    Option Nat :=
  if h : lo < hi then
    let mid := (lo + hi) / 2
    match item.before? sorted[mid] with
    | none => none
    | some true => place? sorted item lo mid (by omega)
    | some false => place? sorted item (mid + 1) hi inside
  else some lo
termination_by hi - lo

/-- Adds items to sorted ones, each at its place. -/
def insertAll? (sorted : Array Datum) : List Datum → Option (Array Datum)
  | [] => some sorted
  | item :: rest => do
    let place ← place? sorted item 0 sorted.size (Nat.le_refl _)
    insertAll? (sorted.take place ++ #[item] ++ sorted.drop place) rest

/-- The items in order, equal ones as they stood, when they can be ordered. A run at the front
that is in order, or in reverse order, is kept or reversed; the others are added to it. -/
def sort? : List Datum → Option (List Datum)
  | first :: second :: rest => do
    let falling ← second.before? first
    let length := (← runLength? falling second rest) + 2
    let run := (first :: second :: rest).take length
    let sorted ← insertAll? (if falling then run.reverse else run).toArray
      ((first :: second :: rest).drop length)
    return sorted.toList
  | items => some items

/-! ## Distinctness -/

/-- The item is a truth value; no order puts such items in a row. -/
def isBool : Datum → Bool
  | .atom a => a.isBool
  | _ => false

/-- No two neighbours are equal. -/
def neighboursDistinct : List Datum → Bool
  | x :: y :: rest => !x.same y && neighboursDistinct (y :: rest)
  | _ => true

/-- No two items are equal. -/
def pairsDistinct : List Datum → Bool
  | [] => true
  | item :: rest => !(rest.any fun other => item.same other) && pairsDistinct rest

/-- No two items are found equal. -/
def allDistinct (items : List Datum) : Bool :=
  if items.any isBool then pairsDistinct items
  else match sort? items with
    | some sorted => neighboursDistinct sorted
    | none => pairsDistinct items

end Datum

end Criteria
