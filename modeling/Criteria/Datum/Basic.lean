import Criteria.Datum.Moment
import Criteria.Json.Inspect

/-!
# What documents hold

A `Datum` is a value of a document: an atom, a list or a record. There is more of it than of JSON:
an atom may be a day or a time, and the key of a record may be any atom. Keys are one key when they
are alike: numbers of equal value are, and a truth value is like the number one or zero.

* `Datum.get?`, `Datum.insert`, `Datum.ofEntries`: a record as a finite map;
* `Datum.ofJson`, `Datum.toJson`: JSON as data, and back (`toJson_ofJson`);
* `Datum.inspect`, `Atom.text`: data in messages.
-/

namespace Criteria

/-- A value without parts. -/
inductive Atom
  | scalar (value : Scalar)
  | moment (value : Moment)
  deriving DecidableEq

namespace Atom

/-- A string. -/
@[match_pattern] abbrev string (value : String) : Atom := .scalar (.string value)

/-- An atom with a truth value counted as a number. -/
def counted : Atom → Atom
  | .scalar (.bool b) => .scalar (.int (if b then 1 else 0))
  | atom => atom

/-- The atoms are one key. -/
def alike (a b : Atom) : Bool :=
  match a.counted, b.counted with
  | .scalar x, .scalar y => x.same y || decide (x = y)
  | .moment x, .moment y => x.same y
  | _, _ => false

/-- An atom as a value in a message. -/
def inspect : Atom → String
  | .scalar value => Json.inspectScalar value
  | .moment value => value.inspect

/-- An atom for readers. -/
def text : Atom → String
  | .string s => s
  | .scalar value => Json.inspectScalar value
  | .moment value => value.text

/-- An atom as the name of an entry of a JSON object. -/
def name : Atom → String
  | .string s => s
  | .scalar .null => "null"
  | .scalar (.bool b) => if b then "true" else "false"
  | .scalar (.int n) => toString n
  | .scalar (.double d) => d.textWith "NaN" "Infinity"
  | .moment value => value.text

end Atom

/-- A value of a document. -/
inductive Datum
  /-- A value without parts. -/
  | atom (value : Atom)
  /-- Values in order. -/
  | list (items : List Datum)
  /-- Values under keys, no two of them alike. -/
  | record (entries : List (Atom × Datum))

namespace Datum

instance : Inhabited Datum := ⟨.atom (.scalar .null)⟩

/-- No value. -/
@[match_pattern] abbrev null : Datum := .atom (.scalar .null)

/-- A truth value. -/
@[match_pattern] abbrev bool (value : Bool) : Datum := .atom (.scalar (.bool value))

/-- A string. -/
@[match_pattern] abbrev string (value : String) : Datum := .atom (.scalar (.string value))

/-- The entries of a record; other data has none. -/
def entries : Datum → List (Atom × Datum)
  | .record entries => entries
  | _ => []

/-- The value under a name in a record. -/
def get? (datum : Datum) (name : String) : Option Datum := datum.entries.lookup (.string name)

/-- A string. -/
def asString? : Datum → Option String
  | .string s => some s
  | _ => none

/-- The items of a list. -/
def asList? : Datum → Option (List Datum)
  | .list items => some items
  | _ => none

/-- The datum counts as given: it is not null, false, zero, or an empty string, list or record. -/
def isGiven : Datum → Bool
  | .atom (.scalar value) => (Json.scalar value).isGiven
  | .atom (.moment _) => true
  | .list items => !items.isEmpty
  | .record entries => !entries.isEmpty

/-- Gives a key a value: at its place when there is a key like it, which stays, and at the end
otherwise. -/
def insert (entries : List (Atom × Datum)) (key : Atom) (value : Datum) : List (Atom × Datum) :=
  match entries with
  | [] => [(key, value)]
  | (other, old) :: rest =>
    if other.alike key then (other, value) :: rest else (other, old) :: insert rest key value

/-- The record of some entries; of those with keys that are alike the last one counts. -/
def ofEntries (entries : List (Atom × Datum)) : Datum :=
  .record (entries.foldl (fun done (key, value) => insert done key value) [])

/-! ## JSON -/

mutual

/-- JSON as data. -/
def ofJson : Json → Datum
  | .scalar value => .atom (.scalar value)
  | .array items => .list (ofItems items)
  | .object fields => .record (ofFields fields)

/-- The items of an array as data. -/
def ofItems : List Json → List Datum
  | [] => []
  | item :: rest => ofJson item :: ofItems rest

/-- The entries of an object as data. -/
def ofFields : List (String × Json) → List (Atom × Datum)
  | [] => []
  | (name, value) :: rest => (.string name, ofJson value) :: ofFields rest

end

mutual

/-- Data as JSON. Keys become names and moments become strings. -/
def toJson : Datum → Json
  | .atom (.scalar value) => .scalar value
  | .atom (.moment value) => .string value.text
  | .list items => .array (toItems items)
  | .record entries => .object (toFields entries)

/-- The items of a list as JSON. -/
def toItems : List Datum → List Json
  | [] => []
  | item :: rest => toJson item :: toItems rest

/-- The entries of a record as JSON. -/
def toFields : List (Atom × Datum) → List (String × Json)
  | [] => []
  | (key, value) :: rest => (key.name, toJson value) :: toFields rest

end

mutual

/-- Nothing of JSON is lost. -/
theorem toJson_ofJson : ∀ value : Json, (ofJson value).toJson = value
  | .scalar _ => rfl
  | .array items => congrArg Json.array (toItems_ofItems items)
  | .object fields => congrArg Json.object (toFields_ofFields fields)

/-- Nothing of the items of an array is lost. -/
theorem toItems_ofItems : ∀ items : List Json, toItems (ofItems items) = items
  | [] => rfl
  | item :: rest => by
    rw [ofItems, toItems, toJson_ofJson item, toItems_ofItems rest]

/-- Nothing of the entries of an object is lost. -/
theorem toFields_ofFields : ∀ fields : List (String × Json), toFields (ofFields fields) = fields
  | [] => rfl
  | (name, value) :: rest => by
    rw [ofFields, toFields, toJson_ofJson value, toFields_ofFields rest]; rfl

end

/-! ## In messages -/

mutual

/-- Data as it is shown in a message about it. -/
def inspect : Datum → String
  | .atom value => value.inspect
  | .list items => "[" ++ ", ".intercalate (inspectItems items) ++ "]"
  | .record entries => "\x7b" ++ ", ".intercalate (inspectEntries entries) ++ "\x7d"

/-- The texts of some items. -/
def inspectItems : List Datum → List String
  | [] => []
  | item :: rest => inspect item :: inspectItems rest

/-- The texts of some entries. -/
def inspectEntries : List (Atom × Datum) → List String
  | [] => []
  | (key, value) :: rest => (key.inspect ++ ": " ++ inspect value) :: inspectEntries rest

end

mutual

/-- The atoms of data, keys included, in order. -/
def atoms : Datum → List Atom
  | .atom value => [value]
  | .list items => atomsOfItems items
  | .record entries => atomsOfEntries entries

/-- The atoms of some items. -/
def atomsOfItems : List Datum → List Atom
  | [] => []
  | item :: rest => atoms item ++ atomsOfItems rest

/-- The atoms of some entries. -/
def atomsOfEntries : List (Atom × Datum) → List Atom
  | [] => []
  | (key, value) :: rest => key :: atoms value ++ atomsOfEntries rest

end

end Datum

end Criteria
