import Criteria.Yaml.Scalar

/-!
# Nodes

A `Node` is what the layout of a text says: scalars as they are spelled, collections of them, and
mappings whose keys are nodes as well. `Node.read` is the data that a node stands for.

The entries of mappings under the key `<<` are merged into the mapping around them, before its own
entries. A key is an atom; a collection is none. Of several faults the one with the fewest
collections around it counts, and of those the first.
-/

namespace Criteria.Yaml

/-- What the layout of a text says. -/
inductive Node
  /-- A scalar, with or without quotes around it. -/
  | scalar (text : List Char) (plain : Bool)
  | list (items : List Node)
  | record (entries : List (Node × Node))

/-- A fault, and how many collections are around it. -/
structure Fault where
  depth : Nat
  refusal : Refusal

/-- What is made of a node. -/
structure Draft where
  datum : Datum
  /-- What keeps the data from being what the node stands for. -/
  faults : List Fault

namespace Draft

/-- The faults as seen from the collection around. -/
def inner (draft : Draft) : List Fault :=
  draft.faults.map fun fault => { fault with depth := fault.depth + 1 }

/-- The entries that some data brings into the mapping it is merged into: those of a mapping, or of
several with the last first. -/
def mergeable? (draft : Draft) : Option (List (Atom × Datum)) :=
  match draft.datum with
  | .record entries => some entries
  | .list items =>
    items.reverse.foldlM (fun done item =>
      match item with
      | .record entries => some (done ++ entries)
      | _ => none) []
  | _ => none

end Draft

/-- What is made of the entries of a mapping. -/
structure Entries where
  /-- The entries that are merged in. -/
  merged : List (Atom × Datum) := []
  own : List (Atom × Datum) := []
  /-- The faults of what is merged in. -/
  mergeFaults : List Fault := []
  ownFaults : List Fault := []

namespace Entries

/-- The mapping with these entries. -/
def draft (entries : Entries) : Draft :=
  ⟨.ofEntries (entries.merged ++ entries.own), entries.mergeFaults ++ entries.ownFaults⟩

/-- The entries with some merged in before them. -/
def merge (source : Draft) (entries : Entries) : Entries :=
  match source.mergeable? with
  | some merged =>
    { entries with
      merged := merged ++ entries.merged
      mergeFaults := source.faults ++ entries.mergeFaults }
  | none => { entries with mergeFaults := ⟨1, .unreadable⟩ :: entries.mergeFaults }

/-- The entries with one more in front. -/
def add (key value : Draft) (entries : Entries) : Entries :=
  match key.datum with
  | .atom atom =>
    { entries with
      own := (atom, value.datum) :: entries.own
      ownFaults := key.inner ++ value.inner ++ entries.ownFaults }
  | _ => { entries with ownFaults := ⟨1, .unreadable⟩ :: value.inner ++ entries.ownFaults }

end Entries

namespace Node

/-- No text, and so no value. -/
def empty : Node := .scalar [] true

/-- The node is a plain scalar of the given text. -/
def isPlain (text : String) : Node → Bool
  | .scalar cs plain => plain && String.ofList cs == text
  | _ => false

/-- What is made of a scalar. -/
def draftScalar (text : List Char) (plain : Bool) : Draft :=
  if plain then
    match plainValue text with
    | .ok atom => ⟨.atom atom, []⟩
    | .error refusal => ⟨.null, [⟨0, refusal⟩]⟩
  else ⟨.string (String.ofList text), []⟩

mutual

/-- What is made of a node. -/
def draft : Node → Draft
  | .scalar text plain => draftScalar text plain
  | .list items =>
    let drafts := draftItems items
    ⟨.list (drafts.map Draft.datum), drafts.flatMap Draft.inner⟩
  | .record entries => (draftEntries entries).draft

/-- What is made of some items. -/
def draftItems : List Node → List Draft
  | [] => []
  | item :: rest => draft item :: draftItems rest

/-- What is made of some entries. As a key the sign `=` stands for itself. -/
def draftEntries : List (Node × Node) → Entries
  | [] => {}
  | (key, value) :: rest =>
    if key.isPlain mergeName then (draftEntries rest).merge (draft value)
    else if key.isPlain standForName then
      (draftEntries rest).add ⟨.string standForName, []⟩ (draft value)
    else (draftEntries rest).add (draft key) (draft value)

end

/-- The fault that counts. -/
def firstFault? (faults : List Fault) : Option Fault :=
  faults.foldl (fun best fault =>
    match best with
    | some found => if fault.depth < found.depth then some fault else best
    | none => some fault) none

/-- The data that a node stands for. -/
def read (node : Node) : Except Refusal Datum :=
  match firstFault? node.draft.faults with
  | some fault => .error fault.refusal
  | none => .ok node.draft.datum

end Node

end Criteria.Yaml
