import Criteria.Catalog.Basic
import Criteria.Diagnostic
import Criteria.Expr.Basic
import Criteria.Path

/-!
# Checking conditions against a catalog

`Expr.check` finds everything in a condition that its catalog does not allow:

* a variable that is neither in the catalog nor relative to an alias around it;
* a comparison that a catalog variable under it does not allow;
* a literal whose kind does not fit the variables on the other side of a comparison, and variables
  of different types on its two sides;
* a quantifier over something other than an array variable, or whose condition never mentions its
  alias.

The aliases around a node are listed innermost first. The alias of a quantifier is known by its
level, the number of aliases around that quantifier.
-/

namespace Criteria

/-- Something that a catalog does not allow. -/
inductive Finding
  | unknownVariable (path : String)
  | operatorNotAllowed (comparison : Comparison) (path : String)
  | literalMismatch (path : String) (type : VariableType) (kind : String)
  | variableMismatch (left : String) (leftType : VariableType) (right : String)
      (rightType : VariableType) (comparison : Comparison)
  | collectionNotVariable
  | collectionNotArray (quantifier : Quantifier) (path : String)
  | aliasNotUsed (name : String)
  deriving DecidableEq, Repr

namespace Finding

/-- The code of a finding. -/
def code : Finding → ErrorCode
  | .unknownVariable _ => .unknownVariable
  | .operatorNotAllowed .. => .operatorNotAllowed
  | .literalMismatch .. => .typeMismatch
  | .variableMismatch .. => .typeMismatch
  | .collectionNotVariable => .invalidQuantifier
  | .collectionNotArray .. => .invalidQuantifier
  | .aliasNotUsed _ => .invalidQuantifier

/-- The wording of a finding. -/
def message : Finding → String
  | .unknownVariable path => s!"Variable `{path}` is not registered."
  | .operatorNotAllowed c path => s!"Operator `{c.symbol}` is not allowed for variable `{path}`."
  | .literalMismatch path type kind =>
    s!"Type mismatch: variable `{path}` ({type.name}) cannot be compared to {kind} literal."
  | .variableMismatch left leftType right rightType c =>
    s!"Type mismatch: variables `{left}` ({leftType.name}) and `{right}` ({rightType.name}) " ++
      s!"are incompatible with `{c.symbol}`."
  | .collectionNotVariable => "Quantifier collection must reference a variable."
  | .collectionNotArray q path =>
    s!"Quantifier `{q.symbol}` expects collection `{path}` to be an array."
  | .aliasNotUsed name => s!"Quantifier predicate must reference alias `{name}`."

end Finding

/-- A finding at a node, and the characters it is about, when they are known. -/
structure Located where
  finding : Finding
  span : Option Span
  nodeKind : String
  deriving DecidableEq, Repr

/-- What authors are told about a finding in a text. -/
def Located.diagnostic (index : LineIndex) (located : Located) : Diagnostic :=
  match located.span with
  | some span => .spanning located.finding.code located.finding.message index span.start span.stop
  | none =>
    { code := located.finding.code, message := located.finding.message, extent := none,
      nodeKind := some located.nodeKind }

/-- The kind of a literal. -/
def Scalar.kind : Scalar → String
  | .null => "null"
  | .bool _ => "boolean"
  | .int _ => "number"
  | .double _ => "number"
  | .string _ => "string"

/-- A literal of a kind may be compared with variables of a type: `null` with every variable, other
literals with the variables of their own kind; nothing else fits an array. -/
def VariableType.allowsKind (type : VariableType) (kind : String) : Bool :=
  kind = "null" || (type ≠ .array && type.name = kind)

/-- The level of the innermost alias that a path is relative to. -/
def bindingLevel? (path : String) : List String → Option Nat
  | [] => none
  | name :: outer =>
    if Path.isRelativeTo name path then some outer.length else bindingLevel? path outer

/-- What was found at and below a node. -/
structure Report where
  /-- The findings, in order. -/
  findings : List Located
  /-- The levels of the aliases that were mentioned. -/
  used : List Nat
  deriving DecidableEq, Repr

namespace Report

/-- Nothing was found. -/
def empty : Report := ⟨[], []⟩

/-- What was found first, and what was found after it. -/
def append (a b : Report) : Report := ⟨a.findings ++ b.findings, a.used ++ b.used⟩

instance : Append Report := ⟨append⟩

end Report

namespace Catalog

/-- The definitions of the catalog variables under an expression, each once, in the order of their
first occurrences. -/
def definitionsUnder (catalog : Catalog) (e : Expr) : List Definition :=
  firstsBy Definition.path
    (e.references.filterMap fun occurrence => catalog.lookup? occurrence.1)

end Catalog

namespace Expr

/-- The comparison at a node is not allowed for some catalog variables under it. Variables that are
relative to an alias around the node are left alone. -/
def operatorFindings (catalog : Catalog) (aliases : List String) (c : Comparison) (e : Expr)
    (operatorSpan : Option Span) : List Located :=
  e.references.filterMap fun (path, span) =>
    match bindingLevel? path aliases, catalog.lookup? path with
    | none, some d =>
      if d.comparisons.contains c then none
      else some ⟨.operatorNotAllowed c d.path, operatorSpan.or span, e.kind⟩
    | _, _ => none

/-- One side of a comparison is a literal that does not fit the variables of the other side. -/
def literalFindings (side : Expr) (others : List Definition) (e : Expr) : List Located :=
  match side with
  | .literal value span =>
    others.filterMap fun d =>
      if d.type.allowsKind value.kind then none
      else some ⟨.literalMismatch d.path d.type value.kind, span.or e.span, e.kind⟩
  | _ => []

/-- The variables on the two sides of a comparison differ in type. Two pairs whose paths are spelled
alike when joined by a bar count once. -/
def variableFindings (c : Comparison) (lefts rights : List Definition) (e : Expr)
    (operatorSpan : Option Span) : List Located :=
  let pairs := lefts.flatMap fun l => rights.filterMap fun r =>
    if l.type = r.type then none else some (l, r)
  (firstsBy (fun (l, r) => l.path ++ "|" ++ r.path) pairs).map fun (l, r) =>
    ⟨.variableMismatch l.path l.type r.path r.type c, operatorSpan.or e.span, e.kind⟩

/-- What is wrong with the collection of a quantifier. -/
def collectionFindings (catalog : Catalog) (q : Quantifier) (collection e : Expr) : List Located :=
  match collection with
  | .reference path span =>
    match catalog.lookup? path with
    | some d =>
      if d.type = .array then []
      else [⟨.collectionNotArray q d.path, span.or e.span, e.kind⟩]
    | none => []
  | other => [⟨.collectionNotVariable, other.span.or e.span, e.kind⟩]

/-- Checks an expression inside quantifiers with the given aliases, innermost first. -/
def checkUnder (catalog : Catalog) (aliases : List String) : Expr → Report
  | .literal .. => .empty
  | .reference path span =>
    match bindingLevel? path aliases with
    | some level => ⟨[], [level]⟩
    | none =>
      if catalog.contains path then .empty else ⟨[⟨.unknownVariable path, span, "variable"⟩], []⟩
  | .not argument _ _ => checkUnder catalog aliases argument
  | .binary (.logical _) left right _ _ =>
    checkUnder catalog aliases left ++ checkUnder catalog aliases right
  | .binary (.compare c) left right span operatorSpan =>
    let e : Expr := .binary (.compare c) left right span operatorSpan
    let lefts := catalog.definitionsUnder left
    let rights := catalog.definitionsUnder right
    checkUnder catalog aliases left ++ checkUnder catalog aliases right ++
      ⟨operatorFindings catalog aliases c e operatorSpan ++ literalFindings right lefts e ++
          literalFindings left rights e ++ variableFindings c lefts rights e operatorSpan,
        e.references.filterMap fun occurrence => bindingLevel? occurrence.1 aliases⟩
  | .quantified q collection predicate binder spans =>
    let e : Expr := .quantified q collection predicate binder spans
    let level := aliases.length
    let inside := checkUnder catalog (binder.name :: aliases) predicate
    let unused :=
      if inside.used.contains level then []
      else [⟨.aliasNotUsed binder.name, spans.predicate.or spans.whole, e.kind⟩]
    checkUnder catalog aliases collection ++
      ⟨collectionFindings catalog q collection e ++ inside.findings ++ unused,
        inside.used.filter (· ≠ level)⟩

/-- Everything in a condition that its catalog does not allow. -/
def check (catalog : Catalog) (e : Expr) : List Located := (checkUnder catalog [] e).findings

end Expr

end Criteria
