import Criteria.Expr.Basic
import Criteria.Number.Limit
import Criteria.Token.Lexer

/-!
# Reading expressions

`Expr.parse` reads a condition from text. From loosest to tightest the operators are `||`, `&&`,
`==` and `!=`, the orderings, and `!`; operators of one level associate to the left. Groups,
quantifier arguments and negations may be nested only up to a limit.

The levels are functions of the parser for what they stand around: `chain` reads one level of
operators over a parser of operands, and `operand` reads an operand over the parsers of what it may
nest. The nesting that is left is the argument on which `operand` recurses.
-/

namespace Criteria

/-- Why tokens are not a condition. -/
inductive ParseFault
  /-- Groups, quantifiers and negations are nested beyond the limit. -/
  | tooDeep (limit : Int)
  /-- An operand is missing at the end. -/
  | unexpectedEnd
  /-- A token cannot stand here. -/
  | unexpected (text : String)
  /-- A number is too large. -/
  | numberRange
  /-- A group is not closed. -/
  | unclosedGroup
  /-- No name follows `as`. -/
  | missingAlias
  /-- The name after `as` is a path of several segments. -/
  | dottedAlias
  /-- No comma follows the collection of a quantifier. -/
  | missingComma
  /-- The arguments of a quantifier are not closed. -/
  | unclosedPredicate
  deriving DecidableEq, Repr

/-- A fault of the tokens at an offset of the text. -/
structure ParseError where
  fault : ParseFault
  offset : Nat
  deriving DecidableEq, Repr

/-- The wording of a fault. -/
def ParseFault.message : ParseFault → String
  | .tooDeep limit => s!"Expression nesting exceeds maximum depth of {limit}."
  | .unexpectedEnd => "Unexpected end of expression."
  | .unexpected text => s!"Unexpected token `{text}`."
  | .numberRange => "Number literal is out of range."
  | .unclosedGroup => "Unclosed parenthesis."
  | .missingAlias => "Expected alias identifier after `as`."
  | .dottedAlias => "Alias may not contain `.` segments."
  | .missingComma => "Expected `,` after quantifier collection."
  | .unclosedPredicate => "Unclosed quantifier predicate."

/-- The nesting limit where none is given. -/
def defaultMaxDepth : Int := 64

/-- The tokens still to be read, after the last one read. -/
structure TokenInput where
  /-- Where the last token ends; before any was read, where the first one ends. -/
  last : Nat
  tokens : List Token
  deriving DecidableEq, Repr

/-- A reader of a piece of the tokens: what it read, and the tokens after it. -/
abbrev TokenReader (α : Type) := TokenInput → Except ParseError (α × TokenInput)

/-- The span of a token. -/
def Token.span (token : Token) : Span := ⟨token.start, token.stop⟩

namespace Expr

/-- The levels of operators between operands, loosest first. -/
inductive Level
  | or | and | equality | ordering
  deriving DecidableEq, Repr

/-- The level of an operator. -/
def Level.of : BinaryOp → Level
  | .logical .or => .or
  | .logical .and => .and
  | .compare .eq => .equality
  | .compare .ne => .equality
  | .compare _ => .ordering

/-- An operator node around its operands. -/
def join (op : BinaryOp) (operator : Span) (left right : Expr) : Expr :=
  .binary op left right (Span.cover? left.span right.span) (some operator)

/-- Reads operators of one level with their right operands, for as long as they follow. The number
bounds how many; as many as there are tokens are enough. -/
def chainAfter (level : Level) (operand : TokenReader Expr) : Nat → Expr → TokenReader Expr
  | 0, left, input => .ok (left, input)
  | more + 1, left, input =>
    match input.tokens with
    | ⟨.operator op, start, stop⟩ :: rest =>
      if Level.of op = level then do
        let (right, next) ← operand ⟨stop, rest⟩
        chainAfter level operand more (join op ⟨start, stop⟩ left right) next
      else .ok (left, input)
    | _ => .ok (left, input)

/-- Reads operands joined by operators of one level, the leftmost joined first. -/
def chain (level : Level) (operand : TokenReader Expr) : TokenReader Expr := fun input => do
  let (left, next) ← operand input
  chainAfter level operand next.tokens.length left next

/-- Reads operands joined by operators of all levels. -/
def chains (operand : TokenReader Expr) : TokenReader Expr :=
  chain .or (chain .and (chain .equality (chain .ordering operand)))

/-- The number that a numeral denotes, when it is finite as a double. A numeral with a point is a
double, one without an integer, which may have only so many digits. -/
def numeral? (text : String) : Option Scalar :=
  let (whole, rest) := Decimal.splitDigits text.toList
  match rest with
  | [] =>
    let value := Nat.ofDigitChars 10 whole 0
    if whole.length ≤ maxIntDigits ∧ (Double.ofInt value).isFinite then some (.int value) else none
  | _ :: fraction =>
    let value := Double.ofDecimal false (Decimal.ofParts whole fraction 0)
    if value.isFinite then some (.double value) else none

/-- Reads the alias of a quantifier, when it is written out. -/
def aliasClause : TokenReader (Alias × Option Span) := fun input =>
  match input.tokens with
  | ⟨.identifier "as", _, stop⟩ :: rest =>
    match rest with
    | ⟨.identifier name, start, stop⟩ :: rest =>
      if name.toList.contains '.' then .error ⟨.dottedAlias, start⟩
      else .ok ((⟨name, true⟩, some ⟨start, stop⟩), ⟨stop, rest⟩)
    | _ => .error ⟨.missingAlias, stop⟩
  | _ => .ok ((⟨defaultAlias, false⟩, none), input)

/-- Reads the arguments of a quantifier, after the opening parenthesis. -/
def quantifierArguments (nested : TokenReader Expr) (quantifier : Quantifier) (operator : Token) :
    TokenReader Expr := fun input => do
  let (collection, next) ← nested input
  let ((binder, binderSpan), next) ← aliasClause next
  match next.tokens with
  | ⟨.comma, _, stop⟩ :: rest =>
    let (predicate, next) ← nested ⟨stop, rest⟩
    match next.tokens with
    | ⟨.closing, _, stop⟩ :: rest =>
      let spans : QuantifierSpans :=
        ⟨some ⟨operator.start, stop⟩, some operator.span, collection.span, binderSpan,
          predicate.span⟩
      return (.quantified quantifier collection predicate binder spans, ⟨stop, rest⟩)
    | _ => throw ⟨.unclosedPredicate, operator.start⟩
  | _ => throw ⟨.missingComma, next.last⟩

/-- Reads a group, after the opening parenthesis. -/
def group (nested : TokenReader Expr) (opening : Token) : TokenReader Expr := fun input => do
  let (inner, next) ← nested input
  match next.tokens with
  | ⟨.closing, _, stop⟩ :: rest =>
    return (inner.withSpan (some ⟨opening.start, stop⟩), ⟨stop, rest⟩)
  | _ => throw ⟨.unclosedGroup, opening.start⟩

/-- Reads a literal, a variable, a quantifier or a group. -/
def primary (nested : TokenReader Expr) : TokenReader Expr := fun input =>
  match input.tokens with
  | [] => .error ⟨.unexpectedEnd, input.last⟩
  | token :: rest =>
    let next : TokenInput := ⟨token.stop, rest⟩
    match token.lexeme with
    | .number text =>
      match numeral? text with
      | some value => .ok (.literal value (some token.span), next)
      | none => .error ⟨.numberRange, token.start⟩
    | .string value => .ok (.literal (.string value) (some token.span), next)
    | .bool value => .ok (.literal (.bool value) (some token.span), next)
    | .identifier name =>
      match Quantifier.ofSymbol? name, rest with
      | some quantifier, ⟨.opening, _, stop⟩ :: inside =>
        quantifierArguments nested quantifier token ⟨stop, inside⟩
      | _, _ =>
        if name = "null" then .ok (.literal .null (some token.span), next)
        else .ok (.reference name (some token.span), next)
    | .opening => group nested token next
    | lexeme => .error ⟨.unexpected lexeme.text, token.start⟩

/-- Reads a primary expression or a negation, whose argument `negated` reads. -/
def unary (nested negated : TokenReader Expr) : TokenReader Expr := fun input =>
  match input.tokens with
  | ⟨.not, start, stop⟩ :: rest => do
    let operator : Span := ⟨start, stop⟩
    let (argument, next) ← negated ⟨stop, rest⟩
    return (.not argument (Span.cover? (some operator) argument.span) (some operator), next)
  | _ => primary nested input

/-- Refuses to nest deeper. -/
def tooDeep (limit : Int) : TokenReader Expr := fun input => .error ⟨.tooDeep limit, input.last⟩

/-- Reads an operand in which so much more may be nested. -/
def operand (limit : Int) : Nat → TokenReader Expr
  | 0, input => unary (tooDeep limit) (tooDeep limit) input
  | room + 1, input =>
    unary (chains fun inner => operand limit room inner) (fun inner => operand limit room inner)
      input

/-- Reads an expression that may be nested so deep, itself included. -/
def expression (limit : Int) : Nat → TokenReader Expr
  | 0 => tooDeep limit
  | room + 1 => chains (operand limit room)

/-- The expression that a list of tokens is. -/
def ofTokens (limit : Int) (tokens : List Token) : Except ParseError Expr := do
  let first : TokenInput := ⟨(tokens.head?.map (·.stop)).getD 0, tokens⟩
  let (expr, next) ← expression limit limit.toNat first
  match next.tokens with
  | [] => return expr
  | token :: _ => throw ⟨.unexpected token.lexeme.text, token.start⟩

end Expr

/-- Why a text is not a condition. -/
inductive SyntaxError
  | lexical (error : LexError)
  | grammatical (error : ParseError)
  deriving DecidableEq, Repr

namespace SyntaxError

/-- Where the fault is. -/
def offset : SyntaxError → Nat
  | .lexical error => error.offset
  | .grammatical error => error.offset

/-- The wording of the fault. -/
def message : SyntaxError → String
  | .lexical error => error.fault.message
  | .grammatical error => error.fault.message

end SyntaxError

/-- The condition that a text is. All tokens are read before any of them is looked at. -/
def Expr.parse (text : String) (limit : Int) : Except SyntaxError Expr := do
  let tokens ← (tokenize text).mapError .lexical
  (Expr.ofTokens limit tokens).mapError .grammatical

end Criteria
