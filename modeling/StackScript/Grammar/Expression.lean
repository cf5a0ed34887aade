import StackScript.Grammar.Parser
import StackScript.Surface.Basic

/-!
# The grammar of expressions

Expressions contain statements and statements contain expressions, so each rule
takes the parsers for the parts nested inside as a parameter `inner`.  A rule uses
them only after it has read a token.

From loosest to tightest, the levels are disjunction, conjunction, comparison,
addition, multiplication, negation, field access and single terms.
-/

namespace StackScript.Grammar

open StackScript.Grammar.Parser
open StackScript.Surface (Expr Stmt Level)

/-- The parsers for what is nested inside a construct. -/
structure Inner where
  expression : Parser Expr
  statement : Parser Stmt

def integer : Parser Expr := do
  let token ← satisfy fun token => token.kind = .integer
  match Text.readNumeral token.text with
  | .ok value => return .integer value
  | .error .malformed => raise (.invalidNumeral token.text)
  | .error (.tooLong digits) => raise (.numeralTooLong digits)

/-- A text without its first and last character, which are its quotes. -/
def unquoted (text : String) : String :=
  String.ofList (text.toList.drop 1).dropLast

def text : Parser Expr := do
  let token ← satisfy fun token =>
    token.kind = .doubleQuoted || token.kind = .singleQuoted
  return .text (unquoted token.text)

/-- A name, as it occurs among parameters. -/
def name : Parser String := do
  let token ← satisfy fun token => token.kind = .symbol
  return token.text

def symbol : Parser Expr := do
  let token ← satisfy fun token => token.kind = .symbol
  return .symbol token.position token.text

/-- The statements of a body, and the newlines before the token that ends it. -/
def body (inner : Inner) : Parser (List Stmt) := do
  let statements ← many inner.statement
  newlines
  return statements

/-- An expression in parentheses. -/
def group (inner : Inner) : Parser Expr :=
  parenthesized inner.expression

/-- Expressions with commas between them. -/
def expressions (inner : Inner) : Parser (List Expr) :=
  commaSeparated inner.expression

/-- A field of a record: its name, a colon and its value. -/
def field (inner : Inner) : Parser (String × Expr) := attempt do
  let name ← name
  skip fun token => token.kind = .colon
  let value ← inner.expression.orRaise .missingFieldValue
  return (name, value)

/-- A record: fields in parentheses. -/
def record (inner : Inner) : Parser Expr := do
  let fields ← parenthesized (commaSeparated (field inner))
  return .record fields

/-- A function without a name. -/
def lambda (inner : Inner) : Parser Expr := attempt do
  skip fun token => token.isKeyword "lambda"
  demand (fun token => token.kind = .openParen) .expectedOpening
  let parameters ← commaSeparated name
  demand (fun token => token.kind = .closeParen) fun _ => .malformedConstruct
  skip fun token => token.text = "do"
  let body ← body inner
  skip fun token => token.isKeyword "end"
  return .lambda parameters body

/-- A list: items in brackets. -/
def list (inner : Inner) : Parser Expr := do
  let items ← bracketed (expressions inner)
  return .list items

/-- What may stand before an index or before arguments. -/
def head (inner : Inner) : Parser Expr :=
  firstOf [symbol, group inner]

/-- A head with indices in brackets. -/
def item (inner : Inner) : Parser Expr :=
  applied (head inner) (bracketed inner.expression) .item

/-- A head with arguments in parentheses. -/
def call (inner : Inner) : Parser Expr :=
  applied (head inner) (parenthesized (expressions inner)) .call

def term (inner : Inner) : Parser Expr :=
  firstOf
    [item inner, call inner, group inner, integer, text, list inner, lambda inner,
      symbol, record inner]

/-- A level of infix operators above a tighter level. -/
def infixLevel (level : Level) (isOperator : Token → Bool) (operand : Parser Expr) :
    Parser Expr :=
  chainLeft isOperator operand fun operator left right =>
    .binary operator.position level operator.text left right

def access (inner : Inner) : Parser Expr :=
  infixLevel .access (fun token => token.kind = .period) (term inner)

def negation (inner : Inner) : Parser Expr := attempt do
  let position ← nextPosition
  skip fun token => token.text = "-"
  let operand ← access inner
  return .negation position operand

/-- An operand that may be negated. -/
def signed (inner : Inner) : Parser Expr :=
  firstOf [access inner, negation inner]

/-- Products, quotients and remainders. -/
def multiplication (inner : Inner) : Parser Expr :=
  infixLevel .multiplication (fun token => token.kind = .multiplication) (signed inner)

/-- Sums, differences and concatenations. -/
def addition (inner : Inner) : Parser Expr :=
  infixLevel .addition (fun token => token.kind = .addition) (multiplication inner)

def comparison (inner : Inner) : Parser Expr :=
  infixLevel .comparison (fun token => token.kind = .comparison) (addition inner)

/-- Operands joined by `and`. -/
def conjunction (inner : Inner) : Parser Expr :=
  infixLevel .conjunction (fun token => token.isSymbol "and") (comparison inner)

/-- Operands joined by `or`. -/
def disjunction (inner : Inner) : Parser Expr :=
  infixLevel .disjunction (fun token => token.isSymbol "or") (conjunction inner)

/-- The branch after `else`, or an empty one if there is no `else`. -/
def otherwise (inner : Inner) : Parser (List Stmt) :=
  firstOf
    [do skip fun token => token.text = "else"
        body inner,
      pure []]

def conditional (inner : Inner) : Parser Expr := attempt do
  skip fun token => token.text = "if"
  let condition ← (disjunction inner).orRaise .malformedConstruct
  demand (fun token => token.text = "do") fun _ => .malformedConstruct
  let onTrue ← body inner
  let onFalse ← otherwise inner
  demand (fun token => token.text = "end") fun _ => .malformedConstruct
  return .conditional condition onTrue onFalse

def expression (inner : Inner) : Parser Expr :=
  firstOf [disjunction inner, conditional inner]

end StackScript.Grammar
