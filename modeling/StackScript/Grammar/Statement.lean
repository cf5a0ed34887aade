import StackScript.Grammar.Expression

/-!
# The grammar of statements and scripts

The rules for expressions and statements are tied together up to a nesting depth.
A rule reads a token before it uses a nested rule, so a depth greater than the
number of tokens is never exhausted, and `parse` takes such a depth.
-/

namespace StackScript.Grammar

open StackScript.Grammar.Parser
open StackScript.Surface (Expr Stmt Program)

/-- The names that no assignment may bind. -/
def builtinNames : List String := ["print", "pow"]

/-- A token that may be assigned to. -/
def target : Parser Token := do
  let token ← satisfy fun token => token.kind = .symbol
  skip fun token => token.kind = .assignment
  if builtinNames.contains token.text then raise (.builtinTarget token)
  else return token

def assignment (inner : Inner) : Parser Stmt := attempt do
  let target ← target
  let value ← inner.expression.orRaise .malformedConstruct
  return .assign target.text value

def definition (inner : Inner) : Parser Stmt := attempt do
  skip fun token => token.isKeyword "def"
  let name ← name.orRaise .malformedConstruct
  demand (fun token => token.kind = .openParen) fun _ => .malformedConstruct
  let parameters ← commaSeparated Grammar.name
  demand (fun token => token.kind = .closeParen) fun _ => .malformedConstruct
  skip fun token => token.text = "do"
  let body ← body inner
  skip fun token => token.isKeyword "end"
  return .define name parameters body

def evaluation (inner : Inner) : Parser Stmt := do
  let expression ← expression inner
  return .evaluate expression

/-- A statement after any newlines.  Where the tokens end there is none. -/
def statement (inner : Inner) : Parser Stmt := fun tokens =>
  match tokens.dropWhile fun token => token.kind = .newline with
  | [] => .ok (.reject [])
  | token :: rest =>
      firstOf [assignment inner, evaluation inner, definition inner] (token :: rest)

/-- The parsers for constructs nested to less than the given depth. -/
def nested : (depth : Nat) → Inner
  | 0 => { expression := raise .tooDeep, statement := raise .tooDeep }
  | depth + 1 =>
      { expression := expression (nested depth)
        statement := statement (nested depth) }

/-- The statements of a script. -/
def program (inner : Inner) : Parser Program := do
  let statements ← many (statement inner)
  return { statements }

end StackScript.Grammar

namespace StackScript

/-- Reads a script from its tokens. -/
def parse (tokens : List Token) : Except Error Surface.Program :=
  (Grammar.program (Grammar.nested tokens.length)).finish tokens

end StackScript
