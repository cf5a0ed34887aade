import StackScript.Grammar.Statement

/-!
# Parsers at an index

A parser may be started at any integer as an index into the tokens.  A negative
index counts from the end of the tokens, and from there reading runs past the last
token to the first one.  So the indices of `n` tokens reach from `-n` to `n`, the
end.  Outside of them no token can be read, and a parser that gets along without
one may still accept or reject there: `Indexed` says which.
-/

namespace StackScript.Grammar

/-- The tokens that are read from an index on. -/
def readFrom (tokens : List Token) (index : Int) : List Token :=
  if index < 0 then tokens.drop (index + tokens.length).toNat ++ tokens
  else tokens.drop index.toNat

/-- From each index from `-n` to `n` as many tokens are read as lie between it and
the end. -/
theorem length_readFrom (tokens : List Token) (index : Int)
    (lower : -(tokens.length : Int) ≤ index) (upper : index ≤ tokens.length) :
    ((readFrom tokens index).length : Int) = tokens.length - index := by
  by_cases negative : index < 0
  · simp only [readFrom, negative, if_true, List.length_append, List.length_drop]
    omega
  · simp only [readFrom, negative, if_false, List.length_drop]
    omega

/-- What happens where no token can be read: an error, a rejection, which is
`none`, or an accepted value. -/
abbrev Unread (α : Type) : Type :=
  Except Error (Option α)

/-- The first choice that does not reject. -/
def Unread.firstOf {α : Type} : List (Unread α) → Unread α
  | [] => .ok none
  | .ok none :: choices => firstOf choices
  | choice :: _ => choice

/-- A parser that may be started at any index. -/
structure Indexed (α : Type) where
  /-- What it does at a token or at the end of the tokens. -/
  parser : Parser α
  /-- What it does before all tokens.  A look at the next token is an error. -/
  before : Unread α
  /-- What it does after the end.  A parser that looks whether tokens are left
  finds none. -/
  after : Unread α

namespace Indexed

variable {α β : Type}

protected def map (convert : α → β) (part : Indexed α) : Indexed β :=
  { parser := convert <$> part.parser
    before := part.before.map (Option.map convert)
    after := part.after.map (Option.map convert) }

instance : Functor Indexed where
  map := Indexed.map

/-- A parser that cannot do without a token. -/
def reading (parser : Parser α) : Indexed α :=
  { parser, before := .error .endOfTokens, after := .error .endOfTokens }

def newlines : Indexed Unit :=
  { parser := Parser.newlines, before := .error .endOfTokens, after := .ok (some ()) }

def firstOf (choices : List (Indexed α)) : Indexed α :=
  { parser := Parser.firstOf (choices.map Indexed.parser)
    before := Unread.firstOf (choices.map Indexed.before)
    after := Unread.firstOf (choices.map Indexed.after) }

def many (part : Indexed α) : Indexed (List α) :=
  { parser := Parser.many part.parser
    before := part.before.map fun value? => some value?.toList
    after := .ok (some []) }

def commaSeparated (item : Indexed α) : Indexed (List α) :=
  { parser := Parser.commaSeparated item.parser
    before := .error .endOfTokens
    after := item.after.map fun value? => some value?.toList }

def chainLeft (isOperator : Token → Bool) (operand : Indexed α)
    (join : Token → α → α → α) : Indexed α :=
  { parser := Parser.chainLeft isOperator operand.parser join
    before :=
      match operand.before with
      | .ok (some _) => .error .endOfTokens
      | reply => reply
    after := operand.after }

def program (inner : Inner) : Indexed Surface.Program :=
  { parser := Grammar.program inner
    before := .error .endOfTokens
    after := .ok (some { statements := [] }) }

/-- Starts a parser at an index.  The result is the accepted value, if there is
one, and the index at which the parser stopped. -/
def runAt (part : Indexed α) (tokens : List Token) (index : Int) :
    Except Error (Option α × Int) :=
  if index < -(tokens.length : Int) then part.before.map fun value? => (value?, index)
  else if (tokens.length : Int) < index then part.after.map fun value? => (value?, index)
  else
    match part.parser (readFrom tokens index) with
    | .error error => .error error
    | .ok (.accept value rest) => .ok (some value, tokens.length - rest.length)
    | .ok (.reject rest) => .ok (none, tokens.length - rest.length)

end Indexed

end StackScript.Grammar
