import StackScript.Error

/-!
# Parsers

A parser reads tokens from the front of a list.  It accepts with a value and the
tokens that it has not read, or it rejects, which lets another parser try, or it
raises an error, which ends all parsing.  A rejection also tells where the next
alternative goes on; most parsers reject at the token where they started.

Repetition is bounded by the number of tokens that are left.  A parser that reads
at least one token whenever it accepts never reaches this bound.
-/

namespace StackScript.Grammar

/-- What a parser that raises no error reports. -/
inductive Reply (α : Type) where
  | accept (value : α) (rest : List Token)
  | reject (rest : List Token)

/-- A parser for values of type `α`. -/
def Parser (α : Type) : Type :=
  List Token → Except Error (Reply α)

namespace Parser

variable {α β : Type}

/-- Accepts without reading. -/
protected def pure (value : α) : Parser α := fun tokens =>
  .ok (.accept value tokens)

/-- Goes on with a parser for what follows an accepted value. -/
protected def bind (first : Parser α) (next : α → Parser β) : Parser β := fun tokens =>
  match first tokens with
  | .error error => .error error
  | .ok (.reject rest) => .ok (.reject rest)
  | .ok (.accept value rest) => next value rest

instance : Monad Parser where
  pure := Parser.pure
  bind := Parser.bind

def raise (error : Error) : Parser α := fun _ =>
  .error error

/-- Turns a rejection into an error. -/
def orRaise (parser : Parser α) (error : Error) : Parser α := fun tokens =>
  match parser tokens with
  | .ok (.reject _) => .error error
  | reply => reply

/-- Makes a parser that rejects do so at the token where it started. -/
def attempt (parser : Parser α) : Parser α := fun tokens =>
  match parser tokens with
  | .ok (.reject _) => .ok (.reject tokens)
  | reply => reply

/-- Reads one token that passes a test.  The tokens must not have ended. -/
def satisfy (test : Token → Bool) : Parser Token
  | [] => .error .endOfTokens
  | token :: rest =>
      if test token then .ok (.accept token rest) else .ok (.reject (token :: rest))

/-- Skips one token that passes a test, and rejects any other token. -/
def skip (test : Token → Bool) : Parser Unit := do
  let _ ← satisfy test
  return ()

/-- Skips one token that passes a test, and raises an error about any other
token. -/
def demand (test : Token → Bool) (error : Token → Error) : Parser Unit
  | [] => .error .endOfTokens
  | token :: rest =>
      if test token then .ok (.accept () rest) else .error (error token)

/-- The position of the next token, which stays unread.  The tokens must not have
ended. -/
def nextPosition : Parser Position
  | [] => .error .endOfTokens
  | token :: rest => .ok (.accept token.position (token :: rest))

def newlines : Parser Unit := fun tokens =>
  .ok (.accept () (tokens.dropWhile fun token => token.kind = .newline))

/-- Tries parsers in order.  Each starts where the one before rejected; if all
reject, the choice does so where it started. -/
def firstOf (choices : List (Parser α)) : Parser α := fun start =>
  go start choices start
where
  /-- Tries the choices that remain from the given tokens on. -/
  go (start : List Token) : List (Parser α) → Parser α
    | [], _ => .ok (.reject start)
    | choice :: choices, tokens =>
        match choice tokens with
        | .ok (.reject rest) => go start choices rest
        | reply => reply

/-- Reads values for as long as the parser accepts, at most `bound` of them. -/
def manyUpTo (parser : Parser α) : (bound : Nat) → Parser (List α)
  | 0, tokens => .ok (.accept [] tokens)
  | _ + 1, [] => .ok (.accept [] [])
  | bound + 1, token :: tokens =>
      match parser (token :: tokens) with
      | .error error => .error error
      | .ok (.reject rest) => .ok (.accept [] rest)
      | .ok (.accept value rest) =>
          match manyUpTo parser bound rest with
          | .ok (.accept values rest) => .ok (.accept (value :: values) rest)
          | reply => reply

/-- Reads values until the tokens end or the parser rejects, and goes on where it
rejected. -/
def many (parser : Parser α) : Parser (List α) := fun tokens =>
  manyUpTo parser tokens.length tokens

/-- Reads a value between an opening and a closing token.  Once the value has been
read the closing token must follow. -/
def wrapped (opening closing : Kind) (parser : Parser α) : Parser α := attempt do
  skip fun token => token.kind = opening
  let value ← parser
  demand (fun token => token.kind = closing) fun _ => .malformedConstruct
  return value

def bracketed (parser : Parser α) : Parser α :=
  wrapped .openBracket .closeBracket parser

def parenthesized (parser : Parser α) : Parser α :=
  wrapped .openParen .closeParen parser

/-- Reads further items of a comma list, at most `bound` of them.  A comma and
the newlines after it are read even if no item follows. -/
def moreItems (item : Parser α) : (bound : Nat) → Parser (List α)
  | 0, tokens => .ok (.accept [] tokens)
  | _ + 1, [] => .ok (.accept [] [])
  | bound + 1, token :: tokens =>
      if token.kind = .comma then
        match tokens.dropWhile fun token => token.kind = .newline with
        | [] => .ok (.accept [] [])
        | next :: rest =>
            match item (next :: rest) with
            | .error error => .error error
            | .ok (.reject _) => .ok (.accept [] (next :: rest))
            | .ok (.accept value rest) =>
                match moreItems item bound rest with
                | .ok (.accept values rest) => .ok (.accept (value :: values) rest)
                | reply => reply
      else .ok (.accept [] (token :: tokens))

/-- Reads items with commas between them and perhaps one after the last.  Newlines
may stand before the first item and after each comma.  If there is no first item,
nothing is read, the newlines included. -/
def commaSeparated (item : Parser α) : Parser (List α) := fun tokens =>
  match item (tokens.dropWhile fun token => token.kind = .newline) with
  | .error error => .error error
  | .ok (.reject _) => .ok (.accept [] tokens)
  | .ok (.accept value rest) =>
      match moreItems item rest.length rest with
      | .ok (.accept values rest) => .ok (.accept (value :: values) rest)
      | reply => reply

/-- Joins further operands to what is on their left, at most `bound` of them.  An
operator without an operand is left unread. -/
def moreOperands (isOperator : Token → Bool) (operand : Parser α)
    (join : Token → α → α → α) : (bound : Nat) → (left : α) → Parser α
  | 0, left, tokens => .ok (.accept left tokens)
  | bound + 1, left, operator :: next :: rest =>
      if isOperator operator then
        match operand (next :: rest) with
        | .error error => .error error
        | .ok (.reject _) => .ok (.accept left (operator :: next :: rest))
        | .ok (.accept right rest) =>
            moreOperands isOperator operand join bound (join operator left right) rest
      else .ok (.accept left (operator :: next :: rest))
  | _ + 1, left, tokens => .ok (.accept left tokens)

/-- Reads operands with operators between them and joins them from the left. -/
def chainLeft (isOperator : Token → Bool) (operand : Parser α)
    (join : Token → α → α → α) : Parser α := attempt do
  let first ← operand
  fun tokens => moreOperands isOperator operand join tokens.length first tokens

/-- Reads further arguments of a head, at most `bound` of them.  `argument` has
been read already and starts at `position`; it is applied as soon as a token is
seen after it, so it is lost when the tokens end there. -/
def moreArguments (parser : Parser β) (apply : Position → α → β → α) :
    (bound : Nat) → (head : α) → (position : Position) → (argument : β) → Parser α
  | 0, head, _, _, tokens => .ok (.accept head tokens)
  | _ + 1, head, _, _, [] => .ok (.accept head [])
  | bound + 1, head, position, argument, token :: rest =>
      let applied := apply position head argument
      match parser (token :: rest) with
      | .error error => .error error
      | .ok (.reject rest) => .ok (.accept applied rest)
      | .ok (.accept next rest) =>
          moreArguments parser apply bound applied token.position next rest

/-- Reads a head and one or more arguments, and applies the head to them from the
left. -/
def applied (head : Parser α) (argument : Parser β) (apply : Position → α → β → α) :
    Parser α := attempt do
  let head ← head
  let position ← nextPosition
  let first ← argument
  fun tokens => moreArguments argument apply tokens.length head position first tokens

/-- Runs a parser that has to read all tokens. -/
def finish (parser : Parser α) (tokens : List Token) : Except Error α :=
  match parser tokens with
  | .error error => .error error
  | .ok (.accept value []) => .ok value
  | .ok (.accept _ (token :: _)) => .error (.leftover token)
  | .ok (.reject []) => .error .incomplete
  | .ok (.reject (token :: _)) => .error (.leftover token)

end Parser

end StackScript.Grammar
