import StackScript.Error

/-!
# The lexer

A script is cut into tokens from left to right.  Spaces separate tokens, and a
comment runs from `#` up to the end of its line.  Where no token starts, the
script is refused.
-/

namespace StackScript.Lexer

/-- Whether a character can occur in a word. -/
def isWordCharacter (character : Char) : Bool :=
  ('a' ≤ character && character ≤ 'z') || character = '_'

/-- The words that are keywords; every other word is a symbol. -/
def keywords : List String := ["def", "do", "else", "end", "if", "lambda"]

/-- The kind of a word. -/
def wordKind (word : List Char) : Kind :=
  if keywords.contains (String.ofList word) then .keyword else .symbol

/-- How many characters complete a quoted text after its opening quote.  A quoted
text ends at the next quote of the same kind and does not go beyond its line. -/
def closingLength? (quote : Char) (rest : List Char) : Option Nat :=
  let body := rest.takeWhile fun character => character ≠ quote && character ≠ '\n'
  if rest[body.length]? = some quote then some (body.length + 1) else none

/-- The kind of the token that starts with `first`, and how many characters of
`rest` belong to it as well.  `none` if no token starts here. -/
def lexeme? (first : Char) (rest : List Char) : Option (Kind × Nat) :=
  let followedBy := fun character => rest.head? = some character
  if isWordCharacter first then
    let tail := rest.takeWhile isWordCharacter
    some (wordKind (first :: tail), tail.length)
  else if Text.isDigit first then
    some (.integer, (rest.takeWhile Text.isDigit).length)
  else
    match first with
    | '[' => some (.openBracket, 0)
    | ']' => some (.closeBracket, 0)
    | '(' => some (.openParen, 0)
    | ')' => some (.closeParen, 0)
    | ',' => some (.comma, 0)
    | ':' => some (.colon, 0)
    | '.' => some (.period, 0)
    | '\'' => (closingLength? '\'' rest).map fun length => (.singleQuoted, length)
    | '"' => (closingLength? '"' rest).map fun length => (.doubleQuoted, length)
    | '<' => some (.comparison, if followedBy '=' then 1 else 0)
    | '>' => some (.comparison, if followedBy '=' then 1 else 0)
    | '=' => if followedBy '=' then some (.comparison, 1) else some (.assignment, 0)
    | '!' => if followedBy '=' then some (.comparison, 1) else none
    | '+' => some (.addition, if followedBy '+' then 1 else 0)
    | '-' => some (.addition, 0)
    | '*' => some (.multiplication, 0)
    | '/' => if followedBy '/' then some (.multiplication, 1) else none
    | '%' => some (.multiplication, 0)
    | '\n' => some (.newline, 0)
    | _ => none

/-- How many characters of a comment follow its `#`. -/
def commentLength (rest : List Char) : Nat :=
  (rest.takeWhile fun character => character ≠ '\n').length

/-- The tokens of the characters that remain.  `index` and `line` give the place
of the first of them, and `pending` tells how many of them still belong to the
token or comment before. -/
def scan (index line : Nat) (pending : Nat) :
    List Char → Except Error (List Token)
  | [] => .ok []
  | first :: rest =>
      match pending with
      | pending + 1 => scan (index + 1) line pending rest
      | 0 =>
          if first = ' ' then scan (index + 1) line 0 rest
          else if first = '#' then scan (index + 1) line (commentLength rest) rest
          else
            match lexeme? first rest with
            | none => .error (.unexpectedCharacter first line)
            | some (kind, length) =>
                let token : Token :=
                  { kind
                    text := String.ofList (first :: rest.take length)
                    position := { index, line } }
                let nextLine := if kind = .newline then line + 1 else line
                (scan (index + 1) nextLine length rest).map (token :: ·)

end StackScript.Lexer

namespace StackScript

/-- The tokens of a script. -/
def tokenize (script : String) : Except Error (List Token) :=
  Lexer.scan 0 1 0 script.toList

end StackScript
