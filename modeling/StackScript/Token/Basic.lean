/-!
# Tokens

A token is a piece of a script together with its kind and the place where it
stands.
-/

namespace StackScript

/-- The place of a token: how many characters of the script come before it, and
the number of its line, the first line being 1. -/
structure Position where
  index : Int
  line : Int
  deriving DecidableEq, Repr

/-- The kinds of tokens.  `other` is any kind that no rule of the lexer yields;
the grammar has no use for it but must be able to refuse it. -/
inductive Kind where
  | keyword
  | openBracket
  | closeBracket
  | openParen
  | closeParen
  | comma
  | colon
  | period
  | integer
  | symbol
  | singleQuoted
  | doubleQuoted
  | comparison
  | assignment
  | addition
  | multiplication
  | newline
  | other (name : String)
  deriving DecidableEq, Repr

namespace Kind

def name : Kind → String
  | keyword => "keyword"
  | openBracket => "open_bracket"
  | closeBracket => "close_bracket"
  | openParen => "open_parenthese"
  | closeParen => "close_parenthese"
  | comma => "comma"
  | colon => "colon"
  | period => "period"
  | integer => "integer_literal"
  | symbol => "symbol"
  | singleQuoted => "single_quoted_string_literal"
  | doubleQuoted => "double_quoted_string_literal"
  | comparison => "comparison_level_operator"
  | assignment => "assignment_operator"
  | addition => "addition_level_operator"
  | multiplication => "multiplication_level_operator"
  | newline => "newline"
  | other name => name

def known : List Kind :=
  [keyword, openBracket, closeBracket, openParen, closeParen, comma, colon,
    period, integer, symbol, singleQuoted, doubleQuoted, comparison, assignment,
    addition, multiplication, newline]

/-- The kind with a given name. -/
def ofName (name : String) : Kind :=
  (known.find? fun kind => kind.name = name).getD (.other name)

end Kind

/-- A token of a script. -/
structure Token where
  kind : Kind
  text : String
  position : Position
  deriving DecidableEq, Repr

namespace Token

def isKeyword (word : String) (token : Token) : Bool :=
  token.kind = .keyword && token.text = word

def isSymbol (name : String) (token : Token) : Bool :=
  token.kind = .symbol && token.text = name

end Token

end StackScript
