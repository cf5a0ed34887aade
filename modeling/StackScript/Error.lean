import StackScript.Form
import StackScript.Text.Numeral
import StackScript.Text.Quoted
import StackScript.Token.Basic

/-!
# Errors

Each way in which a stage can refuse its input is a constructor of `Error`, and
`Error.message` is what the user reads.
-/

namespace StackScript

/-- Why a script, a tree or stack code is refused. -/
inductive Error where
  /-- No token starts with this character. -/
  | unexpectedCharacter (character : Char) (line : Nat)
  /-- The parser stopped before this token. -/
  | leftover (token : Token)
  /-- The parser read everything and still found nothing acceptable. -/
  | incomplete
  /-- A token other than an opening parenthesis follows `lambda`. -/
  | expectedOpening (found : Token)
  /-- A builtin stands on the left of an assignment. -/
  | builtinTarget (target : Token)
  /-- The name of a field is not followed by an expression. -/
  | missingFieldValue
  /-- A construct goes on with a token that cannot belong to it. -/
  | malformedConstruct
  /-- The tokens end inside a construct. -/
  | endOfTokens
  /-- Constructs are nested deeper than the bound given to the parser. -/
  | tooDeep
  /-- An integer token is not a numeral. -/
  | invalidNumeral (text : String)
  /-- An integer token has more digits than a numeral may have. -/
  | numeralTooLong (digits : Nat)
  /-- What follows a period has no name. -/
  | fieldWithoutName (form : Form)
  /-- An infix operator is not known. -/
  | unknownOperator (text : String)
  /-- A node stands where its form may not stand. -/
  | misplaced (form : Form)
  /-- The tally does not number branches. -/
  | branchesNotNumbered
  /-- A body is empty. -/
  | emptyBody
  /-- A body ends in a label. -/
  | bodyEndsInLabel
  /-- The last statement of a body yields no value. -/
  | bodyWithoutValue
  /-- The machine has no instruction for a builtin. -/
  | noInstruction
  /-- An instruction cannot be written down as part of a document. -/
  | notWritable
  /-- An argument is not what its instruction calls for. -/
  | unfitArgument
  /-- A symbol is expected and the argument is a number. -/
  | numberForSymbol
  /-- A symbol is expected and there is no argument. -/
  | nothingForSymbol
  /-- The command has no argument. -/
  | noScriptNamed
  /-- There is no file at this path. -/
  | noSuchFile (path : String)
  /-- There is a folder at this path. -/
  | folderNamed (path : String)
  /-- This path goes on after a file. -/
  | pastFile (path : String)
  /-- The path of the script does not have the suffix of scripts. -/
  | notAScript
  /-- A progression does not move. -/
  | zeroStep
  /-- A progression is given no bounds. -/
  | boundsMissing
  /-- A progression is given more than three numbers. -/
  | tooManyBounds (count : Nat)
  /-- A number stands where a series is expected. -/
  | numberForSeries
  /-- Nothing stands where a series is expected. -/
  | nothingForSeries
  deriving DecidableEq, Repr

namespace Error

/-- The number of characters of a quoted text that a report about a numeral
shows. -/
def numeralExcerpt : Nat := 200

/-- A token as reports show it. -/
def shownToken (token : Token) : String :=
  "Token(type=" ++ Text.quoted token.kind.name ++
    ", match=" ++ Text.quoted token.text ++
    ", metadata=NodeMetadata(index=" ++ toString token.position.index ++
    ", line=" ++ toString token.position.line ++ "))"

/-- What a report about an error says. -/
def message : Error → String
  | unexpectedCharacter character line =>
      "Unexpected character \"" ++ character.toString ++ "\" on line " ++ toString line
  | leftover token => "Unable to parse token " ++ shownToken token
  | incomplete => "Unable to parse"
  | expectedOpening found =>
      "Expected \"(\", found \"" ++ found.text ++ "\" on line " ++
        toString found.position.line
  | builtinTarget target =>
      "Trying to assign to builtin \"" ++ target.text ++ "\" on line " ++
        toString target.position.line
  | missingFieldValue => ""
  | malformedConstruct => "'Token' object has no attribute 'line'"
  | endOfTokens => "tuple index out of range"
  | tooDeep => "nesting too deep"
  | invalidNumeral text =>
      "invalid literal for int() with base 10: " ++
        String.ofList ((Text.quoted text).toList.take numeralExcerpt)
  | numeralTooLong digits =>
      "Exceeds the limit (" ++ toString Text.digitLimit ++
        " digits) for integer string conversion: value has " ++ toString digits ++
        " digits; use sys.set_int_max_str_digits() to increase the limit"
  | fieldWithoutName form =>
      "'" ++ form.name ++ "' object has no attribute 'symbol'"
  | unknownOperator text => Text.quoted text
  | misplaced form => "<class '" ++ form.qualifiedName ++ "'>"
  | branchesNotNumbered => "'if'"
  | emptyBody => "tuple index out of range"
  | bodyEndsInLabel => "'CIRLabel' object has no attribute 'instruction'"
  | bodyWithoutValue => ""
  | noInstruction => "No module named 'ipdb'"
  | notWritable => "No module named 'ipdb'"
  | unfitArgument => ""
  | numberForSymbol => "'int' object has no attribute 'startswith'"
  | nothingForSymbol => "'NoneType' object has no attribute 'startswith'"
  | noScriptNamed => "list index out of range"
  | noSuchFile path => "[Errno 2] No such file or directory: " ++ Text.quoted path
  | folderNamed path => "[Errno 21] Is a directory: " ++ Text.quoted path
  | pastFile path => "[Errno 20] Not a directory: " ++ Text.quoted path
  | notAScript => ""
  | zeroStep => "range() arg 3 must not be zero"
  | boundsMissing => "range expected at least 1 argument, got 0"
  | tooManyBounds count => "range expected at most 3 arguments, got " ++ toString count
  | numberForSeries => "'int' object is not iterable"
  | nothingForSeries => "'NoneType' object is not iterable"

end Error

end StackScript
