import StackScript.Text.Printable

/-!
# Quoted texts

Reports show a text between quotes.  Single quotes are used unless the text holds
a single quote and no double quote.  The quote in use and the backslash are
escaped, and a character that is not printable is written as an escape.
-/

namespace StackScript.Text

/-- The digit of a hexadecimal numeral, in lower case. -/
def hexDigit (value : Nat) : Char :=
  if value < 10 then Char.ofNat ('0'.toNat + value)
  else Char.ofNat ('a'.toNat + (value - 10))

/-- The last `width` hexadecimal digits of a number. -/
def hexadecimal : (width : Nat) → (value : Nat) → List Char
  | 0, _ => []
  | width + 1, value =>
      hexadecimal width (value / 16) ++ [hexDigit (value % 16)]

/-- The escape of a character by its code point, in the shortest of the three
forms that holds it. -/
def codePointEscape (character : Char) : List Char :=
  let code := character.toNat
  if code < 0x100 then '\\' :: 'x' :: hexadecimal 2 code
  else if code < 0x10000 then '\\' :: 'u' :: hexadecimal 4 code
  else '\\' :: 'U' :: hexadecimal 8 code

/-- How a character is written between quotes of the given kind. -/
def quotedCharacter (quote character : Char) : List Char :=
  if character = quote || character = '\\' then ['\\', character]
  else if character = '\n' then ['\\', 'n']
  else if character = '\r' then ['\\', 'r']
  else if character = '\t' then ['\\', 't']
  else if isPrintable character then [character]
  else codePointEscape character

/-- The quote that surrounds a text: the single one, unless only the double one
spares an escape. -/
def quoteFor (characters : List Char) : Char :=
  if characters.contains '\'' && !characters.contains '"' then '"' else '\''

/-- A text between quotes. -/
def quoted (text : String) : String :=
  let quote := quoteFor text.toList
  String.ofList (quote :: text.toList.flatMap (quotedCharacter quote) ++ [quote])

end StackScript.Text
