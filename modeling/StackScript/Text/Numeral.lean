import StackScript.Text.Blank
import StackScript.Text.Digit

/-!
# Decimal numerals

A numeral is a margin of blanks, a sign, digits with single underscores between
them, and another margin; the margins and the sign may be missing.  A numeral
with more than `digitLimit` digits is refused.  The limit is looked at as soon as
the digits have been read, so it is reported even if the text that follows them
could not belong to a numeral.
-/

namespace StackScript.Text

/-- The greatest number of digits that a numeral may have. -/
def digitLimit : Nat := 4300

/-- Why a text is not an acceptable numeral. -/
inductive NumeralError where
  /-- The text does not have the form of a numeral. -/
  | malformed
  /-- There are more digits than `digitLimit`. -/
  | tooLong (digits : Nat)
  deriving DecidableEq, Repr

/-- Whether every underscore stands between two digits, in a run of digits and
underscores. -/
def wellSeparated (run : List Char) : Bool :=
  match run with
  | [] => true
  | ['_'] => false
  | '_' :: '_' :: _ => false
  | _ :: rest => wellSeparated rest

/-- The number that digits denote when they follow the digits of `leading`. -/
def valueOfDigits (leading : Nat) (digits : List Nat) : Nat :=
  digits.foldl (fun value digit => 10 * value + digit) leading

/-- Reads a numeral without margin at its start and without sign. -/
def readUnsigned (characters : List Char) : Except NumeralError Nat :=
  let inRun := fun character => isDigit character || character = '_'
  let run := characters.takeWhile inRun
  let rest := characters.dropWhile inRun
  let digits := run.filterMap digitValue?
  if run.head? = some '_' || !wellSeparated run then .error .malformed
  else if digitLimit < digits.length then .error (.tooLong digits.length)
  else if run.isEmpty || !rest.all isMargin then .error .malformed
  else .ok (valueOfDigits 0 digits)

/-- Reads a numeral. -/
def readNumeral (text : String) : Except NumeralError Int :=
  match text.toList.dropWhile isMargin with
  | '-' :: rest => (readUnsigned rest).map fun value => -(value : Int)
  | '+' :: rest => (readUnsigned rest).map fun value => (value : Int)
  | rest => (readUnsigned rest).map fun value => (value : Int)

end StackScript.Text
