import StackScript.Error

/-!
# Series

A series is a list of data; a text counts as the series of its characters.
Arithmetic progressions are series of integers.
-/

namespace StackScript

/-- Data of which series are made. -/
inductive Datum where
  | nothing
  | integer (value : Int)
  | text (content : String)
  | series (items : List Datum)

namespace Datum

/-- The items of a datum that is a series. -/
def items : Datum → Except Error (List Datum)
  | nothing => .error .nothingForSeries
  | integer _ => .error .numberForSeries
  | text content => .ok (content.toList.map fun character => text character.toString)
  | series items => .ok items

/-- The items of series, one series after the other. -/
def joined : List Datum → Except Error (List Datum)
  | [] => .ok []
  | first :: rest => do
      let first ← items first
      let rest ← joined rest
      return first ++ rest

/-- The items of the items of a series. -/
def flatten (datum : Datum) : Except Error (List Datum) := do
  let parts ← items datum
  joined parts

end Datum

/-- How many members a progression has before it reaches `stop`. -/
def progressionLength (start stop step : Int) : Nat :=
  if 0 < step then ((stop - start + step - 1) / step).toNat
  else ((start - stop - step - 1) / (-step)).toNat

/-- The members of an arithmetic progression before it reaches `stop`. -/
def progression (start stop step : Int) : Except Error (List Int) :=
  if step = 0 then .error .zeroStep
  else .ok ((List.range (progressionLength start stop step)).map fun (index : Nat) =>
    start + index * step)

/-- The progression that one, two or three numbers describe: where it stops, where
it starts and stops, or these two and its step. -/
def progressionOf : (numbers : List Int) → Except Error (List Int)
  | [stop] => progression 0 stop 1
  | [start, stop] => progression start stop 1
  | [start, stop, step] => progression start stop step
  | [] => .error .boundsMissing
  | numbers => .error (.tooManyBounds numbers.length)

end StackScript
