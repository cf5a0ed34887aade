import StackScript.Code.Basic
import StackScript.Text.Blank

/-!
# Listings of stack code

A listing has one indented line for each instruction, and for each label an empty
line and a line with a colon.  It does not start with blanks.
-/

namespace StackScript.Code

/-- An argument as a listing shows it. -/
def Argument.listed : Argument → String
  | nothing => "nil"
  | integer value => toString value
  | text content => content

/-- Whether a missing argument of an instruction stays unmentioned. -/
def Opcode.needsNoArgument : Opcode → Bool
  | drop => true
  | returnValue => true
  | _ => false

/-- The line of an instruction, with its argument unless there is none to
mention. -/
def Instruction.listed (instruction : Instruction) : String :=
  if instruction.opcode.needsNoArgument && instruction.argument = .nothing then
    "    " ++ instruction.opcode.name
  else
    "    " ++ instruction.opcode.name ++ " " ++ instruction.argument.listed

def Entry.listed : Entry → String
  | label name => "\n" ++ name ++ ":"
  | instruction content => content.listed

/-- The listing of stack code. -/
def listing (entries : List Entry) : String :=
  Text.trimStart (String.intercalate "\n" (entries.map Entry.listed))

end StackScript.Code
