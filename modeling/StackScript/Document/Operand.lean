import StackScript.Code.Basic
import StackScript.Error

/-!
# Operands

A document writes the argument of an instruction as a C expression.  Each
instruction has a rule for its operand, and some instructions have none, so that
they cannot be written down.
-/

namespace StackScript.Document

open StackScript.Code (Opcode Argument Instruction)

/-- How the argument of an instruction is written. -/
inductive OperandRule where
  /-- There must be no argument. -/
  | nothing
  /-- The argument must be the given count, which is not written. -/
  | count (expected : Int)
  /-- The argument must be an integer and is written as a size. -/
  | size
  /-- The argument must be an integer and is written as such. -/
  | integer
  /-- The argument names a label. -/
  | label
  /-- The argument must be a symbol and is written as a string. -/
  | symbol
  /-- The argument is taken over as it is. -/
  | verbatim
  deriving DecidableEq, Repr

/-- The rule for the operand of an instruction. -/
def operandRule? : Opcode → Option OperandRule
  | .add => some (.count 2)
  | .subtract => some (.count 2)
  | .multiply => some (.count 2)
  | .integerDivide => some (.count 2)
  | .modulo => some (.count 2)
  | .negate => some (.count 1)
  | .eq => some (.count 2)
  | .neq => some (.count 2)
  | .lt => some (.count 2)
  | .lte => some (.count 2)
  | .gt => some (.count 2)
  | .gte => some (.count 2)
  | .push => some .symbol
  | .pushInteger => some .integer
  | .pushText => some .verbatim
  | .pop => some .symbol
  | .drop => some .nothing
  | .close => some .label
  | .call => some .size
  | .jump => some .label
  | .jumpIfFalse => some .label
  | .returnValue => some .nothing
  | .halt => some .nothing
  | .pushSymbol => none
  | .list => none
  | .record => none
  | .other _ => none

/-- An argument as it stands in C text. -/
def shownArgument : Argument → String
  | .nothing => "None"
  | .integer value => toString value
  | .text content => content

/-- The name in a symbol argument. -/
def symbolName? (content : String) : Option String :=
  let characters := content.toList
  if "sym(".toList.isPrefixOf characters && ")".toList.isSuffixOf characters then
    some (String.ofList (characters.drop 4).dropLast)
  else none

/-- Writes an argument by a rule. -/
def OperandRule.write : OperandRule → Argument → Except Error Argument
  | .nothing, .nothing => .ok (.text "NULL")
  | .nothing, _ => .error .unfitArgument
  | .count expected, .integer value =>
      if value = expected then .ok (.text "NULL") else .error .unfitArgument
  | .count _, _ => .error .unfitArgument
  | .size, .integer value => .ok (.text ("(size_t)" ++ toString value))
  | .size, _ => .error .unfitArgument
  | .integer, .integer value => .ok (.text ("(int32_t)" ++ toString value))
  | .integer, _ => .error .unfitArgument
  | .label, argument => .ok (.text ("LABEL_" ++ shownArgument argument))
  | .symbol, .text content =>
      match symbolName? content with
      | some name => .ok (.text ("\"" ++ name ++ "\""))
      | none => .error .unfitArgument
  | .symbol, .integer _ => .error .numberForSymbol
  | .symbol, .nothing => .error .nothingForSymbol
  | .verbatim, argument => .ok argument

/-- The operand of an instruction. -/
def operand (instruction : Instruction) : Except Error Argument :=
  match operandRule? instruction.opcode with
  | some rule => rule.write instruction.argument
  | none => .error .notWritable

def operands : List Instruction → Except Error (List Argument)
  | [] => .ok []
  | instruction :: rest => do
      let first ← operand instruction
      let rest ← operands rest
      return first :: rest

end StackScript.Document
