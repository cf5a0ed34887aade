import StackScript.Document.Environment
import StackScript.Document.Instructions
import StackScript.Document.Objects
import StackScript.Document.Stack
import StackScript.Document.Table
import StackScript.Document.Thread

/-!
# Documents

A document is the C text of a program that runs stack code: the machine, the
numbers of the labels, the instructions with their operands, and the loop that
runs them.
-/

namespace StackScript.Document

open StackScript.Code (Entry Instruction Argument)

/-- The text of the machine. -/
def machineLines : List String :=
  objectLines ++ environmentLines ++ stackLines ++ [""] ++ threadLines ++
    builtinLines ++ instructionLines

/-- The declaration of instructions. -/
def instructionTypeLines : List String :=
  ["struct Instruction;",
   "typedef const struct Instruction Instruction;",
   "struct Instruction \x7b",
   "  void (*instruction)(Thread*,Argument);",
   "  Argument argument;",
   "\x7d;",
   ""]

/-- Rows of a table, each after an empty line, and an empty line after all. -/
def spaced (rows : List String) : List String :=
  rows.flatMap (fun row => ["", row]) ++ [""]

/-- The definition of a label's number. -/
def labelRow (label : String × Nat) : String :=
  "#define LABEL_" ++ label.1 ++ " " ++ toString label.2

/-- The row of an instruction with its operand. -/
def instructionRow (row : Instruction × Argument) : String :=
  "  (Instruction)\x7b inst_" ++ row.1.opcode.name ++ ", (Argument)" ++
    shownArgument row.2 ++ " \x7d,"

/-- The loop that runs the instructions. -/
def mainLines : List String :=
  ["\x7d;",
   "",
   "int main() \x7b",
   "  Thread thread;",
   "  Thread_initialize(&thread, LABEL___main__);",
   "",
   "  for(; program[Thread_getProgramCounter(&thread)].instruction != inst_end; " ++
     "Thread_incrementProgramCounter(&thread)) \x7b",
   "    program[Thread_getProgramCounter(&thread)].instruction(",
   "      &thread,",
   "      program[Thread_getProgramCounter(&thread)].argument",
   "    );",
   "  \x7d",
   "",
   "  Thread_deinitialize(&thread);",
   "",
   "  return 0;",
   "\x7d"]

/-- The document for stack code. -/
def ofCode (entries : List Entry) : Except Error String := do
  let table := Table.ofCode entries
  let rows ← table.rows
  return String.intercalate "\n"
    (machineLines ++ instructionTypeLines ++ spaced (table.labels.map labelRow) ++
      ["", "const Instruction program[] = \x7b"] ++
      spaced (rows.map instructionRow) ++ mainLines)

end StackScript.Document
