import StackScript.Document.Operand
import StackScript.Ledger

/-!
# Tables of labels and instructions

A document numbers the instructions of stack code from 0 and gives each label the
number of the instruction that follows it.  A label that occurs twice keeps its
place in the table and takes the later number.
-/

namespace StackScript.Document

open StackScript.Code (Entry Instruction Argument)

/-- The labels of stack code with their numbers, and its instructions. -/
structure Table where
  labels : Ledger String Nat
  instructions : List Instruction

/-- Enters the labels of stack code that starts at the instruction with the given
number. -/
def enterLabels (number : Nat) (labels : Ledger String Nat) :
    List Entry → Ledger String Nat
  | [] => labels
  | .label name :: rest => enterLabels number (labels.set name number) rest
  | .instruction _ :: rest => enterLabels (number + 1) labels rest

/-- The table of stack code. -/
def Table.ofCode (entries : List Entry) : Table :=
  { labels := enterLabels 0 [] entries
    instructions := entries.filterMap Entry.instruction? }

/-- The instructions of a table with their operands. -/
def Table.rows (table : Table) : Except Error (List (Instruction × Argument)) := do
  let operands ← operands table.instructions
  return table.instructions.zip operands

end StackScript.Document
