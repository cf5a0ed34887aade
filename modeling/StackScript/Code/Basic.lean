/-!
# Stack code

Stack code is a list of entries.  An entry is an instruction for the stack machine
or a label that names the place of the next instruction.
-/

namespace StackScript.Code

/-- What an instruction does.  `other` is a name that the compiler never emits. -/
inductive Opcode where
  | add
  | subtract
  | multiply
  | integerDivide
  | modulo
  | negate
  | eq
  | neq
  | lt
  | lte
  | gt
  | gte
  | push
  | pushInteger
  | pushText
  | pushSymbol
  | pop
  | drop
  | list
  | record
  | close
  | call
  | jump
  | jumpIfFalse
  | returnValue
  | halt
  | other (name : String)
  deriving DecidableEq, Repr

namespace Opcode

def name : Opcode → String
  | add => "add"
  | subtract => "sub"
  | multiply => "mul"
  | integerDivide => "idiv"
  | modulo => "mod"
  | negate => "neg"
  | eq => "eq"
  | neq => "neq"
  | lt => "lt"
  | lte => "lte"
  | gt => "gt"
  | gte => "gte"
  | push => "push"
  | pushInteger => "push_integer"
  | pushText => "push_string"
  | pushSymbol => "push_symbol"
  | pop => "pop"
  | drop => "drop"
  | list => "list"
  | record => "structure"
  | close => "close"
  | call => "call"
  | jump => "jump"
  | jumpIfFalse => "jump_if_false"
  | returnValue => "return"
  | halt => "end"
  | other name => name

def known : List Opcode :=
  [add, subtract, multiply, integerDivide, modulo, negate, eq, neq, lt, lte, gt,
    gte, push, pushInteger, pushText, pushSymbol, pop, drop, list, record, close,
    call, jump, jumpIfFalse, returnValue, halt]

def ofName (name : String) : Opcode :=
  (known.find? fun opcode => opcode.name = name).getD (.other name)

end Opcode

/-- The argument of an instruction. -/
inductive Argument where
  | nothing
  | integer (value : Int)
  | text (content : String)
  deriving DecidableEq, Repr

/-- An instruction for the stack machine. -/
structure Instruction where
  opcode : Opcode
  argument : Argument
  deriving DecidableEq, Repr

/-- An entry of stack code. -/
inductive Entry where
  | label (name : String)
  | instruction (content : Instruction)
  deriving DecidableEq, Repr

namespace Entry

/-- The entry for an instruction with an argument. -/
def of (opcode : Opcode) (argument : Argument) : Entry :=
  .instruction { opcode, argument }

def instruction? : Entry → Option Instruction
  | label _ => none
  | instruction content => some content

/-- Whether an entry is an instruction of a given kind. -/
def hasOpcode (opcode : Opcode) : Entry → Bool
  | label _ => false
  | instruction content => content.opcode = opcode

end Entry

def symbolArgument (name : String) : Argument :=
  .text ("sym(" ++ name ++ ")")

/-- The argument that holds a text.  Its characters are taken over as they are. -/
def textArgument (content : String) : Argument :=
  .text ("\"" ++ content ++ "\"")

end StackScript.Code
