import StackScript.Code.Basic
import StackScript.Code.Label
import StackScript.Linear.Basic

/-!
# Emitting stack code

The code of a value leaves it on the stack.  The body of a function becomes a block
of its own, which starts with the function's label and stands before the code that
closes over it.  Every body has to end by dropping a value; this value is kept
instead, as what the body yields.
-/

namespace StackScript.Code

open StackScript.Core (Builtin)
open StackScript.Linear (Value Step)

/-- Emitted code: the blocks of the functions that it closes over, and the code
itself. -/
structure Fragment where
  blocks : List Entry
  code : List Entry
  deriving DecidableEq, Repr

namespace Fragment

/-- A fragment without blocks. -/
def plain (code : List Entry) : Fragment :=
  { blocks := [], code }

def append (first second : Fragment) : Fragment :=
  { blocks := first.blocks ++ second.blocks, code := first.code ++ second.code }

/-- A fragment with an instruction after it. -/
def andThen (fragment : Fragment) (opcode : Opcode) (argument : Argument) : Fragment :=
  { fragment with code := fragment.code ++ [Entry.of opcode argument] }

end Fragment

def opcodeOfBuiltin? : Builtin → Option Opcode
  | .add => some .add
  | .subtract => some .subtract
  | .multiply => some .multiply
  | .integerDivide => some .integerDivide
  | .modularDivide => some .modulo
  | .negate => some .negate
  | .eq => some .eq
  | .neq => some .neq
  | .lt => some .lt
  | .lte => some .lte
  | .gt => some .gt
  | .gte => some .gte
  | .concat => none
  | .get => none
  | .other _ => none

/-- The instruction that performs a builtin, which has to exist. -/
def opcodeOfBuiltin (builtin : Builtin) : Except Error Opcode :=
  match opcodeOfBuiltin? builtin with
  | some opcode => .ok opcode
  | none => .error .noInstruction

/-- The form of a builtin that is not called. -/
def bareBuiltinForm : Form := ⟨"conversion", "CPSBuiltinExpression"⟩

/-- The argument that every list instruction has. -/
def listArgument : Argument := .integer 2

/-- The code of a body, which leaves the value that it yields on the stack. -/
def yielding (code : List Entry) : Except Error (List Entry) :=
  match code.getLast? with
  | none => .error .emptyBody
  | some (.label _) => .error .bodyEndsInLabel
  | some (.instruction last) =>
      if last.opcode = .drop then .ok code.dropLast else .error .bodyWithoutValue

def functionBlock (label : String) (parameters : List String) (body : List Entry) :
    List Entry :=
  .label label ::
    parameters.reverse.map (fun parameter => Entry.of .pop (symbolArgument parameter)) ++
      body ++ [Entry.of .returnValue .nothing]

/-- The code of a conditional. -/
def branching (number : Int) (condition onTrue onFalse : List Entry) : List Entry :=
  condition ++
    [Entry.of .jumpIfFalse (.text (elseLabel number)),
      Entry.of .jump (.text (thenLabel number)),
      .label (thenLabel number)] ++
    onTrue ++
    [Entry.of .jump (.text (endLabel number)),
      .label (elseLabel number)] ++
    onFalse ++
    [.label (endLabel number)]

mutual

/-- Emits a value. -/
def emitValue : Value → Emit Fragment
  | .integer value => return .plain [Entry.of .pushInteger (.integer value)]
  | .text content => return .plain [Entry.of .pushText (textArgument content)]
  | .symbol name => return .plain [Entry.of .push (symbolArgument name)]
  | .symbolLiteral name => return .plain [Entry.of .pushSymbol (symbolArgument name)]
  | .temporary name => return .plain [Entry.of .push (symbolArgument name)]
  | .list _ => return .plain [Entry.of .list listArgument]
  | .record fieldCount => return .plain [Entry.of .record (.integer fieldCount)]
  | .call _ (.builtin builtin) argumentCount => do
      let opcode ← (opcodeOfBuiltin builtin : Except Error Opcode)
      return .plain [Entry.of opcode (.integer argumentCount)]
  | .call _ function argumentCount => do
      let function ← emitValue function
      return function.andThen .call (.integer argumentCount)
  | .lambda name? parameters body => do
      let label ← newFunctionLabel name?
      let body ← emitSteps body
      let code ← (yielding body.code : Except Error (List Entry))
      return { blocks := body.blocks ++ functionBlock label parameters code
               code := [Entry.of .close (.text label)] }
  | .conditional condition onTrue onFalse => do
      let number ← newBranchNumber
      let condition ← emitValue condition
      let onTrue ← emitSteps onTrue
      let trueCode ← (yielding onTrue.code : Except Error (List Entry))
      let onFalse ← emitSteps onFalse
      let falseCode ← (yielding onFalse.code : Except Error (List Entry))
      return { blocks := condition.blocks ++ onTrue.blocks ++ onFalse.blocks
               code := branching number condition.code trueCode falseCode }
  | .builtin _ => throw (.misplaced bareBuiltinForm)
  | .misplaced form => throw (.misplaced form)

/-- Emits a step. -/
def emitStep : Step → Emit Fragment
  | .push value => emitValue value
  | .bindTemporary temporary value => do
      let value ← emitValue value
      return value.andThen .pop (symbolArgument temporary)
  | .assign target value => do
      let value ← emitValue value
      return value.andThen .pop (symbolArgument target)
  | .evaluate value => do
      let value ← emitValue value
      return value.andThen .drop .nothing
  | .misplaced form => throw (.misplaced form)

def emitSteps : List Step → Emit Fragment
  | [] => return .plain []
  | step :: rest => do
      let step ← emitStep step
      let rest ← emitSteps rest
      return step.append rest

end

/-- Emits steps one by one.  Each goes on with the tally that the one before has
left, also if that one failed; the tally after a step is given with its result. -/
def emitEach (tally : Tally) : List Step → List (Except Error Fragment × Tally)
  | [] => []
  | step :: rest =>
      let emitted := (emitStep step).run tally
      emitted :: emitEach emitted.2 rest

/-- The code of a script: the blocks of its functions, then its own code. -/
def assemble (script : Fragment) : List Entry :=
  script.blocks ++ .label mainLabel :: script.code ++ [Entry.of .halt .nothing]

/-- Emits the code of a script. -/
def ofLinear (program : Linear.Program) : Except Error (List Entry) :=
  ((emitSteps program.steps).run Tally.initial).1.map assemble

end StackScript.Code
