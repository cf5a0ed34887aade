import StackScript.Proofs.Machine.Standard
import StackScript.Surface.Basic

/-!
# Direct evaluation

The meaning of a script without functions, lists and records, taken from its surface
tree.  Statements are evaluated in order, and operands and arguments from left to
right.  Evaluation fails where a name is read that is not bound, where a name is bound
that is reserved for a builtin or bound already, and where a primitive fails.  It also
fails at every construct that it has no meaning for.
-/

namespace StackScript.Evaluation

open StackScript.Code (Opcode)
open StackScript.Machine (Scalar Primitives reserved isBindable word)
open StackScript.Surface (Expr Stmt Program)

/-- What has been bound and printed so far. -/
structure Memory where
  bindings : Ledger String Scalar
  output : String
  deriving DecidableEq, Repr

namespace Memory

/-- The memory in which a script starts. -/
def initial : Memory :=
  { bindings := [], output := "" }

/-- The value of a name.  Reserved names come first. -/
def read (memory : Memory) (name : String) : Option Scalar :=
  (reserved name).or (memory.bindings.get? name)

/-- Binds a name that is not bound yet. -/
def bind (memory : Memory) (name : String) (value : Scalar) : Option Memory :=
  if isBindable name && (memory.bindings.get? name).isNone then
    some { memory with bindings := (name, value) :: memory.bindings }
  else none

def print (memory : Memory) (text : String) : Memory :=
  { memory with output := memory.output ++ text }

end Memory

def truth? : Scalar → Option Bool
  | .boolean value => some value
  | _ => none

/-- The operation that an infix operator stands for. -/
def operation? : String → Option Opcode
  | "+" => some .add
  | "-" => some .subtract
  | "*" => some .multiply
  | "//" => some .integerDivide
  | "%" => some .modulo
  | "==" => some .eq
  | "!=" => some .neq
  | "<" => some .lt
  | "<=" => some .lte
  | ">" => some .gt
  | ">=" => some .gte
  | _ => none

/-- Calls a value, which has to be a builtin. -/
def call (primitives : Primitives) (function : Scalar) (arguments : List Scalar)
    (memory : Memory) : Option (Scalar × Memory) :=
  match function with
  | .builtin builtin => do
      let (result, text) ← primitives.invoke builtin arguments
      return (result, memory.print text)
  | _ => none

mutual

/-- The value of an expression. -/
def evaluateExpr (primitives : Primitives) : Expr → Memory → Option (Scalar × Memory)
  | .integer value, memory => some (.integer (word value), memory)
  | .text content, memory => some (.text content, memory)
  | .symbol _ name, memory => do
      let value ← memory.read name
      return (value, memory)
  | .negation _ operand, memory => do
      let (operand, memory) ← evaluateExpr primitives operand memory
      let result ← primitives.operate .negate [operand]
      return (result, memory)
  | .binary _ _ operator left right, memory => do
      let (first, memory) ← evaluateExpr primitives left memory
      if operator = "and" then do
        if ← truth? first then evaluateExpr primitives right memory
        else do
          let value ← memory.read "false"
          return (value, memory)
      else if operator = "or" then do
        if ← truth? first then do
          let value ← memory.read "true"
          return (value, memory)
        else evaluateExpr primitives right memory
      else do
        let operation ← operation? operator
        let (second, memory) ← evaluateExpr primitives right memory
        let result ← primitives.operate operation [first, second]
        return (result, memory)
  | .call _ function arguments, memory => do
      let (arguments, memory) ← evaluateExprs primitives arguments memory
      let (function, memory) ← evaluateExpr primitives function memory
      call primitives function arguments memory
  | .conditional condition onTrue onFalse, memory => do
      let (condition, memory) ← evaluateExpr primitives condition memory
      if ← truth? condition then evaluateBody primitives onTrue memory
      else evaluateBody primitives onFalse memory
  | .list _, _ => none
  | .record _, _ => none
  | .item .., _ => none
  | .lambda .., _ => none
  | .misplaced .., _ => none

def evaluateExprs (primitives : Primitives) :
    List Expr → Memory → Option (List Scalar × Memory)
  | [], memory => some ([], memory)
  | expression :: rest, memory => do
      let (value, memory) ← evaluateExpr primitives expression memory
      let (values, memory) ← evaluateExprs primitives rest memory
      return (value :: values, memory)

def evaluateStmt (primitives : Primitives) : Stmt → Memory → Option Memory
  | .assign target value, memory => do
      let (value, memory) ← evaluateExpr primitives value memory
      memory.bind target value
  | .evaluate expression, memory => do
      let (_, memory) ← evaluateExpr primitives expression memory
      return memory
  | .define .., _ => none
  | .misplaced _, _ => none

/-- The value of a body: that of its last statement, which has to be an expression. -/
def evaluateBody (primitives : Primitives) : List Stmt → Memory → Option (Scalar × Memory)
  | [], _ => none
  | [.evaluate expression], memory => evaluateExpr primitives expression memory
  | [_], _ => none
  | statement :: next :: rest, memory => do
      let memory ← evaluateStmt primitives statement memory
      evaluateBody primitives (next :: rest) memory

end

def evaluateStmts (primitives : Primitives) : List Stmt → Memory → Option Memory
  | [], memory => some memory
  | statement :: rest, memory => do
      let memory ← evaluateStmt primitives statement memory
      evaluateStmts primitives rest memory

/-- What a script prints, if its evaluation finishes. -/
def output? (primitives : Primitives) (program : Program) : Option String :=
  (evaluateStmts primitives program.statements .initial).map Memory.output

end StackScript.Evaluation
