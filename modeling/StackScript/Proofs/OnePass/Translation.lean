import StackScript.Code.OfLinear
import StackScript.Proofs.Labels.Place
import StackScript.Surface.Basic

/-!
# Translation in one pass

Stack code can be written down in one pass over the surface tree, if the names of its
labels do not matter.  Every expression leaves its value on the stack: first comes the
code of its parts in the order of evaluation, then its own instruction.  A function is
bound to a temporary; the number of this temporary is the number of functions and lists
that come before it in the same body.
-/

namespace StackScript.Code.Entry

/-- A label whose name does not matter. -/
def unnamedLabel : Entry := .label ""

/-- An entry without the names of labels. -/
def unnamed : Entry → Entry
  | label _ => unnamedLabel
  | instruction content =>
      if content.opcode.takesLabel then .of content.opcode .nothing else .instruction content

end StackScript.Code.Entry

namespace StackScript.Surface

open StackScript.Code (Entry Opcode Fragment symbolArgument textArgument)

mutual

/-- How many temporaries an expression takes: one for each function and for each list,
but none for what is inside a function. -/
def Expr.temporaries : Expr → Nat
  | .integer _ => 0
  | .text _ => 0
  | .symbol .. => 0
  | .negation _ operand => operand.temporaries
  | .binary _ _ _ left right => left.temporaries + right.temporaries
  | .list items => 1 + exprsTemporaries items
  | .record fields => fieldsTemporaries fields
  | .item _ subject index => subject.temporaries + index.temporaries
  | .call _ function arguments => exprsTemporaries arguments + function.temporaries
  | .lambda .. => 1
  | .conditional condition onTrue onFalse =>
      condition.temporaries + stmtsTemporaries onTrue + stmtsTemporaries onFalse
  | .misplaced .. => 0

def exprsTemporaries : List Expr → Nat
  | [] => 0
  | expression :: rest => expression.temporaries + exprsTemporaries rest

def fieldsTemporaries : List (String × Expr) → Nat
  | [] => 0
  | (_, value) :: rest => value.temporaries + fieldsTemporaries rest

def Stmt.temporaries : Stmt → Nat
  | .assign _ value => value.temporaries
  | .evaluate expression => expression.temporaries
  | .define .. => 1
  | .misplaced _ => 0

def stmtsTemporaries : List Stmt → Nat
  | [] => 0
  | statement :: rest => statement.temporaries + stmtsTemporaries rest

end

/-- The instruction for an infix operator that is neither a conditional nor access to a
field.  There is none for `++`. -/
def operatorOpcode? : String → Option Opcode
  | "+" => some .add
  | "-" => some .subtract
  | "*" => some .multiply
  | "//" => some .integerDivide
  | "%" => some .modulo
  | "<" => some .lt
  | ">" => some .gt
  | "<=" => some .lte
  | ">=" => some .gte
  | "==" => some .eq
  | "!=" => some .neq
  | _ => none

/-- The code that pushes the value of a symbol. -/
def pushed (name : String) : Fragment :=
  .plain [.of .push (symbolArgument name)]

def chosen (condition onTrue onFalse : Fragment) : Fragment :=
  { blocks := condition.blocks ++ onTrue.blocks ++ onFalse.blocks
    code :=
      condition.code ++
        [.of .jumpIfFalse .nothing, .of .jump .nothing, .unnamedLabel] ++ onTrue.code ++
        [.of .jump .nothing, .unnamedLabel] ++ onFalse.code ++ [.unnamedLabel] }

/-- The block of a function after those of the functions inside it, and the code that
binds the function to a temporary and pushes it. -/
def closed (temporary : Nat) (parameters : List String) (body : Fragment) : Fragment :=
  { blocks :=
      body.blocks ++
        .unnamedLabel ::
          (parameters.reverse.map fun parameter => .of .pop (symbolArgument parameter)) ++
          body.code ++ [.of .returnValue .nothing]
    code :=
      [.of .close .nothing, .of .pop (symbolArgument ("$" ++ toString temporary)),
        .of .push (symbolArgument ("$" ++ toString temporary))] }

mutual

/-- The code of an expression, before which its body has taken temporaries already. -/
def translateExpr (taken : Nat) : Expr → Option Fragment
  | .integer value => some (.plain [.of .pushInteger (.integer value)])
  | .text content => some (.plain [.of .pushText (textArgument content)])
  | .symbol _ name => some (pushed name)
  | .negation _ operand => do
      let operand ← translateExpr taken operand
      return operand.andThen .negate (.integer 1)
  | .binary _ _ operator left right => do
      let first ← translateExpr taken left
      if operator = "." then
        let field ← right.name?
        return first.append (.plain [.of .pushText (textArgument field),
          .of .push (symbolArgument "__field__"), .of .call (.integer 2)])
      else
        let second ← translateExpr (taken + left.temporaries) right
        if operator = "and" then
          return chosen first second (pushed "false")
        else if operator = "or" then
          return chosen first (pushed "true") second
        else
          let opcode ← operatorOpcode? operator
          return (first.append second).andThen opcode (.integer 2)
  | .list items => do
      let items ← translateExprs (taken + 1) items
      return items.andThen .list (.integer 2)
  | .record fields => do
      let values ← translateFields taken fields
      return values.andThen .record (.integer fields.length)
  | .item .. => none
  | .call _ function arguments => do
      let values ← translateExprs taken arguments
      let function ← translateExpr (taken + exprsTemporaries arguments) function
      return (values.append function).andThen .call (.integer arguments.length)
  | .lambda parameters body => do
      let body ← translateBody 0 body
      return closed taken parameters body
  | .conditional condition onTrue onFalse => do
      let first ← translateExpr taken condition
      let second ← translateBody (taken + condition.temporaries) onTrue
      let third ← translateBody
        (taken + condition.temporaries + stmtsTemporaries onTrue) onFalse
      return chosen first second third
  | .misplaced .. => none

def translateExprs (taken : Nat) : List Expr → Option Fragment
  | [] => some (.plain [])
  | expression :: rest => do
      let first ← translateExpr taken expression
      let second ← translateExprs (taken + expression.temporaries) rest
      return first.append second

/-- The code of fields in order, each value before its name. -/
def translateFields (taken : Nat) : List (String × Expr) → Option Fragment
  | [] => some (.plain [])
  | (name, value) :: rest => do
      let first ← translateExpr taken value
      let second ← translateFields (taken + value.temporaries) rest
      return (first.andThen .pushSymbol (symbolArgument name)).append second

def translateStmt (taken : Nat) : Stmt → Option Fragment
  | .assign target value => do
      let value ← translateExpr taken value
      return value.andThen .pop (symbolArgument target)
  | .evaluate expression => do
      let value ← translateExpr taken expression
      return value.andThen .drop .nothing
  | .define name parameters body => do
      let body ← translateBody 0 body
      return (closed taken parameters body).andThen .pop (symbolArgument name)
  | .misplaced _ => none

def translateStmts (taken : Nat) : List Stmt → Option Fragment
  | [] => some (.plain [])
  | statement :: rest => do
      let first ← translateStmt taken statement
      let second ← translateStmts (taken + statement.temporaries) rest
      return first.append second

/-- The code of a body.  It ends in an expression, whose value stays on the stack. -/
def translateBody (taken : Nat) : List Stmt → Option Fragment
  | [] => none
  | [.evaluate expression] => translateExpr taken expression
  | [_] => none
  | statement :: next :: rest => do
      let first ← translateStmt taken statement
      let second ← translateBody (taken + statement.temporaries) (next :: rest)
      return first.append second

end

/-- The code of a script: the blocks of its functions, then its own code. -/
def Program.translation (program : Program) : Option (List Entry) := do
  let script ← translateStmts 0 program.statements
  return script.blocks ++ .unnamedLabel :: script.code ++ [.of .halt .nothing]

end StackScript.Surface
