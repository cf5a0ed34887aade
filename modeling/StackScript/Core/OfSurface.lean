import StackScript.Core.Basic
import StackScript.Error
import StackScript.Surface.Basic

/-!
# Reducing the surface tree to the core tree

`and` and `or` become conditionals whose constant branch is the symbol `false` or
`true`.  A period becomes a call of `__field__` with the field's name as a text.
All other operators, indexing and negation become calls of builtins.  The parts
of a node are reduced from left to right, and the first refusal wins; an unknown
operator is refused before its operands are looked at.
-/

namespace StackScript.Core

/-- The branch that yields a symbol. -/
def constantBranch (position : Position) (name : String) : List Stmt :=
  [.evaluate (.symbol position name)]

def builtinCall (position : Position) (builtin : Builtin) (arguments : List Expr) : Expr :=
  .call position (.builtin position builtin) arguments

/-- Access to a field by its name. -/
def fieldAccess (position : Position) (subject : Expr) (field : String) : Expr :=
  .call position (.symbol position "__field__") [subject, .text field]

mutual

/-- Reduces an expression. -/
def Expr.ofSurface : Surface.Expr → Except Error Expr
  | .integer value => .ok (.integer value)
  | .text content => .ok (.text content)
  | .symbol position name => .ok (.symbol position name)
  | .negation position operand => do
      let operand ← Expr.ofSurface operand
      return builtinCall position .negate [operand]
  | .binary position _ operator left right =>
      if operator = "and" then do
        let left ← Expr.ofSurface left
        let right ← Expr.ofSurface right
        return .conditional left [.evaluate right] (constantBranch position "false")
      else if operator = "or" then do
        let left ← Expr.ofSurface left
        let right ← Expr.ofSurface right
        return .conditional left (constantBranch position "true") [.evaluate right]
      else if operator = "." then do
        let left ← Expr.ofSurface left
        match right.name? with
        | some field => return fieldAccess position left field
        | none => throw (.fieldWithoutName right.form)
      else
        match Builtin.ofOperator? operator with
        | none => throw (.unknownOperator operator)
        | some builtin => do
            let left ← Expr.ofSurface left
            let right ← Expr.ofSurface right
            return builtinCall position builtin [left, right]
  | .list items => do
      let items ← exprsOfSurface items
      return .list items
  | .record fields => do
      let fields ← fieldsOfSurface fields
      return .record fields
  | .item position subject index => do
      let subject ← Expr.ofSurface subject
      let index ← Expr.ofSurface index
      return builtinCall position .get [subject, index]
  | .call position function arguments => do
      let function ← Expr.ofSurface function
      let arguments ← exprsOfSurface arguments
      return .call position function arguments
  | .lambda parameters body => do
      let body ← stmtsOfSurface body
      return .lambda none parameters body
  | .conditional condition onTrue onFalse => do
      let condition ← Expr.ofSurface condition
      let onTrue ← stmtsOfSurface onTrue
      let onFalse ← stmtsOfSurface onFalse
      return .conditional condition onTrue onFalse
  | .misplaced form _ => throw (.misplaced form)

def exprsOfSurface : List Surface.Expr → Except Error (List Expr)
  | [] => .ok []
  | expression :: rest => do
      let expression ← Expr.ofSurface expression
      let rest ← exprsOfSurface rest
      return expression :: rest

def fieldsOfSurface : List (String × Surface.Expr) → Except Error (List (String × Expr))
  | [] => .ok []
  | (name, value) :: rest => do
      let value ← Expr.ofSurface value
      let rest ← fieldsOfSurface rest
      return (name, value) :: rest

def Stmt.ofSurface : Surface.Stmt → Except Error Stmt
  | .assign target value => do
      let value ← Expr.ofSurface value
      return .assign target value
  | .evaluate expression => do
      let expression ← Expr.ofSurface expression
      return .evaluate expression
  | .define name parameters body => do
      let body ← stmtsOfSurface body
      return .assign name (.lambda (some name) parameters body)
  | .misplaced form => throw (.misplaced form)

def stmtsOfSurface : List Surface.Stmt → Except Error (List Stmt)
  | [] => .ok []
  | statement :: rest => do
      let statement ← Stmt.ofSurface statement
      let rest ← stmtsOfSurface rest
      return statement :: rest

end

/-- Reduces a script. -/
def Program.ofSurface (program : Surface.Program) : Except Error Program := do
  let statements ← stmtsOfSurface program.statements
  return { statements }

end StackScript.Core
