import StackScript.Form
import StackScript.Token.Basic

/-!
# The core tree

The core tree has no operators and no definitions: an operator is a call of a
builtin, and a definition is the assignment of a function that knows its name.
-/

namespace StackScript.Core

/-- The builtins that stand for operators.  `other` is a builtin that no operator
stands for. -/
inductive Builtin where
  | concat
  | add
  | subtract
  | multiply
  | integerDivide
  | modularDivide
  | lt
  | gt
  | lte
  | gte
  | eq
  | neq
  | get
  | negate
  | other (name : String)
  deriving DecidableEq, Repr

namespace Builtin

def name : Builtin → String
  | concat => "__concat__"
  | add => "__add__"
  | subtract => "__subtract__"
  | multiply => "__multiply__"
  | integerDivide => "__integer_divide__"
  | modularDivide => "__modular_divide__"
  | lt => "__lt__"
  | gt => "__gt__"
  | lte => "__lte__"
  | gte => "__gte__"
  | eq => "__eq__"
  | neq => "__neq__"
  | get => "__get__"
  | negate => "__negate__"
  | other name => name

def known : List Builtin :=
  [concat, add, subtract, multiply, integerDivide, modularDivide, lt, gt, lte,
    gte, eq, neq, get, negate]

def ofName (name : String) : Builtin :=
  (known.find? fun builtin => builtin.name = name).getD (.other name)

/-- The builtin that an infix operator stands for. -/
def ofOperator? : String → Option Builtin
  | "++" => some concat
  | "+" => some add
  | "-" => some subtract
  | "*" => some multiply
  | "//" => some integerDivide
  | "%" => some modularDivide
  | "<" => some lt
  | ">" => some gt
  | "<=" => some lte
  | ">=" => some gte
  | "==" => some eq
  | "!=" => some neq
  | _ => none

end Builtin

mutual

/-- Core expressions. -/
inductive Expr where
  | builtin (position : Position) (builtin : Builtin)
  | integer (value : Int)
  | text (content : String)
  | symbol (position : Position) (name : String)
  | list (items : List Expr)
  | record (fields : List (String × Expr))
  | call (position : Position) (function : Expr) (arguments : List Expr)
  | lambda (name? : Option String) (parameters : List String) (body : List Stmt)
  | conditional (condition : Expr) (onTrue onFalse : List Stmt)
  /-- A node of a form that is no core expression. -/
  | misplaced (form : Form)

/-- Core statements. -/
inductive Stmt where
  | assign (target : String) (value : Expr)
  | evaluate (expression : Expr)
  /-- A node of a form that is no core statement. -/
  | misplaced (form : Form)

end

/-- A script in core form. -/
structure Program where
  statements : List Stmt

end StackScript.Core
