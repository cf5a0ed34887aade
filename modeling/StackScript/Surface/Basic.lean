import StackScript.Form
import StackScript.Token.Basic

/-!
# The surface tree

The surface tree is a script as it was written: infix operators, field access,
indexing and function definitions are still present.
-/

namespace StackScript.Surface

/-- The binding strength of an infix operator. -/
inductive Level where
  | access
  | multiplication
  | addition
  | comparison
  | conjunction
  | disjunction
  deriving DecidableEq, Repr

/-- The name of a level in shown trees. -/
def Level.name : Level → String
  | access => "dot_level"
  | multiplication => "multiplication_level"
  | addition => "addition_level"
  | comparison => "comparison_level"
  | conjunction => "and_level"
  | disjunction => "or_level"

mutual

/-- Expressions as written.  Where a position is kept, it is that of the operator
or of the opening delimiter, and for a symbol its own. -/
inductive Expr where
  | integer (value : Int)
  | text (content : String)
  | symbol (position : Position) (name : String)
  | negation (position : Position) (operand : Expr)
  | binary (position : Position) (level : Level) (operator : String) (left right : Expr)
  | list (items : List Expr)
  | record (fields : List (String × Expr))
  | item (position : Position) (subject index : Expr)
  | call (position : Position) (function : Expr) (arguments : List Expr)
  | lambda (parameters : List String) (body : List Stmt)
  | conditional (condition : Expr) (onTrue onFalse : List Stmt)
  /-- A node of a form that is no expression, with the name it carries if it
  carries one. -/
  | misplaced (form : Form) (name? : Option String)

/-- Statements as written. -/
inductive Stmt where
  | assign (target : String) (value : Expr)
  | evaluate (expression : Expr)
  | define (name : String) (parameters : List String) (body : List Stmt)
  /-- A node of a form that is no statement. -/
  | misplaced (form : Form)

end

/-- A script as written. -/
structure Program where
  statements : List Stmt

def Expr.form : Expr → Form
  | integer _ => ⟨"parsing", "FurIntegerLiteralExpression"⟩
  | text _ => ⟨"parsing", "FurStringLiteralExpression"⟩
  | symbol .. => ⟨"parsing", "FurSymbolExpression"⟩
  | negation .. => ⟨"parsing", "FurNegationExpression"⟩
  | binary .. => ⟨"parsing", "FurInfixExpression"⟩
  | list _ => ⟨"parsing", "FurListLiteralExpression"⟩
  | record _ => ⟨"parsing", "FurStructureLiteralExpression"⟩
  | item .. => ⟨"parsing", "FurListItemExpression"⟩
  | call .. => ⟨"parsing", "FurFunctionCallExpression"⟩
  | lambda .. => ⟨"parsing", "FurLambdaExpression"⟩
  | conditional .. => ⟨"parsing", "FurIfExpression"⟩
  | misplaced form _ => form

/-- The name that an expression carries: that of a symbol, and of no other
expression. -/
def Expr.name? : Expr → Option String
  | symbol _ name => some name
  | misplaced _ name? => name?
  | _ => none

end StackScript.Surface
