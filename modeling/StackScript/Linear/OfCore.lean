import StackScript.Error
import StackScript.Linear.Basic

/-!
# Putting the core tree in order

Everything that a value needs on the stack is pushed by steps before it, in the
order in which the script evaluates its parts: the arguments of a call before the
function, the items of a list and the fields of a record from the first to the
last.  Temporaries are numbered by a counter that is carried through the script;
the body of a function has temporaries of its own, numbered from 0.
-/

namespace StackScript.Linear

/-- An expression in linear form: the counter after it, the steps that come before
it, and its value. -/
structure Ordered where
  counter : Int
  before : List Step
  value : Value

/-- A statement in linear form: the counter after it, the steps that come before
it, and its own step. -/
structure OrderedStep where
  counter : Int
  before : List Step
  step : Step

/-- The temporary with a given number. -/
def temporaryName (counter : Int) : String :=
  "$" ++ toString counter

mutual

/-- Puts an expression in order. -/
def orderExpr (counter : Int) : Core.Expr → Except Error Ordered
  | .builtin _ builtin => .ok ⟨counter, [], .builtin builtin⟩
  | .integer value => .ok ⟨counter, [], .integer value⟩
  | .text content => .ok ⟨counter, [], .text content⟩
  | .symbol _ name => .ok ⟨counter, [], .symbol name⟩
  | .list items => do
      -- A list takes a number of its own, though no temporary has it.
      let (counter, before) ← orderArguments (counter + 1) items
      return ⟨counter, before, .list items.length⟩
  | .record fields => do
      let (counter, before) ← orderFields counter fields
      return ⟨counter, before, .record fields.length⟩
  | .call position function arguments => do
      let (counter, before) ← orderArguments counter arguments
      let function ← orderExpr counter function
      return ⟨function.counter, before ++ function.before,
        .call position function.value arguments.length⟩
  | .lambda name? parameters body => do
      let temporary := temporaryName counter
      let (_, body) ← orderStmts 0 body
      return ⟨counter + 1, [.bindTemporary temporary (.lambda name? parameters body)],
        .temporary temporary⟩
  | .conditional condition onTrue onFalse => do
      let condition ← orderExpr counter condition
      let (counter, onTrue) ← orderStmts condition.counter onTrue
      let (counter, onFalse) ← orderStmts counter onFalse
      return ⟨counter, condition.before, .conditional condition.value onTrue onFalse⟩
  | .misplaced form => throw (.misplaced form)

/-- The steps that push expressions in order. -/
def orderArguments (counter : Int) : List Core.Expr → Except Error (Int × List Step)
  | [] => .ok (counter, [])
  | argument :: rest => do
      let argument ← orderExpr counter argument
      let (counter, rest) ← orderArguments argument.counter rest
      return (counter, argument.before ++ .push argument.value :: rest)

/-- The steps that push fields in order, each value before its name. -/
def orderFields (counter : Int) :
    List (String × Core.Expr) → Except Error (Int × List Step)
  | [] => .ok (counter, [])
  | (name, value) :: rest => do
      let value ← orderExpr counter value
      let (counter, rest) ← orderFields value.counter rest
      return (counter,
        value.before ++ .push value.value :: .push (.symbolLiteral name) :: rest)

def orderStmt (counter : Int) : Core.Stmt → Except Error OrderedStep
  | .assign target value => do
      let value ← orderExpr counter value
      return ⟨value.counter, value.before, .assign target value.value⟩
  | .evaluate expression => do
      let value ← orderExpr counter expression
      return ⟨value.counter, value.before, .evaluate value.value⟩
  | .misplaced form => throw (.misplaced form)

/-- The steps of statements in order. -/
def orderStmts (counter : Int) : List Core.Stmt → Except Error (Int × List Step)
  | [] => .ok (counter, [])
  | statement :: rest => do
      let statement ← orderStmt counter statement
      let (counter, rest) ← orderStmts statement.counter rest
      return (counter, statement.before ++ statement.step :: rest)

end

/-- Puts statements in order and keeps what belongs to each of them. -/
def orderEach (counter : Int) : List Core.Stmt → Except Error (List OrderedStep)
  | [] => .ok []
  | statement :: rest => do
      let statement ← orderStmt counter statement
      let rest ← orderEach statement.counter rest
      return statement :: rest

/-- Puts a script in order. -/
def Program.ofCore (program : Core.Program) : Except Error Program := do
  let (_, steps) ← orderStmts 0 program.statements
  return { steps }

end StackScript.Linear
