import StackScript.Core.OfSurface
import StackScript.Linear.OfCore
import StackScript.Proofs.Structured.Basic

/-!
# The outline of a script

A script has an outline that can be read off its surface tree in one pass: the code
of every expression is that of its parts in the order of evaluation, and then one
instruction or conditional of its own.
-/

namespace StackScript.Surface

/-- The statements of a body have a property, and its values have one too: the last of
them is evaluated without its statement. -/
structure OnBody (onExpr : Expr → Prop) (onStmt : Stmt → Prop) (body : List Stmt) : Prop where
  statements : ∀ statement ∈ body, onStmt statement
  values : ∀ expression, .evaluate expression ∈ body → onExpr expression

/-- Properties of expressions and statements that pass from the parts of a surface
tree to the whole. -/
structure TreeStep (onExpr : Expr → Prop) (onStmt : Stmt → Prop) : Prop where
  integer : ∀ value, onExpr (.integer value)
  text : ∀ content, onExpr (.text content)
  symbol : ∀ position name, onExpr (.symbol position name)
  negation : ∀ position operand, onExpr operand → onExpr (.negation position operand)
  binary : ∀ position level operator left right, onExpr left → onExpr right →
    onExpr (.binary position level operator left right)
  list : ∀ items, (∀ item ∈ items, onExpr item) → onExpr (.list items)
  record : ∀ fields, (∀ field ∈ fields, onExpr field.2) → onExpr (.record fields)
  item : ∀ position subject index, onExpr subject → onExpr index →
    onExpr (.item position subject index)
  call : ∀ position function arguments, onExpr function →
    (∀ argument ∈ arguments, onExpr argument) → onExpr (.call position function arguments)
  lambda : ∀ parameters body, OnBody onExpr onStmt body → onExpr (.lambda parameters body)
  conditional : ∀ condition onTrue onFalse, onExpr condition → OnBody onExpr onStmt onTrue →
    OnBody onExpr onStmt onFalse → onExpr (.conditional condition onTrue onFalse)
  misplacedExpr : ∀ form name?, onExpr (.misplaced form name?)
  assign : ∀ target value, onExpr value → onStmt (.assign target value)
  evaluate : ∀ expression, onExpr expression → onStmt (.evaluate expression)
  define : ∀ name parameters body, OnBody onExpr onStmt body →
    onStmt (.define name parameters body)
  misplacedStmt : ∀ form, onStmt (.misplaced form)

section

variable {onExpr : Expr → Prop} {onStmt : Stmt → Prop}

theorem OnBody.tail {statement : Stmt} {rest : List Stmt}
    (body : OnBody onExpr onStmt (statement :: rest)) : OnBody onExpr onStmt rest :=
  ⟨fun other member => body.statements other (List.mem_cons_of_mem _ member),
    fun expression member => body.values expression (List.mem_cons_of_mem _ member)⟩

theorem OnBody.head {statement : Stmt} {rest : List Stmt}
    (body : OnBody onExpr onStmt (statement :: rest)) : onStmt statement :=
  body.statements statement List.mem_cons_self

namespace TreeStep

mutual

theorem expr (step : TreeStep onExpr onStmt) : (expression : Expr) → onExpr expression
  | .integer value => step.integer value
  | .text content => step.text content
  | .symbol position name => step.symbol position name
  | .negation position operand => step.negation position operand (step.expr operand)
  | .binary position level operator left right =>
      step.binary position level operator left right (step.expr left) (step.expr right)
  | .list items => step.list items (step.exprs items)
  | .record fields => step.record fields (step.fields fields)
  | .item position subject index =>
      step.item position subject index (step.expr subject) (step.expr index)
  | .call position function arguments =>
      step.call position function arguments (step.expr function) (step.exprs arguments)
  | .lambda parameters body => step.lambda parameters body (step.body body)
  | .conditional condition onTrue onFalse =>
      step.conditional condition onTrue onFalse (step.expr condition) (step.body onTrue)
        (step.body onFalse)
  | .misplaced form name? => step.misplacedExpr form name?

theorem exprs (step : TreeStep onExpr onStmt) :
    (expressions : List Expr) → ∀ expression ∈ expressions, onExpr expression
  | [] => by simp
  | expression :: rest => List.forall_mem_cons.mpr ⟨step.expr expression, step.exprs rest⟩

theorem fields (step : TreeStep onExpr onStmt) :
    (fields : List (String × Expr)) → ∀ field ∈ fields, onExpr field.2
  | [] => by simp
  | (_, value) :: rest => List.forall_mem_cons.mpr ⟨step.expr value, step.fields rest⟩

theorem stmt (step : TreeStep onExpr onStmt) : (statement : Stmt) →
    onStmt statement ∧ ∀ expression, statement = .evaluate expression → onExpr expression
  | .assign target value => ⟨step.assign target value (step.expr value), nofun⟩
  | .evaluate expression =>
      have value := step.expr expression
      ⟨step.evaluate expression value, fun _ same => Stmt.evaluate.inj same ▸ value⟩
  | .define name parameters body =>
      ⟨step.define name parameters body (step.body body), nofun⟩
  | .misplaced form => ⟨step.misplacedStmt form, nofun⟩

theorem body (step : TreeStep onExpr onStmt) : (body : List Stmt) → OnBody onExpr onStmt body
  | [] => ⟨by simp, by simp⟩
  | statement :: rest =>
      have first := step.stmt statement
      have later := step.body rest
      ⟨List.forall_mem_cons.mpr ⟨first.1, later.statements⟩,
        fun expression member => (List.mem_cons.mp member).elim
          (fun same => first.2 expression same.symm) (later.values expression)⟩

end

end TreeStep

end

open StackScript.Code (Outline Opcode withInner symbolArgument textArgument listArgument)

/-- The functions of a script with their names and parameters, in the order of
evaluation.  A function comes before the functions inside it if `outerFirst` holds,
and after them otherwise. -/
abbrev Functions : Type :=
  List (Option String × List String)

mutual

/-- The functions in an expression. -/
def Expr.functions (outerFirst : Bool) : Expr → Functions
  | .integer _ => []
  | .text _ => []
  | .symbol .. => []
  | .negation _ operand => operand.functions outerFirst
  | .binary _ _ _ left right => left.functions outerFirst ++ right.functions outerFirst
  | .list items => exprsFunctions outerFirst items
  | .record fields => fieldsFunctions outerFirst fields
  | .item _ subject index => subject.functions outerFirst ++ index.functions outerFirst
  | .call _ function arguments =>
      exprsFunctions outerFirst arguments ++ function.functions outerFirst
  | .lambda parameters body =>
      withInner outerFirst (none, parameters) (stmtsFunctions outerFirst body)
  | .conditional condition onTrue onFalse =>
      condition.functions outerFirst ++
        (stmtsFunctions outerFirst onTrue ++ stmtsFunctions outerFirst onFalse)
  | .misplaced .. => []

def exprsFunctions (outerFirst : Bool) : List Expr → Functions
  | [] => []
  | expression :: rest => expression.functions outerFirst ++ exprsFunctions outerFirst rest

def fieldsFunctions (outerFirst : Bool) : List (String × Expr) → Functions
  | [] => []
  | (_, value) :: rest => value.functions outerFirst ++ fieldsFunctions outerFirst rest

def Stmt.functions (outerFirst : Bool) : Stmt → Functions
  | .assign _ value => value.functions outerFirst
  | .evaluate expression => expression.functions outerFirst
  | .define name parameters body =>
      withInner outerFirst (some name, parameters) (stmtsFunctions outerFirst body)
  | .misplaced _ => []

def stmtsFunctions (outerFirst : Bool) : List Stmt → Functions
  | [] => []
  | statement :: rest => statement.functions outerFirst ++ stmtsFunctions outerFirst rest

end

def Program.functions (outerFirst : Bool) (program : Program) : Functions :=
  stmtsFunctions outerFirst program.statements

/-! ## Outlines -/

/-- The instruction that performs an infix operator. -/
def opcodeOfOperator? (operator : String) : Option Opcode :=
  (Core.Builtin.ofOperator? operator).bind Code.opcodeOfBuiltin?

/-- The instructions of operators. -/
def operatorOpcodes : List Opcode :=
  [.add, .subtract, .multiply, .integerDivide, .modulo, .eq, .neq, .lt, .lte, .gt, .gte]

theorem mem_operatorOpcodes {operator : String} {opcode : Opcode}
    (performed : opcodeOfOperator? operator = some opcode) : opcode ∈ operatorOpcodes := by
  obtain ⟨builtin, found, performs⟩ := Option.bind_eq_some_iff.mp performed
  unfold Core.Builtin.ofOperator? at found
  split at found <;> cases found <;> cases performs <;> simp [operatorOpcodes]

/-- What holds of the instructions of all operators. -/
theorem holds_of_operator {holds : Opcode → Bool} (all : operatorOpcodes.all holds = true)
    {operator : String} {opcode : Opcode} (performed : opcodeOfOperator? operator = some opcode) :
    holds opcode = true :=
  List.all_eq_true.mp all opcode (mem_operatorOpcodes performed)

/-- The outline that pushes a symbol's value. -/
def pushSymbol (name : String) : Outline :=
  .single .push (symbolArgument name)

/-- The outline that binds a function to a temporary and pushes it. -/
def pushFunction (name? : Option String) (parameters : List String) (body : Outline)
    (counter : Int) : Outline :=
  .function name? parameters body
    (.single .pop (symbolArgument (Linear.temporaryName counter)) ++
      .single .push (symbolArgument (Linear.temporaryName counter)))

mutual

/-- The outline of an expression and the counter of temporaries after it. -/
@[simp] def outlineExpr (counter : Int) : Expr → Option (Outline × Int)
  | .integer value => some (.single .pushInteger (.integer value), counter)
  | .text content => some (.single .pushText (textArgument content), counter)
  | .symbol _ name => some (pushSymbol name, counter)
  | .negation _ operand => do
      let (operand, counter) ← outlineExpr counter operand
      return (operand ++ .single .negate (.integer 1), counter)
  | .binary _ _ operator left right =>
      if operator = "and" then do
        let (left, counter) ← outlineExpr counter left
        let (right, counter) ← outlineExpr counter right
        return (left ++ .branch () right (pushSymbol "false") .done, counter)
      else if operator = "or" then do
        let (left, counter) ← outlineExpr counter left
        let (right, counter) ← outlineExpr counter right
        return (left ++ .branch () (pushSymbol "true") right .done, counter)
      else if operator = "." then do
        let (left, counter) ← outlineExpr counter left
        let field ← right.name?
        return (left ++ .single .pushText (textArgument field) ++ pushSymbol "__field__" ++
          .single .call (.integer 2), counter)
      else do
        let opcode ← opcodeOfOperator? operator
        let (left, counter) ← outlineExpr counter left
        let (right, counter) ← outlineExpr counter right
        return (left ++ right ++ .single opcode (.integer 2), counter)
  | .list items => do
      let (code, counter) ← outlineExprs (counter + 1) items
      return (code ++ .single .list listArgument, counter)
  | .record fields => do
      let (code, counter) ← outlineFields counter fields
      return (code ++ .single .record (.integer fields.length), counter)
  | .item .. => none
  | .call _ function arguments => do
      let (code, counter) ← outlineExprs counter arguments
      let (function, counter) ← outlineExpr counter function
      return (code ++ function ++ .single .call (.integer arguments.length), counter)
  | .lambda parameters body => do
      let (body, _) ← outlineBody 0 body
      return (pushFunction none parameters body counter, counter + 1)
  | .conditional condition onTrue onFalse => do
      let (condition, counter) ← outlineExpr counter condition
      let (onTrue, counter) ← outlineBody counter onTrue
      let (onFalse, counter) ← outlineBody counter onFalse
      return (condition ++ .branch () onTrue onFalse .done, counter)
  | .misplaced .. => none

@[simp] def outlineExprs (counter : Int) : List Expr → Option (Outline × Int)
  | [] => some (.done, counter)
  | expression :: rest => do
      let (expression, counter) ← outlineExpr counter expression
      let (rest, counter) ← outlineExprs counter rest
      return (expression ++ rest, counter)

/-- The outline of fields in order, each value before its name. -/
@[simp] def outlineFields (counter : Int) : List (String × Expr) → Option (Outline × Int)
  | [] => some (.done, counter)
  | (name, value) :: rest => do
      let (value, counter) ← outlineExpr counter value
      let (rest, counter) ← outlineFields counter rest
      return (value ++ (.single .pushSymbol (symbolArgument name) ++ rest), counter)

@[simp] def outlineStmt (counter : Int) : Stmt → Option (Outline × Int)
  | .assign target value => do
      let (value, counter) ← outlineExpr counter value
      return (value ++ .single .pop (symbolArgument target), counter)
  | .evaluate expression => do
      let (expression, counter) ← outlineExpr counter expression
      return (expression ++ .single .drop .nothing, counter)
  | .define name parameters body => do
      let (body, _) ← outlineBody 0 body
      return (pushFunction (some name) parameters body counter ++
        .single .pop (symbolArgument name), counter + 1)
  | .misplaced _ => none

@[simp] def outlineStmts (counter : Int) : List Stmt → Option (Outline × Int)
  | [] => some (.done, counter)
  | statement :: rest => do
      let (statement, counter) ← outlineStmt counter statement
      let (rest, counter) ← outlineStmts counter rest
      return (statement ++ rest, counter)

/-- The outline of a body, which ends in an expression and leaves its value on the
stack. -/
@[simp] def outlineBody (counter : Int) : List Stmt → Option (Outline × Int)
  | [] => none
  | [.evaluate expression] => outlineExpr counter expression
  | [_] => none
  | statement :: next :: rest => do
      let (statement, counter) ← outlineStmt counter statement
      let (rest, counter) ← outlineBody counter (next :: rest)
      return (statement ++ rest, counter)

end

section Inversion

variable {counter after : Int} {position : Position} {outline : Outline}

theorem outlineExpr_negation {operand : Expr}
    (found : outlineExpr counter (.negation position operand) = some (outline, after)) :
    ∃ inner, outlineExpr counter operand = some (inner, after) ∧
      outline = inner ++ .single .negate (.integer 1) := by
  simp only [outlineExpr, Option.bind_eq_bind, Option.bind_eq_some_iff, Option.pure_def,
    Option.some.injEq, Prod.mk.injEq, Prod.exists] at found
  obtain ⟨inner, _, innerFound, rfl, rfl⟩ := found
  exact ⟨inner, innerFound, rfl⟩

/-- The outline of an operator follows that of its left operand. -/
theorem outlineExpr_binary {level : Level} {operator : String} {left right : Expr}
    (found : outlineExpr counter (.binary position level operator left right) =
      some (outline, after)) :
    ∃ first between, outlineExpr counter left = some (first, between) ∧
      ((operator = "and" ∧ ∃ second, outlineExpr between right = some (second, after) ∧
          outline = first ++ .branch () second (pushSymbol "false") .done) ∨
        (operator = "or" ∧ ∃ second, outlineExpr between right = some (second, after) ∧
          outline = first ++ .branch () (pushSymbol "true") second .done) ∨
        (operator = "." ∧ ∃ field, right.name? = some field ∧ between = after ∧
          outline = first ++ .single .pushText (textArgument field) ++
            pushSymbol "__field__" ++ .single .call (.integer 2)) ∨
        (operator ≠ "and" ∧ operator ≠ "or" ∧ operator ≠ "." ∧
          ∃ opcode second, opcodeOfOperator? operator = some opcode ∧
            outlineExpr between right = some (second, after) ∧
            outline = first ++ second ++ .single opcode (.integer 2))) := by
  rw [outlineExpr] at found
  split at found
  · rename_i isAnd
    simp only [Option.bind_eq_bind, Option.bind_eq_some_iff, Option.pure_def,
      Option.some.injEq, Prod.mk.injEq, Prod.exists] at found
    obtain ⟨first, between, leftFound, second, _, rightFound, rfl, rfl⟩ := found
    exact ⟨first, between, leftFound, .inl ⟨isAnd, second, rightFound, rfl⟩⟩
  · rename_i isNotAnd
    split at found
    · rename_i isOr
      simp only [Option.bind_eq_bind, Option.bind_eq_some_iff, Option.pure_def,
        Option.some.injEq, Prod.mk.injEq, Prod.exists] at found
      obtain ⟨first, between, leftFound, second, _, rightFound, rfl, rfl⟩ := found
      exact ⟨first, between, leftFound, .inr (.inl ⟨isOr, second, rightFound, rfl⟩)⟩
    · rename_i isNotOr
      split at found
      · rename_i isPeriod
        simp only [Option.bind_eq_bind, Option.bind_eq_some_iff, Option.pure_def,
          Option.some.injEq, Prod.mk.injEq, Prod.exists] at found
        obtain ⟨first, between, leftFound, field, named, rfl, rfl⟩ := found
        exact ⟨first, between, leftFound,
          .inr (.inr (.inl ⟨isPeriod, field, named, rfl, rfl⟩))⟩
      · rename_i isNotPeriod
        simp only [Option.bind_eq_bind, Option.bind_eq_some_iff, Option.pure_def,
          Option.some.injEq, Prod.mk.injEq, Prod.exists] at found
        obtain ⟨opcode, performed, first, between, leftFound, second, _, rightFound, rfl, rfl⟩ :=
          found
        exact ⟨first, between, leftFound, .inr (.inr (.inr
          ⟨isNotAnd, isNotOr, isNotPeriod, opcode, second, performed, rightFound, rfl⟩))⟩

theorem outlineExpr_list {items : List Expr}
    (found : outlineExpr counter (.list items) = some (outline, after)) :
    ∃ inner, outlineExprs (counter + 1) items = some (inner, after) ∧
      outline = inner ++ .single .list listArgument := by
  simp only [outlineExpr, Option.bind_eq_bind, Option.bind_eq_some_iff, Option.pure_def,
    Option.some.injEq, Prod.mk.injEq, Prod.exists] at found
  obtain ⟨inner, _, innerFound, rfl, rfl⟩ := found
  exact ⟨inner, innerFound, rfl⟩

theorem outlineExpr_record {fields : List (String × Expr)}
    (found : outlineExpr counter (.record fields) = some (outline, after)) :
    ∃ inner, outlineFields counter fields = some (inner, after) ∧
      outline = inner ++ .single .record (.integer fields.length) := by
  simp only [outlineExpr, Option.bind_eq_bind, Option.bind_eq_some_iff, Option.pure_def,
    Option.some.injEq, Prod.mk.injEq, Prod.exists] at found
  obtain ⟨inner, _, innerFound, rfl, rfl⟩ := found
  exact ⟨inner, innerFound, rfl⟩

theorem outlineExpr_call {function : Expr} {arguments : List Expr}
    (found : outlineExpr counter (.call position function arguments) = some (outline, after)) :
    ∃ first between second, outlineExprs counter arguments = some (first, between) ∧
      outlineExpr between function = some (second, after) ∧
      outline = first ++ second ++ .single .call (.integer arguments.length) := by
  simp only [outlineExpr, Option.bind_eq_bind, Option.bind_eq_some_iff, Option.pure_def,
    Option.some.injEq, Prod.mk.injEq, Prod.exists] at found
  obtain ⟨first, between, argumentsFound, second, _, functionFound, rfl, rfl⟩ := found
  exact ⟨first, between, second, argumentsFound, functionFound, rfl⟩

theorem outlineExpr_lambda {parameters : List String} {body : List Stmt}
    (found : outlineExpr counter (.lambda parameters body) = some (outline, after)) :
    ∃ inner last, outlineBody 0 body = some (inner, last) ∧
      outline = pushFunction none parameters inner counter ∧ after = counter + 1 := by
  simp only [outlineExpr, Option.bind_eq_bind, Option.bind_eq_some_iff, Option.pure_def,
    Option.some.injEq, Prod.mk.injEq, Prod.exists] at found
  obtain ⟨inner, last, innerFound, rfl, rfl⟩ := found
  exact ⟨inner, last, innerFound, rfl, rfl⟩

theorem outlineExpr_conditional {condition : Expr} {onTrue onFalse : List Stmt}
    (found : outlineExpr counter (.conditional condition onTrue onFalse) =
      some (outline, after)) :
    ∃ first afterCondition second afterTrue third,
      outlineExpr counter condition = some (first, afterCondition) ∧
      outlineBody afterCondition onTrue = some (second, afterTrue) ∧
      outlineBody afterTrue onFalse = some (third, after) ∧
      outline = first ++ .branch () second third .done := by
  simp only [outlineExpr, Option.bind_eq_bind, Option.bind_eq_some_iff, Option.pure_def,
    Option.some.injEq, Prod.mk.injEq, Prod.exists] at found
  obtain ⟨first, afterCondition, firstFound, second, afterTrue, secondFound, third, _,
    thirdFound, rfl, rfl⟩ := found
  exact ⟨first, afterCondition, second, afterTrue, third, firstFound, secondFound, thirdFound,
    rfl⟩

theorem outlineExprs_cons {expression : Expr} {rest : List Expr}
    (found : outlineExprs counter (expression :: rest) = some (outline, after)) :
    ∃ first between second, outlineExpr counter expression = some (first, between) ∧
      outlineExprs between rest = some (second, after) ∧ outline = first ++ second := by
  simp only [outlineExprs, Option.bind_eq_bind, Option.bind_eq_some_iff, Option.pure_def,
    Option.some.injEq, Prod.mk.injEq, Prod.exists] at found
  obtain ⟨first, between, firstFound, second, _, secondFound, rfl, rfl⟩ := found
  exact ⟨first, between, second, firstFound, secondFound, rfl⟩

theorem outlineFields_cons {field : String × Expr} {rest : List (String × Expr)}
    (found : outlineFields counter (field :: rest) = some (outline, after)) :
    ∃ first between second, outlineExpr counter field.2 = some (first, between) ∧
      outlineFields between rest = some (second, after) ∧
      outline = first ++ (.single .pushSymbol (symbolArgument field.1) ++ second) := by
  obtain ⟨name, value⟩ := field
  simp only [outlineFields, Option.bind_eq_bind, Option.bind_eq_some_iff, Option.pure_def,
    Option.some.injEq, Prod.mk.injEq, Prod.exists] at found
  obtain ⟨first, between, firstFound, second, _, secondFound, rfl, rfl⟩ := found
  exact ⟨first, between, second, firstFound, secondFound, rfl⟩

theorem outlineStmt_assign {target : String} {value : Expr}
    (found : outlineStmt counter (.assign target value) = some (outline, after)) :
    ∃ inner, outlineExpr counter value = some (inner, after) ∧
      outline = inner ++ .single .pop (symbolArgument target) := by
  simp only [outlineStmt, Option.bind_eq_bind, Option.bind_eq_some_iff, Option.pure_def,
    Option.some.injEq, Prod.mk.injEq, Prod.exists] at found
  obtain ⟨inner, _, innerFound, rfl, rfl⟩ := found
  exact ⟨inner, innerFound, rfl⟩

theorem outlineStmt_evaluate {expression : Expr}
    (found : outlineStmt counter (.evaluate expression) = some (outline, after)) :
    ∃ inner, outlineExpr counter expression = some (inner, after) ∧
      outline = inner ++ .single .drop .nothing := by
  simp only [outlineStmt, Option.bind_eq_bind, Option.bind_eq_some_iff, Option.pure_def,
    Option.some.injEq, Prod.mk.injEq, Prod.exists] at found
  obtain ⟨inner, _, innerFound, rfl, rfl⟩ := found
  exact ⟨inner, innerFound, rfl⟩

theorem outlineStmt_define {name : String} {parameters : List String} {body : List Stmt}
    (found : outlineStmt counter (.define name parameters body) = some (outline, after)) :
    ∃ inner last, outlineBody 0 body = some (inner, last) ∧
      outline = pushFunction (some name) parameters inner counter ++
        .single .pop (symbolArgument name) ∧
      after = counter + 1 := by
  simp only [outlineStmt, Option.bind_eq_bind, Option.bind_eq_some_iff, Option.pure_def,
    Option.some.injEq, Prod.mk.injEq, Prod.exists] at found
  obtain ⟨inner, last, innerFound, rfl, rfl⟩ := found
  exact ⟨inner, last, innerFound, rfl, rfl⟩

theorem outlineStmts_cons {statement : Stmt} {rest : List Stmt}
    (found : outlineStmts counter (statement :: rest) = some (outline, after)) :
    ∃ first between second, outlineStmt counter statement = some (first, between) ∧
      outlineStmts between rest = some (second, after) ∧ outline = first ++ second := by
  simp only [outlineStmts, Option.bind_eq_bind, Option.bind_eq_some_iff, Option.pure_def,
    Option.some.injEq, Prod.mk.injEq, Prod.exists] at found
  obtain ⟨first, between, firstFound, second, _, secondFound, rfl, rfl⟩ := found
  exact ⟨first, between, second, firstFound, secondFound, rfl⟩

/-- A body is an expression, or a statement before another body. -/
theorem outlineBody_cons {statement : Stmt} {rest : List Stmt}
    (found : outlineBody counter (statement :: rest) = some (outline, after)) :
    (rest = [] ∧ ∃ expression, statement = .evaluate expression ∧
        outlineExpr counter expression = some (outline, after)) ∨
      (rest ≠ [] ∧ ∃ first between second,
        outlineStmt counter statement = some (first, between) ∧
        outlineBody between rest = some (second, after) ∧ outline = first ++ second) := by
  cases rest with
  | nil =>
      cases statement with
      | evaluate expression => exact .inl ⟨rfl, expression, rfl, found⟩
      | assign _ _ | define _ _ _ | misplaced _ => simp [outlineBody] at found
  | cons next others =>
      simp only [outlineBody, Option.bind_eq_bind, Option.bind_eq_some_iff, Option.pure_def,
        Option.some.injEq, Prod.mk.injEq, Prod.exists] at found
      obtain ⟨first, between, firstFound, second, _, secondFound, rfl, rfl⟩ := found
      exact .inr ⟨by simp, first, between, second, firstFound, secondFound, rfl⟩

end Inversion

/-- The outline of a script. -/
def Program.outline (program : Program) : Option Outline :=
  (outlineStmts 0 program.statements).map Prod.fst

end StackScript.Surface
