import StackScript.Proofs.Evaluation.Basic
import StackScript.Proofs.Shortening.Points
import StackScript.Proofs.Structured.Outline

/-!
# Evaluation of structured code

Structured code without functions can be evaluated on a stack of scalars and a memory.
The outline of an expression pushes the value of the expression, whatever is on the
stack below, and the outline of a statement leaves the stack as it was
(`perform_outline`).
-/

namespace StackScript.Evaluation

open StackScript.Code (Opcode Argument Instruction Structured Outline symbolArgument
  textArgument)
open StackScript.Machine (Action Scalar Primitives decode)
open StackScript.Surface (Expr Stmt)

/-- Takes scalars from a stack, in the order in which they were pushed. -/
def takeTop (count : Nat) (stack : List Scalar) : Option (List Scalar × List Scalar) :=
  if count ≤ stack.length then some ((stack.take count).reverse, stack.drop count) else none

/-- Performs an action that stays in the code that it is part of. -/
def performAction (primitives : Primitives) (stack : List Scalar) (memory : Memory) :
    Action → Option (List Scalar × Memory)
  | .load value => some (value :: stack, memory)
  | .read name => do
      let value ← memory.read name
      return (value :: stack, memory)
  | .bind name =>
      match stack with
      | [] => none
      | value :: stack => do
          let memory ← memory.bind name value
          return (stack, memory)
  | .discard =>
      match stack with
      | [] => none
      | _ :: stack => some (stack, memory)
  | .operate opcode argumentCount => do
      let (arguments, rest) ← takeTop argumentCount stack
      let result ← primitives.operate opcode arguments
      return (result :: rest, memory)
  | .call argumentCount =>
      match stack with
      | [] => none
      | function :: stack => do
          let (arguments, rest) ← takeTop argumentCount stack
          let (result, memory) ← call primitives function arguments memory
          return (result :: rest, memory)
  | _ => none

def performInstruction (primitives : Primitives) (content : Instruction)
    (stack : List Scalar) (memory : Memory) : Option (List Scalar × Memory) :=
  (decode (.standard primitives) [] content).bind (performAction primitives stack memory)

section Perform

variable {φ β : Type}

/-- Performs structured code.  Functions cannot be performed. -/
def perform (primitives : Primitives) :
    Structured φ β → List Scalar → Memory → Option (List Scalar × Memory)
  | .done, stack, memory => some (stack, memory)
  | .instruction content rest, stack, memory => do
      let (stack, memory) ← performInstruction primitives content stack memory
      perform primitives rest stack memory
  | .function .., _, _ => none
  | .branch _ onTrue onFalse rest, stack, memory =>
      match stack with
      | [] => none
      | condition :: stack => do
          let value ← truth? condition
          let (stack, memory) ←
            cond value (perform primitives onTrue stack memory)
              (perform primitives onFalse stack memory)
          perform primitives rest stack memory

theorem perform_append (primitives : Primitives) (first second : Structured φ β)
    (stack : List Scalar) (memory : Memory) :
    perform primitives (first ++ second) stack memory =
      (perform primitives first stack memory).bind fun reached =>
        perform primitives second reached.1 reached.2 := by
  induction first generalizing stack memory with
  | done => rfl
  | instruction content rest ih =>
      simp only [Structured.instruction_append, perform, Option.bind_eq_bind, Option.bind_assoc,
        ih]
  | function mark parameters body rest _ _ => rfl
  | branch mark onTrue onFalse rest _ _ ih =>
      cases stack with
      | nil => rfl
      | cons condition stack =>
          simp only [Structured.branch_append, perform, Option.bind_eq_bind, Option.bind_assoc,
            ih]

/-- Code that is performed in sequence. -/
theorem perform_append_of {primitives : Primitives} {first second : Structured φ β}
    {stack between reached : List Scalar} {memory middle last : Memory}
    (performsFirst : perform primitives first stack memory = some (between, middle))
    (performsSecond : perform primitives second between middle = some (reached, last)) :
    perform primitives (first ++ second) stack memory = some (reached, last) := by
  rw [perform_append, performsFirst]
  exact performsSecond

theorem perform_mapMarks {φ' β' : Type} (onFunction : φ → φ') (onBranch : β → β')
    (primitives : Primitives) (code : Structured φ β) (stack : List Scalar) (memory : Memory) :
    perform primitives (code.mapMarks onFunction onBranch) stack memory =
      perform primitives code stack memory := by
  induction code generalizing stack memory with
  | done => rfl
  | instruction content rest ih => simp only [Structured.mapMarks, perform, ih]
  | function mark parameters body rest _ _ => rfl
  | branch mark onTrue onFalse rest trueIH falseIH restIH =>
      simp only [Structured.mapMarks, perform, trueIH, falseIH, restIH]

end Perform

section Single

variable {primitives : Primitives} {stack : List Scalar} {memory : Memory}

theorem perform_single (content : Instruction) :
    perform primitives (.instruction content .done : Outline) stack memory =
      performInstruction primitives content stack memory := by
  rw [perform]
  cases performInstruction primitives content stack memory with
  | none => rfl
  | some reached => rfl

theorem perform_pushInteger (value : Int) :
    perform primitives (.single .pushInteger (.integer value) : Outline) stack memory =
      some (.integer (Machine.word value) :: stack, memory) := rfl

theorem unquoted_textArgument (content : String) :
    Grammar.unquoted ("\"" ++ content ++ "\"") = content := by
  rw [Grammar.unquoted, ← String.toList_inj]
  simp

theorem perform_pushText (content : String) :
    perform primitives (.single .pushText (textArgument content) : Outline) stack memory =
      some (.text content :: stack, memory) := by
  have decoded : decode (.standard primitives) [] ⟨.pushText, textArgument content⟩ =
      some (.load (.text (Grammar.unquoted ("\"" ++ content ++ "\"")))) := rfl
  rw [Structured.single, perform_single, performInstruction, decoded, unquoted_textArgument]
  rfl

theorem symbol?_symbolArgument (name : String) :
    Machine.symbol? (symbolArgument name) = some name :=
  Code.symbolName?_symbol name

theorem perform_pushSymbol {name : String} {value : Scalar}
    (found : memory.read name = some value) :
    perform primitives (Surface.pushSymbol name) stack memory = some (value :: stack, memory) := by
  have decoded : decode (.standard primitives) [] ⟨.push, symbolArgument name⟩ =
      some (.read name) := by
    rw [decode, symbol?_symbolArgument]
    rfl
  rw [Surface.pushSymbol, Structured.single, perform_single, performInstruction, decoded]
  simp only [Option.bind_some, performAction, found]
  rfl

theorem perform_pop {name : String} {value : Scalar} {after : Memory}
    (bound : memory.bind name value = some after) :
    perform primitives (.single .pop (symbolArgument name) : Outline) (value :: stack) memory =
      some (stack, after) := by
  have decoded : decode (.standard primitives) [] ⟨.pop, symbolArgument name⟩ =
      some (.bind name) := by
    rw [decode, symbol?_symbolArgument]
    rfl
  rw [Structured.single, perform_single, performInstruction, decoded]
  simp only [Option.bind_some, performAction, bound]
  rfl

theorem perform_drop (value : Scalar) :
    perform primitives (.single .drop .nothing : Outline) (value :: stack) memory =
      some (stack, memory) := rfl

theorem takeTop_reverse (arguments : List Scalar) :
    takeTop arguments.length (arguments.reverse ++ stack) = some (arguments, stack) := by
  have bound : arguments.length ≤ (arguments.reverse ++ stack).length := by simp
  rw [takeTop, if_pos bound]
  simp

theorem perform_negate {operand result : Scalar}
    (operated : primitives.operate .negate [operand] = some result) :
    perform primitives (.single .negate (.integer 1) : Outline) (operand :: stack) memory =
      some (result :: stack, memory) := by
  have decoded : decode (.standard primitives) [] ⟨.negate, .integer 1⟩ =
      some (.operate .negate 1) := rfl
  have taken : takeTop 1 (operand :: stack) = some ([operand], stack) :=
    takeTop_reverse [operand]
  rw [Structured.single, perform_single, performInstruction, decoded]
  simp only [Option.bind_some, performAction, taken, Option.bind_eq_bind, operated]
  rfl

theorem decode_operation {operator : String} {opcode : Opcode}
    (known : operation? operator = some opcode) :
    decode (.standard primitives) [] ⟨opcode, .integer 2⟩ = some (.operate opcode 2) := by
  unfold operation? at known
  split at known <;> cases known <;> rfl

theorem perform_operation {operator : String} {opcode : Opcode} {left right result : Scalar}
    (known : operation? operator = some opcode)
    (operated : primitives.operate opcode [left, right] = some result) :
    perform primitives (.single opcode (.integer 2) : Outline) (right :: left :: stack) memory =
      some (result :: stack, memory) := by
  have taken : takeTop 2 (right :: left :: stack) = some ([left, right], stack) :=
    takeTop_reverse [left, right]
  rw [Structured.single, perform_single, performInstruction, decode_operation known]
  simp only [Option.bind_some, performAction, taken, Option.bind_eq_bind, operated]
  rfl

theorem perform_call {function result : Scalar} {arguments : List Scalar} {after : Memory}
    (called : call primitives function arguments memory = some (result, after)) :
    perform primitives (.single .call (.integer arguments.length) : Outline)
        (function :: (arguments.reverse ++ stack)) memory =
      some (result :: stack, after) := by
  have decoded : decode (.standard primitives) [] ⟨.call, .integer arguments.length⟩ =
      some (.call arguments.length) := rfl
  rw [Structured.single, perform_single, performInstruction, decoded]
  simp only [Option.bind_some, performAction, takeTop_reverse, Option.bind_eq_bind, called]
  rfl

/-- A branch is performed as the condition says. -/
theorem perform_branch {onTrue onFalse : Outline} {condition : Scalar} {value : Bool}
    (isTruth : truth? condition = some value) :
    perform primitives (.branch () onTrue onFalse .done : Outline) (condition :: stack) memory =
      cond value (perform primitives onTrue stack memory)
        (perform primitives onFalse stack memory) := by
  simp only [perform, isTruth, Option.bind_eq_bind, Option.bind_some]
  exact Option.bind_fun_some _

end Single

/-! ## Outlines -/

open StackScript.Surface (outlineExpr outlineExprs outlineStmt outlineStmts outlineBody)

/-- The outline of an expression pushes its value. -/
def PerformsExpr (primitives : Primitives) (expression : Expr) : Prop :=
  ∀ {counter after : Int} {outline : Outline} {memory later : Memory} {value : Scalar},
    outlineExpr counter expression = some (outline, after) →
      evaluateExpr primitives expression memory = some (value, later) →
        ∀ stack, perform primitives outline stack memory = some (value :: stack, later)

def PerformsStmt (primitives : Primitives) (statement : Stmt) : Prop :=
  ∀ {counter after : Int} {outline : Outline} {memory later : Memory},
    outlineStmt counter statement = some (outline, after) →
      evaluateStmt primitives statement memory = some later →
        ∀ stack, perform primitives outline stack memory = some (stack, later)

section Outline

variable {primitives : Primitives} {counter after : Int} {outline : Outline}
variable {memory later : Memory}

theorem evaluateExprs_cons {expression : Expr} {rest : List Expr} {values : List Scalar}
    (evaluated : evaluateExprs primitives (expression :: rest) memory = some (values, later)) :
    ∃ value between others, evaluateExpr primitives expression memory = some (value, between) ∧
      evaluateExprs primitives rest between = some (others, later) ∧
      values = value :: others := by
  simp only [evaluateExprs, Option.bind_eq_bind, Option.bind_eq_some_iff, Option.pure_def,
    Option.some.injEq, Prod.mk.injEq, Prod.exists] at evaluated
  rcases evaluated with ⟨value, between, valueFound, others, _, othersFound, rfl, rfl⟩
  exact ⟨value, between, others, valueFound, othersFound, rfl⟩

theorem length_evaluateExprs {expressions : List Expr} {values : List Scalar}
    (evaluated : evaluateExprs primitives expressions memory = some (values, later)) :
    values.length = expressions.length := by
  induction expressions generalizing memory values with
  | nil =>
      cases evaluated
      rfl
  | cons expression rest ih =>
      rcases evaluateExprs_cons evaluated with ⟨value, between, others, _, othersFound, rfl⟩
      rw [List.length_cons, List.length_cons, ih othersFound]

theorem evaluateBody_cons {statement : Stmt} {rest : List Stmt} (more : rest ≠ []) :
    evaluateBody primitives (statement :: rest) memory =
      (evaluateStmt primitives statement memory).bind (evaluateBody primitives rest) := by
  cases rest with
  | nil => exact absurd rfl more
  | cons next others =>
      rw [evaluateBody]
      rfl

theorem performs_outlineExprs {expressions : List Expr} {values : List Scalar}
    (performs : ∀ expression ∈ expressions, PerformsExpr primitives expression)
    (found : outlineExprs counter expressions = some (outline, after))
    (evaluated : evaluateExprs primitives expressions memory = some (values, later))
    (stack : List Scalar) :
    perform primitives outline stack memory = some (values.reverse ++ stack, later) := by
  induction expressions generalizing counter outline memory values stack with
  | nil =>
      cases found
      cases evaluated
      rfl
  | cons expression rest ih =>
      have performsBoth := List.forall_mem_cons.mp performs
      rcases Surface.outlineExprs_cons found with
        ⟨first, between, second, firstFound, restFound, rfl⟩
      rcases evaluateExprs_cons evaluated with
        ⟨value, middle, others, valueFound, othersFound, rfl⟩
      have valuePerformed := performsBoth.1 firstFound valueFound stack
      have othersPerformed := ih performsBoth.2 restFound othersFound (value :: stack)
      rw [perform_append_of valuePerformed othersPerformed]
      simp

theorem performs_outlineStmts {statements : List Stmt}
    (performs : ∀ statement ∈ statements, PerformsStmt primitives statement)
    (found : outlineStmts counter statements = some (outline, after))
    (evaluated : evaluateStmts primitives statements memory = some later)
    (stack : List Scalar) :
    perform primitives outline stack memory = some (stack, later) := by
  induction statements generalizing counter outline memory with
  | nil =>
      cases found
      cases evaluated
      rfl
  | cons statement rest ih =>
      have performsBoth := List.forall_mem_cons.mp performs
      rcases Surface.outlineStmts_cons found with
        ⟨first, between, second, firstFound, restFound, rfl⟩
      rcases Option.bind_eq_some_iff.mp evaluated with ⟨middle, firstEvaluated, restEvaluated⟩
      exact perform_append_of (performsBoth.1 firstFound firstEvaluated stack)
        (ih performsBoth.2 restFound restEvaluated)

theorem performs_outlineBody {statements : List Stmt} {value : Scalar}
    (performs : Surface.OnBody (PerformsExpr primitives) (PerformsStmt primitives) statements)
    (found : outlineBody counter statements = some (outline, after))
    (evaluated : evaluateBody primitives statements memory = some (value, later))
    (stack : List Scalar) :
    perform primitives outline stack memory = some (value :: stack, later) := by
  induction statements generalizing counter outline memory with
  | nil => cases found
  | cons statement rest ih =>
      rcases Surface.outlineBody_cons found with ⟨rfl, expression, rfl, valueFound⟩ |
        ⟨more, first, between, second, firstFound, restFound, rfl⟩
      · rw [evaluateBody] at evaluated
        exact performs.values expression List.mem_cons_self valueFound evaluated stack
      · rw [evaluateBody_cons more] at evaluated
        rcases Option.bind_eq_some_iff.mp evaluated with ⟨middle, firstEvaluated, restEvaluated⟩
        exact perform_append_of (performs.head firstFound firstEvaluated stack)
          (ih performs.tail restFound restEvaluated)

/-- Conditions are performed before the branch that they choose. -/
theorem perform_conditional {condition onTrue onFalse : Outline} {first value : Scalar}
    {truth : Bool} {middle : Memory} {stack : List Scalar}
    (performsFirst : perform primitives condition stack memory = some (first :: stack, middle))
    (isTruth : truth? first = some truth)
    (performsRest : cond truth (perform primitives onTrue stack middle)
      (perform primitives onFalse stack middle) = some (value :: stack, later)) :
    perform primitives (condition ++ .branch () onTrue onFalse .done) stack memory =
      some (value :: stack, later) := by
  apply perform_append_of performsFirst
  rw [perform_branch isTruth]
  exact performsRest

theorem operation?_eq {operator : String} {opcode operation : Opcode}
    (performed : Surface.opcodeOfOperator? operator = some opcode)
    (known : operation? operator = some operation) : opcode = operation := by
  unfold operation? at known
  split at known <;> cases known <;> cases performed <;> rfl

/-- Reading a name gives the value that pushing it gives. -/
theorem perform_read {name : String} {value : Scalar}
    (evaluated : (do
      let value ← memory.read name
      return (value, memory)) = some (value, later)) (stack : List Scalar) :
    perform primitives (Surface.pushSymbol name) stack memory = some (value :: stack, later) := by
  rcases Option.bind_eq_some_iff.mp evaluated with ⟨found, isRead, same⟩
  cases same
  exact perform_pushSymbol isRead

theorem performsExpr_binary (position : Position) (level : Surface.Level) (operator : String)
    (left right : Expr) (performsLeft : PerformsExpr primitives left)
    (performsRight : PerformsExpr primitives right) :
    PerformsExpr primitives (.binary position level operator left right) := by
  intro counter after outline memory later value found evaluated stack
  rw [evaluateExpr] at evaluated
  rcases Option.bind_eq_some_iff.mp evaluated with ⟨⟨first, middle⟩, leftEvaluated, evaluatedRest⟩
  rcases Surface.outlineExpr_binary found with ⟨outlineLeft, between, leftFound, cases⟩
  have leftPerformed := performsLeft leftFound leftEvaluated stack
  rcases cases with ⟨rfl, second, rightFound, rfl⟩ | ⟨rfl, second, rightFound, rfl⟩ |
    ⟨rfl, _⟩ | ⟨isNotAnd, isNotOr, _, opcode, second, performed, rightFound, rfl⟩
  · rcases Option.bind_eq_some_iff.mp evaluatedRest with ⟨truth, isTruth, chosen⟩
    apply perform_conditional leftPerformed isTruth
    cases truth with
    | true => exact performsRight rightFound chosen stack
    | false => exact perform_read chosen stack
  · rcases Option.bind_eq_some_iff.mp evaluatedRest with ⟨truth, isTruth, chosen⟩
    apply perform_conditional leftPerformed isTruth
    cases truth with
    | true => exact perform_read chosen stack
    | false => exact performsRight rightFound chosen stack
  · cases evaluatedRest
  · simp only [if_neg isNotAnd, if_neg isNotOr, Option.bind_eq_bind, Option.bind_eq_some_iff,
      Option.pure_def, Option.some.injEq, Prod.mk.injEq, Prod.exists] at evaluatedRest
    rcases evaluatedRest with
      ⟨operation, known, argument, _, rightEvaluated, result, operated, rfl, rfl⟩
    cases operation?_eq performed known
    have rightPerformed := performsRight rightFound rightEvaluated (first :: stack)
    exact perform_append_of (perform_append_of leftPerformed rightPerformed)
      (perform_operation known operated)

theorem treeStep_performs :
    Surface.TreeStep (PerformsExpr primitives) (PerformsStmt primitives) where
  integer := by
    intro value counter after outline memory later result found evaluated stack
    cases found
    cases evaluated
    exact perform_pushInteger value
  text := by
    intro content counter after outline memory later result found evaluated stack
    cases found
    cases evaluated
    exact perform_pushText content
  symbol := by
    intro position name counter after outline memory later result found evaluated stack
    cases found
    exact perform_read evaluated stack
  negation := by
    intro position operand performs counter after outline memory later result found evaluated stack
    rcases Surface.outlineExpr_negation found with ⟨inner, innerFound, rfl⟩
    simp only [evaluateExpr, Option.bind_eq_bind, Option.bind_eq_some_iff, Option.pure_def,
      Option.some.injEq, Prod.mk.injEq, Prod.exists] at evaluated
    rcases evaluated with ⟨argument, _, innerEvaluated, _, operated, rfl, rfl⟩
    exact perform_append_of (performs innerFound innerEvaluated stack) (perform_negate operated)
  binary := performsExpr_binary
  list := by
    intro items _ counter after outline memory later result _ evaluated
    cases evaluated
  record := by
    intro fields _ counter after outline memory later result _ evaluated
    cases evaluated
  item := by
    intro position subject index _ _ counter after outline memory later result _ evaluated
    cases evaluated
  call := by
    intro position function arguments performsFunction performsArguments counter after outline
      memory later result found evaluated stack
    rcases Surface.outlineExpr_call found with
      ⟨first, between, second, argumentsFound, functionFound, rfl⟩
    simp only [evaluateExpr, Option.bind_eq_bind, Option.bind_eq_some_iff, Prod.exists]
      at evaluated
    rcases evaluated with
      ⟨values, middle, argumentsEvaluated, callee, last, functionEvaluated, called⟩
    have argumentsPerformed :=
      performs_outlineExprs performsArguments argumentsFound argumentsEvaluated stack
    have functionPerformed :=
      performsFunction functionFound functionEvaluated (values.reverse ++ stack)
    rw [← length_evaluateExprs argumentsEvaluated]
    exact perform_append_of (perform_append_of argumentsPerformed functionPerformed)
      (perform_call called)
  lambda := by
    intro parameters body _ counter after outline memory later result _ evaluated
    cases evaluated
  conditional := by
    intro condition onTrue onFalse performsCondition performsTrue performsFalse counter after
      outline memory later result found evaluated stack
    rcases Surface.outlineExpr_conditional found with
      ⟨first, _, second, _, third, firstFound, secondFound, thirdFound, rfl⟩
    rw [evaluateExpr] at evaluated
    rcases Option.bind_eq_some_iff.mp evaluated with ⟨⟨value, middle⟩, firstEvaluated, chosen⟩
    rcases Option.bind_eq_some_iff.mp chosen with ⟨truth, isTruth, bodyEvaluated⟩
    apply perform_conditional (performsCondition firstFound firstEvaluated stack) isTruth
    cases truth with
    | true => exact performs_outlineBody performsTrue secondFound bodyEvaluated stack
    | false => exact performs_outlineBody performsFalse thirdFound bodyEvaluated stack
  misplacedExpr := by
    intro form name? counter after outline memory later result found
    cases found
  assign := by
    intro target value performs counter after outline memory later found evaluated stack
    rcases Surface.outlineStmt_assign found with ⟨inner, innerFound, rfl⟩
    rw [evaluateStmt] at evaluated
    rcases Option.bind_eq_some_iff.mp evaluated with ⟨⟨result, middle⟩, valueEvaluated, bound⟩
    exact perform_append_of (performs innerFound valueEvaluated stack) (perform_pop bound)
  evaluate := by
    intro expression performs counter after outline memory later found evaluated stack
    rcases Surface.outlineStmt_evaluate found with ⟨inner, innerFound, rfl⟩
    rw [evaluateStmt] at evaluated
    rcases Option.bind_eq_some_iff.mp evaluated with ⟨⟨result, middle⟩, valueEvaluated, same⟩
    cases same
    exact perform_append_of (performs innerFound valueEvaluated stack) (perform_drop result)
  define := by
    intro name parameters body _ counter after outline memory later _ evaluated
    cases evaluated
  misplacedStmt := by
    intro form counter after outline memory later found
    cases found

/-- The outline of a script does what the script does. -/
theorem perform_outline {program : Surface.Program} (found : program.outline = some outline)
    (evaluated : evaluateStmts primitives program.statements memory = some later)
    (stack : List Scalar) :
    perform primitives outline stack memory = some (stack, later) := by
  rcases Option.map_eq_some_iff.mp found with ⟨⟨_, after⟩, stmtsFound, rfl⟩
  exact performs_outlineStmts (treeStep_performs.body program.statements).statements stmtsFound
    evaluated stack

end Outline

end StackScript.Evaluation
