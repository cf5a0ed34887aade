import StackScript.Proofs.Machine.Basic
import StackScript.Proofs.Structured.Contents

/-!
# The depth of the stack

Every instruction takes a number of values from the stack and puts a number of values
there.  Structured code fits a depth of the stack if no instruction takes more than there
is, and if both branches of a conditional end at one depth.  The outline of an expression
without lists adds one value to a stack of any depth, and the outline of a script without
lists starts and ends at an empty stack (`fits_outline`).
-/

namespace StackScript.Code

open StackScript.Machine (count?)

/-- How many values an instruction takes from the stack, and how many it puts there.  For
a list this is not known. -/
def Instruction.effect? (content : Instruction) : Option (Nat × Nat) :=
  match content.opcode with
  | .push | .pushInteger | .pushText | .pushSymbol | .close => some (0, 1)
  | .pop | .drop | .jumpIfFalse => some (1, 0)
  | .jump | .returnValue | .halt => some (0, 0)
  | .call => (count? content.argument).map fun count => (count + 1, 1)
  | .record => (count? content.argument).map fun count => (2 * count, 1)
  | .list | .other _ => none
  | _ => (count? content.argument).map fun count => (count, 1)

namespace Structured

variable {φ β : Type}

/-- Structured code takes the stack from one depth to another.  Bodies of functions start
at an empty stack and leave one value. -/
inductive Fits : Structured φ β → (depth after : Nat) → Prop where
  | done (depth : Nat) : Fits done depth depth
  | instruction {content : Instruction} {rest : Structured φ β} {depth taken given after : Nat}
      (straight : content.opcode.isStraight = true)
      (effect : content.effect? = some (taken, given))
      (restFits : Fits rest (depth + given) after) :
      Fits (instruction content rest) (depth + taken) after
  | function {mark : φ} {parameters : List String} {body rest : Structured φ β}
      {depth after : Nat} (bodyFits : Fits body 0 1) (restFits : Fits rest (depth + 1) after) :
      Fits (function mark parameters body rest) depth after
  | branch {mark : β} {onTrue onFalse rest : Structured φ β} {depth between after : Nat}
      (trueFits : Fits onTrue depth between) (falseFits : Fits onFalse depth between)
      (restFits : Fits rest between after) :
      Fits (branch mark onTrue onFalse rest) (depth + 1) after

theorem Fits.append {first second : Structured φ β} {depth between after : Nat}
    (firstFits : first.Fits depth between) (secondFits : second.Fits between after) :
    (first ++ second).Fits depth after := by
  induction firstFits with
  | done depth => exact secondFits
  | instruction straight effect _ ih => exact .instruction straight effect (ih secondFits)
  | function bodyFits _ _ ih => exact .function bodyFits (ih secondFits)
  | branch trueFits falseFits _ _ _ ih => exact .branch trueFits falseFits (ih secondFits)

/-- Code that differs in its marks fits the same depths. -/
theorem fits_of_mapMarks {φ' β' : Type} {onFunction : φ → φ'} {onBranch : β → β'}
    {code : Structured φ β} {depth after : Nat}
    (fits : (code.mapMarks onFunction onBranch).Fits depth after) : code.Fits depth after := by
  induction code generalizing depth after with
  | done =>
      cases fits
      exact .done depth
  | instruction content rest ih =>
      cases fits with
      | instruction straight effect restFits => exact .instruction straight effect (ih restFits)
  | function mark parameters body rest bodyIH restIH =>
      cases fits with
      | function bodyFits restFits => exact .function (bodyIH bodyFits) (restIH restFits)
  | branch mark onTrue onFalse rest trueIH falseIH restIH =>
      cases fits with
      | branch trueFits falseFits restFits =>
          exact .branch (trueIH trueFits) (falseIH falseFits) (restIH restFits)

theorem fits_single {opcode : Opcode} {argument : Argument} {taken given : Nat}
    (straight : opcode.isStraight = true)
    (effect : (Instruction.mk opcode argument).effect? = some (taken, given)) (depth : Nat) :
    (single opcode argument : Structured φ β).Fits (depth + taken) (depth + given) :=
  .instruction straight effect (.done _)

/-- An instruction that gives a value. -/
theorem fits_give {opcode : Opcode} {argument : Argument} (straight : opcode.isStraight = true)
    (effect : (Instruction.mk opcode argument).effect? = some (0, 1)) (depth : Nat) :
    (single opcode argument : Structured φ β).Fits depth (depth + 1) :=
  fits_single straight effect depth

/-- An instruction that takes a value. -/
theorem fits_take {opcode : Opcode} {argument : Argument} (straight : opcode.isStraight = true)
    (effect : (Instruction.mk opcode argument).effect? = some (1, 0)) (depth : Nat) :
    (single opcode argument : Structured φ β).Fits (depth + 1) depth :=
  fits_single straight effect depth

/-- A conditional adds the value of one of its branches. -/
theorem fits_branch {mark : β} {onTrue onFalse : Structured φ β} {depth : Nat}
    (trueFits : onTrue.Fits depth (depth + 1)) (falseFits : onFalse.Fits depth (depth + 1)) :
    (branch mark onTrue onFalse done).Fits (depth + 1) (depth + 1) :=
  .branch trueFits falseFits (.done _)

end Structured

end StackScript.Code

namespace StackScript.Surface

open StackScript.Code (Opcode Outline symbolArgument textArgument)
open StackScript.Code.Structured (fits_single fits_give fits_take fits_branch)

mutual

/-- Whether an expression has no list in it. -/
def Expr.isListFree : Expr → Bool
  | .list _ => false
  | .integer _ => true
  | .text _ => true
  | .symbol .. => true
  | .misplaced .. => true
  | .negation _ operand => operand.isListFree
  | .binary _ _ _ left right => left.isListFree && right.isListFree
  | .record fields => fieldsAreListFree fields
  | .item _ subject index => subject.isListFree && index.isListFree
  | .call _ function arguments => function.isListFree && exprsAreListFree arguments
  | .lambda _ body => stmtsAreListFree body
  | .conditional condition onTrue onFalse =>
      condition.isListFree && (stmtsAreListFree onTrue && stmtsAreListFree onFalse)

def exprsAreListFree : List Expr → Bool
  | [] => true
  | expression :: rest => expression.isListFree && exprsAreListFree rest

def fieldsAreListFree : List (String × Expr) → Bool
  | [] => true
  | (_, value) :: rest => value.isListFree && fieldsAreListFree rest

def Stmt.isListFree : Stmt → Bool
  | .assign _ value => value.isListFree
  | .evaluate expression => expression.isListFree
  | .define _ _ body => stmtsAreListFree body
  | .misplaced _ => true

def stmtsAreListFree : List Stmt → Bool
  | [] => true
  | statement :: rest => statement.isListFree && stmtsAreListFree rest

end

/-- Whether a script has no list in it. -/
def Program.isListFree (program : Program) : Bool :=
  stmtsAreListFree program.statements

/-! ## Outlines fit -/

/-- The outline of an expression adds one value to a stack of any depth. -/
def FitsExpr (expression : Expr) : Prop :=
  expression.isListFree = true → ∀ {counter after : Int} {outline : Outline},
    outlineExpr counter expression = some (outline, after) →
      ∀ depth, outline.Fits depth (depth + 1)

def FitsStmt (statement : Stmt) : Prop :=
  statement.isListFree = true → ∀ {counter after : Int} {outline : Outline},
    outlineStmt counter statement = some (outline, after) →
      ∀ depth, outline.Fits depth depth

section Fits

variable {counter after : Int} {outline : Outline}

theorem fits_pushSymbol (name : String) (depth : Nat) :
    (pushSymbol name).Fits depth (depth + 1) :=
  fits_give rfl rfl depth

theorem fits_outlineExprs {expressions : List Expr}
    (fits : ∀ expression ∈ expressions, FitsExpr expression)
    (listFree : exprsAreListFree expressions = true)
    (found : outlineExprs counter expressions = some (outline, after)) (depth : Nat) :
    outline.Fits depth (depth + expressions.length) := by
  induction expressions generalizing counter outline depth with
  | nil =>
      cases found
      exact .done depth
  | cons expression rest ih =>
      have fitsBoth := List.forall_mem_cons.mp fits
      have freeBoth := Bool.and_eq_true_iff.mp listFree
      rcases outlineExprs_cons found with ⟨first, between, second, firstFound, restFound, rfl⟩
      have firstFits := fitsBoth.1 freeBoth.1 firstFound depth
      have restFits := ih fitsBoth.2 freeBoth.2 restFound (depth + 1)
      rw [List.length_cons, Nat.add_comm rest.length, ← Nat.add_assoc]
      exact firstFits.append restFits

theorem fits_outlineFields {fields : List (String × Expr)}
    (fits : ∀ field ∈ fields, FitsExpr field.2) (listFree : fieldsAreListFree fields = true)
    (found : outlineFields counter fields = some (outline, after)) (depth : Nat) :
    outline.Fits depth (depth + 2 * fields.length) := by
  induction fields generalizing counter outline depth with
  | nil =>
      cases found
      exact .done depth
  | cons field rest ih =>
      have fitsBoth := List.forall_mem_cons.mp fits
      have freeBoth := Bool.and_eq_true_iff.mp listFree
      rcases outlineFields_cons found with ⟨first, between, second, firstFound, restFound, rfl⟩
      have firstFits := fitsBoth.1 freeBoth.1 firstFound depth
      have nameFits : (Code.Structured.single .pushSymbol (symbolArgument field.1) : Outline).Fits
          (depth + 1) (depth + 1 + 1) := fits_give rfl rfl (depth + 1)
      have restFits := ih fitsBoth.2 freeBoth.2 restFound (depth + 1 + 1)
      have total : depth + 2 * (field :: rest).length = depth + 1 + 1 + 2 * rest.length := by
        rw [List.length_cons]
        omega
      rw [total]
      exact firstFits.append (nameFits.append restFits)

theorem fits_outlineStmts {statements : List Stmt}
    (fits : ∀ statement ∈ statements, FitsStmt statement)
    (listFree : stmtsAreListFree statements = true)
    (found : outlineStmts counter statements = some (outline, after)) (depth : Nat) :
    outline.Fits depth depth := by
  induction statements generalizing counter outline with
  | nil =>
      cases found
      exact .done depth
  | cons statement rest ih =>
      have fitsBoth := List.forall_mem_cons.mp fits
      have freeBoth := Bool.and_eq_true_iff.mp listFree
      rcases outlineStmts_cons found with ⟨first, between, second, firstFound, restFound, rfl⟩
      exact (fitsBoth.1 freeBoth.1 firstFound depth).append (ih fitsBoth.2 freeBoth.2 restFound)

theorem fits_outlineBody {statements : List Stmt}
    (fits : OnBody FitsExpr FitsStmt statements)
    (listFree : stmtsAreListFree statements = true)
    (found : outlineBody counter statements = some (outline, after)) (depth : Nat) :
    outline.Fits depth (depth + 1) := by
  induction statements generalizing counter outline with
  | nil => cases found
  | cons statement rest ih =>
      have freeBoth := Bool.and_eq_true_iff.mp listFree
      rcases outlineBody_cons found with ⟨rfl, expression, rfl, valueFound⟩ |
        ⟨_, first, between, second, firstFound, restFound, rfl⟩
      · have valueFree : expression.isListFree = true := freeBoth.1
        exact fits.values expression List.mem_cons_self valueFree valueFound depth
      · exact (fits.head freeBoth.1 firstFound depth).append
          (ih fits.tail freeBoth.2 restFound)

theorem effect?_of_operator {operator : String} {opcode : Opcode}
    (performed : opcodeOfOperator? operator = some opcode) :
    (Code.Instruction.mk opcode (.integer 2)).effect? = some (2, 1) := by
  have effects : operatorOpcodes.all (fun opcode =>
      (Code.Instruction.mk opcode (.integer 2)).effect? = some (2, 1)) = true := by decide
  exact of_decide_eq_true (holds_of_operator effects performed)

theorem fitsExpr_binary (position : Position) (level : Level) (operator : String)
    (left right : Expr) (fitsLeft : FitsExpr left) (fitsRight : FitsExpr right) :
    FitsExpr (.binary position level operator left right) := by
  intro listFree counter after outline found depth
  have freeBoth := Bool.and_eq_true_iff.mp listFree
  rcases outlineExpr_binary found with ⟨first, between, leftFound, operators⟩
  have leftFits := fitsLeft freeBoth.1 leftFound depth
  rcases operators with ⟨_, second, rightFound, rfl⟩ | ⟨_, second, rightFound, rfl⟩ |
    ⟨_, field, _, _, rfl⟩ | ⟨_, _, _, opcode, second, performed, rightFound, rfl⟩
  · have rightFits := fitsRight freeBoth.2 rightFound depth
    exact leftFits.append (fits_branch rightFits (fits_pushSymbol "false" depth))
  · have rightFits := fitsRight freeBoth.2 rightFound depth
    exact leftFits.append (fits_branch (fits_pushSymbol "true" depth) rightFits)
  · have fieldFits : (Code.Structured.single .pushText (textArgument field) : Outline).Fits
        (depth + 1) (depth + 1 + 1) := fits_give rfl rfl (depth + 1)
    have callFits : (Code.Structured.single .call (.integer 2) : Outline).Fits
        (depth + 3) (depth + 1) := fits_single rfl rfl depth
    exact ((leftFits.append fieldFits).append (fits_pushSymbol _ (depth + 2))).append callFits
  · have rightFits := fitsRight freeBoth.2 rightFound (depth + 1)
    exact (leftFits.append rightFits).append
      (fits_single (isStraight_opcodeOfOperator? performed) (effect?_of_operator performed) depth)

theorem fits_pushFunction {name? : Option String} {parameters : List String} {body : Outline}
    (bodyFits : body.Fits 0 1) (depth : Nat) :
    (pushFunction name? parameters body counter).Fits depth (depth + 1) := by
  have popFits : (Code.Structured.single .pop
      (symbolArgument (Linear.temporaryName counter)) : Outline).Fits (depth + 1) depth :=
    fits_take rfl rfl depth
  exact .function bodyFits (popFits.append (fits_pushSymbol _ depth))

theorem treeStep_fits : TreeStep FitsExpr FitsStmt where
  integer := by
    intro value _ counter after outline found depth
    cases found
    exact fits_give rfl rfl depth
  text := by
    intro content _ counter after outline found depth
    cases found
    exact fits_give rfl rfl depth
  symbol := by
    intro position name _ counter after outline found depth
    cases found
    exact fits_pushSymbol name depth
  negation := by
    intro position operand fits listFree counter after outline found depth
    rcases outlineExpr_negation found with ⟨inner, innerFound, rfl⟩
    exact (fits listFree innerFound depth).append (fits_single rfl rfl depth)
  binary := fitsExpr_binary
  list := by
    intro items _ listFree
    cases listFree
  record := by
    intro fields fits listFree counter after outline found depth
    rcases outlineExpr_record found with ⟨inner, innerFound, rfl⟩
    exact (fits_outlineFields fits listFree innerFound depth).append
      (fits_single rfl rfl depth)
  item := by
    intro position subject index _ _ _ counter after outline found
    cases found
  call := by
    intro position function arguments fitsFunction fitsArguments listFree counter after outline
      found depth
    have freeBoth := Bool.and_eq_true_iff.mp listFree
    rcases outlineExpr_call found with
      ⟨first, between, second, argumentsFound, functionFound, rfl⟩
    have argumentsFit := fits_outlineExprs fitsArguments freeBoth.2 argumentsFound depth
    have functionFits := fitsFunction freeBoth.1 functionFound (depth + arguments.length)
    have callFits : (Code.Structured.single .call (.integer arguments.length) : Outline).Fits
        (depth + (arguments.length + 1)) (depth + 1) := fits_single rfl rfl depth
    exact (argumentsFit.append functionFits).append callFits
  lambda := by
    intro parameters body fits listFree counter after outline found depth
    rcases outlineExpr_lambda found with ⟨inner, last, innerFound, rfl, _⟩
    exact fits_pushFunction (fits_outlineBody fits listFree innerFound 0) depth
  conditional := by
    intro condition onTrue onFalse fitsCondition fitsTrue fitsFalse listFree counter after outline
      found depth
    have freeParts := Bool.and_eq_true_iff.mp listFree
    have freeBoth := Bool.and_eq_true_iff.mp freeParts.2
    rcases outlineExpr_conditional found with
      ⟨first, _, second, _, third, firstFound, secondFound, thirdFound, rfl⟩
    exact (fitsCondition freeParts.1 firstFound depth).append
      (fits_branch (fits_outlineBody fitsTrue freeBoth.1 secondFound depth)
        (fits_outlineBody fitsFalse freeBoth.2 thirdFound depth))
  misplacedExpr := by
    intro form name? _ counter after outline found
    cases found
  assign := by
    intro target value fits listFree counter after outline found depth
    rcases outlineStmt_assign found with ⟨inner, innerFound, rfl⟩
    exact (fits listFree innerFound depth).append (fits_take rfl rfl depth)
  evaluate := by
    intro expression fits listFree counter after outline found depth
    rcases outlineStmt_evaluate found with ⟨inner, innerFound, rfl⟩
    exact (fits listFree innerFound depth).append (fits_take rfl rfl depth)
  define := by
    intro name parameters body fits listFree counter after outline found depth
    rcases outlineStmt_define found with ⟨inner, last, innerFound, rfl, _⟩
    exact (fits_pushFunction (fits_outlineBody fits listFree innerFound 0) depth).append
      (fits_take rfl rfl depth)
  misplacedStmt := by
    intro form _ counter after outline found
    cases found

/-- The outline of a script without lists starts and ends at an empty stack. -/
theorem fits_outline {program : Program} (listFree : program.isListFree = true)
    (found : program.outline = some outline) : outline.Fits 0 0 := by
  rcases Option.map_eq_some_iff.mp found with ⟨⟨_, after⟩, stmtsFound, rfl⟩
  exact fits_outlineStmts (treeStep_fits.body program.statements).statements listFree stmtsFound 0

end Fits

end StackScript.Surface
