import StackScript.Proofs.Spacing.Tokens
import StackScript.Script

/-!
# Places have no effect

Places are carried by the trees up to the linear form.  Each stage commutes with forgetting
them, and emission does not look at them.  So scripts that differ in their spacing have the
same stack code, the same listing and the same document, or none of them has
(`Script.stages_of_same_lexemes`).
-/

namespace StackScript

open StackScript.Surface (nowhere)

section Outcomes

variable {ε α α' β β' : Type}

/-- A step of a computation commutes with changes of what it takes and of what it gives. -/
theorem bind_eq_map {first : Except ε α} {first' : Except ε α'} {next : α → Except ε β}
    {next' : α' → Except ε β'} {change : α → α'} {changeNext : β → β'}
    (same : first' = first.map change)
    (sameNext : ∀ value, next' (change value) = (next value).map changeNext) :
    first' >>= next' = (first >>= next).map changeNext := by
  cases first with
  | error error => rw [same]; rfl
  | ok value => rw [same]; exact sameNext value

/-- Both outcomes are errors, or both are values that look the same. -/
def SameView (view : α → β) (outcome outcome' : Except ε α) : Prop :=
  outcome.toOption.map view = outcome'.toOption.map view

theorem SameView.bind {view : α → α'} {viewNext : β → β'} {first first' : Except ε α}
    {next : α → Except ε β} (same : SameView view first first')
    (sameNext : ∀ value value', view value = view value' →
      SameView viewNext (next value) (next value')) :
    SameView viewNext (first >>= next) (first' >>= next) := by
  cases first with
  | error error =>
      cases first' with
      | error error' => rfl
      | ok value' => cases same
  | ok value =>
      cases first' with
      | error error' => cases same
      | ok value' => exact sameNext value value' (Option.some.inj same)

/-- A stage that commutes with forgetting does not tell values apart that look the same. -/
theorem sameView_of_commutes {view : α → α} {viewNext : β → β'} {next : α → Except ε β}
    {nextView : α → Except ε β'}
    (commutes : ∀ value, (next value).map viewNext = nextView (view value))
    (value value' : α) (same : view value = view value') :
    SameView viewNext (next value) (next value') := by
  have mapped : (next value).map viewNext = (next value').map viewNext := by
    rw [commutes, commutes, same]
  cases found : next value <;> cases found' : next value' <;>
    simp_all [SameView, Except.map, Except.toOption]

end Outcomes

namespace Core

mutual

/-- A core expression in which all places have been forgotten. -/
def Expr.unplaced : Expr → Expr
  | .builtin _ builtin => .builtin nowhere builtin
  | .integer value => .integer value
  | .text content => .text content
  | .symbol _ name => .symbol nowhere name
  | .list items => .list (exprsUnplaced items)
  | .record fields => .record (fieldsUnplaced fields)
  | .call _ function arguments => .call nowhere function.unplaced (exprsUnplaced arguments)
  | .lambda name? parameters body => .lambda name? parameters (stmtsUnplaced body)
  | .conditional condition onTrue onFalse =>
      .conditional condition.unplaced (stmtsUnplaced onTrue) (stmtsUnplaced onFalse)
  | .misplaced form => .misplaced form

def exprsUnplaced : List Expr → List Expr
  | [] => []
  | expression :: rest => expression.unplaced :: exprsUnplaced rest

def fieldsUnplaced : List (String × Expr) → List (String × Expr)
  | [] => []
  | (name, value) :: rest => (name, value.unplaced) :: fieldsUnplaced rest

def Stmt.unplaced : Stmt → Stmt
  | .assign target value => .assign target value.unplaced
  | .evaluate expression => .evaluate expression.unplaced
  | .misplaced form => .misplaced form

def stmtsUnplaced : List Stmt → List Stmt
  | [] => []
  | statement :: rest => statement.unplaced :: stmtsUnplaced rest

end

/-- A script in core form in which all places have been forgotten. -/
def Program.unplaced (program : Program) : Program :=
  { statements := stmtsUnplaced program.statements }

theorem length_exprsUnplaced (expressions : List Expr) :
    (exprsUnplaced expressions).length = expressions.length := by
  induction expressions with
  | nil => rfl
  | cons expression rest ih => rw [exprsUnplaced, List.length_cons, List.length_cons, ih]

theorem length_fieldsUnplaced (fields : List (String × Expr)) :
    (fieldsUnplaced fields).length = fields.length := by
  induction fields with
  | nil => rfl
  | cons field rest ih => rw [fieldsUnplaced, List.length_cons, List.length_cons, ih]

end Core

namespace Surface

/-- Reduction commutes with forgetting the places in an expression. -/
def ForgetsExpr (expression : Expr) : Prop :=
  Core.Expr.ofSurface expression.unplaced =
    (Core.Expr.ofSurface expression).map Core.Expr.unplaced

def ForgetsStmt (statement : Stmt) : Prop :=
  Core.Stmt.ofSurface statement.unplaced = (Core.Stmt.ofSurface statement).map Core.Stmt.unplaced

theorem forgets_exprs {expressions : List Expr}
    (forgets : ∀ expression ∈ expressions, ForgetsExpr expression) :
    Core.exprsOfSurface (exprsUnplaced expressions) =
      (Core.exprsOfSurface expressions).map Core.exprsUnplaced := by
  induction expressions with
  | nil => rfl
  | cons expression rest ih =>
      obtain ⟨forgetsFirst, forgetsRest⟩ := List.forall_mem_cons.mp forgets
      rw [exprsUnplaced, Core.exprsOfSurface, Core.exprsOfSurface]
      exact bind_eq_map forgetsFirst fun _ => bind_eq_map (ih forgetsRest) fun _ => rfl

theorem forgets_fields {fields : List (String × Expr)}
    (forgets : ∀ field ∈ fields, ForgetsExpr field.2) :
    Core.fieldsOfSurface (fieldsUnplaced fields) =
      (Core.fieldsOfSurface fields).map Core.fieldsUnplaced := by
  induction fields with
  | nil => rfl
  | cons field rest ih =>
      obtain ⟨forgetsFirst, forgetsRest⟩ := List.forall_mem_cons.mp forgets
      rw [fieldsUnplaced, Core.fieldsOfSurface, Core.fieldsOfSurface]
      exact bind_eq_map forgetsFirst fun _ => bind_eq_map (ih forgetsRest) fun _ => rfl

theorem forgets_stmts {statements : List Stmt}
    (forgets : ∀ statement ∈ statements, ForgetsStmt statement) :
    Core.stmtsOfSurface (stmtsUnplaced statements) =
      (Core.stmtsOfSurface statements).map Core.stmtsUnplaced := by
  induction statements with
  | nil => rfl
  | cons statement rest ih =>
      obtain ⟨forgetsFirst, forgetsRest⟩ := List.forall_mem_cons.mp forgets
      rw [stmtsUnplaced, Core.stmtsOfSurface, Core.stmtsOfSurface]
      exact bind_eq_map forgetsFirst fun _ => bind_eq_map (ih forgetsRest) fun _ => rfl

theorem name?_unplaced (expression : Expr) : expression.unplaced.name? = expression.name? := by
  cases expression <;> rfl

theorem form_unplaced (expression : Expr) : expression.unplaced.form = expression.form := by
  cases expression <;> rfl

theorem forgetsExpr_binary (position : Position) (level : Level) (operator : String)
    (left right : Expr) (forgetsLeft : ForgetsExpr left) (forgetsRight : ForgetsExpr right) :
    ForgetsExpr (.binary position level operator left right) := by
  rw [ForgetsExpr, Expr.unplaced, Core.Expr.ofSurface, Core.Expr.ofSurface]
  split
  · exact bind_eq_map forgetsLeft fun _ => bind_eq_map forgetsRight fun _ => rfl
  split
  · exact bind_eq_map forgetsLeft fun _ => bind_eq_map forgetsRight fun _ => rfl
  split
  · refine bind_eq_map forgetsLeft fun _ => ?_
    rw [name?_unplaced, form_unplaced]
    cases right.name? <;> rfl
  · cases Core.Builtin.ofOperator? operator with
    | none => rfl
    | some builtin =>
        exact bind_eq_map forgetsLeft fun _ => bind_eq_map forgetsRight fun _ => rfl

/-- A place is handed on and never looked at. -/
theorem treeStep_forgets : TreeStep ForgetsExpr ForgetsStmt where
  integer _ := rfl
  text _ := rfl
  symbol _ _ := rfl
  negation position operand forgets := by
    rw [ForgetsExpr, Expr.unplaced, Core.Expr.ofSurface, Core.Expr.ofSurface]
    exact bind_eq_map forgets fun _ => rfl
  binary := forgetsExpr_binary
  list items forgets := by
    rw [ForgetsExpr, Expr.unplaced, Core.Expr.ofSurface, Core.Expr.ofSurface]
    exact bind_eq_map (forgets_exprs forgets) fun _ => rfl
  record fields forgets := by
    rw [ForgetsExpr, Expr.unplaced, Core.Expr.ofSurface, Core.Expr.ofSurface]
    exact bind_eq_map (forgets_fields forgets) fun _ => rfl
  item position subject index forgetsSubject forgetsIndex := by
    rw [ForgetsExpr, Expr.unplaced, Core.Expr.ofSurface, Core.Expr.ofSurface]
    exact bind_eq_map forgetsSubject fun _ => bind_eq_map forgetsIndex fun _ => rfl
  call position function arguments forgetsFunction forgetsArguments := by
    rw [ForgetsExpr, Expr.unplaced, Core.Expr.ofSurface, Core.Expr.ofSurface]
    exact bind_eq_map forgetsFunction fun _ =>
      bind_eq_map (forgets_exprs forgetsArguments) fun _ => rfl
  lambda parameters body forgets := by
    rw [ForgetsExpr, Expr.unplaced, Core.Expr.ofSurface, Core.Expr.ofSurface]
    exact bind_eq_map (forgets_stmts forgets.statements) fun _ => rfl
  conditional condition onTrue onFalse forgetsCondition forgetsTrue forgetsFalse := by
    rw [ForgetsExpr, Expr.unplaced, Core.Expr.ofSurface, Core.Expr.ofSurface]
    exact bind_eq_map forgetsCondition fun _ =>
      bind_eq_map (forgets_stmts forgetsTrue.statements) fun _ =>
        bind_eq_map (forgets_stmts forgetsFalse.statements) fun _ => rfl
  misplacedExpr _ _ := rfl
  assign target value forgets := by
    rw [ForgetsStmt, Stmt.unplaced, Core.Stmt.ofSurface, Core.Stmt.ofSurface]
    exact bind_eq_map forgets fun _ => rfl
  evaluate expression forgets := by
    rw [ForgetsStmt, Stmt.unplaced, Core.Stmt.ofSurface, Core.Stmt.ofSurface]
    exact bind_eq_map forgets fun _ => rfl
  define name parameters body forgets := by
    rw [ForgetsStmt, Stmt.unplaced, Core.Stmt.ofSurface, Core.Stmt.ofSurface]
    exact bind_eq_map (forgets_stmts forgets.statements) fun _ => rfl
  misplacedStmt _ := rfl

end Surface

theorem Core.Program.ofSurface_unplaced (program : Surface.Program) :
    Core.Program.ofSurface program.unplaced =
      (Core.Program.ofSurface program).map Core.Program.unplaced :=
  bind_eq_map (Surface.forgets_stmts (Surface.treeStep_forgets.body _).statements) fun _ => rfl

/-! ## The linear form -/

namespace Linear

mutual

/-- A value in which all places have been forgotten. -/
def Value.unplaced : Value → Value
  | .builtin builtin => .builtin builtin
  | .integer value => .integer value
  | .text content => .text content
  | .symbol name => .symbol name
  | .symbolLiteral name => .symbolLiteral name
  | .temporary name => .temporary name
  | .list itemCount => .list itemCount
  | .record fieldCount => .record fieldCount
  | .call _ function argumentCount => .call nowhere function.unplaced argumentCount
  | .lambda name? parameters body => .lambda name? parameters (stepsUnplaced body)
  | .conditional condition onTrue onFalse =>
      .conditional condition.unplaced (stepsUnplaced onTrue) (stepsUnplaced onFalse)
  | .misplaced form => .misplaced form

def Step.unplaced : Step → Step
  | .push value => .push value.unplaced
  | .bindTemporary temporary value => .bindTemporary temporary value.unplaced
  | .assign target value => .assign target value.unplaced
  | .evaluate value => .evaluate value.unplaced
  | .misplaced form => .misplaced form

def stepsUnplaced : List Step → List Step
  | [] => []
  | step :: rest => step.unplaced :: stepsUnplaced rest

end

/-- A script in linear form in which all places have been forgotten. -/
def Program.unplaced (program : Program) : Program :=
  { steps := stepsUnplaced program.steps }

theorem stepsUnplaced_append (first second : List Step) :
    stepsUnplaced (first ++ second) = stepsUnplaced first ++ stepsUnplaced second := by
  induction first with
  | nil => rfl
  | cons step rest ih => rw [List.cons_append, stepsUnplaced, stepsUnplaced, ih, List.cons_append]

def Ordered.unplaced (ordered : Ordered) : Ordered :=
  ⟨ordered.counter, stepsUnplaced ordered.before, ordered.value.unplaced⟩

def OrderedStep.unplaced (ordered : OrderedStep) : OrderedStep :=
  ⟨ordered.counter, stepsUnplaced ordered.before, ordered.step.unplaced⟩

def countedUnplaced (counted : Int × List Step) : Int × List Step :=
  (counted.1, stepsUnplaced counted.2)

mutual

/-- An expression is put in order without a look at its places. -/
theorem orderExpr_unplaced (counter : Int) (expression : Core.Expr) :
    orderExpr counter expression.unplaced = (orderExpr counter expression).map Ordered.unplaced := by
  cases expression with
  | builtin _ _ | integer _ | text _ | symbol _ _ | misplaced _ => rfl
  | list items =>
      rw [Core.Expr.unplaced, orderExpr, orderExpr, Core.length_exprsUnplaced]
      exact bind_eq_map (orderArguments_unplaced (counter + 1) items) fun _ => rfl
  | record fields =>
      rw [Core.Expr.unplaced, orderExpr, orderExpr, Core.length_fieldsUnplaced]
      exact bind_eq_map (orderFields_unplaced counter fields) fun _ => rfl
  | call position function arguments =>
      rw [Core.Expr.unplaced, orderExpr, orderExpr, Core.length_exprsUnplaced]
      refine bind_eq_map (orderArguments_unplaced counter arguments) fun counted => ?_
      refine bind_eq_map (orderExpr_unplaced counted.1 function) fun inner => ?_
      have joined := stepsUnplaced_append counted.2 inner.before
      exact congrArg (fun steps => Except.ok (Ordered.mk inner.counter steps _)) joined.symm
  | lambda name? parameters body =>
      rw [Core.Expr.unplaced, orderExpr, orderExpr]
      exact bind_eq_map (orderStmts_unplaced 0 body) fun _ => rfl
  | conditional condition onTrue onFalse =>
      rw [Core.Expr.unplaced, orderExpr, orderExpr]
      exact bind_eq_map (orderExpr_unplaced counter condition) fun first =>
        bind_eq_map (orderStmts_unplaced first.counter onTrue) fun counted =>
          bind_eq_map (orderStmts_unplaced counted.1 onFalse) fun _ => rfl

/-- Arguments are put in order without a look at their places. -/
theorem orderArguments_unplaced (counter : Int) (arguments : List Core.Expr) :
    orderArguments counter (Core.exprsUnplaced arguments) =
      (orderArguments counter arguments).map countedUnplaced := by
  cases arguments with
  | nil => rfl
  | cons argument rest =>
      rw [Core.exprsUnplaced, orderArguments, orderArguments]
      refine bind_eq_map (orderExpr_unplaced counter argument) fun first => ?_
      refine bind_eq_map (orderArguments_unplaced first.counter rest) fun counted => ?_
      have joined := stepsUnplaced_append first.before (.push first.value :: counted.2)
      exact congrArg (fun steps => Except.ok (counted.1, steps)) joined.symm

/-- Fields are put in order without a look at their places. -/
theorem orderFields_unplaced (counter : Int) (fields : List (String × Core.Expr)) :
    orderFields counter (Core.fieldsUnplaced fields) =
      (orderFields counter fields).map countedUnplaced := by
  cases fields with
  | nil => rfl
  | cons field rest =>
      obtain ⟨name, value⟩ := field
      rw [Core.fieldsUnplaced, orderFields, orderFields]
      refine bind_eq_map (orderExpr_unplaced counter value) fun first => ?_
      refine bind_eq_map (orderFields_unplaced first.counter rest) fun counted => ?_
      have joined := stepsUnplaced_append first.before
        (.push first.value :: .push (.symbolLiteral name) :: counted.2)
      exact congrArg (fun steps => Except.ok (counted.1, steps)) joined.symm

/-- A statement is put in order without a look at its places. -/
theorem orderStmt_unplaced (counter : Int) (statement : Core.Stmt) :
    orderStmt counter statement.unplaced =
      (orderStmt counter statement).map OrderedStep.unplaced := by
  cases statement with
  | assign target value =>
      rw [Core.Stmt.unplaced, orderStmt, orderStmt]
      exact bind_eq_map (orderExpr_unplaced counter value) fun _ => rfl
  | evaluate expression =>
      rw [Core.Stmt.unplaced, orderStmt, orderStmt]
      exact bind_eq_map (orderExpr_unplaced counter expression) fun _ => rfl
  | misplaced form => rfl

/-- Statements are put in order without a look at their places. -/
theorem orderStmts_unplaced (counter : Int) (statements : List Core.Stmt) :
    orderStmts counter (Core.stmtsUnplaced statements) =
      (orderStmts counter statements).map countedUnplaced := by
  cases statements with
  | nil => rfl
  | cons statement rest =>
      rw [Core.stmtsUnplaced, orderStmts, orderStmts]
      refine bind_eq_map (orderStmt_unplaced counter statement) fun first => ?_
      refine bind_eq_map (orderStmts_unplaced first.counter rest) fun counted => ?_
      have joined := stepsUnplaced_append first.before (first.step :: counted.2)
      exact congrArg (fun steps => Except.ok (counted.1, steps)) joined.symm

end

theorem Program.ofCore_unplaced (program : Core.Program) :
    Program.ofCore program.unplaced = (Program.ofCore program).map Program.unplaced :=
  bind_eq_map (orderStmts_unplaced 0 program.statements) fun _ => rfl

mutual

theorem checkValue_unplaced (value : Value) : checkValue value.unplaced = checkValue value := by
  cases value with
  | call _ function _ => exact checkValue_unplaced function
  | lambda _ _ body => exact checkSteps_unplaced body
  | conditional condition onTrue onFalse =>
      rw [Value.unplaced, checkValue, checkValue, checkSteps_unplaced onTrue,
        checkSteps_unplaced onFalse, checkValue_unplaced condition]
  | _ => rfl

theorem checkStep_unplaced (step : Step) : checkStep step.unplaced = checkStep step := by
  cases step with
  | push value | bindTemporary _ value | assign _ value | evaluate value =>
      exact checkValue_unplaced value
  | misplaced _ => rfl

/-- Misplaced nodes are found without a look at the places of others. -/
theorem checkSteps_unplaced (steps : List Step) :
    checkSteps (stepsUnplaced steps) = checkSteps steps := by
  cases steps with
  | nil => rfl
  | cons step rest =>
      rw [stepsUnplaced, checkSteps, checkSteps, checkStep_unplaced step, checkSteps_unplaced rest]

end

theorem Program.checked_unplaced (program : Program) :
    program.unplaced.checked = program.checked.map Program.unplaced := by
  rw [Program.checked, Program.checked, Program.unplaced, checkSteps_unplaced]
  cases checkSteps program.steps <;> rfl

end Linear

namespace Code

open StackScript.Linear (Value Step stepsUnplaced)

mutual

theorem emitValue_unplaced (value : Value) : emitValue value.unplaced = emitValue value := by
  cases value with
  | call position function count =>
      cases function with
      | builtin builtin => rfl
      | _ =>
          rw [Value.unplaced, emitValue.eq_9 _ _ _ (by simp [Value.unplaced]),
            emitValue.eq_9 _ _ _ (by simp), emitValue_unplaced]
  | lambda name? parameters body =>
      rw [Value.unplaced, emitValue, emitValue, emitSteps_unplaced body]
  | conditional condition onTrue onFalse =>
      rw [Value.unplaced, emitValue, emitValue, emitValue_unplaced condition,
        emitSteps_unplaced onTrue, emitSteps_unplaced onFalse]
  | _ => rfl

theorem emitStep_unplaced (step : Step) : emitStep step.unplaced = emitStep step := by
  cases step with
  | push value | bindTemporary _ value | assign _ value | evaluate value =>
      rw [Step.unplaced, emitStep, emitStep, emitValue_unplaced value]
  | misplaced _ => rfl

/-- Code is emitted without a look at places. -/
theorem emitSteps_unplaced (steps : List Step) :
    emitSteps (stepsUnplaced steps) = emitSteps steps := by
  cases steps with
  | nil => rfl
  | cons step rest =>
      rw [stepsUnplaced, emitSteps, emitSteps, emitStep_unplaced step, emitSteps_unplaced rest]

end

theorem ofLinear_unplaced (program : Linear.Program) :
    ofLinear program.unplaced = ofLinear program := by
  rw [ofLinear, ofLinear, Linear.Program.unplaced, emitSteps_unplaced]

end Code

namespace Script

variable {script script' : String}

/-- Scripts with the same surface tree, apart from the places in it, agree in everything that
is made of it. -/
theorem sameView_stages
    (same : SameView Surface.Program.unplaced (Script.surface script) (Script.surface script')) :
    SameView Core.Program.unplaced (Script.core script) (Script.core script') ∧
      SameView Linear.Program.unplaced (Script.linear script) (Script.linear script') ∧
      SameView Linear.Program.unplaced (Script.placed script) (Script.placed script') ∧
      SameView id (Script.code script) (Script.code script') := by
  have sameCore : SameView Core.Program.unplaced (Script.core script) (Script.core script') :=
    same.bind (sameView_of_commutes fun program => (Core.Program.ofSurface_unplaced program).symm)
  have sameLinear : SameView Linear.Program.unplaced (Script.linear script)
      (Script.linear script') :=
    sameCore.bind (sameView_of_commutes fun program => (Linear.Program.ofCore_unplaced program).symm)
  have samePlaced : SameView Linear.Program.unplaced (Script.placed script)
      (Script.placed script') :=
    sameLinear.bind (sameView_of_commutes fun program =>
      (Linear.Program.checked_unplaced program).symm)
  refine ⟨sameCore, sameLinear, samePlaced, samePlaced.bind ?_⟩
  intro program program' sameProgram
  rw [← Code.ofLinear_unplaced program, sameProgram, Code.ofLinear_unplaced program']
  rfl

/-- Scripts with the same lexemes, apart from the number of newlines in a row, are accepted by
the same stages, and the results differ at most in places.  Stack code, listings and documents
do not differ at all. -/
theorem stages_of_same_lexemes {tokens tokens' : List Token}
    (scanned : tokenize script = .ok tokens) (scanned' : tokenize script' = .ok tokens')
    (same : drawTogether (tokens.map Token.lexeme) = drawTogether (tokens'.map Token.lexeme)) :
    SameView Surface.Program.unplaced (Script.surface script) (Script.surface script') ∧
      SameView Core.Program.unplaced (Script.core script) (Script.core script') ∧
      SameView Linear.Program.unplaced (Script.linear script) (Script.linear script') ∧
      SameView Linear.Program.unplaced (Script.placed script) (Script.placed script') ∧
      SameView id (Script.code script) (Script.code script') ∧
      SameView id (Script.shortCode script) (Script.shortCode script') ∧
      SameView id (Script.listing script) (Script.listing script') ∧
      SameView id (Script.document script) (Script.document script') := by
  have sameSurface : SameView Surface.Program.unplaced (Script.surface script)
      (Script.surface script') := by
    rw [Script.surface, Script.surface, scanned, scanned']
    exact parse_of_sameSpacing (sameSpacing_of_drawTogether (isPlainNewline_of_tokenize scanned)
      (isPlainNewline_of_tokenize scanned') same)
  obtain ⟨sameCore, sameLinear, samePlaced, sameCode⟩ := sameView_stages sameSurface
  have sameShort : SameView id (Script.shortCode script) (Script.shortCode script') := by
    refine sameCode.bind ?_
    rintro entries _ rfl
    rfl
  refine ⟨sameSurface, sameCore, sameLinear, samePlaced, sameCode, sameShort, ?_, ?_⟩
  · refine sameShort.bind ?_
    rintro entries _ rfl
    rfl
  · refine sameShort.bind ?_
    rintro entries _ rfl
    rfl

/-- A script with as little space as possible. -/
def dense : String :=
  "def f(x) do\nx+1\nend\nprint(f(2),\n'a')\n"

/-- The same script with comments, indentation and empty lines. -/
def airy : String :=
  "def f( x ) do   # the next one\n\n  x + 1\n\n\nend\n\nprint( f(2), # three\n\n  'a' )\n\n"

theorem airy_like_dense :
    ∃ tokens tokens', tokenize airy = .ok tokens ∧ tokenize dense = .ok tokens' ∧
      tokens'.length < tokens.length ∧
      drawTogether (tokens.map Token.lexeme) = drawTogether (tokens'.map Token.lexeme) ∧
      SameView Surface.Program.unplaced (Script.surface airy) (Script.surface dense) ∧
      (Script.document dense).isOk = true ∧
      SameView id (Script.document airy) (Script.document dense) := by
  have lengths : (tokenize airy).map List.length = .ok 30 ∧
      (tokenize dense).map List.length = .ok 24 := by
    decide +kernel
  have drawn : (tokenize airy).map (fun tokens => drawTogether (tokens.map Token.lexeme)) =
      (tokenize dense).map fun tokens => drawTogether (tokens.map Token.lexeme) := by
    decide +kernel
  have accepted : (Script.document dense).isOk = true := by
    decide +kernel
  cases scanned : tokenize airy with
  | error error =>
      rw [scanned] at lengths
      cases lengths.1
  | ok tokens =>
      cases scanned' : tokenize dense with
      | error error =>
          rw [scanned'] at lengths
          cases lengths.2
      | ok tokens' =>
          rw [scanned, scanned'] at lengths drawn
          have same := Except.ok.inj drawn
          obtain ⟨surfaces, _, _, _, _, _, _, documents⟩ :=
            stages_of_same_lexemes scanned scanned' same
          have shorter : tokens'.length < tokens.length := by
            rw [Except.ok.inj lengths.1, Except.ok.inj lengths.2]
            decide
          exact ⟨tokens, tokens', rfl, rfl, shorter, same, surfaces, accepted, documents⟩

end Script

end StackScript
