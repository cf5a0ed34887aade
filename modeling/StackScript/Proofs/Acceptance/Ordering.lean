import StackScript.Linear.Placement
import StackScript.Proofs.Acceptance.Nodes
import StackScript.Proofs.Structured.OfSurface

/-!
# What is put in order

A script that has been reduced is always put in order, and no node of the result is
misplaced.  The steps have an outline if all operators of the script have an instruction and
all its bodies end in an expression (`orders_program`).
-/

namespace StackScript.Surface

open StackScript.Code (Outline outlineValue outlineStep outlineSteps outlineSteps_append_eq_some)
open StackScript.Linear (Value Step Ordered OrderedStep orderExpr orderArguments orderFields
  orderStmt orderStmts checkValue checkStep checkSteps)

/-- An operator without an instruction: concatenation or indexing. -/
def Expr.lacksInstruction : Expr → Bool
  | .binary _ _ operator _ _ => operator = "++"
  | .item .. => true
  | _ => false

/-- A body that does not end in an expression. -/
def yieldsNothing (body : List Stmt) : Bool :=
  match body.getLast? with
  | some (.evaluate _) => false
  | _ => true

/-! ## Linear form with code

`fits` is what the code of a linear form depends on: without it there is only a linear form. -/

section Sound

variable {fits : Prop}

/-- A value without misplaced nodes, which has an outline if it fits. -/
def SoundValue (fits : Prop) (value : Value) : Prop :=
  checkValue value = .ok () ∧ (fits → ∃ outline, outlineValue value = some outline)

def SoundStep (fits : Prop) (step : Step) : Prop :=
  checkStep step = .ok () ∧ (fits → ∃ outline, outlineStep step = some outline)

/-- Steps without misplaced nodes, which have an outline if they fit. -/
def SoundSteps (fits : Prop) (steps : List Step) : Prop :=
  checkSteps steps = .ok () ∧ (fits → ∃ outline, outlineSteps steps = some outline)

/-- Steps without misplaced nodes, which have an outline with a value to keep if they fit. -/
def SoundBody (fits : Prop) (steps : List Step) : Prop :=
  checkSteps steps = .ok () ∧
    (fits → ∃ kept, outlineSteps steps = some (kept ++ .single .drop .nothing))

theorem soundSteps_nil : SoundSteps fits [] :=
  ⟨rfl, fun _ => ⟨.done, rfl⟩⟩

theorem soundSteps_cons {step : Step} {rest : List Step} (first : SoundStep fits step)
    (later : SoundSteps fits rest) : SoundSteps fits (step :: rest) := by
  refine ⟨?_, fun fit => ?_⟩
  · rw [checkSteps, first.1]
    exact later.1
  · obtain ⟨outline, found⟩ := first.2 fit
    obtain ⟨outlines, restFound⟩ := later.2 fit
    exact ⟨_, outlineSteps_cons_eq_some.mpr ⟨outline, outlines, found, restFound, rfl⟩⟩

theorem checkSteps_append {first second : List Step} (firstChecked : checkSteps first = .ok ())
    (secondChecked : checkSteps second = .ok ()) : checkSteps (first ++ second) = .ok () := by
  induction first with
  | nil => exact secondChecked
  | cons step rest ih =>
      rw [checkSteps] at firstChecked
      obtain ⟨_, stepChecked, restChecked⟩ := except_bind_eq_ok.mp firstChecked
      rw [List.cons_append, checkSteps, stepChecked]
      exact ih restChecked

theorem soundSteps_append {first second : List Step} (firstSound : SoundSteps fits first)
    (secondSound : SoundSteps fits second) : SoundSteps fits (first ++ second) := by
  refine ⟨checkSteps_append firstSound.1 secondSound.1, fun fit => ?_⟩
  obtain ⟨left, leftFound⟩ := firstSound.2 fit
  obtain ⟨right, rightFound⟩ := secondSound.2 fit
  exact ⟨_, outlineSteps_append_eq_some.mpr ⟨left, right, leftFound, rightFound, rfl⟩⟩

/-- Steps before a body are part of it. -/
theorem soundBody_append {first second : List Step} (firstSound : SoundSteps fits first)
    (secondSound : SoundBody fits second) : SoundBody fits (first ++ second) := by
  refine ⟨checkSteps_append firstSound.1 secondSound.1, fun fit => ?_⟩
  obtain ⟨left, leftFound⟩ := firstSound.2 fit
  obtain ⟨kept, rightFound⟩ := secondSound.2 fit
  refine ⟨left ++ kept, outlineSteps_append_eq_some.mpr ⟨left, _, leftFound, rightFound, ?_⟩⟩
  exact Code.Structured.append_assoc _ _ _

theorem soundBody_evaluate {value : Value} (sound : SoundValue fits value) :
    SoundBody fits [.evaluate value] := by
  refine ⟨?_, fun fit => ?_⟩
  · rw [checkSteps, checkStep, sound.1]
    rfl
  · obtain ⟨kept, found⟩ := sound.2 fit
    exact ⟨kept, by simp [found]⟩

theorem soundValue_builtinCall {position : Position} {builtin : Core.Builtin} {count : Int}
    (performed : fits → (Code.opcodeOfBuiltin? builtin).isSome) :
    SoundValue fits (.call position (.builtin builtin) count) := by
  refine ⟨rfl, fun fit => ?_⟩
  obtain ⟨opcode, found⟩ := Option.isSome_iff_exists.mp (performed fit)
  exact ⟨.single opcode (.integer count), by simp [found]⟩

theorem soundValue_call {position : Position} {function : Value} {count : Int}
    (other : ∀ builtin, function ≠ .builtin builtin) (sound : SoundValue fits function) :
    SoundValue fits (.call position function count) := by
  refine ⟨sound.1, fun fit => ?_⟩
  obtain ⟨outline, found⟩ := sound.2 fit
  refine ⟨outline ++ .single .call (.integer count), ?_⟩
  rw [outlineValue.eq_9 _ _ _ other, found]
  rfl

theorem keepValue_drop (kept : Outline) :
    (kept ++ .single .drop .nothing : Outline).keepValue = some kept :=
  (Code.Structured.keepValue_eq_some_iff _ _).mpr ⟨.nothing, rfl⟩

theorem soundValue_lambda {name? : Option String} {parameters : List String}
    {body : List Step} (sound : SoundBody fits body) :
    SoundValue fits (.lambda name? parameters body) := by
  refine ⟨sound.1, fun fit => ?_⟩
  obtain ⟨kept, found⟩ := sound.2 fit
  exact ⟨.function name? parameters kept .done, by simp [found, keepValue_drop]⟩

theorem soundValue_conditional {condition : Value} {onTrue onFalse : List Step}
    (conditionSound : SoundValue fits condition) (trueSound : SoundBody fits onTrue)
    (falseSound : SoundBody fits onFalse) :
    SoundValue fits (.conditional condition onTrue onFalse) := by
  refine ⟨?_, fun fit => ?_⟩
  · rw [checkValue, trueSound.1, falseSound.1]
    exact conditionSound.1
  · obtain ⟨first, conditionFound⟩ := conditionSound.2 fit
    obtain ⟨second, trueFound⟩ := trueSound.2 fit
    obtain ⟨third, falseFound⟩ := falseSound.2 fit
    exact ⟨first ++ .branch () second third .done,
      by simp [conditionFound, trueFound, falseFound, keepValue_drop]⟩

theorem soundStep_assign {target : String} {value : Value} (sound : SoundValue fits value) :
    SoundStep fits (.assign target value) := by
  refine ⟨sound.1, fun fit => ?_⟩
  obtain ⟨outline, found⟩ := sound.2 fit
  exact ⟨outline ++ .single .pop (Code.symbolArgument target), by simp [found]⟩

theorem soundStep_bindTemporary {temporary : String} {value : Value}
    (sound : SoundValue fits value) : SoundStep fits (.bindTemporary temporary value) := by
  refine ⟨sound.1, fun fit => ?_⟩
  obtain ⟨outline, found⟩ := sound.2 fit
  exact ⟨outline ++ .single .pop (Code.symbolArgument temporary), by simp [found]⟩

theorem soundStep_evaluate {value : Value} (sound : SoundValue fits value) :
    SoundStep fits (.evaluate value) := by
  refine ⟨sound.1, fun fit => ?_⟩
  obtain ⟨outline, found⟩ := sound.2 fit
  exact ⟨outline ++ .single .drop .nothing, by simp [found]⟩

end Sound

section Orders

variable {fits : Prop}

/-- An expression is put in order with every counter. -/
def Orders (fits : Prop) (expression : Core.Expr) : Prop :=
  ∀ counter, ∃ ordered, orderExpr counter expression = .ok ordered ∧
    SoundSteps fits ordered.before ∧ SoundValue fits ordered.value

def OrdersStep (fits : Prop) (statement : Core.Stmt) : Prop :=
  ∀ counter, ∃ ordered, orderStmt counter statement = .ok ordered ∧
    SoundSteps fits ordered.before ∧ SoundStep fits ordered.step

def OrdersSteps (fits : Prop) (statements : List Core.Stmt) : Prop :=
  ∀ counter, ∃ after steps, orderStmts counter statements = .ok (after, steps) ∧
    SoundSteps fits steps

/-- Statements are put in order with every counter, and have a value to keep. -/
def OrdersBody (fits : Prop) (statements : List Core.Stmt) : Prop :=
  ∀ counter, ∃ after steps, orderStmts counter statements = .ok (after, steps) ∧
    SoundBody fits steps

theorem orders_arguments {arguments : List Core.Expr}
    (orders : ∀ argument ∈ arguments, Orders fits argument) (counter : Int) :
    ∃ after steps, orderArguments counter arguments = .ok (after, steps) ∧
      SoundSteps fits steps := by
  induction arguments generalizing counter with
  | nil => exact ⟨counter, [], rfl, soundSteps_nil⟩
  | cons argument rest ih =>
      obtain ⟨ordersFirst, ordersRest⟩ := List.forall_mem_cons.mp orders
      obtain ⟨first, firstOrdered, beforeSound, valueSound⟩ := ordersFirst counter
      obtain ⟨after, later, laterOrdered, laterSound⟩ := ih ordersRest first.counter
      refine ⟨after, first.before ++ .push first.value :: later, ?_, ?_⟩
      · rw [orderArguments, firstOrdered]
        simp only [bind, Except.bind, laterOrdered]
        rfl
      · exact soundSteps_append beforeSound (soundSteps_cons valueSound laterSound)

theorem orders_fields {fields : List (String × Core.Expr)}
    (orders : ∀ field ∈ fields, Orders fits field.2) (counter : Int) :
    ∃ after steps, orderFields counter fields = .ok (after, steps) ∧
      SoundSteps fits steps := by
  induction fields generalizing counter with
  | nil => exact ⟨counter, [], rfl, soundSteps_nil⟩
  | cons field rest ih =>
      obtain ⟨name, value⟩ := field
      obtain ⟨ordersFirst, ordersRest⟩ := List.forall_mem_cons.mp orders
      obtain ⟨first, firstOrdered, beforeSound, valueSound⟩ := ordersFirst counter
      obtain ⟨after, later, laterOrdered, laterSound⟩ := ih ordersRest first.counter
      have nameSound : SoundStep fits (.push (.symbolLiteral name)) := ⟨rfl, fun _ => ⟨_, rfl⟩⟩
      refine ⟨after, first.before ++ .push first.value :: .push (.symbolLiteral name) :: later,
        ?_, ?_⟩
      · rw [orderFields, firstOrdered]
        simp only [bind, Except.bind, laterOrdered]
        rfl
      · exact soundSteps_append beforeSound
          (soundSteps_cons valueSound (soundSteps_cons nameSound laterSound))

theorem ordersSteps_cons {statement : Core.Stmt} {rest : List Core.Stmt}
    (first : OrdersStep fits statement) (later : OrdersSteps fits rest) :
    OrdersSteps fits (statement :: rest) := by
  intro counter
  obtain ⟨ordered, firstOrdered, beforeSound, stepSound⟩ := first counter
  obtain ⟨after, steps, laterOrdered, laterSound⟩ := later ordered.counter
  refine ⟨after, ordered.before ++ ordered.step :: steps, ?_, ?_⟩
  · rw [orderStmts, firstOrdered]
    simp only [bind, Except.bind, laterOrdered]
    rfl
  · exact soundSteps_append beforeSound (soundSteps_cons stepSound laterSound)

/-- A statement before a body is part of it. -/
theorem ordersBody_cons {statement : Core.Stmt} {rest : List Core.Stmt}
    (first : OrdersStep fits statement) (later : OrdersBody fits rest) :
    OrdersBody fits (statement :: rest) := by
  intro counter
  obtain ⟨ordered, firstOrdered, beforeSound, stepSound⟩ := first counter
  obtain ⟨after, steps, laterOrdered, laterSound⟩ := later ordered.counter
  refine ⟨after, (ordered.before ++ [ordered.step]) ++ steps, ?_, ?_⟩
  · rw [orderStmts, firstOrdered]
    simp only [bind, Except.bind, laterOrdered, List.append_assoc, List.singleton_append]
    rfl
  · exact soundBody_append
      (soundSteps_append beforeSound (soundSteps_cons stepSound soundSteps_nil)) laterSound

/-- A body of one expression keeps the value of it. -/
theorem ordersBody_evaluate {expression : Core.Expr} (orders : Orders fits expression) :
    OrdersBody fits [.evaluate expression] := by
  intro counter
  obtain ⟨ordered, found, beforeSound, valueSound⟩ := orders counter
  refine ⟨ordered.counter, ordered.before ++ [.evaluate ordered.value], ?_, ?_⟩
  · simp only [orderStmts, orderStmt, found, bind, Except.bind]
    rfl
  · exact soundBody_append beforeSound (soundBody_evaluate valueSound)

theorem orders_symbol {position : Position} {name : String} :
    Orders fits (.symbol position name) :=
  fun counter => ⟨⟨counter, [], .symbol name⟩, rfl, soundSteps_nil, rfl, fun _ => ⟨_, rfl⟩⟩

theorem orders_text {content : String} : Orders fits (.text content) :=
  fun counter => ⟨⟨counter, [], .text content⟩, rfl, soundSteps_nil, rfl, fun _ => ⟨_, rfl⟩⟩

theorem orders_builtinCall {position : Position} {builtin : Core.Builtin}
    {arguments : List Core.Expr} (orders : ∀ argument ∈ arguments, Orders fits argument)
    (performed : fits → (Code.opcodeOfBuiltin? builtin).isSome) :
    Orders fits (Core.builtinCall position builtin arguments) := by
  intro counter
  obtain ⟨after, steps, argumentsOrdered, stepsSound⟩ := orders_arguments orders counter
  refine ⟨⟨after, steps ++ [], .call position (.builtin builtin) arguments.length⟩, ?_,
    soundSteps_append stepsSound soundSteps_nil, soundValue_builtinCall performed⟩
  rw [Core.builtinCall, orderExpr, argumentsOrdered]
  rfl

theorem orders_call {position : Position} {function : Core.Expr} {arguments : List Core.Expr}
    (other : ∀ position builtin, function ≠ .builtin position builtin)
    (ordersFunction : Orders fits function)
    (ordersArguments : ∀ argument ∈ arguments, Orders fits argument) :
    Orders fits (.call position function arguments) := by
  intro counter
  obtain ⟨between, steps, argumentsOrdered, stepsSound⟩ := orders_arguments ordersArguments counter
  obtain ⟨inner, functionOrdered, beforeSound, valueSound⟩ := ordersFunction between
  refine ⟨⟨inner.counter, steps ++ inner.before, .call position inner.value arguments.length⟩, ?_,
    soundSteps_append stepsSound beforeSound,
    soundValue_call (orderExpr_ne_builtin functionOrdered other) valueSound⟩
  rw [orderExpr, argumentsOrdered]
  simp only [bind, Except.bind, functionOrdered]
  rfl

theorem orders_fieldAccess {position : Position} {subject : Core.Expr} {field : String}
    (orders : Orders fits subject) : Orders fits (Core.fieldAccess position subject field) := by
  refine orders_call (by simp) orders_symbol ?_
  simp only [List.forall_mem_cons]
  exact ⟨orders, orders_text, by simp⟩

theorem orders_conditional {condition : Core.Expr} {onTrue onFalse : List Core.Stmt}
    (ordersCondition : Orders fits condition) (ordersTrue : OrdersBody fits onTrue)
    (ordersFalse : OrdersBody fits onFalse) :
    Orders fits (.conditional condition onTrue onFalse) := by
  intro counter
  obtain ⟨first, conditionOrdered, beforeSound, valueSound⟩ := ordersCondition counter
  obtain ⟨between, trueSteps, trueOrdered, trueSound⟩ := ordersTrue first.counter
  obtain ⟨after, falseSteps, falseOrdered, falseSound⟩ := ordersFalse between
  refine ⟨⟨after, first.before, .conditional first.value trueSteps falseSteps⟩, ?_, beforeSound,
    soundValue_conditional valueSound trueSound falseSound⟩
  rw [orderExpr, conditionOrdered]
  simp only [bind, Except.bind, trueOrdered, falseOrdered]
  rfl

theorem orders_lambda {name? : Option String} {parameters : List String}
    {body : List Core.Stmt} (orders : OrdersBody fits body) :
    Orders fits (.lambda name? parameters body) := by
  intro counter
  obtain ⟨after, steps, bodyOrdered, bodySound⟩ := orders 0
  refine ⟨_, by rw [orderExpr, bodyOrdered]; rfl, ?_, rfl, fun _ => ⟨_, rfl⟩⟩
  exact soundSteps_cons (soundStep_bindTemporary (soundValue_lambda bodySound)) soundSteps_nil

theorem ordersStep_assign {target : String} {value : Core.Expr} (orders : Orders fits value) :
    OrdersStep fits (.assign target value) := by
  intro counter
  obtain ⟨ordered, found, beforeSound, valueSound⟩ := orders counter
  refine ⟨⟨ordered.counter, ordered.before, .assign target ordered.value⟩, ?_, beforeSound,
    soundStep_assign valueSound⟩
  rw [orderStmt, found]
  rfl

theorem ordersStep_evaluate {expression : Core.Expr} (orders : Orders fits expression) :
    OrdersStep fits (.evaluate expression) := by
  intro counter
  obtain ⟨ordered, found, beforeSound, valueSound⟩ := orders counter
  refine ⟨⟨ordered.counter, ordered.before, .evaluate ordered.value⟩, ?_, beforeSound,
    soundStep_evaluate valueSound⟩
  rw [orderStmt, found]
  rfl

/-- Nothing has to be kept where nothing fits. -/
theorem ordersBody_of_not {statements : List Core.Stmt} (orders : OrdersSteps fits statements)
    (unfit : ¬fits) : OrdersBody fits statements := by
  intro counter
  obtain ⟨after, steps, ordered, sound⟩ := orders counter
  exact ⟨after, steps, ordered, sound.1, fun fit => absurd fit unfit⟩

theorem ordersSteps_nil : OrdersSteps fits [] :=
  fun counter => ⟨counter, [], rfl, soundSteps_nil⟩

end Orders

/-! ## One lemma for each form -/

/-- All operators of an expression have an instruction, and all its bodies end in an
expression. -/
abbrev HasCodeExpr (expression : Expr) : Prop :=
  expression.Throughout (fun node => node.lacksInstruction = false)
    fun body => yieldsNothing body = false

abbrev HasCodeStmt (statement : Stmt) : Prop :=
  statement.Throughout (fun node => node.lacksInstruction = false)
    fun body => yieldsNothing body = false

/-- What an expression reduces to is put in order. -/
def OrdersExpr (expression : Expr) : Prop :=
  ∀ {fits : Prop} {reduced : Core.Expr}, (fits → HasCodeExpr expression) →
    Core.Expr.ofSurface expression = .ok reduced → Orders fits reduced

def OrdersStmt (statement : Stmt) : Prop :=
  ∀ {fits : Prop} {reduced : Core.Stmt}, (fits → HasCodeStmt statement) →
    Core.Stmt.ofSurface statement = .ok reduced → OrdersStep fits reduced

section Forms

variable {fits : Prop}

theorem orders_exprs {expressions : List Expr} {reduced : List Core.Expr}
    (orders : ∀ expression ∈ expressions, OrdersExpr expression)
    (fit : fits → ∀ expression ∈ expressions, HasCodeExpr expression)
    (reduces : Core.exprsOfSurface expressions = .ok reduced) :
    ∀ expression ∈ reduced, Orders fits expression := by
  induction expressions generalizing reduced with
  | nil =>
      cases reduces
      simp
  | cons expression rest ih =>
      obtain ⟨ordersFirst, ordersRest⟩ := List.forall_mem_cons.mp orders
      rw [Core.exprsOfSurface] at reduces
      obtain ⟨_, firstReduces, reduces⟩ := except_bind_eq_ok.mp reduces
      obtain ⟨_, restReduces, last⟩ := except_bind_eq_ok.mp reduces
      cases last
      exact List.forall_mem_cons.mpr
        ⟨ordersFirst (fun fitting => (List.forall_mem_cons.mp (fit fitting)).1) firstReduces,
          ih ordersRest (fun fitting => (List.forall_mem_cons.mp (fit fitting)).2) restReduces⟩

theorem orders_exprFields {fields : List (String × Expr)}
    {reduced : List (String × Core.Expr)} (orders : ∀ field ∈ fields, OrdersExpr field.2)
    (fit : fits → ∀ field ∈ fields, HasCodeExpr field.2)
    (reduces : Core.fieldsOfSurface fields = .ok reduced) :
    ∀ field ∈ reduced, Orders fits field.2 := by
  induction fields generalizing reduced with
  | nil =>
      cases reduces
      simp
  | cons field rest ih =>
      obtain ⟨ordersFirst, ordersRest⟩ := List.forall_mem_cons.mp orders
      rw [Core.fieldsOfSurface] at reduces
      obtain ⟨_, firstReduces, reduces⟩ := except_bind_eq_ok.mp reduces
      obtain ⟨_, restReduces, last⟩ := except_bind_eq_ok.mp reduces
      cases last
      exact List.forall_mem_cons.mpr
        ⟨ordersFirst (fun fitting => (List.forall_mem_cons.mp (fit fitting)).1) firstReduces,
          ih ordersRest (fun fitting => (List.forall_mem_cons.mp (fit fitting)).2) restReduces⟩

theorem orders_stmts {statements : List Stmt} {reduced : List Core.Stmt}
    (orders : ∀ statement ∈ statements, OrdersStmt statement)
    (fit : fits → ∀ statement ∈ statements, HasCodeStmt statement)
    (reduces : Core.stmtsOfSurface statements = .ok reduced) : OrdersSteps fits reduced := by
  induction statements generalizing reduced with
  | nil =>
      cases reduces
      exact ordersSteps_nil
  | cons statement rest ih =>
      obtain ⟨ordersFirst, ordersRest⟩ := List.forall_mem_cons.mp orders
      rw [Core.stmtsOfSurface] at reduces
      obtain ⟨_, firstReduces, reduces⟩ := except_bind_eq_ok.mp reduces
      obtain ⟨_, restReduces, last⟩ := except_bind_eq_ok.mp reduces
      cases last
      exact ordersSteps_cons
        (ordersFirst (fun fitting => (List.forall_mem_cons.mp (fit fitting)).1) firstReduces)
        (ih ordersRest (fun fitting => (List.forall_mem_cons.mp (fit fitting)).2) restReduces)

theorem orders_body {statements : List Stmt} {reduced : List Core.Stmt}
    (body : OnBody OrdersExpr OrdersStmt statements)
    (fit : fits → yieldsNothing statements = false ∧
      ∀ statement ∈ statements, HasCodeStmt statement)
    (reduces : Core.stmtsOfSurface statements = .ok reduced) : OrdersBody fits reduced := by
  by_cases fitting : fits
  · obtain ⟨yields, haveCode⟩ := fit fitting
    clear fit
    induction statements generalizing reduced with
    | nil => cases yields
    | cons statement rest ih =>
        obtain ⟨firstHas, restHave⟩ := List.forall_mem_cons.mp haveCode
        rw [Core.stmtsOfSurface] at reduces
        obtain ⟨_, firstReduces, reduces⟩ := except_bind_eq_ok.mp reduces
        obtain ⟨_, restReduces, last⟩ := except_bind_eq_ok.mp reduces
        cases last
        cases rest with
        | nil =>
            cases restReduces
            cases statement with
            | evaluate expression =>
                rw [Core.Stmt.ofSurface] at firstReduces
                obtain ⟨_, valueReduces, last⟩ := except_bind_eq_ok.mp firstReduces
                cases last
                exact ordersBody_evaluate
                  (body.values expression List.mem_cons_self (fun _ => firstHas) valueReduces)
            | assign _ _ | define _ _ _ | misplaced _ => cases yields
        | cons next others =>
            exact ordersBody_cons (body.head (fun _ => firstHas) firstReduces)
              (ih body.tail restReduces yields restHave)
  · exact ordersBody_of_not
      (orders_stmts body.statements (fun fitting' => absurd fitting' fitting) reduces) fitting

/-- The builtin of an operator has an instruction, unless it concatenates. -/
theorem isSome_opcode_of_operator {operator : String} {builtin : Core.Builtin}
    (found : Core.Builtin.ofOperator? operator = some builtin) (other : operator ≠ "++") :
    (Code.opcodeOfBuiltin? builtin).isSome := by
  unfold Core.Builtin.ofOperator? at found
  split at found <;> simp_all
  all_goals
    subst found
    rfl

theorem ordersExpr_binary (position : Position) (level : Level) (operator : String)
    (left right : Expr) (ordersLeft : OrdersExpr left) (ordersRight : OrdersExpr right) :
    OrdersExpr (.binary position level operator left right) := by
  intro fits reduced fit reduces
  have fitNode := fun fitting => (throughout_binary.mp (fit fitting)).1
  have fitLeft := fun fitting => (throughout_binary.mp (fit fitting)).2.1
  have fitRight := fun fitting => (throughout_binary.mp (fit fitting)).2.2
  obtain ⟨first, leftReduces, ⟨_, second, rightReduces, rfl⟩ | ⟨_, second, rightReduces, rfl⟩ |
    ⟨_, field, _, rfl⟩ | ⟨_, builtin, second, found, rightReduces, rfl⟩⟩ :=
    ofSurface_binary reduces
  · exact orders_conditional (ordersLeft fitLeft leftReduces)
      (ordersBody_evaluate (ordersRight fitRight rightReduces)) (ordersBody_evaluate orders_symbol)
  · exact orders_conditional (ordersLeft fitLeft leftReduces)
      (ordersBody_evaluate orders_symbol) (ordersBody_evaluate (ordersRight fitRight rightReduces))
  · exact orders_fieldAccess (ordersLeft fitLeft leftReduces)
  · refine orders_builtinCall ?_ fun fitting => ?_
    · simp only [List.forall_mem_cons]
      exact ⟨ordersLeft fitLeft leftReduces, ordersRight fitRight rightReduces, by simp⟩
    · exact isSome_opcode_of_operator found (of_decide_eq_false (fitNode fitting))

end Forms

/-- Only indexing and operators can be without an instruction. -/
theorem treeStep_orders : TreeStep OrdersExpr OrdersStmt where
  integer value fits reduced fit reduces := by
    cases reduces
    exact fun counter => ⟨_, rfl, soundSteps_nil, rfl, fun _ => ⟨_, rfl⟩⟩
  text content fits reduced fit reduces := by
    cases reduces
    exact orders_text
  symbol position name fits reduced fit reduces := by
    cases reduces
    exact orders_symbol
  negation position operand orders fits reduced fit reduces := by
    rw [Core.Expr.ofSurface] at reduces
    obtain ⟨inner, operandReduces, last⟩ := except_bind_eq_ok.mp reduces
    cases last
    refine orders_builtinCall ?_ fun _ => rfl
    simp only [List.forall_mem_cons]
    exact ⟨orders (fun fitting => (throughout_negation.mp (fit fitting)).2) operandReduces, by simp⟩
  binary := ordersExpr_binary
  list items orders fits reduced fit reduces := by
    rw [Core.Expr.ofSurface] at reduces
    obtain ⟨inner, itemsReduce, last⟩ := except_bind_eq_ok.mp reduces
    cases last
    have itemsOrder := orders_exprs orders
      (fun fitting => (throughout_list.mp (fit fitting)).2) itemsReduce
    intro counter
    obtain ⟨after, steps, ordered, sound⟩ := orders_arguments itemsOrder (counter + 1)
    exact ⟨_, by rw [orderExpr, ordered]; rfl, sound, rfl, fun _ => ⟨_, rfl⟩⟩
  record fields orders fits reduced fit reduces := by
    rw [Core.Expr.ofSurface] at reduces
    obtain ⟨inner, fieldsReduce, last⟩ := except_bind_eq_ok.mp reduces
    cases last
    have fieldsOrder := orders_exprFields orders
      (fun fitting => (throughout_record.mp (fit fitting)).2) fieldsReduce
    intro counter
    obtain ⟨after, steps, ordered, sound⟩ := orders_fields fieldsOrder counter
    exact ⟨_, by rw [orderExpr, ordered]; rfl, sound, rfl, fun _ => ⟨_, rfl⟩⟩
  item position subject index ordersSubject ordersIndex fits reduced fit reduces := by
    rw [Core.Expr.ofSurface] at reduces
    obtain ⟨first, subjectReduces, reduces⟩ := except_bind_eq_ok.mp reduces
    obtain ⟨second, indexReduces, last⟩ := except_bind_eq_ok.mp reduces
    cases last
    have parts := fun fitting => throughout_item.mp (fit fitting)
    refine orders_builtinCall ?_ fun fitting => ?_
    · simp only [List.forall_mem_cons]
      exact ⟨ordersSubject (fun fitting => (parts fitting).2.1) subjectReduces,
        ordersIndex (fun fitting => (parts fitting).2.2) indexReduces, by simp⟩
    · cases (parts fitting).1
  call position function arguments ordersFunction ordersArguments fits reduced fit reduces := by
    rw [Core.Expr.ofSurface] at reduces
    obtain ⟨inner, functionReduces, reduces⟩ := except_bind_eq_ok.mp reduces
    obtain ⟨items, argumentsReduce, last⟩ := except_bind_eq_ok.mp reduces
    cases last
    have parts := fun fitting => throughout_call.mp (fit fitting)
    exact orders_call (ofSurface_ne_builtin functionReduces)
      (ordersFunction (fun fitting => (parts fitting).2.1) functionReduces)
      (orders_exprs ordersArguments (fun fitting => (parts fitting).2.2) argumentsReduce)
  lambda parameters body orders fits reduced fit reduces := by
    rw [Core.Expr.ofSurface] at reduces
    obtain ⟨inner, bodyReduces, last⟩ := except_bind_eq_ok.mp reduces
    cases last
    exact orders_lambda
      (orders_body orders (fun fitting => (throughout_lambda.mp (fit fitting)).2) bodyReduces)
  conditional condition onTrue onFalse ordersCondition ordersTrue ordersFalse fits reduced fit
      reduces := by
    rw [Core.Expr.ofSurface] at reduces
    obtain ⟨first, conditionReduces, reduces⟩ := except_bind_eq_ok.mp reduces
    obtain ⟨second, trueReduces, reduces⟩ := except_bind_eq_ok.mp reduces
    obtain ⟨third, falseReduces, last⟩ := except_bind_eq_ok.mp reduces
    cases last
    have parts := fun fitting => throughout_conditional.mp (fit fitting)
    exact orders_conditional
      (ordersCondition (fun fitting => (parts fitting).2.1) conditionReduces)
      (orders_body ordersTrue (fun fitting => (parts fitting).2.2.1) trueReduces)
      (orders_body ordersFalse (fun fitting => (parts fitting).2.2.2) falseReduces)
  misplacedExpr form name? fits reduced fit reduces := by cases reduces
  assign target value orders fits reduced fit reduces := by
    rw [Core.Stmt.ofSurface] at reduces
    obtain ⟨_, valueReduces, last⟩ := except_bind_eq_ok.mp reduces
    cases last
    exact ordersStep_assign (orders fit valueReduces)
  evaluate expression orders fits reduced fit reduces := by
    rw [Core.Stmt.ofSurface] at reduces
    obtain ⟨_, valueReduces, last⟩ := except_bind_eq_ok.mp reduces
    cases last
    exact ordersStep_evaluate (orders fit valueReduces)
  define name parameters body orders fits reduced fit reduces := by
    rw [Core.Stmt.ofSurface] at reduces
    obtain ⟨_, bodyReduces, last⟩ := except_bind_eq_ok.mp reduces
    cases last
    exact ordersStep_assign (orders_lambda
      (orders_body orders (fun fitting => throughout_define.mp (fit fitting)) bodyReduces))
  misplacedStmt form fits reduced fit reduces := by cases reduces

/-- A script that has been reduced is put in order, and what is in order passes the check. Its
steps have an outline if all its operators have an instruction and all its bodies end in an
expression. -/
theorem orders_program {program : Program} {core : Core.Program}
    (reduced : Core.Program.ofSurface program = .ok core) :
    ∃ linear, Linear.Program.ofCore core = .ok linear ∧ linear.checked = .ok linear ∧
      ((∀ statement ∈ program.statements, HasCodeStmt statement) →
        ∃ outline, outlineSteps linear.steps = some outline) := by
  rw [Core.Program.ofSurface] at reduced
  obtain ⟨statements, reduces, last⟩ := except_bind_eq_ok.mp reduced
  cases last
  obtain ⟨after, steps, ordered, checked, outlined⟩ := orders_stmts
    (treeStep_orders.body program.statements).statements id reduces 0
  refine ⟨⟨steps⟩, ?_, ?_, outlined⟩
  · rw [Linear.Program.ofCore, ordered]
    rfl
  · rw [Linear.Program.checked, checked]
    rfl

end StackScript.Surface
