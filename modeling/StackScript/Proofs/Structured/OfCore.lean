import StackScript.Proofs.Structured.OfLinear
import StackScript.Proofs.Structured.Outline

/-!
# The outline of ordered expressions

Ordering pulls the parts of an expression apart into steps.  Put together again, the
steps of an expression have the outline of its parts, in the order of evaluation, and
then that of its value.
-/

namespace StackScript

/-- Two computations in sequence succeed if both do. -/
theorem except_bind_eq_ok {ε α β : Type} {first : Except ε α} {next : α → Except ε β}
    {result : β} :
    (first >>= next) = .ok result ↔ ∃ value, first = .ok value ∧ next value = .ok result := by
  cases first with
  | error error => simp [bind, Except.bind]
  | ok value => simp [bind, Except.bind]

namespace Surface

open StackScript.Code (Outline symbolArgument textArgument listArgument outlineValue
  outlineStep outlineSteps outlineSteps_append_eq_some)
open StackScript.Linear (Value Step Ordered OrderedStep orderExpr orderArguments orderFields
  orderStmt orderStmts)

attribute [simp] orderExpr orderArguments orderFields orderStmt orderStmts

/-- An ordered expression has an outline: that of the steps before it and then that
of its value. -/
def HasOutline (ordered : Ordered) (outline : Outline) : Prop :=
  ∃ before value, outlineSteps ordered.before = some before ∧
    outlineValue ordered.value = some value ∧ outline = before ++ value

theorem outlineSteps_cons_eq_some {step : Step} {rest : List Step} {outline : Outline} :
    outlineSteps (step :: rest) = some outline ↔
      ∃ first second, outlineStep step = some first ∧ outlineSteps rest = some second ∧
        outline = first ++ second := by
  simp only [outlineSteps, Option.bind_eq_bind, Option.bind_eq_some_iff, Option.pure_def,
    Option.some.injEq]
  constructor
  · rintro ⟨first, stepFound, second, restFound, rfl⟩
    exact ⟨first, second, stepFound, restFound, rfl⟩
  · rintro ⟨first, second, stepFound, restFound, rfl⟩
    exact ⟨first, stepFound, second, restFound, rfl⟩

/-- Steps that push an ordered expression have its outline, and the outline of what
follows. -/
theorem hasOutline_of_push {ordered : Ordered} {rest : List Step} {outline : Outline}
    (found : outlineSteps (ordered.before ++ .push ordered.value :: rest) = some outline) :
    ∃ first second, HasOutline ordered first ∧ outlineSteps rest = some second ∧
      outline = first ++ second := by
  obtain ⟨before, _, beforeFound, laterFound, rfl⟩ := outlineSteps_append_eq_some.mp found
  obtain ⟨value, second, valueFound, restFound, rfl⟩ := outlineSteps_cons_eq_some.mp laterFound
  exact ⟨before ++ value, second, ⟨before, value, beforeFound, valueFound, rfl⟩, restFound,
    (Code.Structured.append_assoc _ _ _).symm⟩

theorem orderArguments_cons {counter after : Int} {argument : Core.Expr}
    {rest : List Core.Expr} {steps : List Step}
    (ordered : orderArguments counter (argument :: rest) = .ok (after, steps)) :
    ∃ first later, orderExpr counter argument = .ok first ∧
      orderArguments first.counter rest = .ok (after, later) ∧
      steps = first.before ++ .push first.value :: later := by
  rw [orderArguments] at ordered
  obtain ⟨first, firstOrdered, ordered⟩ := except_bind_eq_ok.mp ordered
  obtain ⟨⟨_, later⟩, laterOrdered, ordered⟩ := except_bind_eq_ok.mp ordered
  simp only [pure, Except.pure, Except.ok.injEq, Prod.mk.injEq] at ordered
  obtain ⟨rfl, rfl⟩ := ordered
  exact ⟨first, later, firstOrdered, laterOrdered, rfl⟩

theorem orderFields_cons {counter after : Int} {name : String} {value : Core.Expr}
    {rest : List (String × Core.Expr)} {steps : List Step}
    (ordered : orderFields counter ((name, value) :: rest) = .ok (after, steps)) :
    ∃ first later, orderExpr counter value = .ok first ∧
      orderFields first.counter rest = .ok (after, later) ∧
      steps = first.before ++ .push first.value :: .push (.symbolLiteral name) :: later := by
  rw [orderFields] at ordered
  obtain ⟨first, firstOrdered, ordered⟩ := except_bind_eq_ok.mp ordered
  obtain ⟨⟨_, later⟩, laterOrdered, ordered⟩ := except_bind_eq_ok.mp ordered
  simp only [pure, Except.pure, Except.ok.injEq, Prod.mk.injEq] at ordered
  obtain ⟨rfl, rfl⟩ := ordered
  exact ⟨first, later, firstOrdered, laterOrdered, rfl⟩

theorem orderStmts_cons {counter after : Int} {statement : Core.Stmt}
    {rest : List Core.Stmt} {steps : List Step}
    (ordered : orderStmts counter (statement :: rest) = .ok (after, steps)) :
    ∃ first later, orderStmt counter statement = .ok first ∧
      orderStmts first.counter rest = .ok (after, later) ∧
      steps = first.before ++ first.step :: later := by
  rw [orderStmts] at ordered
  obtain ⟨first, firstOrdered, ordered⟩ := except_bind_eq_ok.mp ordered
  obtain ⟨⟨_, later⟩, laterOrdered, ordered⟩ := except_bind_eq_ok.mp ordered
  simp only [pure, Except.pure, Except.ok.injEq, Prod.mk.injEq] at ordered
  obtain ⟨rfl, rfl⟩ := ordered
  exact ⟨first, later, firstOrdered, laterOrdered, rfl⟩

theorem orderExpr_call {counter : Int} {position : Position} {function : Core.Expr}
    {arguments : List Core.Expr} {ordered : Ordered}
    (found : orderExpr counter (.call position function arguments) = .ok ordered) :
    ∃ between before inner, orderArguments counter arguments = .ok (between, before) ∧
      orderExpr between function = .ok inner ∧
      ordered = ⟨inner.counter, before ++ inner.before,
        .call position inner.value arguments.length⟩ := by
  rw [orderExpr] at found
  obtain ⟨⟨between, before⟩, argumentsOrdered, found⟩ := except_bind_eq_ok.mp found
  obtain ⟨inner, functionOrdered, found⟩ := except_bind_eq_ok.mp found
  simp only [pure, Except.pure, Except.ok.injEq] at found
  exact ⟨between, before, inner, argumentsOrdered, functionOrdered, found.symm⟩

theorem orderExpr_conditional {counter : Int} {condition : Core.Expr}
    {onTrue onFalse : List Core.Stmt} {ordered : Ordered}
    (found : orderExpr counter (.conditional condition onTrue onFalse) = .ok ordered) :
    ∃ first afterTrue trueSteps afterFalse falseSteps,
      orderExpr counter condition = .ok first ∧
      orderStmts first.counter onTrue = .ok (afterTrue, trueSteps) ∧
      orderStmts afterTrue onFalse = .ok (afterFalse, falseSteps) ∧
      ordered = ⟨afterFalse, first.before, .conditional first.value trueSteps falseSteps⟩ := by
  rw [orderExpr] at found
  obtain ⟨first, conditionOrdered, found⟩ := except_bind_eq_ok.mp found
  obtain ⟨⟨afterTrue, trueSteps⟩, trueOrdered, found⟩ := except_bind_eq_ok.mp found
  obtain ⟨⟨afterFalse, falseSteps⟩, falseOrdered, found⟩ := except_bind_eq_ok.mp found
  simp only [pure, Except.pure, Except.ok.injEq] at found
  exact ⟨first, afterTrue, trueSteps, afterFalse, falseSteps, conditionOrdered, trueOrdered,
    falseOrdered, found.symm⟩

/-- A call of a builtin has the outline of its arguments and then its instruction. -/
theorem hasOutline_builtinCall {counter : Int} {position : Position}
    {builtin : Core.Builtin} {arguments : List Core.Expr} {ordered : Ordered}
    {outline : Outline}
    (found : orderExpr counter (Core.builtinCall position builtin arguments) = .ok ordered)
    (has : HasOutline ordered outline) :
    ∃ before code opcode, orderArguments counter arguments = .ok (ordered.counter, before) ∧
      outlineSteps before = some code ∧ Code.opcodeOfBuiltin? builtin = some opcode ∧
      outline = code ++ .single opcode (.integer arguments.length) := by
  obtain ⟨between, before, inner, argumentsOrdered, functionOrdered, rfl⟩ :=
    orderExpr_call found
  rw [orderExpr, Except.ok.injEq] at functionOrdered
  subst functionOrdered
  obtain ⟨code, value, codeFound, valueFound, rfl⟩ := has
  simp only [List.append_nil] at codeFound
  simp only [outlineValue, Option.bind_eq_bind, Option.bind_eq_some_iff, Option.pure_def,
    Option.some.injEq] at valueFound
  obtain ⟨opcode, performed, rfl⟩ := valueFound
  exact ⟨before, code, opcode, argumentsOrdered, codeFound, performed, rfl⟩

/-- A conditional has the outline of its condition and then of its branches, whose
values are kept. -/
theorem hasOutline_conditional {counter : Int} {condition : Core.Expr}
    {onTrue onFalse : List Core.Stmt} {ordered : Ordered} {outline : Outline}
    (found : orderExpr counter (.conditional condition onTrue onFalse) = .ok ordered)
    (has : HasOutline ordered outline) :
    ∃ first code afterTrue trueSteps trueCode trueKept falseSteps falseCode falseKept,
      orderExpr counter condition = .ok first ∧ HasOutline first code ∧
      orderStmts first.counter onTrue = .ok (afterTrue, trueSteps) ∧
      outlineSteps trueSteps = some trueCode ∧ trueCode.keepValue = some trueKept ∧
      orderStmts afterTrue onFalse = .ok (ordered.counter, falseSteps) ∧
      outlineSteps falseSteps = some falseCode ∧ falseCode.keepValue = some falseKept ∧
      outline = code ++ .branch () trueKept falseKept .done := by
  obtain ⟨first, afterTrue, trueSteps, afterFalse, falseSteps, conditionOrdered, trueOrdered,
    falseOrdered, rfl⟩ := orderExpr_conditional found
  obtain ⟨before, value, beforeFound, valueFound, rfl⟩ := has
  simp only [outlineValue, Option.bind_eq_bind, Option.bind_eq_some_iff, Option.pure_def,
    Option.some.injEq] at valueFound
  obtain ⟨conditionCode, conditionFound, trueCode, trueFound, trueKept, trueKeeps, falseCode,
    falseFound, falseKept, falseKeeps, rfl⟩ := valueFound
  exact ⟨first, before ++ conditionCode, afterTrue, trueSteps, trueCode, trueKept, falseSteps,
    falseCode, falseKept, conditionOrdered, ⟨before, conditionCode, beforeFound,
    conditionFound, rfl⟩, trueOrdered, trueFound, trueKeeps, falseOrdered, falseFound,
    falseKeeps, (Code.Structured.append_assoc _ _ _).symm⟩

/-- A body of one expression keeps the value of this expression. -/
theorem hasOutline_of_kept {counter after : Int} {expression : Core.Expr}
    {steps : List Step} {code kept : Outline}
    (ordered : orderStmts counter [.evaluate expression] = .ok (after, steps))
    (found : outlineSteps steps = some code) (keeps : code.keepValue = some kept) :
    ∃ first, orderExpr counter expression = .ok first ∧ HasOutline first kept ∧
      after = first.counter := by
  obtain ⟨statement, later, statementOrdered, laterOrdered, rfl⟩ := orderStmts_cons ordered
  rw [orderStmt] at statementOrdered
  obtain ⟨first, firstOrdered, last⟩ := except_bind_eq_ok.mp statementOrdered
  simp only [pure, Except.pure, Except.ok.injEq] at last
  subst last
  simp only [orderStmts, Except.ok.injEq, Prod.mk.injEq] at laterOrdered
  obtain ⟨rfl, rfl⟩ := laterOrdered
  obtain ⟨before, _, beforeFound, stepFound, rfl⟩ := outlineSteps_append_eq_some.mp found
  obtain ⟨_, _, valueFound, doneFound, rfl⟩ := outlineSteps_cons_eq_some.mp stepFound
  simp only [outlineStep, Option.bind_eq_bind, Option.bind_eq_some_iff, Option.pure_def,
    Option.some.injEq] at valueFound
  obtain ⟨value, valueFound, rfl⟩ := valueFound
  simp only [outlineSteps, Option.some.injEq] at doneFound
  subst doneFound
  refine ⟨first, firstOrdered, ⟨before, value, beforeFound, valueFound, ?_⟩, rfl⟩
  have dropped : (before ++ value ++ .single .drop .nothing : Outline).keepValue =
      some (before ++ value) :=
    (Code.Structured.keepValue_eq_some_iff _ _).mpr ⟨.nothing, rfl⟩
  simp only [Code.Structured.append_done, ← Code.Structured.append_assoc, dropped,
    Option.some.injEq] at keeps
  exact keeps.symm

/-- A function is bound to a temporary before it is pushed. -/
theorem hasOutline_lambda {counter : Int} {name? : Option String}
    {parameters : List String} {body : List Core.Stmt} {ordered : Ordered}
    {outline : Outline}
    (found : orderExpr counter (.lambda name? parameters body) = .ok ordered)
    (has : HasOutline ordered outline) :
    ∃ after steps code kept, orderStmts 0 body = .ok (after, steps) ∧
      outlineSteps steps = some code ∧ code.keepValue = some kept ∧
      outline = pushFunction name? parameters kept counter ∧
      ordered.counter = counter + 1 := by
  rw [orderExpr] at found
  obtain ⟨⟨after, steps⟩, bodyOrdered, found⟩ := except_bind_eq_ok.mp found
  simp only [pure, Except.pure, Except.ok.injEq] at found
  subst found
  obtain ⟨before, value, beforeFound, valueFound, rfl⟩ := has
  simp only [outlineSteps, outlineStep, outlineValue, Option.bind_eq_bind,
    Option.bind_eq_some_iff, Option.pure_def, Option.some.injEq] at beforeFound valueFound
  obtain ⟨_, ⟨_, ⟨code, codeFound, kept, keeps, rfl⟩, rfl⟩, _, rfl, rfl⟩ := beforeFound
  subst valueFound
  exact ⟨after, steps, code, kept, bodyOrdered, codeFound, keeps, rfl, rfl⟩

/-- The step of a statement ends in a `drop` exactly if the statement is an
expression. -/
theorem outlineStep_of_ordered {counter : Int} {statement : Core.Stmt}
    {ordered : OrderedStep} {code : Outline}
    (found : orderStmt counter statement = .ok ordered)
    (has : outlineStep ordered.step = some code) :
    ∃ value, (∃ target, code = value ++ .single .pop (symbolArgument target)) ∨
      (∃ expression, statement = .evaluate expression) ∧
        code = value ++ .single .drop .nothing := by
  cases statement with
  | assign target value =>
      rw [orderStmt] at found
      obtain ⟨inner, _, found⟩ := except_bind_eq_ok.mp found
      simp only [pure, Except.pure, Except.ok.injEq] at found
      subst found
      simp only [outlineStep, Option.bind_eq_bind, Option.bind_eq_some_iff, Option.pure_def,
        Option.some.injEq] at has
      obtain ⟨value, _, rfl⟩ := has
      exact ⟨value, .inl ⟨target, rfl⟩⟩
  | evaluate expression =>
      rw [orderStmt] at found
      obtain ⟨inner, _, found⟩ := except_bind_eq_ok.mp found
      simp only [pure, Except.pure, Except.ok.injEq] at found
      subst found
      simp only [outlineStep, Option.bind_eq_bind, Option.bind_eq_some_iff, Option.pure_def,
        Option.some.injEq] at has
      obtain ⟨value, _, rfl⟩ := has
      exact ⟨value, .inr ⟨⟨expression, rfl⟩, rfl⟩⟩
  | misplaced form => simp [orderStmt, throw, throwThe, MonadExceptOf.throw] at found

/-- The steps of at least one statement have an outline that is not empty. -/
theorem outlineSteps_ne_done {counter after : Int} {statement : Core.Stmt}
    {rest : List Core.Stmt} {steps : List Step} {code : Outline}
    (ordered : orderStmts counter (statement :: rest) = .ok (after, steps))
    (found : outlineSteps steps = some code) : code ≠ .done := by
  obtain ⟨first, later, firstOrdered, _, rfl⟩ := orderStmts_cons ordered
  obtain ⟨before, _, _, laterFound, rfl⟩ := outlineSteps_append_eq_some.mp found
  obtain ⟨step, _, stepFound, _, rfl⟩ := outlineSteps_cons_eq_some.mp laterFound
  have stepNe : step ≠ .done := by
    obtain ⟨value, ⟨target, rfl⟩ | ⟨_, rfl⟩⟩ := outlineStep_of_ordered firstOrdered stepFound
    · exact Code.Structured.append_single_ne_done _ _ _
    · exact Code.Structured.append_single_ne_done _ _ _
  simp [Code.Structured.append_eq_done_iff, stepNe]

theorem hasOutline_symbol {counter : Int} {position : Position} {name : String}
    {ordered : Ordered} {outline : Outline}
    (found : orderExpr counter (.symbol position name) = .ok ordered)
    (has : HasOutline ordered outline) :
    outline = pushSymbol name ∧ ordered.counter = counter := by
  rw [orderExpr, Except.ok.injEq] at found
  subst found
  obtain ⟨_, _, before, value, rfl⟩ := has
  cases before
  cases value
  exact ⟨rfl, rfl⟩

/-- A call of a builtin with two arguments has the outlines of both. -/
theorem hasOutline_binaryCall {counter : Int} {position : Position}
    {builtin : Core.Builtin} {left right : Core.Expr} {ordered : Ordered}
    {outline : Outline}
    (found : orderExpr counter (Core.builtinCall position builtin [left, right]) = .ok ordered)
    (has : HasOutline ordered outline) :
    ∃ first firstCode second secondCode opcode, orderExpr counter left = .ok first ∧
      HasOutline first firstCode ∧ orderExpr first.counter right = .ok second ∧
      HasOutline second secondCode ∧ Code.opcodeOfBuiltin? builtin = some opcode ∧
      outline = firstCode ++ secondCode ++ .single opcode (.integer 2) ∧
      ordered.counter = second.counter := by
  obtain ⟨before, code, opcode, argumentsOrdered, codeFound, performed, rfl⟩ :=
    hasOutline_builtinCall found has
  obtain ⟨first, _, leftOrdered, laterOrdered, rfl⟩ := orderArguments_cons argumentsOrdered
  obtain ⟨second, _, rightOrdered, doneOrdered, rfl⟩ := orderArguments_cons laterOrdered
  simp only [orderArguments, Except.ok.injEq, Prod.mk.injEq] at doneOrdered
  obtain ⟨counterEq, rfl⟩ := doneOrdered
  obtain ⟨firstCode, _, firstHas, laterFound, rfl⟩ := hasOutline_of_push codeFound
  obtain ⟨secondCode, _, secondHas, doneFound, rfl⟩ := hasOutline_of_push laterFound
  cases doneFound
  exact ⟨first, firstCode, second, secondCode, opcode, leftOrdered, firstHas, rightOrdered,
    secondHas, performed, by simp, counterEq.symm⟩

/-- Only a builtin is put in order as a builtin. -/
theorem orderExpr_ne_builtin {counter : Int} {expression : Core.Expr} {ordered : Ordered}
    (found : orderExpr counter expression = .ok ordered)
    (other : ∀ position builtin, expression ≠ .builtin position builtin)
    (builtin : Core.Builtin) : ordered.value ≠ .builtin builtin := by
  intro same
  cases expression with
  | builtin position given => exact other position given rfl
  | integer _ | text _ | symbol _ _ =>
      cases found
      cases same
  | misplaced _ => cases found
  | list _ | record _ | lambda _ _ _ =>
      rw [orderExpr] at found
      obtain ⟨⟨_, _⟩, _, found⟩ := except_bind_eq_ok.mp found
      cases found
      cases same
  | call _ _ _ =>
      obtain ⟨_, _, _, _, _, rfl⟩ := orderExpr_call found
      cases same
  | conditional _ _ _ =>
      obtain ⟨_, _, _, _, _, _, _, _, rfl⟩ := orderExpr_conditional found
      cases same

/-- A call has the outlines of its arguments and then that of its function. -/
theorem hasOutline_call {counter : Int} {position : Position} {function : Core.Expr}
    {arguments : List Core.Expr} {ordered : Ordered} {outline : Outline}
    (other : ∀ position builtin, function ≠ .builtin position builtin)
    (found : orderExpr counter (.call position function arguments) = .ok ordered)
    (has : HasOutline ordered outline) :
    ∃ between before code inner functionCode,
      orderArguments counter arguments = .ok (between, before) ∧
      outlineSteps before = some code ∧ orderExpr between function = .ok inner ∧
      HasOutline inner functionCode ∧
      outline = code ++ functionCode ++ .single .call (.integer arguments.length) ∧
      ordered.counter = inner.counter := by
  obtain ⟨between, before, inner, argumentsOrdered, functionOrdered, rfl⟩ :=
    orderExpr_call found
  have noBuiltin : ∀ builtin, inner.value = .builtin builtin → False :=
    orderExpr_ne_builtin functionOrdered other
  obtain ⟨_, _, beforeFound, valueFound, rfl⟩ := has
  obtain ⟨code, functionBefore, codeFound, functionFound, rfl⟩ :=
    outlineSteps_append_eq_some.mp beforeFound
  rw [outlineValue.eq_9 _ _ _ noBuiltin] at valueFound
  simp only [Option.bind_eq_bind, Option.bind_eq_some_iff, Option.pure_def,
    Option.some.injEq] at valueFound
  obtain ⟨functionValue, functionValueFound, rfl⟩ := valueFound
  refine ⟨between, before, code, inner, functionBefore ++ functionValue, argumentsOrdered,
    codeFound, functionOrdered, ⟨_, _, functionFound, functionValueFound, rfl⟩, ?_, rfl⟩
  simp [Code.Structured.append_assoc]

/-- Access to a field has the outline of a call of `__field__`. -/
theorem hasOutline_fieldAccess {counter : Int} {position : Position} {subject : Core.Expr}
    {field : String} {ordered : Ordered} {outline : Outline}
    (found : orderExpr counter (Core.fieldAccess position subject field) = .ok ordered)
    (has : HasOutline ordered outline) :
    ∃ first code, orderExpr counter subject = .ok first ∧ HasOutline first code ∧
      outline = code ++ .single .pushText (textArgument field) ++ pushSymbol "__field__" ++
        .single .call (.integer 2) ∧
      ordered.counter = first.counter := by
  obtain ⟨_, _, inner, argumentsOrdered, functionOrdered, rfl⟩ := orderExpr_call found
  rw [orderExpr, Except.ok.injEq] at functionOrdered
  subst functionOrdered
  obtain ⟨first, _, subjectOrdered, laterOrdered, rfl⟩ := orderArguments_cons argumentsOrdered
  obtain ⟨second, _, textOrdered, doneOrdered, rfl⟩ := orderArguments_cons laterOrdered
  rw [orderExpr, Except.ok.injEq] at textOrdered
  subst textOrdered
  simp only [orderArguments, Except.ok.injEq, Prod.mk.injEq] at doneOrdered
  obtain ⟨counterEq, rfl⟩ := doneOrdered
  obtain ⟨_, _, codeFound, valueFound, rfl⟩ := has
  simp only [List.append_nil] at codeFound
  obtain ⟨code, _, subjectHas, laterFound, rfl⟩ := hasOutline_of_push codeFound
  simp only [List.nil_append, outlineSteps, outlineStep, outlineValue, Option.bind_eq_bind,
    Option.bind_some, Option.pure_def, Option.some.injEq] at laterFound valueFound
  subst laterFound valueFound
  exact ⟨first, code, subjectOrdered, subjectHas,
    by simp [pushSymbol, Code.Structured.append_assoc], counterEq.symm⟩

/-- A statement whose value can be kept is an expression. -/
theorem eq_evaluate_of_kept {counter after : Int} {statement : Core.Stmt}
    {steps : List Step} {code kept : Outline}
    (ordered : orderStmts counter [statement] = .ok (after, steps))
    (found : outlineSteps steps = some code) (keeps : code.keepValue = some kept) :
    ∃ expression, statement = .evaluate expression := by
  obtain ⟨first, _, firstOrdered, doneOrdered, rfl⟩ := orderStmts_cons ordered
  cases doneOrdered
  obtain ⟨before, _, _, laterFound, rfl⟩ := outlineSteps_append_eq_some.mp found
  obtain ⟨step, _, stepFound, doneFound, rfl⟩ := outlineSteps_cons_eq_some.mp laterFound
  cases doneFound
  obtain ⟨value, ⟨target, rfl⟩ | ⟨expression, _⟩⟩ := outlineStep_of_ordered firstOrdered stepFound
  · have more : (.single .pop (symbolArgument target) : Outline) ≠ .done := by
      simp [Code.Structured.single]
    rw [Code.Structured.append_done, ← Code.Structured.append_assoc,
      Code.Structured.keepValue_append _ more] at keeps
    simp [Code.Structured.single, Code.Structured.keepValue] at keeps
  · exact expression

end Surface

end StackScript
