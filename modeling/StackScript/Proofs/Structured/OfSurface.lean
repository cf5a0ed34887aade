import StackScript.Proofs.Structured.OfCore

/-!
# The passes keep the outline of a script

The steps that a script is taken apart into have the outline that is read off its surface
tree (`outlineStmts_of_ordered`).  One lemma for each form of the tree says this, and
`TreeStep` puts them together.
-/

namespace StackScript.Surface

open StackScript.Code (Outline symbolArgument textArgument listArgument outlineValue
  outlineStep outlineSteps outlineSteps_append_eq_some)
open StackScript.Linear (Value Step Ordered OrderedStep orderExpr orderArguments orderFields
  orderStmt orderStmts)

attribute [simp] Core.Expr.ofSurface Core.exprsOfSurface Core.fieldsOfSurface
  Core.Stmt.ofSurface Core.stmtsOfSurface

/-- An operator reduces to a conditional, to access to a field or to the call of a
builtin. -/
theorem ofSurface_binary {position : Position} {level : Level} {operator : String}
    {left right : Expr} {reduced : Core.Expr}
    (reduces : Core.Expr.ofSurface (.binary position level operator left right) =
      .ok reduced) :
    ∃ first, Core.Expr.ofSurface left = .ok first ∧
      ((operator = "and" ∧ ∃ second, Core.Expr.ofSurface right = .ok second ∧
          reduced = .conditional first [.evaluate second]
            (Core.constantBranch position "false")) ∨
        (operator = "or" ∧ ∃ second, Core.Expr.ofSurface right = .ok second ∧
          reduced = .conditional first (Core.constantBranch position "true")
            [.evaluate second]) ∨
        (operator = "." ∧ ∃ field, right.name? = some field ∧
          reduced = Core.fieldAccess position first field) ∨
        (¬(operator = "and" ∨ operator = "or" ∨ operator = ".") ∧
          ∃ builtin second, Core.Builtin.ofOperator? operator = some builtin ∧
            Core.Expr.ofSurface right = .ok second ∧
            reduced = Core.builtinCall position builtin [first, second])) := by
  rw [Core.Expr.ofSurface] at reduces
  split at reduces
  · rename_i isAnd
    obtain ⟨first, leftReduces, reduces⟩ := except_bind_eq_ok.mp reduces
    obtain ⟨second, rightReduces, last⟩ := except_bind_eq_ok.mp reduces
    cases last
    exact ⟨first, leftReduces, .inl ⟨isAnd, second, rightReduces, rfl⟩⟩
  · rename_i isNotAnd
    split at reduces
    · rename_i isOr
      obtain ⟨first, leftReduces, reduces⟩ := except_bind_eq_ok.mp reduces
      obtain ⟨second, rightReduces, last⟩ := except_bind_eq_ok.mp reduces
      cases last
      exact ⟨first, leftReduces, .inr (.inl ⟨isOr, second, rightReduces, rfl⟩)⟩
    · rename_i isNotOr
      split at reduces
      · rename_i isPeriod
        obtain ⟨first, leftReduces, reduces⟩ := except_bind_eq_ok.mp reduces
        cases named : right.name? with
        | none =>
            rw [named] at reduces
            cases reduces
        | some field =>
            rw [named] at reduces
            cases reduces
            exact ⟨first, leftReduces, .inr (.inr (.inl ⟨isPeriod, field, rfl, rfl⟩))⟩
      · rename_i isNotPeriod
        cases known : Core.Builtin.ofOperator? operator with
        | none =>
            rw [known] at reduces
            cases reduces
        | some builtin =>
            rw [known] at reduces
            obtain ⟨first, leftReduces, reduces⟩ := except_bind_eq_ok.mp reduces
            obtain ⟨second, rightReduces, last⟩ := except_bind_eq_ok.mp reduces
            cases last
            exact ⟨first, leftReduces, .inr (.inr (.inr
              ⟨by simp [isNotAnd, isNotOr, isNotPeriod], builtin, second, rfl, rightReduces,
                rfl⟩))⟩

/-- No expression of a script reduces to a builtin that is not called. -/
theorem ofSurface_ne_builtin {expression : Expr} {reduced : Core.Expr}
    (reduces : Core.Expr.ofSurface expression = .ok reduced) (position : Position)
    (builtin : Core.Builtin) : reduced ≠ .builtin position builtin := by
  rintro rfl
  cases expression with
  | binary _ _ operator left right =>
      obtain ⟨_, _, ⟨_, _, _, same⟩ | ⟨_, _, _, same⟩ | ⟨_, _, _, same⟩ |
        ⟨_, _, _, _, _, _, _, same⟩⟩ := ofSurface_binary reduces
      all_goals cases same
  | integer _ | text _ | symbol _ _ | misplaced _ _ => cases reduces
  | negation _ _ | list _ | record _ | lambda _ _ =>
      rw [Core.Expr.ofSurface] at reduces
      obtain ⟨_, _, reduces⟩ := except_bind_eq_ok.mp reduces
      cases reduces
  | item _ _ _ | call _ _ _ =>
      rw [Core.Expr.ofSurface] at reduces
      obtain ⟨_, _, reduces⟩ := except_bind_eq_ok.mp reduces
      obtain ⟨_, _, reduces⟩ := except_bind_eq_ok.mp reduces
      cases reduces
  | conditional _ _ _ =>
      rw [Core.Expr.ofSurface] at reduces
      obtain ⟨_, _, reduces⟩ := except_bind_eq_ok.mp reduces
      obtain ⟨_, _, reduces⟩ := except_bind_eq_ok.mp reduces
      obtain ⟨_, _, reduces⟩ := except_bind_eq_ok.mp reduces
      cases reduces

theorem length_exprsOfSurface {expressions : List Expr} {reduced : List Core.Expr}
    (reduces : Core.exprsOfSurface expressions = .ok reduced) :
    reduced.length = expressions.length := by
  induction expressions generalizing reduced with
  | nil =>
      cases reduces
      rfl
  | cons expression rest ih =>
      rw [Core.exprsOfSurface] at reduces
      obtain ⟨_, _, reduces⟩ := except_bind_eq_ok.mp reduces
      obtain ⟨_, restReduces, reduces⟩ := except_bind_eq_ok.mp reduces
      cases reduces
      simp [ih restReduces]

theorem length_fieldsOfSurface {fields : List (String × Expr)}
    {reduced : List (String × Core.Expr)}
    (reduces : Core.fieldsOfSurface fields = .ok reduced) :
    reduced.length = fields.length := by
  induction fields generalizing reduced with
  | nil =>
      cases reduces
      rfl
  | cons field rest ih =>
      rw [Core.fieldsOfSurface] at reduces
      obtain ⟨_, _, reduces⟩ := except_bind_eq_ok.mp reduces
      obtain ⟨_, restReduces, reduces⟩ := except_bind_eq_ok.mp reduces
      cases reduces
      simp [ih restReduces]

theorem ofSurface_eq_evaluate {statement : Stmt} {expression : Core.Expr}
    (reduces : Core.Stmt.ofSurface statement = .ok (.evaluate expression)) :
    ∃ surface, statement = .evaluate surface ∧
      Core.Expr.ofSurface surface = .ok expression := by
  cases statement with
  | evaluate surface =>
      rw [Core.Stmt.ofSurface] at reduces
      obtain ⟨_, surfaceReduces, last⟩ := except_bind_eq_ok.mp reduces
      cases last
      exact ⟨surface, rfl, surfaceReduces⟩
  | assign target value =>
      rw [Core.Stmt.ofSurface] at reduces
      obtain ⟨_, _, last⟩ := except_bind_eq_ok.mp reduces
      cases last
  | define name parameters body =>
      rw [Core.Stmt.ofSurface] at reduces
      obtain ⟨_, _, last⟩ := except_bind_eq_ok.mp reduces
      cases last
  | misplaced form => cases reduces

/-! ## One lemma for each form -/

/-- The passes keep the outline of an expression. -/
def KeepsExpr (expression : Expr) : Prop :=
  ∀ {counter : Int} {reduced : Core.Expr} {ordered : Ordered} {outline : Outline},
    Core.Expr.ofSurface expression = .ok reduced → orderExpr counter reduced = .ok ordered →
      HasOutline ordered outline →
        outlineExpr counter expression = some (outline, ordered.counter)

def KeepsStmt (statement : Stmt) : Prop :=
  ∀ {counter : Int} {reduced : Core.Stmt} {ordered : OrderedStep} {before code : Outline},
    Core.Stmt.ofSurface statement = .ok reduced → orderStmt counter reduced = .ok ordered →
      outlineSteps ordered.before = some before → outlineStep ordered.step = some code →
        outlineStmt counter statement = some (before ++ code, ordered.counter)

/-- The passes keep the outline of expressions in order. -/
theorem outlineExprs_of_ordered {expressions : List Expr}
    (keeps : ∀ expression ∈ expressions, KeepsExpr expression) {counter after : Int}
    {reduced : List Core.Expr} {steps : List Step} {outline : Outline}
    (reduces : Core.exprsOfSurface expressions = .ok reduced)
    (orders : orderArguments counter reduced = .ok (after, steps))
    (found : outlineSteps steps = some outline) :
    outlineExprs counter expressions = some (outline, after) := by
  induction expressions generalizing counter reduced steps outline with
  | nil =>
      cases reduces
      cases orders
      cases found
      rfl
  | cons expression rest ih =>
      obtain ⟨keepsFirst, keepsRest⟩ := List.forall_mem_cons.mp keeps
      rw [Core.exprsOfSurface] at reduces
      obtain ⟨_, firstReduces, reduces⟩ := except_bind_eq_ok.mp reduces
      obtain ⟨_, restReduces, last⟩ := except_bind_eq_ok.mp reduces
      cases last
      obtain ⟨_, _, firstOrdered, restOrdered, rfl⟩ := orderArguments_cons orders
      obtain ⟨_, _, firstHas, restFound, rfl⟩ := hasOutline_of_push found
      rw [outlineExprs, keepsFirst firstReduces firstOrdered firstHas]
      simp only [Option.bind_eq_bind, Option.bind_some]
      rw [ih keepsRest restReduces restOrdered restFound]
      rfl

/-- The passes keep the outline of fields. -/
theorem outlineFields_of_ordered {fields : List (String × Expr)}
    (keeps : ∀ field ∈ fields, KeepsExpr field.2) {counter after : Int}
    {reduced : List (String × Core.Expr)} {steps : List Step} {outline : Outline}
    (reduces : Core.fieldsOfSurface fields = .ok reduced)
    (orders : orderFields counter reduced = .ok (after, steps))
    (found : outlineSteps steps = some outline) :
    outlineFields counter fields = some (outline, after) := by
  induction fields generalizing counter reduced steps outline with
  | nil =>
      cases reduces
      cases orders
      cases found
      rfl
  | cons field rest ih =>
      obtain ⟨keepsFirst, keepsRest⟩ := List.forall_mem_cons.mp keeps
      obtain ⟨name, value⟩ := field
      rw [Core.fieldsOfSurface] at reduces
      obtain ⟨_, valueReduces, reduces⟩ := except_bind_eq_ok.mp reduces
      obtain ⟨_, restReduces, last⟩ := except_bind_eq_ok.mp reduces
      cases last
      obtain ⟨_, _, valueOrdered, restOrdered, rfl⟩ := orderFields_cons orders
      obtain ⟨_, _, valueHas, laterFound, rfl⟩ := hasOutline_of_push found
      obtain ⟨_, _, nameFound, restFound, rfl⟩ := outlineSteps_cons_eq_some.mp laterFound
      cases nameFound
      rw [outlineFields, keepsFirst valueReduces valueOrdered valueHas]
      simp only [Option.bind_eq_bind, Option.bind_some]
      rw [ih keepsRest restReduces restOrdered restFound]
      rfl

/-- The passes keep the outline of statements in order. -/
theorem outlineStmts_of_ordered {statements : List Stmt}
    (keeps : ∀ statement ∈ statements, KeepsStmt statement) {counter after : Int}
    {reduced : List Core.Stmt} {steps : List Step} {outline : Outline}
    (reduces : Core.stmtsOfSurface statements = .ok reduced)
    (orders : orderStmts counter reduced = .ok (after, steps))
    (found : outlineSteps steps = some outline) :
    outlineStmts counter statements = some (outline, after) := by
  induction statements generalizing counter reduced steps outline with
  | nil =>
      cases reduces
      cases orders
      cases found
      rfl
  | cons statement rest ih =>
      obtain ⟨keepsFirst, keepsRest⟩ := List.forall_mem_cons.mp keeps
      rw [Core.stmtsOfSurface] at reduces
      obtain ⟨_, firstReduces, reduces⟩ := except_bind_eq_ok.mp reduces
      obtain ⟨_, restReduces, last⟩ := except_bind_eq_ok.mp reduces
      cases last
      obtain ⟨_, _, firstOrdered, restOrdered, rfl⟩ := orderStmts_cons orders
      obtain ⟨_, _, beforeFound, laterFound, rfl⟩ := outlineSteps_append_eq_some.mp found
      obtain ⟨_, _, stepFound, restFound, rfl⟩ := outlineSteps_cons_eq_some.mp laterFound
      rw [outlineStmts, keepsFirst firstReduces firstOrdered beforeFound stepFound]
      simp only [Option.bind_eq_bind, Option.bind_some]
      rw [ih keepsRest restReduces restOrdered restFound]
      simp [Code.Structured.append_assoc]

/-- The passes keep the outline of a body. -/
theorem outlineBody_of_ordered {statements : List Stmt}
    (body : OnBody KeepsExpr KeepsStmt statements) {counter after : Int}
    {reduced : List Core.Stmt} {steps : List Step} {outline kept : Outline}
    (reduces : Core.stmtsOfSurface statements = .ok reduced)
    (orders : orderStmts counter reduced = .ok (after, steps))
    (found : outlineSteps steps = some outline) (keeps : outline.keepValue = some kept) :
    outlineBody counter statements = some (kept, after) := by
  induction statements generalizing counter reduced steps outline kept with
  | nil =>
      cases reduces
      cases orders
      cases found
      cases keeps
  | cons statement rest ih =>
      rw [Core.stmtsOfSurface] at reduces
      obtain ⟨first, firstReduces, reduces⟩ := except_bind_eq_ok.mp reduces
      obtain ⟨later, restReduces, last⟩ := except_bind_eq_ok.mp reduces
      cases last
      cases rest with
      | nil =>
          cases restReduces
          obtain ⟨expression, rfl⟩ := eq_evaluate_of_kept orders found keeps
          obtain ⟨surface, rfl, expressionReduces⟩ := ofSurface_eq_evaluate firstReduces
          obtain ⟨_, expressionOrdered, has, rfl⟩ := hasOutline_of_kept orders found keeps
          exact body.values surface (by simp) expressionReduces expressionOrdered has
      | cons next others =>
          obtain ⟨_, _, firstOrdered, restOrdered, rfl⟩ := orderStmts_cons orders
          obtain ⟨_, _, beforeFound, laterFound, rfl⟩ := outlineSteps_append_eq_some.mp found
          obtain ⟨_, restCode, stepFound, restFound, rfl⟩ :=
            outlineSteps_cons_eq_some.mp laterFound
          have more : restCode ≠ .done := by
            rw [Core.stmtsOfSurface] at restReduces
            obtain ⟨_, _, restReduces⟩ := except_bind_eq_ok.mp restReduces
            obtain ⟨_, _, last⟩ := except_bind_eq_ok.mp restReduces
            cases last
            exact outlineSteps_ne_done restOrdered restFound
          rw [← Code.Structured.append_assoc, Code.Structured.keepValue_append _ more] at keeps
          obtain ⟨restKept, restKeeps, rfl⟩ := Option.map_eq_some_iff.mp keeps
          have restOutline := ih body.tail restReduces restOrdered restFound restKeeps
          rw [outlineBody, body.head firstReduces firstOrdered beforeFound stepFound]
          · simp only [Option.bind_eq_bind, Option.bind_some]
            rw [restOutline]
            rfl

theorem keepsExpr_negation (position : Position) (operand : Expr)
    (keeps : KeepsExpr operand) : KeepsExpr (.negation position operand) := by
  intro counter reduced ordered outline reduces orders has
  rw [Core.Expr.ofSurface] at reduces
  obtain ⟨inner, operandReduces, last⟩ := except_bind_eq_ok.mp reduces
  cases last
  obtain ⟨before, code, opcode, argumentsOrdered, found, performed, rfl⟩ :=
    hasOutline_builtinCall orders has
  cases performed
  obtain ⟨first, later, operandOrdered, laterOrdered, rfl⟩ :=
    orderArguments_cons argumentsOrdered
  simp only [orderArguments, Except.ok.injEq, Prod.mk.injEq] at laterOrdered
  obtain ⟨after, rfl⟩ := laterOrdered
  obtain ⟨operandCode, _, operandHas, doneFound, rfl⟩ := hasOutline_of_push found
  cases doneFound
  rw [outlineExpr, keeps operandReduces operandOrdered operandHas]
  simp [after]

theorem keepsExpr_binary (position : Position) (level : Level) (operator : String)
    (left right : Expr) (keepsLeft : KeepsExpr left) (keepsRight : KeepsExpr right) :
    KeepsExpr (.binary position level operator left right) := by
  intro counter reduced ordered outline reduces orders has
  obtain ⟨first, leftReduces, ⟨isAnd, second, rightReduces, rfl⟩ |
    ⟨isOr, second, rightReduces, rfl⟩ | ⟨isPeriod, field, named, rfl⟩ |
    ⟨other, builtin, second, known, rightReduces, rfl⟩⟩ := ofSurface_binary reduces
  · -- The second operand of `and` is needed only if the first is true.
    obtain ⟨_, code, _, _, _, _, _, _, _, leftOrdered, leftHas, trueOrdered, trueFound,
      trueKeeps, falseOrdered, falseFound, falseKeeps, rfl⟩ := hasOutline_conditional orders has
    obtain ⟨_, rightOrdered, rightHas, rfl⟩ := hasOutline_of_kept trueOrdered trueFound trueKeeps
    obtain ⟨_, constantOrdered, constantHas, counterEq⟩ :=
      hasOutline_of_kept falseOrdered falseFound falseKeeps
    obtain ⟨rfl, constantCounter⟩ := hasOutline_symbol constantOrdered constantHas
    rw [outlineExpr, if_pos isAnd, keepsLeft leftReduces leftOrdered leftHas]
    simp only [Option.bind_eq_bind, Option.bind_some]
    rw [keepsRight rightReduces rightOrdered rightHas, counterEq, constantCounter]
    rfl
  · obtain ⟨_, code, _, _, _, _, _, _, _, leftOrdered, leftHas, trueOrdered, trueFound,
      trueKeeps, falseOrdered, falseFound, falseKeeps, rfl⟩ := hasOutline_conditional orders has
    obtain ⟨_, constantOrdered, constantHas, rfl⟩ :=
      hasOutline_of_kept trueOrdered trueFound trueKeeps
    obtain ⟨rfl, constantCounter⟩ := hasOutline_symbol constantOrdered constantHas
    rw [constantCounter] at falseOrdered
    obtain ⟨_, rightOrdered, rightHas, counterEq⟩ :=
      hasOutline_of_kept falseOrdered falseFound falseKeeps
    have isNotAnd : operator ≠ "and" := by simp [isOr]
    rw [outlineExpr, if_neg isNotAnd, if_pos isOr, keepsLeft leftReduces leftOrdered leftHas]
    simp only [Option.bind_eq_bind, Option.bind_some]
    rw [keepsRight rightReduces rightOrdered rightHas, counterEq]
    rfl
  · obtain ⟨_, code, leftOrdered, leftHas, rfl, counterEq⟩ := hasOutline_fieldAccess orders has
    have isNotAnd : operator ≠ "and" := by simp [isPeriod]
    have isNotOr : operator ≠ "or" := by simp [isPeriod]
    rw [outlineExpr, if_neg isNotAnd, if_neg isNotOr, if_pos isPeriod,
      keepsLeft leftReduces leftOrdered leftHas, counterEq]
    simp only [named, Option.bind_eq_bind, Option.bind_some]
    rfl
  · obtain ⟨_, _, _, _, opcode, leftOrdered, leftHas, rightOrdered, rightHas, performed, rfl,
      counterEq⟩ := hasOutline_binaryCall orders has
    simp only [not_or] at other
    rw [outlineExpr, if_neg other.1, if_neg other.2.1, if_neg other.2.2,
      keepsLeft leftReduces leftOrdered leftHas]
    simp only [opcodeOfOperator?, known, performed, Option.bind_eq_bind, Option.bind_some]
    rw [keepsRight rightReduces rightOrdered rightHas, counterEq]
    rfl

theorem keepsExpr_list (items : List Expr) (keeps : ∀ item ∈ items, KeepsExpr item) :
    KeepsExpr (.list items) := by
  intro counter reduced ordered outline reduces orders has
  rw [Core.Expr.ofSurface] at reduces
  obtain ⟨inner, itemsReduce, last⟩ := except_bind_eq_ok.mp reduces
  cases last
  rw [orderExpr] at orders
  obtain ⟨⟨after, before⟩, itemsOrdered, orders⟩ := except_bind_eq_ok.mp orders
  cases orders
  obtain ⟨code, value, codeFound, valueFound, rfl⟩ := has
  cases valueFound
  rw [outlineExpr, outlineExprs_of_ordered keeps itemsReduce itemsOrdered codeFound]
  rfl

theorem keepsExpr_record (fields : List (String × Expr))
    (keeps : ∀ field ∈ fields, KeepsExpr field.2) : KeepsExpr (.record fields) := by
  intro counter reduced ordered outline reduces orders has
  rw [Core.Expr.ofSurface] at reduces
  obtain ⟨inner, fieldsReduce, last⟩ := except_bind_eq_ok.mp reduces
  cases last
  rw [orderExpr] at orders
  obtain ⟨⟨after, before⟩, fieldsOrdered, orders⟩ := except_bind_eq_ok.mp orders
  cases orders
  obtain ⟨code, value, codeFound, valueFound, rfl⟩ := has
  cases valueFound
  rw [outlineExpr, outlineFields_of_ordered keeps fieldsReduce fieldsOrdered codeFound,
    length_fieldsOfSurface fieldsReduce]
  rfl

/-- Indexing has no instruction, so it has no outline. -/
theorem keepsExpr_item (position : Position) (subject index : Expr) :
    KeepsExpr (.item position subject index) := by
  intro counter reduced ordered outline reduces orders has
  rw [Core.Expr.ofSurface] at reduces
  obtain ⟨first, _, reduces⟩ := except_bind_eq_ok.mp reduces
  obtain ⟨second, _, last⟩ := except_bind_eq_ok.mp reduces
  cases last
  obtain ⟨_, _, _, _, opcode, _, _, _, _, performed, _⟩ := hasOutline_binaryCall orders has
  simp [Code.opcodeOfBuiltin?] at performed

theorem keepsExpr_call (position : Position) (function : Expr) (arguments : List Expr)
    (keepsFunction : KeepsExpr function)
    (keepsArguments : ∀ argument ∈ arguments, KeepsExpr argument) :
    KeepsExpr (.call position function arguments) := by
  intro counter reduced ordered outline reduces orders has
  rw [Core.Expr.ofSurface] at reduces
  obtain ⟨inner, functionReduces, reduces⟩ := except_bind_eq_ok.mp reduces
  obtain ⟨items, argumentsReduce, last⟩ := except_bind_eq_ok.mp reduces
  cases last
  obtain ⟨_, _, code, _, functionCode, argumentsOrdered, codeFound, functionOrdered,
    functionHas, rfl, counterEq⟩ :=
    hasOutline_call (ofSurface_ne_builtin functionReduces) orders has
  rw [outlineExpr,
    outlineExprs_of_ordered keepsArguments argumentsReduce argumentsOrdered codeFound]
  simp only [Option.bind_eq_bind, Option.bind_some]
  rw [keepsFunction functionReduces functionOrdered functionHas, counterEq,
    length_exprsOfSurface argumentsReduce]
  rfl

theorem keepsExpr_lambda (parameters : List String) (body : List Stmt)
    (keeps : OnBody KeepsExpr KeepsStmt body) : KeepsExpr (.lambda parameters body) := by
  intro counter reduced ordered outline reduces orders has
  rw [Core.Expr.ofSurface] at reduces
  obtain ⟨inner, bodyReduces, last⟩ := except_bind_eq_ok.mp reduces
  cases last
  obtain ⟨after, steps, code, kept, bodyOrdered, codeFound, keepsLast, rfl, counterEq⟩ :=
    hasOutline_lambda orders has
  rw [outlineExpr, outlineBody_of_ordered keeps bodyReduces bodyOrdered codeFound keepsLast,
    counterEq]
  rfl

theorem keepsExpr_conditional (condition : Expr) (onTrue onFalse : List Stmt)
    (keepsCondition : KeepsExpr condition) (keepsTrue : OnBody KeepsExpr KeepsStmt onTrue)
    (keepsFalse : OnBody KeepsExpr KeepsStmt onFalse) :
    KeepsExpr (.conditional condition onTrue onFalse) := by
  intro counter reduced ordered outline reduces orders has
  rw [Core.Expr.ofSurface] at reduces
  obtain ⟨first, conditionReduces, reduces⟩ := except_bind_eq_ok.mp reduces
  obtain ⟨second, trueReduces, reduces⟩ := except_bind_eq_ok.mp reduces
  obtain ⟨third, falseReduces, last⟩ := except_bind_eq_ok.mp reduces
  cases last
  obtain ⟨_, code, afterTrue, trueSteps, trueCode, trueKept, falseSteps, falseCode,
    falseKept, conditionOrdered, conditionHas, trueOrdered, trueFound, trueLast,
    falseOrdered, falseFound, falseLast, rfl⟩ := hasOutline_conditional orders has
  rw [outlineExpr, keepsCondition conditionReduces conditionOrdered conditionHas]
  simp only [Option.bind_eq_bind, Option.bind_some]
  rw [outlineBody_of_ordered keepsTrue trueReduces trueOrdered trueFound trueLast]
  simp only [Option.bind_some]
  rw [outlineBody_of_ordered keepsFalse falseReduces falseOrdered falseFound falseLast]
  rfl

theorem keepsStmt_assign (target : String) (value : Expr) (keeps : KeepsExpr value) :
    KeepsStmt (.assign target value) := by
  intro counter reduced ordered before code reduces orders beforeFound stepFound
  rw [Core.Stmt.ofSurface] at reduces
  obtain ⟨_, valueReduces, last⟩ := except_bind_eq_ok.mp reduces
  cases last
  rw [orderStmt] at orders
  obtain ⟨_, valueOrdered, orders⟩ := except_bind_eq_ok.mp orders
  cases orders
  simp only [outlineStep, Option.bind_eq_bind, Option.bind_eq_some_iff, Option.pure_def,
    Option.some.injEq] at stepFound
  obtain ⟨_, valueFound, rfl⟩ := stepFound
  rw [outlineStmt, keeps valueReduces valueOrdered ⟨_, _, beforeFound, valueFound, rfl⟩]
  simp [Code.Structured.append_assoc]

theorem keepsStmt_evaluate (expression : Expr) (keeps : KeepsExpr expression) :
    KeepsStmt (.evaluate expression) := by
  intro counter reduced ordered before code reduces orders beforeFound stepFound
  rw [Core.Stmt.ofSurface] at reduces
  obtain ⟨_, valueReduces, last⟩ := except_bind_eq_ok.mp reduces
  cases last
  rw [orderStmt] at orders
  obtain ⟨_, valueOrdered, orders⟩ := except_bind_eq_ok.mp orders
  cases orders
  simp only [outlineStep, Option.bind_eq_bind, Option.bind_eq_some_iff, Option.pure_def,
    Option.some.injEq] at stepFound
  obtain ⟨_, valueFound, rfl⟩ := stepFound
  rw [outlineStmt, keeps valueReduces valueOrdered ⟨_, _, beforeFound, valueFound, rfl⟩]
  simp [Code.Structured.append_assoc]

theorem keepsStmt_define (name : String) (parameters : List String) (body : List Stmt)
    (keeps : OnBody KeepsExpr KeepsStmt body) : KeepsStmt (.define name parameters body) := by
  intro counter reduced ordered before code reduces orders beforeFound stepFound
  rw [Core.Stmt.ofSurface] at reduces
  obtain ⟨_, bodyReduces, last⟩ := except_bind_eq_ok.mp reduces
  cases last
  rw [orderStmt] at orders
  obtain ⟨_, valueOrdered, orders⟩ := except_bind_eq_ok.mp orders
  cases orders
  simp only [outlineStep, Option.bind_eq_bind, Option.bind_eq_some_iff, Option.pure_def,
    Option.some.injEq] at stepFound
  obtain ⟨_, valueFound, rfl⟩ := stepFound
  obtain ⟨_, _, _, _, bodyOrdered, codeFound, keepsLast, outlineEq, counterEq⟩ :=
    hasOutline_lambda valueOrdered ⟨_, _, beforeFound, valueFound, rfl⟩
  rw [outlineStmt, outlineBody_of_ordered keeps bodyReduces bodyOrdered codeFound keepsLast,
    counterEq, ← Code.Structured.append_assoc, outlineEq]
  rfl

/-- A value that is pushed as it is has the outline of one instruction. -/
theorem treeStep_keeps : TreeStep KeepsExpr KeepsStmt where
  integer := by
    rintro value _ _ _ _ ⟨⟩ ⟨⟩ ⟨_, _, ⟨⟩, ⟨⟩, rfl⟩
    rfl
  text := by
    rintro content _ _ _ _ ⟨⟩ ⟨⟩ ⟨_, _, ⟨⟩, ⟨⟩, rfl⟩
    rfl
  symbol := by
    rintro position name _ _ _ _ ⟨⟩ ⟨⟩ ⟨_, _, ⟨⟩, ⟨⟩, rfl⟩
    rfl
  negation := keepsExpr_negation
  binary := keepsExpr_binary
  list := keepsExpr_list
  record := keepsExpr_record
  item := fun position subject index _ _ => keepsExpr_item position subject index
  call := keepsExpr_call
  lambda := keepsExpr_lambda
  conditional := keepsExpr_conditional
  misplacedExpr := by
    rintro form name? _ _ _ _ ⟨⟩
  assign := keepsStmt_assign
  evaluate := keepsStmt_evaluate
  define := keepsStmt_define
  misplacedStmt := by
    rintro form _ _ _ _ _ ⟨⟩

end StackScript.Surface
