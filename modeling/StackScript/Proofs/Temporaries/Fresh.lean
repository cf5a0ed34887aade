import StackScript.Proofs.Temporaries.Names
import StackScript.Proofs.Temporaries.Scope

/-!
# Temporaries are fresh

Ordering numbers temporaries with a counter that it carries through a scope.  So no two of them
are the same in a scope, each is read once, and it is bound before (`orderStmts_fresh`).  The
names in a script have no `$` in them and are no temporaries.
-/

namespace StackScript.Linear

open StackScript.Surface (orderArguments_cons orderFields_cons orderStmts_cons orderExpr_call
  orderExpr_conditional)

mutual

theorem orderExpr_orderly (expression : Core.Expr) {counter : Int} {ordered : Ordered}
    (found : orderExpr counter expression = .ok ordered) :
    Orderly counter ordered.counter (ordered.before ++ [.push ordered.value]) := by
  cases expression with
  | builtin | integer | text | symbol =>
      cases found
      exact .push counter rfl fun _ => True.intro
  | list items =>
      obtain ⟨⟨after, steps⟩, itemsOrdered, found⟩ := except_bind_eq_ok.mp found
      cases found
      have itemsOrderly : Orderly counter after steps :=
        (orderArguments_orderly items itemsOrdered).of_le (by omega)
      exact itemsOrderly.append (.push after rfl fun _ => True.intro)
  | record fields =>
      obtain ⟨⟨after, steps⟩, fieldsOrdered, found⟩ := except_bind_eq_ok.mp found
      cases found
      exact (orderFields_orderly fields fieldsOrdered).append (.push after rfl fun _ => True.intro)
  | call position function arguments =>
      obtain ⟨between, steps, inner, argumentsOrdered, functionOrdered, rfl⟩ := orderExpr_call found
      have whole := (orderArguments_orderly arguments argumentsOrdered).append
        (orderExpr_orderly function functionOrdered)
      rw [← List.append_assoc] at whole
      exact whole.withLast rfl fun _ => id
  | lambda name? parameters body =>
      obtain ⟨⟨after, steps⟩, bodyOrdered, found⟩ := except_bind_eq_ok.mp found
      cases found
      exact .lambda counter name? parameters bodyOrdered
  | conditional condition onTrue onFalse =>
      obtain ⟨first, afterTrue, trueSteps, afterFalse, falseSteps, conditionOrdered, trueOrdered,
        falseOrdered, rfl⟩ := orderExpr_conditional found
      exact (orderExpr_orderly condition conditionOrdered).conditional
        (orderStmts_orderly onTrue trueOrdered) (orderStmts_orderly onFalse falseOrdered)
  | misplaced form => cases found

theorem orderArguments_orderly (arguments : List Core.Expr) {counter after : Int}
    {steps : List Step} (found : orderArguments counter arguments = .ok (after, steps)) :
    Orderly counter after steps := by
  cases arguments with
  | nil =>
      cases found
      exact .nil counter
  | cons argument rest =>
      obtain ⟨first, later, firstOrdered, laterOrdered, rfl⟩ := orderArguments_cons found
      rw [List.append_cons]
      exact (orderExpr_orderly argument firstOrdered).append
        (orderArguments_orderly rest laterOrdered)

theorem orderFields_orderly (fields : List (String × Core.Expr)) {counter after : Int}
    {steps : List Step} (found : orderFields counter fields = .ok (after, steps)) :
    Orderly counter after steps := by
  cases fields with
  | nil =>
      cases found
      exact .nil counter
  | cons field rest =>
      obtain ⟨name, value⟩ := field
      obtain ⟨first, later, firstOrdered, laterOrdered, rfl⟩ := orderFields_cons found
      rw [List.append_cons]
      have nameOrderly : Orderly first.counter first.counter [.push (.symbolLiteral name)] :=
        .push _ rfl fun _ => True.intro
      exact (orderExpr_orderly value firstOrdered).append
        (nameOrderly.append (orderFields_orderly rest laterOrdered))

theorem orderStmt_orderly (statement : Core.Stmt) {counter : Int} {ordered : OrderedStep}
    (found : orderStmt counter statement = .ok ordered) :
    Orderly counter ordered.counter (ordered.before ++ [ordered.step]) := by
  cases statement with
  | assign target value =>
      obtain ⟨inner, valueOrdered, found⟩ := except_bind_eq_ok.mp found
      cases found
      exact (orderExpr_orderly value valueOrdered).withLast rfl fun _ => id
  | evaluate expression =>
      obtain ⟨inner, valueOrdered, found⟩ := except_bind_eq_ok.mp found
      cases found
      exact (orderExpr_orderly expression valueOrdered).withLast rfl fun _ => id
  | misplaced form => cases found

/-- The steps of statements are orderly, from the counter before them to the one after. -/
theorem orderStmts_orderly (statements : List Core.Stmt) {counter after : Int}
    {steps : List Step} (found : orderStmts counter statements = .ok (after, steps)) :
    Orderly counter after steps := by
  cases statements with
  | nil =>
      cases found
      exact .nil counter
  | cons statement rest =>
      obtain ⟨first, later, firstOrdered, laterOrdered, rfl⟩ := orderStmts_cons found
      rw [List.append_cons]
      exact (orderStmt_orderly statement firstOrdered).append (orderStmts_orderly rest laterOrdered)

end

/-- The body of a function in a scope or in a function there, at any depth. -/
inductive Encloses (steps : List Step) : List Step → Prop where
  | here {body : List Step} (member : body ∈ bodies steps) : Encloses steps body
  | deeper {body inner : List Step} (outer : Encloses steps body) (member : inner ∈ bodies body) :
      Encloses steps inner

/-- Every body has been ordered with temporaries from 0. -/
theorem Orderly.of_encloses {first last : Int} {steps body : List Step}
    (orderly : Orderly first last steps) (encloses : Encloses steps body) :
    ∃ after, Orderly 0 after body := by
  induction encloses with
  | here member =>
      obtain ⟨statements, after, ordered⟩ := orderly.enclosed _ member
      exact ⟨after, orderStmts_orderly statements ordered⟩
  | deeper _ member ih =>
      obtain ⟨_, outerOrderly⟩ := ih
      obtain ⟨statements, after, ordered⟩ := outerOrderly.enclosed _ member
      exact ⟨after, orderStmts_orderly statements ordered⟩

/-- The temporaries of statements are fresh.  They are numbered from the counter before the
statements up to the one after, each is bound once and read once, and none is read before it is
bound.  The same is true of the body of every function in the statements, from 0.  In a script,
no name is that of a temporary. -/
theorem orderStmts_fresh {counter after : Int} {statements : List Core.Stmt} {steps : List Step}
    (ordered : orderStmts counter statements = .ok (after, steps)) :
    Fresh counter after steps ∧
      (∀ body, Encloses steps body → ∃ last, Fresh 0 last body) ∧
      ∀ script program, Script.core script = .ok program → program.statements = statements →
        ∀ name ∈ stepsNames steps, ∀ number, name ≠ temporaryName number := by
  have orderly := orderStmts_orderly statements ordered
  refine ⟨orderly.fresh, ?_, ?_⟩
  · intro body encloses
    obtain ⟨last, bodyOrderly⟩ := orderly.of_encloses encloses
    exact ⟨last, bodyOrderly.fresh⟩
  · rintro script program reduced rfl name member number rfl
    rw [orderStmts_names _ ordered] at member
    exact Script.dollar_notMem_of_mem_names reduced member (by simp [temporaryName])

/-- A script with functions in the branches of a conditional and in a function. -/
def nestedLambdas : String :=
  "f(lambda() do g(lambda() do 1 end) end, if x do lambda() do 2 end else lambda() do 3 end end)\n"

/-- What can be seen of a scope: its temporaries as they are bound and as they are read, its names,
and the temporaries of the functions in it. -/
def scopeView (steps : List Step) : List (List String) :=
  temporariesBound steps :: temporariesRead steps :: stepsNames steps ::
    (bodies steps).map temporariesBound

theorem nestedLambdas_fresh :
    ∃ program steps inner, Script.core nestedLambdas = .ok program ∧
      orderStmts 0 program.statements = .ok (3, steps) ∧ Fresh 0 3 steps ∧
      temporariesBound steps = ["$0", "$1", "$2"] ∧ temporariesRead steps = ["$0", "$1", "$2"] ∧
      stepsNames steps = ["g", "x", "f"] ∧ (∀ number, "g" ≠ temporaryName number) ∧
      Encloses steps inner ∧ temporariesBound inner = ["$0"] ∧ ∃ last, Fresh 0 last inner := by
  have views : (Script.core nestedLambdas).toOption.map (fun program =>
      (orderStmts 0 program.statements).toOption.map (Prod.map id scopeView)) =
        some (some (3,
          [["$0", "$1", "$2"], ["$0", "$1", "$2"], ["g", "x", "f"], ["$0"], [], []])) := by
    decide +kernel
  cases reduced : Script.core nestedLambdas with
  | error error =>
      rw [reduced] at views
      cases views
  | ok program =>
      rw [reduced] at views
      cases ordered : orderStmts 0 program.statements with
      | error error =>
          simp only [Except.toOption, Option.map, ordered] at views
          cases views
      | ok counted =>
          obtain ⟨after, steps⟩ := counted
          simp only [Except.toOption, Option.map, ordered, Prod.map, id, scopeView,
            Option.some.injEq, Prod.mk.injEq, List.cons.injEq] at views
          obtain ⟨rfl, bound, read, names, inside⟩ := views
          obtain ⟨inner, others, bodiesEq, innerBound, -⟩ := List.map_eq_cons_iff.mp inside
          have encloses : Encloses steps inner := .here (by simp [bodiesEq])
          obtain ⟨fresh, enclosed, apart⟩ := orderStmts_fresh ordered
          exact ⟨program, steps, inner, rfl, ordered, fresh, bound, read, names,
            apart nestedLambdas program reduced rfl "g" (by simp [names]), encloses, innerBound,
            enclosed inner encloses⟩

end StackScript.Linear
