import StackScript.Proofs.Layout.Contents
import StackScript.Proofs.Structured.OfSurface

/-!
# The names in a script's linear form

Ordering keeps the names of the core tree, and reduction takes them from the script and adds only
a few of its own.  No name has a `$` in it (`Script.dollar_notMem_of_mem_names`).
-/

namespace StackScript.Core

mutual

/-- The names that an expression mentions. -/
def Expr.names : Expr → List String
  | .symbol _ name => [name]
  | .list items => exprsNames items
  | .record fields => fieldsNames fields
  | .call _ function arguments => exprsNames arguments ++ function.names
  | .lambda name? parameters body => name?.toList ++ (parameters ++ stmtsNames body)
  | .conditional condition onTrue onFalse =>
      condition.names ++ (stmtsNames onTrue ++ stmtsNames onFalse)
  | _ => []

def exprsNames : List Expr → List String
  | [] => []
  | expression :: rest => expression.names ++ exprsNames rest

def fieldsNames : List (String × Expr) → List String
  | [] => []
  | (name, value) :: rest => value.names ++ name :: fieldsNames rest

def Stmt.names : Stmt → List String
  | .assign target value => value.names ++ [target]
  | .evaluate expression => expression.names
  | .misplaced _ => []

def stmtsNames : List Stmt → List String
  | [] => []
  | statement :: rest => statement.names ++ stmtsNames rest

end

end StackScript.Core

namespace StackScript.Linear

open StackScript.Surface (orderArguments_cons orderFields_cons orderStmts_cons orderExpr_call
  orderExpr_conditional)

mutual

/-- The names that a value mentions, also in the bodies of functions. -/
def Value.names : Value → List String
  | .symbol name => [name]
  | .symbolLiteral name => [name]
  | .call _ function _ => function.names
  | .lambda name? parameters body => name?.toList ++ (parameters ++ stepsNames body)
  | .conditional condition onTrue onFalse =>
      condition.names ++ (stepsNames onTrue ++ stepsNames onFalse)
  | _ => []

def Step.names : Step → List String
  | .push value => value.names
  | .bindTemporary _ value => value.names
  | .assign target value => value.names ++ [target]
  | .evaluate value => value.names
  | .misplaced _ => []

def stepsNames : List Step → List String
  | [] => []
  | step :: rest => step.names ++ stepsNames rest

end

theorem stepsNames_append (steps more : List Step) :
    stepsNames (steps ++ more) = stepsNames steps ++ stepsNames more := by
  induction steps with
  | nil => rfl
  | cons step rest ih => rw [List.cons_append, stepsNames, stepsNames, ih, List.append_assoc]

mutual

theorem orderExpr_names (expression : Core.Expr) {counter : Int} {ordered : Ordered}
    (found : orderExpr counter expression = .ok ordered) :
    stepsNames ordered.before ++ ordered.value.names = expression.names := by
  cases expression with
  | builtin | integer | text | symbol =>
      cases found
      rfl
  | list items =>
      obtain ⟨⟨after, steps⟩, itemsOrdered, found⟩ := except_bind_eq_ok.mp found
      cases found
      exact (List.append_nil _).trans (orderArguments_names items itemsOrdered)
  | record fields =>
      obtain ⟨⟨after, steps⟩, fieldsOrdered, found⟩ := except_bind_eq_ok.mp found
      cases found
      exact (List.append_nil _).trans (orderFields_names fields fieldsOrdered)
  | call position function arguments =>
      obtain ⟨between, steps, inner, argumentsOrdered, functionOrdered, rfl⟩ := orderExpr_call found
      rw [stepsNames_append, List.append_assoc, Value.names,
        orderExpr_names function functionOrdered,
        orderArguments_names arguments argumentsOrdered, Core.Expr.names]
  | lambda name? parameters body =>
      obtain ⟨⟨after, steps⟩, bodyOrdered, found⟩ := except_bind_eq_ok.mp found
      cases found
      simp only [stepsNames, Step.names, Value.names, List.append_nil, Core.Expr.names,
        orderStmts_names body bodyOrdered]
  | conditional condition onTrue onFalse =>
      obtain ⟨first, afterTrue, trueSteps, afterFalse, falseSteps, conditionOrdered, trueOrdered,
        falseOrdered, rfl⟩ := orderExpr_conditional found
      rw [Value.names, ← List.append_assoc, orderExpr_names condition conditionOrdered,
        orderStmts_names onTrue trueOrdered, orderStmts_names onFalse falseOrdered, Core.Expr.names]
  | misplaced form => cases found

theorem orderArguments_names (arguments : List Core.Expr) {counter after : Int}
    {steps : List Step} (found : orderArguments counter arguments = .ok (after, steps)) :
    stepsNames steps = Core.exprsNames arguments := by
  cases arguments with
  | nil =>
      cases found
      rfl
  | cons argument rest =>
      obtain ⟨first, later, firstOrdered, laterOrdered, rfl⟩ := orderArguments_cons found
      rw [stepsNames_append, stepsNames, Step.names, ← List.append_assoc,
        orderExpr_names argument firstOrdered, orderArguments_names rest laterOrdered,
        Core.exprsNames]

theorem orderFields_names (fields : List (String × Core.Expr)) {counter after : Int}
    {steps : List Step} (found : orderFields counter fields = .ok (after, steps)) :
    stepsNames steps = Core.fieldsNames fields := by
  cases fields with
  | nil =>
      cases found
      rfl
  | cons field rest =>
      obtain ⟨name, value⟩ := field
      obtain ⟨first, later, firstOrdered, laterOrdered, rfl⟩ := orderFields_cons found
      rw [stepsNames_append, stepsNames, Step.names, ← List.append_assoc,
        orderExpr_names value firstOrdered, stepsNames, orderFields_names rest laterOrdered,
        Core.fieldsNames]
      rfl

theorem orderStmt_names (statement : Core.Stmt) {counter : Int} {ordered : OrderedStep}
    (found : orderStmt counter statement = .ok ordered) :
    stepsNames ordered.before ++ ordered.step.names = statement.names := by
  cases statement with
  | assign target value =>
      obtain ⟨inner, valueOrdered, found⟩ := except_bind_eq_ok.mp found
      cases found
      rw [Step.names, ← List.append_assoc, orderExpr_names value valueOrdered, Core.Stmt.names]
  | evaluate expression =>
      obtain ⟨inner, valueOrdered, found⟩ := except_bind_eq_ok.mp found
      cases found
      exact orderExpr_names expression valueOrdered
  | misplaced form => cases found

theorem orderStmts_names (statements : List Core.Stmt) {counter after : Int}
    {steps : List Step} (found : orderStmts counter statements = .ok (after, steps)) :
    stepsNames steps = Core.stmtsNames statements := by
  cases statements with
  | nil =>
      cases found
      rfl
  | cons statement rest =>
      obtain ⟨first, later, firstOrdered, laterOrdered, rfl⟩ := orderStmts_cons found
      rw [stepsNames_append, stepsNames, ← List.append_assoc,
        orderStmt_names statement firstOrdered, orderStmts_names rest laterOrdered,
        Core.stmtsNames]

end

end StackScript.Linear

namespace StackScript.Surface

/-! ## The names of a script -/

/-- The names that reduction adds. -/
def addedNames : List String := ["true", "false", "__field__"]

/-- Each of the names is a word among the contents, or it has been added. -/
def NamedFrom (contents : List Content) (names : List String) : Prop :=
  ∀ name ∈ names, name ∈ addedNames ∨ .word name ∈ contents

namespace NamedFrom

variable {contents more : List Content} {names others : List String}

theorem nil : NamedFrom contents [] := by
  simp [NamedFrom]

theorem append (named : NamedFrom contents names) (othersNamed : NamedFrom contents others) :
    NamedFrom contents (names ++ others) :=
  List.forall_mem_append.mpr ⟨named, othersNamed⟩

theorem of_subset (named : NamedFrom contents names) (subset : contents ⊆ more) :
    NamedFrom more names :=
  fun name member => (named name member).imp_right fun isWord => subset isWord

theorem added {name : String} (isAdded : name ∈ addedNames) : NamedFrom contents [name] := by
  simpa [NamedFrom] using .inl isAdded

theorem words {words : List String} (areWords : words.map .word ⊆ contents) :
    NamedFrom contents words :=
  fun _ member => .inr (areWords (List.mem_map_of_mem member))

end NamedFrom

/-- The names of the core of an expression are words of the expression. -/
def KeepsNames (expression : Expr) : Prop :=
  ∀ {reduced : Core.Expr}, Core.Expr.ofSurface expression = .ok reduced →
    NamedFrom expression.contents reduced.names

def KeepsNamesStmt (statement : Stmt) : Prop :=
  ∀ {reduced : Core.Stmt}, Core.Stmt.ofSurface statement = .ok reduced →
    NamedFrom statement.contents reduced.names

theorem keepsNames_exprs {expressions : List Expr}
    (keeps : ∀ expression ∈ expressions, KeepsNames expression) {reduced : List Core.Expr}
    (reduces : Core.exprsOfSurface expressions = .ok reduced) :
    NamedFrom (exprsContents expressions) (Core.exprsNames reduced) := by
  induction expressions generalizing reduced with
  | nil =>
      cases reduces
      exact .nil
  | cons expression rest ih =>
      obtain ⟨keepsFirst, keepsRest⟩ := List.forall_mem_cons.mp keeps
      obtain ⟨first, firstReduces, reduces⟩ := except_bind_eq_ok.mp reduces
      obtain ⟨later, restReduces, reduces⟩ := except_bind_eq_ok.mp reduces
      cases reduces
      exact ((keepsFirst firstReduces).of_subset (List.subset_append_left _ _)).append
        ((ih keepsRest restReduces).of_subset (List.subset_append_right _ _))

theorem keepsNames_fields {fields : List (String × Expr)}
    (keeps : ∀ field ∈ fields, KeepsNames field.2) {reduced : List (String × Core.Expr)}
    (reduces : Core.fieldsOfSurface fields = .ok reduced) :
    NamedFrom (fieldsContents fields) (Core.fieldsNames reduced) := by
  induction fields generalizing reduced with
  | nil =>
      cases reduces
      exact .nil
  | cons field rest ih =>
      obtain ⟨keepsFirst, keepsRest⟩ := List.forall_mem_cons.mp keeps
      obtain ⟨first, firstReduces, reduces⟩ := except_bind_eq_ok.mp reduces
      obtain ⟨later, restReduces, reduces⟩ := except_bind_eq_ok.mp reduces
      cases reduces
      have nameNamed : NamedFrom (fieldsContents (field :: rest)) [field.1] :=
        .words (by simp [fieldsContents])
      exact ((keepsFirst firstReduces).of_subset (by simp [fieldsContents])).append
        (nameNamed.append ((ih keepsRest restReduces).of_subset (by simp [fieldsContents])))

theorem keepsNames_stmts {statements : List Stmt}
    (keeps : ∀ statement ∈ statements, KeepsNamesStmt statement) {reduced : List Core.Stmt}
    (reduces : Core.stmtsOfSurface statements = .ok reduced) :
    NamedFrom (stmtsContents statements) (Core.stmtsNames reduced) := by
  induction statements generalizing reduced with
  | nil =>
      cases reduces
      exact .nil
  | cons statement rest ih =>
      obtain ⟨keepsFirst, keepsRest⟩ := List.forall_mem_cons.mp keeps
      obtain ⟨first, firstReduces, reduces⟩ := except_bind_eq_ok.mp reduces
      obtain ⟨later, restReduces, reduces⟩ := except_bind_eq_ok.mp reduces
      cases reduces
      exact ((keepsFirst firstReduces).of_subset (List.subset_append_left _ _)).append
        ((ih keepsRest restReduces).of_subset (List.subset_append_right _ _))

theorem keepsNames_binary (position : Position) (level : Level) (operator : String)
    (left right : Expr) (keepsLeft : KeepsNames left) (keepsRight : KeepsNames right) :
    KeepsNames (.binary position level operator left right) := by
  intro reduced reduces
  have inLeft : left.contents ⊆ (Expr.binary position level operator left right).contents := by
    simp [Expr.contents]
  have inRight : right.contents ⊆ (Expr.binary position level operator left right).contents := by
    simp [Expr.contents]
  obtain ⟨first, leftReduces, ⟨-, second, rightReduces, rfl⟩ | ⟨-, second, rightReduces, rfl⟩ |
    ⟨-, field, -, rfl⟩ | ⟨-, builtin, second, -, rightReduces, rfl⟩⟩ := ofSurface_binary reduces
  all_goals have leftNamed := (keepsLeft leftReduces).of_subset inLeft
  · have rightNamed := (keepsRight rightReduces).of_subset inRight
    exact leftNamed.append ((rightNamed.append .nil).append (.added (by simp [addedNames])))
  · have rightNamed := (keepsRight rightReduces).of_subset inRight
    exact leftNamed.append
      (NamedFrom.append (.added (by simp [addedNames])) (rightNamed.append .nil))
  · exact (leftNamed.append .nil).append (.added (by simp [addedNames]))
  · have rightNamed := (keepsRight rightReduces).of_subset inRight
    exact (leftNamed.append (rightNamed.append .nil)).append .nil

/-- Only access to a field, `and` and `or` have names that the script does not have. -/
theorem treeStep_keepsNames : TreeStep KeepsNames KeepsNamesStmt where
  integer value reduced reduces := by
    cases reduces
    exact .nil
  text content reduced reduces := by
    cases reduces
    exact .nil
  symbol position name reduced reduces := by
    cases reduces
    exact .words (List.Subset.refl _)
  negation position operand keeps reduced reduces := by
    obtain ⟨inner, operandReduces, reduces⟩ := except_bind_eq_ok.mp reduces
    cases reduces
    exact (((keeps operandReduces).of_subset (by simp [Expr.contents])).append .nil).append .nil
  binary := keepsNames_binary
  list items keeps reduced reduces := by
    obtain ⟨inner, itemsReduce, reduces⟩ := except_bind_eq_ok.mp reduces
    cases reduces
    exact keepsNames_exprs keeps itemsReduce
  record fields keeps reduced reduces := by
    obtain ⟨inner, fieldsReduce, reduces⟩ := except_bind_eq_ok.mp reduces
    cases reduces
    exact keepsNames_fields keeps fieldsReduce
  item position subject index keepsSubject keepsIndex reduced reduces := by
    obtain ⟨first, subjectReduces, reduces⟩ := except_bind_eq_ok.mp reduces
    obtain ⟨second, indexReduces, reduces⟩ := except_bind_eq_ok.mp reduces
    cases reduces
    exact (((keepsSubject subjectReduces).of_subset (by simp [Expr.contents])).append
      (((keepsIndex indexReduces).of_subset (by simp [Expr.contents])).append .nil)).append .nil
  call position function arguments keepsFunction keepsArguments reduced reduces := by
    obtain ⟨inner, functionReduces, reduces⟩ := except_bind_eq_ok.mp reduces
    obtain ⟨items, argumentsReduce, reduces⟩ := except_bind_eq_ok.mp reduces
    cases reduces
    exact ((keepsNames_exprs keepsArguments argumentsReduce).of_subset
      (by simp [Expr.contents])).append
        ((keepsFunction functionReduces).of_subset (by simp [Expr.contents]))
  lambda parameters body keeps reduced reduces := by
    obtain ⟨inner, bodyReduces, reduces⟩ := except_bind_eq_ok.mp reduces
    cases reduces
    have parametersNamed : NamedFrom (Expr.lambda parameters body).contents parameters :=
      .words (by simp [Expr.contents])
    exact parametersNamed.append
      ((keepsNames_stmts keeps.statements bodyReduces).of_subset (by simp [Expr.contents]))
  conditional condition onTrue onFalse keepsCondition keepsTrue keepsFalse reduced reduces := by
    obtain ⟨first, conditionReduces, reduces⟩ := except_bind_eq_ok.mp reduces
    obtain ⟨second, trueReduces, reduces⟩ := except_bind_eq_ok.mp reduces
    obtain ⟨third, falseReduces, reduces⟩ := except_bind_eq_ok.mp reduces
    cases reduces
    have trueNamed := keepsNames_stmts keepsTrue.statements trueReduces
    have falseNamed := keepsNames_stmts keepsFalse.statements falseReduces
    have branchesNamed := (trueNamed.of_subset (List.subset_append_left _ _)).append
      (falseNamed.of_subset (List.subset_append_right _ _))
    exact ((keepsCondition conditionReduces).of_subset (by simp [Expr.contents])).append
      (branchesNamed.of_subset (by simp [Expr.contents]))
  misplacedExpr form name? reduced reduces := by cases reduces
  assign target value keeps reduced reduces := by
    obtain ⟨inner, valueReduces, reduces⟩ := except_bind_eq_ok.mp reduces
    cases reduces
    exact ((keeps valueReduces).of_subset (by simp [Stmt.contents])).append
      (.words (by simp [Stmt.contents]))
  evaluate expression keeps reduced reduces := by
    obtain ⟨inner, valueReduces, reduces⟩ := except_bind_eq_ok.mp reduces
    cases reduces
    exact keeps valueReduces
  define name parameters body keeps reduced reduces := by
    obtain ⟨inner, bodyReduces, reduces⟩ := except_bind_eq_ok.mp reduces
    cases reduces
    have nameNamed : NamedFrom (Stmt.define name parameters body).contents [name] :=
      .words (by simp [Stmt.contents])
    have bodyNamed := keepsNames_stmts keeps.statements bodyReduces
    have innerNamed := NamedFrom.append (.words (List.subset_append_left _ _))
      (bodyNamed.of_subset (List.subset_append_right (parameters.map Content.word) _))
    have withinDefinition : parameters.map .word ++ stmtsContents body ⊆
        (Stmt.define name parameters body).contents :=
      List.subset_append_right [Content.word "def", .word name] _
    exact (nameNamed.append (innerNamed.of_subset withinDefinition)).append nameNamed
  misplacedStmt form reduced reduces := by cases reduces

end StackScript.Surface

namespace StackScript.Script

/-- No name in the core of a script has a `$` in it. -/
theorem dollar_notMem_of_mem_names {script : String} {program : Core.Program}
    (reduced : core script = .ok program) {name : String}
    (member : name ∈ Core.stmtsNames program.statements) : '$' ∉ name.toList := by
  obtain ⟨tree, parsed, reduced⟩ := except_bind_eq_ok.mp reduced
  obtain ⟨statements, reduces, reduced⟩ := except_bind_eq_ok.mp reduced
  cases reduced
  have body := Surface.treeStep_keepsNames.body tree.statements
  rcases Surface.keepsNames_stmts body.statements reduces name member with isAdded | isWord
  · simp only [Surface.addedNames, List.mem_cons, List.not_mem_nil, or_false] at isAdded
    rcases isAdded with rfl | rfl | rfl <;> simp
  · exact (isClean_of_mem_contents parsed isWord).1

end StackScript.Script
