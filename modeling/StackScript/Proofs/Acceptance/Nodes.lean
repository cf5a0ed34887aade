import StackScript.Proofs.Grammar.Reads
import StackScript.Proofs.Printing.Lexemes
import StackScript.Proofs.Structured.Outline

/-!
# The nodes of a tree

What a stage refuses is a matter of single nodes: of an expression somewhere in the tree, or
of a body somewhere in the tree.  `Throughout` says that all of them have a property, and
takes this apart along the tree.  What relates the outline of every tree to its nodes is
gathered along lists and bodies (`Gathers`).  In the tree of a script no node is misplaced,
every operator is one of its level and no builtin is assigned to (`Script.isKnown_of_surface`).
-/

namespace StackScript.Surface

mutual

/-- An expression and the expressions inside it. -/
@[simp]
def Expr.nodes : Expr → List Expr
  | .integer value => [.integer value]
  | .text content => [.text content]
  | .symbol position name => [.symbol position name]
  | .negation position operand => .negation position operand :: operand.nodes
  | .binary position level operator left right =>
      .binary position level operator left right :: (left.nodes ++ right.nodes)
  | .list items => .list items :: exprsNodes items
  | .record fields => .record fields :: fieldsNodes fields
  | .item position subject index =>
      .item position subject index :: (subject.nodes ++ index.nodes)
  | .call position function arguments =>
      .call position function arguments :: (function.nodes ++ exprsNodes arguments)
  | .lambda parameters body => .lambda parameters body :: stmtsNodes body
  | .conditional condition onTrue onFalse =>
      .conditional condition onTrue onFalse ::
        (condition.nodes ++ (stmtsNodes onTrue ++ stmtsNodes onFalse))
  | .misplaced form name? => [.misplaced form name?]

@[simp]
def exprsNodes : List Expr → List Expr
  | [] => []
  | expression :: rest => expression.nodes ++ exprsNodes rest

@[simp]
def fieldsNodes : List (String × Expr) → List Expr
  | [] => []
  | (_, value) :: rest => value.nodes ++ fieldsNodes rest

@[simp]
def Stmt.nodes : Stmt → List Expr
  | .assign _ value => value.nodes
  | .evaluate expression => expression.nodes
  | .define _ _ body => stmtsNodes body
  | .misplaced _ => []

@[simp]
def stmtsNodes : List Stmt → List Expr
  | [] => []
  | statement :: rest => statement.nodes ++ stmtsNodes rest

end

mutual

/-- The bodies of functions and the branches of conditionals in an expression. -/
@[simp]
def Expr.bodies : Expr → List (List Stmt)
  | .integer _ => []
  | .text _ => []
  | .symbol .. => []
  | .negation _ operand => operand.bodies
  | .binary _ _ _ left right => left.bodies ++ right.bodies
  | .list items => exprsBodies items
  | .record fields => fieldsBodies fields
  | .item _ subject index => subject.bodies ++ index.bodies
  | .call _ function arguments => function.bodies ++ exprsBodies arguments
  | .lambda _ body => body :: stmtsBodies body
  | .conditional condition onTrue onFalse =>
      condition.bodies ++ (onTrue :: stmtsBodies onTrue ++ onFalse :: stmtsBodies onFalse)
  | .misplaced .. => []

@[simp]
def exprsBodies : List Expr → List (List Stmt)
  | [] => []
  | expression :: rest => expression.bodies ++ exprsBodies rest

@[simp]
def fieldsBodies : List (String × Expr) → List (List Stmt)
  | [] => []
  | (_, value) :: rest => value.bodies ++ fieldsBodies rest

@[simp]
def Stmt.bodies : Stmt → List (List Stmt)
  | .assign _ value => value.bodies
  | .evaluate expression => expression.bodies
  | .define _ _ body => body :: stmtsBodies body
  | .misplaced _ => []

@[simp]
def stmtsBodies : List Stmt → List (List Stmt)
  | [] => []
  | statement :: rest => statement.bodies ++ stmtsBodies rest

end

/-- The expressions of a script. -/
def Program.nodes (program : Program) : List Expr :=
  stmtsNodes program.statements

/-- The bodies of functions and the branches of conditionals of a script. -/
def Program.bodies (program : Program) : List (List Stmt) :=
  stmtsBodies program.statements

section Throughout

variable (onNode : Expr → Prop) (onBody : List Stmt → Prop)

/-- All nodes of an expression have a property, and so have all bodies in it. -/
def Expr.Throughout (expression : Expr) : Prop :=
  (∀ node ∈ expression.nodes, onNode node) ∧ ∀ body ∈ expression.bodies, onBody body

/-- All expressions in a statement have a property, and so have all bodies in it. -/
def Stmt.Throughout (statement : Stmt) : Prop :=
  (∀ node ∈ statement.nodes, onNode node) ∧ ∀ body ∈ statement.bodies, onBody body

variable {onNode onBody}

theorem forall_exprs_iff {expressions : List Expr} :
    ((∀ node ∈ exprsNodes expressions, onNode node) ∧
        ∀ body ∈ exprsBodies expressions, onBody body) ↔
      ∀ expression ∈ expressions, expression.Throughout onNode onBody := by
  induction expressions with
  | nil => simp [exprsNodes, exprsBodies]
  | cons expression rest ih =>
      rw [exprsNodes, exprsBodies, List.forall_mem_append, List.forall_mem_append,
        List.forall_mem_cons, ← ih, Expr.Throughout]
      exact and_and_and_comm

theorem forall_fields_iff {fields : List (String × Expr)} :
    ((∀ node ∈ fieldsNodes fields, onNode node) ∧ ∀ body ∈ fieldsBodies fields, onBody body) ↔
      ∀ field ∈ fields, field.2.Throughout onNode onBody := by
  induction fields with
  | nil => simp [fieldsNodes, fieldsBodies]
  | cons field rest ih =>
      rw [fieldsNodes, fieldsBodies, List.forall_mem_append, List.forall_mem_append,
        List.forall_mem_cons, ← ih, Expr.Throughout]
      exact and_and_and_comm

theorem forall_stmts_iff {statements : List Stmt} :
    ((∀ node ∈ stmtsNodes statements, onNode node) ∧
        ∀ body ∈ stmtsBodies statements, onBody body) ↔
      ∀ statement ∈ statements, statement.Throughout onNode onBody := by
  induction statements with
  | nil => simp [stmtsNodes, stmtsBodies]
  | cons statement rest ih =>
      rw [stmtsNodes, stmtsBodies, List.forall_mem_append, List.forall_mem_append,
        List.forall_mem_cons, ← ih, Stmt.Throughout]
      exact and_and_and_comm

theorem throughout_negation {position : Position} {operand : Expr} :
    (Expr.negation position operand).Throughout onNode onBody ↔
      onNode (.negation position operand) ∧ operand.Throughout onNode onBody := by
  rw [Expr.Throughout, Expr.nodes, Expr.bodies, List.forall_mem_cons, and_assoc]
  rfl

theorem throughout_binary {position : Position} {level : Level} {operator : String}
    {left right : Expr} :
    (Expr.binary position level operator left right).Throughout onNode onBody ↔
      onNode (.binary position level operator left right) ∧
        left.Throughout onNode onBody ∧ right.Throughout onNode onBody := by
  rw [Expr.Throughout, Expr.nodes, Expr.bodies, List.forall_mem_cons, List.forall_mem_append,
    List.forall_mem_append, and_assoc, and_and_and_comm]
  rfl

theorem throughout_list {items : List Expr} :
    (Expr.list items).Throughout onNode onBody ↔
      onNode (.list items) ∧ ∀ item ∈ items, item.Throughout onNode onBody := by
  rw [Expr.Throughout, Expr.nodes, Expr.bodies, List.forall_mem_cons, and_assoc,
    forall_exprs_iff]

theorem throughout_record {fields : List (String × Expr)} :
    (Expr.record fields).Throughout onNode onBody ↔
      onNode (.record fields) ∧ ∀ field ∈ fields, field.2.Throughout onNode onBody := by
  rw [Expr.Throughout, Expr.nodes, Expr.bodies, List.forall_mem_cons, and_assoc,
    forall_fields_iff]

theorem throughout_item {position : Position} {subject index : Expr} :
    (Expr.item position subject index).Throughout onNode onBody ↔
      onNode (.item position subject index) ∧
        subject.Throughout onNode onBody ∧ index.Throughout onNode onBody := by
  rw [Expr.Throughout, Expr.nodes, Expr.bodies, List.forall_mem_cons, List.forall_mem_append,
    List.forall_mem_append, and_assoc, and_and_and_comm]
  rfl

theorem throughout_call {position : Position} {function : Expr} {arguments : List Expr} :
    (Expr.call position function arguments).Throughout onNode onBody ↔
      onNode (.call position function arguments) ∧ function.Throughout onNode onBody ∧
        ∀ argument ∈ arguments, argument.Throughout onNode onBody := by
  rw [Expr.Throughout, Expr.nodes, Expr.bodies, List.forall_mem_cons, List.forall_mem_append,
    List.forall_mem_append, and_assoc, and_and_and_comm, forall_exprs_iff]
  rfl

theorem throughout_lambda {parameters : List String} {body : List Stmt} :
    (Expr.lambda parameters body).Throughout onNode onBody ↔
      onNode (.lambda parameters body) ∧ onBody body ∧
        ∀ statement ∈ body, statement.Throughout onNode onBody := by
  rw [Expr.Throughout, Expr.nodes, Expr.bodies, List.forall_mem_cons, List.forall_mem_cons,
    and_assoc, and_left_comm (b := onBody body), forall_stmts_iff]

theorem throughout_conditional {condition : Expr} {onTrue onFalse : List Stmt} :
    (Expr.conditional condition onTrue onFalse).Throughout onNode onBody ↔
      onNode (.conditional condition onTrue onFalse) ∧ condition.Throughout onNode onBody ∧
        (onBody onTrue ∧ ∀ statement ∈ onTrue, statement.Throughout onNode onBody) ∧
        onBody onFalse ∧ ∀ statement ∈ onFalse, statement.Throughout onNode onBody := by
  simp only [Expr.Throughout, Expr.nodes, Expr.bodies, List.forall_mem_cons,
    List.forall_mem_append, List.cons_append, ← forall_stmts_iff]
  tauto

theorem throughout_define {name : String} {parameters : List String} {body : List Stmt} :
    (Stmt.define name parameters body).Throughout onNode onBody ↔
      onBody body ∧ ∀ statement ∈ body, statement.Throughout onNode onBody := by
  rw [Stmt.Throughout, Stmt.nodes, Stmt.bodies, List.forall_mem_cons,
    and_left_comm (b := onBody body), forall_stmts_iff]

/-- A property of all expressions and bodies of a script. -/
theorem forall_program_iff {program : Program} :
    ((∀ node ∈ program.nodes, onNode node) ∧ ∀ body ∈ program.bodies, onBody body) ↔
      ∀ statement ∈ program.statements, statement.Throughout onNode onBody :=
  forall_stmts_iff

end Throughout

/-! ## Outlines and nodes -/

section Relates

open StackScript.Code (Outline)

variable (relates : Outline → List Expr → Prop)

/-- The outline of an expression is related to its nodes. -/
def RelatesExpr (expression : Expr) : Prop :=
  ∀ {counter after : Int} {outline : Outline},
    outlineExpr counter expression = some (outline, after) → relates outline expression.nodes

def RelatesStmt (statement : Stmt) : Prop :=
  ∀ {counter after : Int} {outline : Outline},
    outlineStmt counter statement = some (outline, after) → relates outline statement.nodes

/-- A relation of outlines and nodes that passes from parts to their sequence. -/
structure Gathers : Prop where
  done : relates .done []
  append : ∀ {first second : Outline} {nodes others : List Expr}, relates first nodes →
    relates second others → relates (first ++ second) (nodes ++ others)

namespace Gathers

variable {relates} {counter after : Int} {outline : Outline}

theorem exprs (gathers : Gathers relates) {expressions : List Expr}
    (related : ∀ expression ∈ expressions, RelatesExpr relates expression)
    (found : outlineExprs counter expressions = some (outline, after)) :
    relates outline (exprsNodes expressions) := by
  induction expressions generalizing counter outline with
  | nil =>
      cases found
      exact gathers.done
  | cons expression rest ih =>
      obtain ⟨first, others⟩ := List.forall_mem_cons.mp related
      obtain ⟨_, _, _, firstFound, restFound, rfl⟩ := outlineExprs_cons found
      exact gathers.append (first firstFound) (ih others restFound)

theorem stmts (gathers : Gathers relates) {statements : List Stmt}
    (related : ∀ statement ∈ statements, RelatesStmt relates statement)
    (found : outlineStmts counter statements = some (outline, after)) :
    relates outline (stmtsNodes statements) := by
  induction statements generalizing counter outline with
  | nil =>
      cases found
      exact gathers.done
  | cons statement rest ih =>
      obtain ⟨first, others⟩ := List.forall_mem_cons.mp related
      obtain ⟨_, _, _, firstFound, restFound, rfl⟩ := outlineStmts_cons found
      exact gathers.append (first firstFound) (ih others restFound)

theorem body (gathers : Gathers relates) {statements : List Stmt}
    (related : OnBody (RelatesExpr relates) (RelatesStmt relates) statements)
    (found : outlineBody counter statements = some (outline, after)) :
    relates outline (stmtsNodes statements) := by
  induction statements generalizing counter outline with
  | nil => cases found
  | cons statement rest ih =>
      rcases outlineBody_cons found with ⟨rfl, expression, rfl, valueFound⟩ |
        ⟨_, _, _, _, firstFound, restFound, rfl⟩
      · simpa [stmtsNodes, Stmt.nodes] using
          related.values expression List.mem_cons_self valueFound
      · exact gathers.append (related.head firstFound) (ih related.tail restFound)

theorem program (gathers : Gathers relates)
    (step : TreeStep (RelatesExpr relates) (RelatesStmt relates)) {program : Program}
    (found : program.outline = some outline) : relates outline program.nodes := by
  obtain ⟨⟨_, last⟩, stmtsFound, rfl⟩ := Option.map_eq_some_iff.mp found
  exact gathers.stmts (step.body program.statements).statements stmtsFound

end Gathers

end Relates

/-- An expression that is not misplaced, and whose operator is one of its level. -/
def Expr.IsKnown : Expr → Prop
  | .binary _ level operator _ _ => operator ∈ level.operators
  | .misplaced .. => False
  | _ => True

/-- A statement that is not misplaced, and that does not assign to a builtin. -/
def Stmt.IsKnown : Stmt → Prop
  | .assign target _ => target ∉ Grammar.builtinNames
  | .misplaced _ => False
  | _ => True

def IsKnownBody (body : List Stmt) : Prop :=
  ∀ statement ∈ body, statement.IsKnown

/-- All nodes of an expression are known. -/
abbrev KnownExpr (expression : Expr) : Prop :=
  expression.Throughout Expr.IsKnown IsKnownBody

abbrev KnownStmt (statement : Stmt) : Prop :=
  statement.IsKnown ∧ statement.Throughout Expr.IsKnown IsKnownBody

theorem isKnownBody_of_known {body : List Stmt} (known : ∀ statement ∈ body, KnownStmt statement) :
    IsKnownBody body ∧ ∀ statement ∈ body, statement.Throughout Expr.IsKnown IsKnownBody :=
  ⟨fun statement member => (known statement member).1,
    fun statement member => (known statement member).2⟩

end StackScript.Surface

namespace StackScript

open StackScript.Grammar
open StackScript.Surface

/-- A token that is an operator of a level has the text of one. -/
def Token.FitsLevel (token : Token) : Prop :=
  ∀ level, isOperatorOf level token = true → token.text ∈ level.operators

namespace Lexer

/-- The characters of the operators of a level. -/
theorem operators_characters (level : Level) : level.operators.map String.toList =
    match level with
    | .access => [['.']]
    | .multiplication => [['*'], ['/', '/'], ['%']]
    | .addition => [['+'], ['-'], ['+', '+']]
    | .comparison => [['<'], ['>'], ['<', '='], ['>', '='], ['=', '='], ['!', '=']]
    | .conjunction => [['a', 'n', 'd']]
    | .disjunction => [['o', 'r']] := by
  cases level <;> rfl

theorem operator_of_lexeme? {first : Char} {rest : List Char} {level : Level} {length : Nat}
    (found : lexeme? first rest = some (level.kind, length)) (notSymbol : level.kind ≠ .symbol) :
    String.ofList (first :: rest.take length) ∈ level.operators := by
  suffices characters : first :: rest.take length ∈ level.operators.map String.toList by
    rcases List.mem_map.mp characters with ⟨operator, isOperator, same⟩
    rwa [← same, String.ofList_toList]
  have second : ∀ character, rest.head? = some character → rest.take 1 = [character] := by
    intro character isFirst
    cases rest <;> simp_all
  rw [operators_characters]
  simp only [lexeme?] at found
  split at found
  · simp only [Option.some.injEq, Prod.mk.injEq, wordKind] at found
    cases level <;> grind [Level.kind]
  · split at found
    · cases level <;> cases found
    · -- Each operator has a first character of its own kind, and perhaps a second one.
      split at found <;> cases level <;> simp [Level.kind, ite_eq_iff] at found notSymbol ⊢ <;>
        grind

theorem fitsLevel_of_lexeme? {first : Char} {rest : List Char} {kind : Kind}
    {length : Nat} {position : Position} (found : lexeme? first rest = some (kind, length)) :
    Token.FitsLevel { kind, text := String.ofList (first :: rest.take length), position } := by
  intro level isOne
  cases level with
  | conjunction | disjunction =>
      exact List.mem_singleton.mpr (of_decide_eq_true (Bool.and_eq_true_iff.mp isOne).2)
  | access | multiplication | addition | comparison =>
      cases of_decide_eq_true isOne
      exact operator_of_lexeme? found (by decide)

end Lexer

/-- The nodes of a tree are its own node and those of its parts. -/
theorem builds_known : Builds Token.FitsLevel KnownExpr KnownStmt where
  integer _ := by simp [Expr.Throughout, Expr.nodes, Expr.bodies, Expr.IsKnown]
  text _ := by simp [Expr.Throughout, Expr.nodes, Expr.bodies, Expr.IsKnown]
  symbol _ _ := by simp [Expr.Throughout, Expr.nodes, Expr.bodies, Expr.IsKnown]
  negation _ operandKnown := throughout_negation.mpr ⟨trivial, operandKnown⟩
  binary fits isOne leftKnown rightKnown :=
    throughout_binary.mpr ⟨fits _ isOne, leftKnown, rightKnown⟩
  list itemsKnown := throughout_list.mpr ⟨trivial, itemsKnown⟩
  record fieldsKnown := throughout_record.mpr ⟨trivial, fieldsKnown⟩
  item _ subjectKnown indexKnown := throughout_item.mpr ⟨trivial, subjectKnown, indexKnown⟩
  call _ functionKnown argumentsKnown :=
    throughout_call.mpr ⟨trivial, functionKnown, argumentsKnown⟩
  lambda bodyKnown := throughout_lambda.mpr ⟨trivial, isKnownBody_of_known bodyKnown⟩
  conditional conditionKnown trueKnown falseKnown :=
    throughout_conditional.mpr ⟨trivial, conditionKnown, isKnownBody_of_known trueKnown,
      isKnownBody_of_known falseKnown⟩
  assign _ _ notBuiltin valueKnown := ⟨notBuiltin, valueKnown⟩
  evaluate expressionKnown := ⟨trivial, expressionKnown⟩
  define _ _ bodyKnown := ⟨trivial, throughout_define.mpr (isKnownBody_of_known bodyKnown)⟩

/-- All nodes of a script are known. -/
theorem Script.isKnown_of_surface {script : String} {program : Program}
    (parsed : Script.surface script = .ok program) :
    ∀ statement ∈ program.statements, KnownStmt statement := by
  cases scanned : tokenize script with
  | error error =>
      simp only [Script.surface, scanned] at parsed
      cases parsed
  | ok tokens =>
      simp only [Script.surface, scanned] at parsed
      have allFit : ∀ token ∈ tokens, token.FitsLevel :=
        Lexer.forall_mem_of_scan (fun _ _ _ _ _ => Lexer.fitsLevel_of_lexeme?) scanned
      exact builds_known.forall_statements_of_parse allFit parsed

end StackScript
