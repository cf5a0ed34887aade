import StackScript.Proofs.Printing.Lexemes
import StackScript.Proofs.Structured.Outline

/-!
# Writing trees

A tree is written with parentheses around every operand, every head of a call or an index,
every argument, condition, assigned value and item of a list.  A record has a line for each of
its fields, and a newline ends each statement.

`breakEmpty` tells whether a newline stands also in a record without fields.  With it such a
record cannot be read back, and so it is printable only without it.
-/

namespace StackScript

namespace Lexeme

def openParen : Lexeme := ⟨.openParen, "("⟩
def closeParen : Lexeme := ⟨.closeParen, ")"⟩
def openBracket : Lexeme := ⟨.openBracket, "["⟩
def closeBracket : Lexeme := ⟨.closeBracket, "]"⟩
def comma : Lexeme := ⟨.comma, ","⟩
def colon : Lexeme := ⟨.colon, ":"⟩
def newline : Lexeme := ⟨.newline, "\n"⟩
def assign : Lexeme := ⟨.assignment, "="⟩
def minus : Lexeme := ⟨.addition, "-"⟩
def symbol (name : String) : Lexeme := ⟨.symbol, name⟩
def keyword (word : String) : Lexeme := ⟨.keyword, word⟩
def operator (level : Surface.Level) (text : String) : Lexeme := ⟨level.kind, text⟩

end Lexeme

def parenthesizedLexemes (inside : List Lexeme) : List Lexeme :=
  .openParen :: (inside ++ [.closeParen])

/-- Parts with commas between them. -/
def separatedLexemes : List (List Lexeme) → List Lexeme
  | [] => []
  | part :: parts => part ++ parts.flatMap fun other => [.comma] ++ other

/-- Parameters in parentheses, and a body. -/
def functionLexemes (parameters : List String) (body : List Lexeme) : List Lexeme :=
  .openParen :: (separatedLexemes (parameters.map fun name => [.symbol name]) ++
    .closeParen :: .keyword "do" :: (body ++ [.keyword "end"]))

namespace Surface

/-- What stands at the start of a record with given fields. -/
def recordBreak (breakEmpty : Bool) (fields : List (String × Expr)) : List Lexeme :=
  if fields.isEmpty && !breakEmpty then [] else [.newline]

mutual

def Expr.lexemes (breakEmpty : Bool) : Expr → List Lexeme
  | .integer value => [.numeral value]
  | .text content => [.quoted content]
  | .symbol _ name => [.symbol name]
  | .negation _ operand => .minus :: parenthesizedLexemes (operand.lexemes breakEmpty)
  | .binary _ level operator left right =>
      parenthesizedLexemes (left.lexemes breakEmpty) ++
        .operator level operator :: parenthesizedLexemes (right.lexemes breakEmpty)
  | .list items =>
      .openBracket :: (separatedLexemes (exprsLexemes breakEmpty items) ++ [.closeBracket])
  | .record fields =>
      .openParen :: (recordBreak breakEmpty fields ++ fieldsLexemes breakEmpty fields ++
        [.closeParen])
  | .item _ subject index =>
      parenthesizedLexemes (subject.lexemes breakEmpty) ++
        .openBracket :: (index.lexemes breakEmpty ++ [.closeBracket])
  | .call _ function arguments =>
      parenthesizedLexemes (function.lexemes breakEmpty) ++
        .openParen :: (separatedLexemes (exprsLexemes breakEmpty arguments) ++ [.closeParen])
  | .lambda parameters body =>
      .keyword "lambda" :: functionLexemes parameters (stmtsLexemes breakEmpty body)
  | .conditional condition onTrue onFalse =>
      .keyword "if" :: (parenthesizedLexemes (condition.lexemes breakEmpty) ++
        .keyword "do" :: (stmtsLexemes breakEmpty onTrue ++
          .keyword "else" :: (stmtsLexemes breakEmpty onFalse ++ [.keyword "end"])))
  | .misplaced _ _ => []

/-- The lexemes of each of some expressions in parentheses. -/
def exprsLexemes (breakEmpty : Bool) : List Expr → List (List Lexeme)
  | [] => []
  | expression :: rest =>
      parenthesizedLexemes (expression.lexemes breakEmpty) :: exprsLexemes breakEmpty rest

/-- The lexemes of fields, with a comma and a newline after each field. -/
def fieldsLexemes (breakEmpty : Bool) : List (String × Expr) → List Lexeme
  | [] => []
  | (name, value) :: rest =>
      .symbol name :: .colon :: (value.lexemes breakEmpty ++
        .comma :: .newline :: fieldsLexemes breakEmpty rest)

def Stmt.lexemes (breakEmpty : Bool) : Stmt → List Lexeme
  | .assign target value =>
      .symbol target :: .assign :: parenthesizedLexemes (value.lexemes breakEmpty)
  | .evaluate expression => expression.lexemes breakEmpty
  | .define name parameters body =>
      .keyword "def" :: .symbol name :: functionLexemes parameters (stmtsLexemes breakEmpty body)
  | .misplaced _ => []

/-- The lexemes of statements, with a newline after each. -/
def stmtsLexemes (breakEmpty : Bool) : List Stmt → List Lexeme
  | [] => []
  | statement :: rest =>
      statement.lexemes breakEmpty ++ .newline :: stmtsLexemes breakEmpty rest

end

/-- The text of a script. -/
def Program.written (breakEmpty : Bool) (program : Program) : String :=
  render (stmtsLexemes breakEmpty program.statements)

theorem exprsLexemes_eq_map (breakEmpty : Bool) (expressions : List Expr) :
    exprsLexemes breakEmpty expressions =
      expressions.map fun expression => parenthesizedLexemes (expression.lexemes breakEmpty) := by
  induction expressions with
  | nil => rfl
  | cons expression rest ih => rw [exprsLexemes, ih, List.map_cons]

theorem stmtsLexemes_eq_flatMap (breakEmpty : Bool) (statements : List Stmt) :
    stmtsLexemes breakEmpty statements =
      statements.flatMap fun statement => statement.lexemes breakEmpty ++ [.newline] := by
  induction statements with
  | nil => rfl
  | cons statement rest ih =>
      rw [stmtsLexemes, ih, List.flatMap_cons, List.append_assoc, List.singleton_append]

def fieldLexemes (breakEmpty : Bool) (field : String × Expr) : List Lexeme :=
  .symbol field.1 :: .colon :: field.2.lexemes breakEmpty

theorem fieldsLexemes_eq_flatMap (breakEmpty : Bool) (fields : List (String × Expr)) :
    fieldsLexemes breakEmpty fields =
      fields.flatMap fun field => fieldLexemes breakEmpty field ++ [.comma, .newline] := by
  induction fields with
  | nil => rfl
  | cons field rest ih =>
      rw [fieldsLexemes, ih, List.flatMap_cons, fieldLexemes]
      simp

instance (text : String) : Decidable (IsName text) :=
  decidable_of_iff
    (text.toList ≠ [] ∧ text.toList.all Lexer.isWordCharacter = true ∧ text ∉ Lexer.keywords)
    ⟨fun ⟨notEmpty, characters, notKeyword⟩ =>
        ⟨notEmpty, List.all_eq_true.mp characters, notKeyword⟩,
      fun ⟨notEmpty, characters, notKeyword⟩ =>
        ⟨notEmpty, List.all_eq_true.mpr characters, notKeyword⟩⟩

/-- A number that can be written: it is not negative and has few enough digits. -/
def IsWritableInteger (value : Int) : Prop :=
  0 ≤ value ∧ (toString value).length ≤ Text.digitLimit

/-- A text that can be written: it stands on one line and lacks one of the quotes. -/
def IsWritableText (content : String) : Prop :=
  '\n' ∉ content.toList ∧ ¬('"' ∈ content.toList ∧ '\'' ∈ content.toList)

instance (value : Int) : Decidable (IsWritableInteger value) :=
  inferInstanceAs (Decidable (_ ∧ _))

instance (content : String) : Decidable (IsWritableText content) :=
  inferInstanceAs (Decidable (_ ∧ _))

mutual

/-- Whether an expression can be written. -/
def Expr.isPrintable (breakEmpty : Bool) : Expr → Bool
  | .integer value => IsWritableInteger value
  | .text content => IsWritableText content
  | .symbol _ name => IsName name
  | .negation _ operand => operand.isPrintable breakEmpty
  | .binary _ level operator left right =>
      operator ∈ level.operators && left.isPrintable breakEmpty && right.isPrintable breakEmpty
  | .list items => exprsPrintable breakEmpty items
  | .record fields => !(breakEmpty && fields.isEmpty) && fieldsPrintable breakEmpty fields
  | .item _ subject index => subject.isPrintable breakEmpty && index.isPrintable breakEmpty
  | .call _ function arguments =>
      function.isPrintable breakEmpty && exprsPrintable breakEmpty arguments
  | .lambda parameters body => (∀ name ∈ parameters, IsName name) && stmtsPrintable breakEmpty body
  | .conditional condition onTrue onFalse =>
      condition.isPrintable breakEmpty && stmtsPrintable breakEmpty onTrue &&
        stmtsPrintable breakEmpty onFalse
  | .misplaced _ _ => false

def exprsPrintable (breakEmpty : Bool) : List Expr → Bool
  | [] => true
  | expression :: rest => expression.isPrintable breakEmpty && exprsPrintable breakEmpty rest

def fieldsPrintable (breakEmpty : Bool) : List (String × Expr) → Bool
  | [] => true
  | (name, value) :: rest =>
      IsName name && value.isPrintable breakEmpty && fieldsPrintable breakEmpty rest

def Stmt.isPrintable (breakEmpty : Bool) : Stmt → Bool
  | .assign target value =>
      IsName target && target ∉ Grammar.builtinNames && value.isPrintable breakEmpty
  | .evaluate expression => expression.isPrintable breakEmpty
  | .define name parameters body =>
      IsName name && (∀ name ∈ parameters, IsName name) && stmtsPrintable breakEmpty body
  | .misplaced _ => false

def stmtsPrintable (breakEmpty : Bool) : List Stmt → Bool
  | [] => true
  | statement :: rest => statement.isPrintable breakEmpty && stmtsPrintable breakEmpty rest

end

/-- Whether a script can be written. -/
def Program.isPrintable (breakEmpty : Bool) (program : Program) : Bool :=
  stmtsPrintable breakEmpty program.statements

theorem exprsPrintable_iff {breakEmpty : Bool} {expressions : List Expr} :
    exprsPrintable breakEmpty expressions = true ↔
      ∀ expression ∈ expressions, expression.isPrintable breakEmpty = true := by
  induction expressions with
  | nil => simp [exprsPrintable]
  | cons expression rest ih => simp [exprsPrintable, ih]

theorem fieldsPrintable_iff {breakEmpty : Bool} {fields : List (String × Expr)} :
    fieldsPrintable breakEmpty fields = true ↔
      ∀ field ∈ fields, IsName field.1 ∧ field.2.isPrintable breakEmpty = true := by
  induction fields with
  | nil => simp [fieldsPrintable]
  | cons field rest ih => simp only [fieldsPrintable, ih, Bool.and_eq_true, decide_eq_true_eq,
      List.forall_mem_cons]

theorem stmtsPrintable_iff {breakEmpty : Bool} {statements : List Stmt} :
    stmtsPrintable breakEmpty statements = true ↔
      ∀ statement ∈ statements, statement.isPrintable breakEmpty = true := by
  induction statements with
  | nil => simp [stmtsPrintable]
  | cons statement rest ih => simp [stmtsPrintable, ih]

/-- The place that stands for all places. -/
def nowhere : Position := ⟨0, 0⟩

mutual

/-- An expression in which all places have been forgotten. -/
def Expr.unplaced : Expr → Expr
  | .integer value => .integer value
  | .text content => .text content
  | .symbol _ name => .symbol nowhere name
  | .negation _ operand => .negation nowhere operand.unplaced
  | .binary _ level operator left right =>
      .binary nowhere level operator left.unplaced right.unplaced
  | .list items => .list (exprsUnplaced items)
  | .record fields => .record (fieldsUnplaced fields)
  | .item _ subject index => .item nowhere subject.unplaced index.unplaced
  | .call _ function arguments => .call nowhere function.unplaced (exprsUnplaced arguments)
  | .lambda parameters body => .lambda parameters (stmtsUnplaced body)
  | .conditional condition onTrue onFalse =>
      .conditional condition.unplaced (stmtsUnplaced onTrue) (stmtsUnplaced onFalse)
  | .misplaced form name? => .misplaced form name?

def exprsUnplaced : List Expr → List Expr
  | [] => []
  | expression :: rest => expression.unplaced :: exprsUnplaced rest

def fieldsUnplaced : List (String × Expr) → List (String × Expr)
  | [] => []
  | (name, value) :: rest => (name, value.unplaced) :: fieldsUnplaced rest

def Stmt.unplaced : Stmt → Stmt
  | .assign target value => .assign target value.unplaced
  | .evaluate expression => .evaluate expression.unplaced
  | .define name parameters body => .define name parameters (stmtsUnplaced body)
  | .misplaced form => .misplaced form

def stmtsUnplaced : List Stmt → List Stmt
  | [] => []
  | statement :: rest => statement.unplaced :: stmtsUnplaced rest

end

/-- A script in which all places have been forgotten. -/
def Program.unplaced (program : Program) : Program :=
  { statements := stmtsUnplaced program.statements }

theorem exprsUnplaced_eq_map (expressions : List Expr) :
    exprsUnplaced expressions = expressions.map Expr.unplaced := by
  induction expressions with
  | nil => rfl
  | cons expression rest ih => rw [exprsUnplaced, ih, List.map_cons]

def fieldUnplaced (field : String × Expr) : String × Expr :=
  (field.1, field.2.unplaced)

theorem fieldsUnplaced_eq_map (fields : List (String × Expr)) :
    fieldsUnplaced fields = fields.map fieldUnplaced := by
  induction fields with
  | nil => rfl
  | cons field rest ih => rw [fieldsUnplaced, ih, List.map_cons, fieldUnplaced]

theorem stmtsUnplaced_eq_map (statements : List Stmt) :
    stmtsUnplaced statements = statements.map Stmt.unplaced := by
  induction statements with
  | nil => rfl
  | cons statement rest ih => rw [stmtsUnplaced, ih, List.map_cons]

/-! ## The lexer finds written trees -/

abbrev AllFound (lexemes : List Lexeme) : Prop :=
  ∀ lexeme ∈ lexemes, lexeme.IsFound

/-- The lexemes with a text of their own. -/
def fixedLexemes : List Lexeme :=
  [.openParen, .closeParen, .openBracket, .closeBracket, .comma, .colon, .newline, .assign, .minus]

theorem allFound_fixed : AllFound fixedLexemes := by
  simp only [AllFound, fixedLexemes, List.forall_mem_cons]
  refine ⟨?_, ?_, ?_, ?_, ?_, ?_, ?_, ?_, ?_, by simp⟩
  all_goals exact ⟨_, _, rfl, by decide, by decide, fun _ => rfl⟩

theorem AllFound.nil : AllFound [] :=
  List.forall_mem_nil _

theorem AllFound.cons {lexeme : Lexeme} {lexemes : List Lexeme} (found : AllFound lexemes)
    (isFound : lexeme.IsFound) : AllFound (lexeme :: lexemes) :=
  List.forall_mem_cons.mpr ⟨isFound, found⟩

theorem AllFound.append {first second : List Lexeme} (firstFound : AllFound first)
    (secondFound : AllFound second) : AllFound (first ++ second) :=
  List.forall_mem_append.mpr ⟨firstFound, secondFound⟩

theorem AllFound.fixed {lexeme : Lexeme} (isFixed : lexeme ∈ fixedLexemes)
    {lexemes : List Lexeme} (found : AllFound lexemes) : AllFound (lexeme :: lexemes) :=
  found.cons (allFound_fixed lexeme isFixed)

theorem AllFound.keyword {word : String} (isKeyword : word ∈ Lexer.keywords)
    {lexemes : List Lexeme} (found : AllFound lexemes) : AllFound (.keyword word :: lexemes) :=
  found.cons (Lexeme.isFound_keyword isKeyword)

theorem AllFound.parenthesized {inside : List Lexeme} (found : AllFound inside) :
    AllFound (parenthesizedLexemes inside) :=
  .fixed (by decide) (found.append (.fixed (by decide) .nil))

theorem AllFound.separated {parts : List (List Lexeme)} (found : ∀ part ∈ parts, AllFound part) :
    AllFound (separatedLexemes parts) := by
  cases parts with
  | nil => exact AllFound.nil
  | cons part others =>
      have foundBoth := List.forall_mem_cons.mp found
      apply foundBoth.1.append
      intro lexeme member
      rcases List.mem_flatMap.mp member with ⟨other, isOther, inOther⟩
      exact AllFound.fixed (by decide) (foundBoth.2 other isOther) lexeme inOther

theorem AllFound.function {parameters : List String} {body : List Lexeme}
    (names : ∀ name ∈ parameters, IsName name) (found : AllFound body) :
    AllFound (functionLexemes parameters body) := by
  have foundNames : AllFound (separatedLexemes (parameters.map fun name => [.symbol name])) := by
    apply AllFound.separated
    intro part member
    rcases List.mem_map.mp member with ⟨name, isParameter, rfl⟩
    exact AllFound.nil.cons (Lexeme.isFound_symbol (names name isParameter))
  exact .fixed (by decide) (foundNames.append (.fixed (by decide)
    (.keyword (by decide) (found.append (.keyword (by decide) .nil)))))

section Found

variable {breakEmpty : Bool}

/-- If an expression is printable, its lexemes are found. -/
def FoundExpr (breakEmpty : Bool) (expression : Expr) : Prop :=
  expression.isPrintable breakEmpty = true → AllFound (expression.lexemes breakEmpty)

def FoundStmt (breakEmpty : Bool) (statement : Stmt) : Prop :=
  statement.isPrintable breakEmpty = true → AllFound (statement.lexemes breakEmpty)

theorem allFound_exprs {expressions : List Expr}
    (found : ∀ expression ∈ expressions, FoundExpr breakEmpty expression)
    (printable : exprsPrintable breakEmpty expressions = true) :
    AllFound (separatedLexemes (exprsLexemes breakEmpty expressions)) := by
  apply AllFound.separated
  rw [exprsLexemes_eq_map]
  intro part member
  rcases List.mem_map.mp member with ⟨expression, isOne, rfl⟩
  exact (found expression isOne (exprsPrintable_iff.mp printable expression isOne)).parenthesized

theorem allFound_stmts {statements : List Stmt}
    (found : ∀ statement ∈ statements, FoundStmt breakEmpty statement)
    (printable : stmtsPrintable breakEmpty statements = true) :
    AllFound (stmtsLexemes breakEmpty statements) := by
  rw [stmtsLexemes_eq_flatMap]
  intro lexeme member
  rcases List.mem_flatMap.mp member with ⟨statement, isOne, inside⟩
  have foundOne := found statement isOne (stmtsPrintable_iff.mp printable statement isOne)
  exact foundOne.append (.fixed (by decide) .nil) lexeme inside

theorem allFound_fields {fields : List (String × Expr)}
    (found : ∀ field ∈ fields, FoundExpr breakEmpty field.2)
    (printable : fieldsPrintable breakEmpty fields = true) :
    AllFound (fieldsLexemes breakEmpty fields) := by
  rw [fieldsLexemes_eq_flatMap]
  intro lexeme member
  rcases List.mem_flatMap.mp member with ⟨field, isOne, inside⟩
  rcases fieldsPrintable_iff.mp printable field isOne with ⟨isName, valuePrintable⟩
  have foundField : AllFound (fieldLexemes breakEmpty field) :=
    AllFound.cons (.fixed (by decide) (found field isOne valuePrintable))
      (Lexeme.isFound_symbol isName)
  exact foundField.append (.fixed (by decide) (.fixed (by decide) .nil)) lexeme inside

theorem treeStep_found (breakEmpty : Bool) :
    TreeStep (FoundExpr breakEmpty) (FoundStmt breakEmpty) where
  integer value printable :=
    AllFound.nil.cons (Lexeme.isFound_numeral (of_decide_eq_true printable).1)
  text content printable := by
    have writable := of_decide_eq_true printable
    exact AllFound.nil.cons (Lexeme.isFound_quoted writable.1 writable.2)
  symbol position name printable :=
    AllFound.nil.cons (Lexeme.isFound_symbol (of_decide_eq_true printable))
  negation position operand foundOperand printable :=
    .fixed (by decide) (foundOperand printable).parenthesized
  binary position level operator left right foundLeft foundRight printable := by
    simp only [Expr.isPrintable, Bool.and_eq_true, decide_eq_true_eq] at printable
    exact (foundLeft printable.1.2).parenthesized.append
      ((foundRight printable.2).parenthesized.cons (Lexeme.isFound_operator printable.1.1))
  list items foundItems printable :=
    .fixed (by decide) ((allFound_exprs foundItems printable).append (.fixed (by decide) .nil))
  record fields foundFields printable := by
    simp only [Expr.isPrintable, Bool.and_eq_true] at printable
    have foundBreak : AllFound (recordBreak breakEmpty fields) := by
      rw [recordBreak]
      split
      · exact AllFound.nil
      · exact .fixed (by decide) .nil
    exact .fixed (by decide) ((foundBreak.append (allFound_fields foundFields printable.2)).append
      (.fixed (by decide) .nil))
  item position subject index foundSubject foundIndex printable := by
    simp only [Expr.isPrintable, Bool.and_eq_true] at printable
    exact (foundSubject printable.1).parenthesized.append
      (.fixed (by decide) ((foundIndex printable.2).append (.fixed (by decide) .nil)))
  call position function arguments foundFunction foundArguments printable := by
    simp only [Expr.isPrintable, Bool.and_eq_true] at printable
    exact (foundFunction printable.1).parenthesized.append (.fixed (by decide)
      ((allFound_exprs foundArguments printable.2).append (.fixed (by decide) .nil)))
  lambda parameters body foundBody printable := by
    simp only [Expr.isPrintable, Bool.and_eq_true, decide_eq_true_eq] at printable
    exact .keyword (by decide)
      (AllFound.function printable.1 (allFound_stmts foundBody.statements printable.2))
  conditional condition onTrue onFalse foundCondition foundTrue foundFalse printable := by
    simp only [Expr.isPrintable, Bool.and_eq_true] at printable
    have foundElse := (allFound_stmts foundFalse.statements printable.2).append
      (.keyword (by decide : "end" ∈ Lexer.keywords) .nil)
    have foundBranches := (allFound_stmts foundTrue.statements printable.1.2).append
      (.keyword (by decide : "else" ∈ Lexer.keywords) foundElse)
    exact .keyword (by decide) ((foundCondition printable.1.1).parenthesized.append
      (.keyword (by decide) foundBranches))
  misplacedExpr form name? printable := nomatch printable
  assign target value foundValue printable := by
    simp only [Stmt.isPrintable, Bool.and_eq_true, decide_eq_true_eq] at printable
    exact AllFound.cons (.fixed (by decide) (foundValue printable.2).parenthesized)
      (Lexeme.isFound_symbol printable.1.1)
  evaluate expression foundExpression printable := foundExpression printable
  define name parameters body foundBody printable := by
    simp only [Stmt.isPrintable, Bool.and_eq_true, decide_eq_true_eq] at printable
    exact .keyword (by decide) (AllFound.cons
      (AllFound.function printable.1.2 (allFound_stmts foundBody.statements printable.2))
      (Lexeme.isFound_symbol printable.1.1))
  misplacedStmt form printable := nomatch printable

end Found

end Surface

end StackScript
