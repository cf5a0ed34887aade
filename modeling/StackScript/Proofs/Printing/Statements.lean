import StackScript.Proofs.Printing.Terms

/-!
# Written expressions and statements

A term is also an operand of every level of operators and an expression.  The other expressions
and the statements are taken from their lexemes, provided that their parts are.
-/

namespace StackScript.Grammar

open StackScript.Grammar.Parser
open StackScript.Surface

section Levels

variable {inner : Inner} {lexemes : List Lexeme} {holds : Expr → Prop}

def operandAt (inner : Inner) : Level → Parser Expr
  | .access => term inner
  | .multiplication => signed inner
  | .addition => multiplication inner
  | .comparison => addition inner
  | .conjunction => comparison inner
  | .disjunction => conjunction inner

def levelAt (inner : Inner) : Level → Parser Expr
  | .access => access inner
  | .multiplication => multiplication inner
  | .addition => addition inner
  | .comparison => comparison inner
  | .conjunction => conjunction inner
  | .disjunction => disjunction inner

theorem levelAt_eq (inner : Inner) (level : Level) :
    levelAt inner level =
      infixLevel level (fun token => level.isOperator token.lexeme) (operandAt inner level) := by
  cases level <;> rfl

/-- What ends an operand of the next level is no operator of the level. -/
theorem noOperator_of_ends {level : Level} (token : Token)
    (ends : EndsOperand (level.rank + 1) token.lexeme) : level.isOperator token.lexeme = false :=
  ends.noOperator level (Nat.lt_succ_self _)

/-- An operand alone is a tree of its level. -/
theorem takes_levelAt {level : Level}
    (takes : Takes (operandAt inner level) lexemes (StartsWith (EndsOperand level.rank)) holds) :
    Takes (levelAt inner level) lexemes (StartsWith (EndsOperand (level.rank + 1))) holds := by
  rw [levelAt_eq]
  apply Takes.chainLeft_single _ noOperator_of_ends
  apply takes.mono
  intro rest starts
  exact starts.mono fun _ ends => ends.mono (Nat.le_succ _)

/-- A term alone is an operand of every level. -/
theorem takes_operandAt (takes : Takes (term inner) lexemes EndsTerm holds) (level : Level) :
    Takes (operandAt inner level) lexemes (StartsWith (EndsOperand level.rank)) holds := by
  have takesAccess := @takes_levelAt inner lexemes holds .access takes
  have takesSigned : Takes (operandAt inner .multiplication) lexemes (StartsWith (EndsOperand 1))
      holds :=
    Takes.firstOf [] takesAccess (by simp)
  have takesMultiplication := @takes_levelAt inner lexemes holds .multiplication takesSigned
  have takesAddition := @takes_levelAt inner lexemes holds .addition takesMultiplication
  have takesComparison := @takes_levelAt inner lexemes holds .comparison takesAddition
  have takesConjunction := @takes_levelAt inner lexemes holds .conjunction takesComparison
  cases level with
  | access => exact takes
  | multiplication => exact takesSigned
  | addition => exact takesMultiplication
  | comparison => exact takesAddition
  | conjunction => exact takesComparison
  | disjunction => exact takesConjunction

/-- A tree of some level is an expression. -/
theorem takes_expression_of_levelAt {level : Level}
    (takes : Takes (levelAt inner level) lexemes (StartsWith (EndsOperand (level.rank + 1)))
      holds) :
    Takes (expression inner) lexemes EndsExpression holds := by
  have ofDisjunction : Takes (disjunction inner) lexemes (StartsWith (EndsOperand 6)) holds →
      Takes (expression inner) lexemes EndsExpression holds :=
    fun takes => Takes.firstOf [] takes (by simp)
  have ofConjunction : Takes (conjunction inner) lexemes (StartsWith (EndsOperand 5)) holds →
      Takes (expression inner) lexemes EndsExpression holds :=
    fun takes => ofDisjunction (@takes_levelAt inner lexemes holds .disjunction takes)
  have ofComparison : Takes (comparison inner) lexemes (StartsWith (EndsOperand 4)) holds →
      Takes (expression inner) lexemes EndsExpression holds :=
    fun takes => ofConjunction (@takes_levelAt inner lexemes holds .conjunction takes)
  have ofAddition : Takes (addition inner) lexemes (StartsWith (EndsOperand 3)) holds →
      Takes (expression inner) lexemes EndsExpression holds :=
    fun takes => ofComparison (@takes_levelAt inner lexemes holds .comparison takes)
  have ofMultiplication : Takes (multiplication inner) lexemes (StartsWith (EndsOperand 2))
      holds → Takes (expression inner) lexemes EndsExpression holds :=
    fun takes => ofAddition (@takes_levelAt inner lexemes holds .addition takes)
  have ofAccess : Takes (access inner) lexemes (StartsWith (EndsOperand 1)) holds →
      Takes (expression inner) lexemes EndsExpression holds :=
    fun takes => ofMultiplication
      (@takes_levelAt inner lexemes holds .multiplication (Takes.firstOf [] takes (by simp)))
  cases level with
  | access => exact ofAccess takes
  | multiplication => exact ofMultiplication takes
  | addition => exact ofAddition takes
  | comparison => exact ofComparison takes
  | conjunction => exact ofConjunction takes
  | disjunction => exact ofDisjunction takes

/-- A term is an expression. -/
theorem takes_expression_of_term (takes : Takes (term inner) lexemes EndsTerm holds) :
    Takes (expression inner) lexemes EndsExpression holds :=
  takes_expression_of_levelAt (takes_levelAt (takes_operandAt takes .access))

theorem takes_expression_binary {position : Position} {level : Level} {operator : String}
    {left right : Expr} {rightLexemes : List Lexeme} (isOperator : operator ∈ level.operators)
    (takesLeft : Takes (term inner) lexemes EndsTerm (Same left))
    (takesRight : Takes (term inner) rightLexemes EndsTerm (Same right)) :
    Takes (expression inner) (lexemes ++ .operator level operator :: rightLexemes)
      EndsExpression (Same (.binary position level operator left right)) := by
  have takesRightOperand : Takes (operandAt inner level) rightLexemes
      (StartsWith (EndsOperand (level.rank + 1))) (Same right) := by
    apply (takes_operandAt takesRight level).mono
    intro rest starts
    exact starts.mono fun _ ends => ends.mono (Nat.le_succ _)
  have takesPair : Takes (levelAt inner level)
      (lexemes ++ .operator level operator :: rightLexemes)
      (StartsWith (EndsOperand (level.rank + 1)))
      (Same (.binary position level operator left right)) := by
    rw [levelAt_eq]
    apply (takes_operandAt takesLeft level).chainLeft_pair takesRightOperand
    · intro rest
      exact endsOperand_of_isOperator (isOperator_operator isOperator)
    · rintro token isLexeme
      rw [isLexeme]
      exact isOperator_operator isOperator
    · exact noOperator_of_ends
    · intro token first second isLexeme sameFirst sameSecond
      have text : token.text = operator := congrArg Lexeme.text isLexeme
      simp only [Same, Expr.unplaced, text] at sameFirst sameSecond ⊢
      rw [sameFirst, sameSecond]
  exact takes_expression_of_levelAt takesPair

theorem takes_expression_negation {position : Position} {operand : Expr}
    (takes : Takes (term inner) lexemes EndsTerm (Same operand)) :
    Takes (expression inner) (.minus :: lexemes) EndsExpression
      (Same (.negation position operand)) := by
  have takesAccess : Takes (access inner) lexemes (StartsWith (EndsOperand 1)) (Same operand) :=
    takes_levelAt (takes_operandAt takes .access)
  have takesNegation : Takes (negation inner) (.minus :: lexemes) (StartsWith (EndsOperand 1))
      (Same (.negation position operand)) := by
    apply Takes.attempt
    apply Takes.nextPosition.nothing
    · intro place _
      apply (Takes.skip (hasText .minus)).cons
      intro _ _
      apply takesAccess.map
      intro value same
      simp only [Same, Expr.unplaced] at same ⊢
      rw [same]
    · intro rest _
      trivial
  have takesSigned : Takes (operandAt inner .multiplication) (.minus :: lexemes)
      (StartsWith (EndsOperand 1)) (Same (.negation position operand)) := by
    apply Takes.firstOf [access inner] takesNegation
    simp only [List.forall_mem_cons]
    exact ⟨(refuses_access inner).begins rfl, by simp⟩
  exact takes_expression_of_levelAt (takes_levelAt takesSigned)

theorem takes_expression_conditional (selective : Selective inner) {breakEmpty : Bool}
    {condition : Expr} {onTrue onFalse : List Stmt}
    (takes : Takes (term inner) (parenthesizedLexemes (condition.lexemes breakEmpty)) EndsTerm
      (Same condition))
    (writtenTrue : ∀ statement ∈ onTrue, WrittenStmt inner.statement breakEmpty statement)
    (writtenFalse : ∀ statement ∈ onFalse, WrittenStmt inner.statement breakEmpty statement) :
    Takes (expression inner) (Expr.lexemes breakEmpty (.conditional condition onTrue onFalse))
      EndsExpression (Same (.conditional condition onTrue onFalse)) := by
  have takesCondition : Takes (disjunction inner)
      (parenthesizedLexemes (condition.lexemes breakEmpty)) EndsExpression (Same condition) :=
    takes_levelAt (takes_operandAt takes .disjunction)
  have takesOtherwise : Takes (otherwise inner)
      (.keyword "else" :: stmtsLexemes breakEmpty onFalse)
      (StartsWith (startsStatement · = false)) fun values =>
        stmtsUnplaced values = stmtsUnplaced onFalse := by
    apply Takes.firstOf [] _ (by simp)
    apply (Takes.skip (hasText (.keyword "else"))).cons
    intro _ _
    exact takes_body selective writtenFalse
  have takesConditional : Takes (conditional inner)
      (Expr.lexemes breakEmpty (.conditional condition onTrue onFalse)) (fun _ => True)
      (Same (.conditional condition onTrue onFalse)) := by
    apply Takes.attempt
    apply (Takes.skip (hasText (.keyword "if"))).cons
    intro _ _
    apply (takesCondition.orRaise _).bind
    · intro parsed sameCondition
      apply (Takes.demand (hasText (.keyword "do"))).cons
      intro _ _
      apply (takes_body selective writtenTrue).bind
      · intro parsedTrue sameTrue
        rw [← List.cons_append]
        apply takesOtherwise.bind
        · intro parsedFalse sameFalse
          apply (Takes.demand (hasText (.keyword "end"))).cons
          intro _ _
          apply Takes.pure
          simp only [Same, Expr.unplaced] at sameCondition ⊢
          rw [sameCondition, sameTrue, sameFalse]
        · intro rest _
          rfl
      · intro rest _
        rfl
    · intro rest _
      exact endsOperand_of_kind (by decide) 6
  apply Takes.firstOf [disjunction inner] (takesConditional.mono fun _ _ => trivial)
  simp only [List.forall_mem_cons]
  exact ⟨(refuses_disjunction inner).begins ⟨rfl, by decide⟩, by simp⟩

end Levels

/-! ## Statements -/

section Statements

variable {inner : Inner} {breakEmpty : Bool} {lexemes : List Lexeme}
  {suitable : List Lexeme → Prop} {holds : Stmt → Prop}

theorem takes_statement
    (takes : Takes (firstOf [assignment inner, evaluation inner, definition inner]) lexemes
      suitable holds)
    (noNewline : StartsWith (·.kind ≠ .newline) lexemes) :
    Takes (statement inner) lexemes suitable holds := by
  intro tokens rest same isSuitable
  have starts : StartsWith (·.kind ≠ .newline) ((tokens ++ rest).map Token.lexeme) := by
    rw [List.map_append, same]
    exact noNewline.append _
  rw [statement_of_starts inner starts]
  exact takes tokens rest same isSuitable

theorem takes_target {name : String} (notBuiltin : name ∉ builtinNames) :
    Takes target [.symbol name, .assign] (fun _ => True) fun token => token.text = name := by
  apply (Takes.satisfy (Takes.hasKind (.symbol name))).cons
  intro token isLexeme
  apply (Takes.skip (Takes.hasKind .assign)).cons
  intro _ _
  have text : token.text = name := congrArg Lexeme.text isLexeme
  have allowed : builtinNames.contains token.text = false := by
    rw [text]
    simpa using notBuiltin
  simp only [allowed]
  exact Takes.pure text

theorem takes_statement_assign {name : String} {value : Expr} (notBuiltin : name ∉ builtinNames)
    (takes : Takes inner.expression lexemes EndsExpression (Same value)) :
    Takes (statement inner) (.symbol name :: .assign :: lexemes) (StartsWith (· = .newline))
      fun parsed => parsed.unplaced = (Stmt.assign name value).unplaced := by
  have takesAssignment : Takes (assignment inner) ([.symbol name, .assign] ++ lexemes)
      (StartsWith (· = .newline))
      fun parsed => parsed.unplaced = (Stmt.assign name value).unplaced := by
    apply Takes.attempt
    apply (takes_target notBuiltin).bind
    · intro token text
      apply ((takes.before (by decide)).orRaise _).map
      intro parsed same
      simp only [Same] at same
      simp only [Stmt.unplaced, text, same]
    · intro rest _
      trivial
  apply takes_statement
  · exact Takes.firstOf [] takesAssignment (by simp)
  · nofun

theorem takes_statement_evaluate {expression' : Expr}
    (takes : Takes (expression inner) lexemes EndsExpression (Same expression'))
    (refuses : Refuses (assignment inner) (Begins lexemes (StartsWith (· = .newline))))
    (noNewline : StartsWith (·.kind ≠ .newline) lexemes) :
    Takes (statement inner) lexemes (StartsWith (· = .newline))
      fun parsed => parsed.unplaced = (Stmt.evaluate expression').unplaced := by
  have takesEvaluation : Takes (evaluation inner) lexemes (StartsWith (· = .newline))
      fun parsed => parsed.unplaced = (Stmt.evaluate expression').unplaced := by
    apply (takes.before (by decide)).map
    intro parsed same
    simp only [Same] at same
    simp only [Stmt.unplaced, same]
  apply takes_statement _ noNewline
  apply Takes.firstOf [assignment inner] takesEvaluation
  simpa using refuses

theorem takes_statement_define (selective : Selective inner) {name : String}
    {parameters : List String} {statements : List Stmt}
    (written : ∀ statement ∈ statements, WrittenStmt inner.statement breakEmpty statement) :
    Takes (statement inner) (Stmt.lexemes breakEmpty (.define name parameters statements))
      (StartsWith (· = .newline)) fun parsed =>
        parsed.unplaced = (Stmt.define name parameters statements).unplaced := by
  have takesDefinition : Takes (definition inner)
      (Stmt.lexemes breakEmpty (.define name parameters statements)) (fun _ => True)
      fun parsed => parsed.unplaced = (Stmt.define name parameters statements).unplaced := by
    apply Takes.attempt
    apply (Takes.skip (isKeyword_keyword "def")).cons
    intro _ _
    apply ((takes_name name).orRaise _).cons
    rintro _ rfl
    apply takes_function selective written
    intro parsed same
    simp only [Stmt.unplaced, same]
  apply takes_statement
  · apply Takes.firstOf [assignment inner, evaluation inner]
      (takesDefinition.mono fun _ _ => trivial)
    simp only [List.forall_mem_cons]
    exact ⟨(refuses_assignment inner).begins nofun,
      ((refuses_expression inner).bind _).begins rfl, by simp⟩
  · nofun

/-- An expression is no assignment: only a symbol starts like one, and a newline follows. -/
theorem refuses_assignment_expression {expression' : Expr}
    (printable : expression'.isPrintable breakEmpty = true) :
    Refuses (assignment inner)
      (Begins (expression'.lexemes breakEmpty) (StartsWith (· = .newline))) := by
  cases expression' with
  | symbol position name =>
      have takesSymbol : Takes (satisfy fun token => token.kind = .symbol) [.symbol name]
          (StartsWith (· = .newline)) fun token => token.lexeme = .symbol name :=
        (Takes.satisfy (Takes.hasKind (.symbol name))).mono fun _ _ => trivial
      have noAssign : Refuses (skip fun token => token.kind = .assignment)
          (StartsWith (· = .newline)) := by
        apply Refuses.skip
        intro token isNewline
        have kind : token.kind = .newline := congrArg Lexeme.kind isNewline
        simp [kind]
      exact .attempt (Fails.bind (takesSymbol.fails fun _ _ => (noAssign.bind _).fails) _)
  | text content =>
      apply (refuses_assignment inner).begins
      rcases kind_quoted content with kind | kind <;> simp [Expr.lexemes, StartsWith, kind]
  | misplaced form name? => cases printable
  | integer | negation | binary | list | record | item | call | lambda | conditional =>
      exact (refuses_assignment inner).begins (by rintro ⟨⟩)

/-- No expression starts with a newline. -/
theorem noNewline_expression {expression' : Expr}
    (printable : expression'.isPrintable breakEmpty = true) :
    StartsWith (·.kind ≠ .newline) (expression'.lexemes breakEmpty) := by
  cases expression' with
  | text content =>
      rcases kind_quoted content with kind | kind <;> simp [Expr.lexemes, StartsWith, kind]
  | misplaced form name? => cases printable
  | integer | symbol | negation | binary | list | record | item | call | lambda | conditional =>
      rintro ⟨⟩

end Statements

end StackScript.Grammar
