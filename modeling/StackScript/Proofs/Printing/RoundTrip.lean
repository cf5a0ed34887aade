import StackScript.Proofs.Printing.Statements
import StackScript.Script

/-!
# Written scripts are read back

A script that has been written can be read, and the tree that is read differs from the one that
was written at most in its places (`Script.surface_written`).
-/

namespace StackScript.Surface

open StackScript.Grammar

/-! ## Depth

The rules are tied together up to a depth.  A tree needs no greater depth than it has lexemes,
and the parts of a tree have fewer lexemes than the tree. -/

/-- A printable expression is read from its lexemes at every sufficient depth. -/
def ReadsExpr (breakEmpty : Bool) (expression : Expr) : Prop :=
  expression.isPrintable breakEmpty = true →
    ∀ depth, (expression.lexemes breakEmpty).length ≤ depth →
      Takes (Grammar.expression (nested depth)) (expression.lexemes breakEmpty) EndsExpression
        (Same expression)

def ReadsStmt (breakEmpty : Bool) (statement : Stmt) : Prop :=
  statement.isPrintable breakEmpty = true →
    ∀ depth, (statement.lexemes breakEmpty).length ≤ depth →
      Takes (Grammar.statement (nested depth)) (statement.lexemes breakEmpty)
        (StartsWith (· = .newline)) fun parsed => parsed.unplaced = statement.unplaced

section Depth

variable {breakEmpty : Bool} {expression : Expr} {depth : Nat}

theorem length_parenthesizedLexemes (inside : List Lexeme) :
    (parenthesizedLexemes inside).length = inside.length + 2 := by
  simp [parenthesizedLexemes]

theorem selective_of_pos (positive : 0 < depth) : Selective (nested depth) := by
  cases depth with
  | zero => cases positive
  | succ depth => exact selective_nested depth

/-- An expression that is nested inside. -/
theorem ReadsExpr.inside (reads : ReadsExpr breakEmpty expression)
    (printable : expression.isPrintable breakEmpty = true)
    (deep : (expression.lexemes breakEmpty).length < depth) :
    Takes (nested depth).expression (expression.lexemes breakEmpty) EndsExpression
      (Same expression) := by
  cases depth with
  | zero => cases deep
  | succ depth => exact reads printable depth (Nat.le_of_lt_succ deep)

/-- An expression in parentheses. -/
theorem ReadsExpr.term (reads : ReadsExpr breakEmpty expression)
    (printable : expression.isPrintable breakEmpty = true)
    (deep : (parenthesizedLexemes (expression.lexemes breakEmpty)).length ≤ depth) :
    Takes (Grammar.term (nested depth)) (parenthesizedLexemes (expression.lexemes breakEmpty))
      EndsTerm (Same expression) := by
  rw [length_parenthesizedLexemes] at deep
  exact takes_term_group (reads.inside printable (by omega))

/-- An expression in parentheses that is nested inside. -/
theorem ReadsExpr.parenthesized (reads : ReadsExpr breakEmpty expression)
    (printable : expression.isPrintable breakEmpty = true)
    (deep : (parenthesizedLexemes (expression.lexemes breakEmpty)).length < depth) :
    Takes (nested depth).expression (parenthesizedLexemes (expression.lexemes breakEmpty))
      EndsExpression (Same expression) := by
  cases depth with
  | zero => cases deep
  | succ depth =>
      exact takes_expression_of_term (reads.term printable (Nat.le_of_lt_succ deep))

theorem length_le_flatMap {ι : Type} {items : List ι} {item : ι} (member : item ∈ items)
    (write : ι → List Lexeme) : (write item).length ≤ (items.flatMap write).length := by
  rw [List.flatMap_def]
  exact (List.sublist_flatten_of_mem (List.mem_map_of_mem member)).length_le

theorem length_le_separated {parts : List (List Lexeme)} {part : List Lexeme}
    (member : part ∈ parts) : part.length ≤ (separatedLexemes parts).length := by
  cases parts with
  | nil => cases member
  | cons first others =>
      rw [separatedLexemes, List.length_append]
      rcases List.mem_cons.mp member with rfl | later
      · omega
      · have inside := length_le_flatMap later fun other => [.comma] ++ other
        simp only [List.length_append] at inside
        omega

theorem takes_items {items : List Expr} {closing : Lexeme}
    (reads : ∀ item ∈ items, ReadsExpr breakEmpty item)
    (printable : exprsPrintable breakEmpty items = true)
    (deep : (separatedLexemes (exprsLexemes breakEmpty items)).length < depth)
    (isClosing : closing = .closeParen ∨ closing = .closeBracket) :
    Takes (expressions (nested depth)) (separatedLexemes (exprsLexemes breakEmpty items))
      (StartsWith (· = closing)) fun values => exprsUnplaced values = exprsUnplaced items := by
  apply takes_expressions (selective_of_pos (by omega)) _ isClosing
  intro item member
  apply (reads item member).parenthesized (exprsPrintable_iff.mp printable item member)
  have isPart : parenthesizedLexemes (item.lexemes breakEmpty) ∈ exprsLexemes breakEmpty items := by
    rw [exprsLexemes_eq_map]
    exact List.mem_map_of_mem member
  have inside := length_le_separated isPart
  omega

theorem noNewline_statement {statement : Stmt}
    (printable : statement.isPrintable breakEmpty = true) :
    StartsWith (·.kind ≠ .newline) (statement.lexemes breakEmpty) := by
  cases statement with
  | assign | define => nofun
  | evaluate expression => exact noNewline_expression printable
  | misplaced form => cases printable

theorem written_statements {statements : List Stmt}
    (reads : ∀ statement ∈ statements, ReadsStmt breakEmpty statement)
    (printable : stmtsPrintable breakEmpty statements = true)
    (deep : (stmtsLexemes breakEmpty statements).length < depth) :
    ∀ statement ∈ statements, WrittenStmt (nested depth).statement breakEmpty statement := by
  intro statement member
  have printableOne := stmtsPrintable_iff.mp printable statement member
  refine ⟨?_, noNewline_statement printableOne⟩
  have inside := length_le_flatMap member fun statement =>
    statement.lexemes breakEmpty ++ [.newline]
  rw [← stmtsLexemes_eq_flatMap, List.length_append] at inside
  cases depth with
  | zero => cases deep
  | succ depth => exact reads statement member printableOne depth (by omega)

end Depth

theorem treeStep_reads (breakEmpty : Bool) :
    TreeStep (ReadsExpr breakEmpty) (ReadsStmt breakEmpty) where
  integer value printable depth deep :=
    takes_expression_of_term (takes_term_integer (of_decide_eq_true printable))
  text content printable depth deep := takes_expression_of_term (takes_term_text content)
  symbol position name printable depth deep :=
    takes_expression_of_term (takes_term_symbol position name)
  negation position operand reads printable depth deep := by
    rw [Expr.lexemes, List.length_cons] at deep
    exact takes_expression_negation (reads.term printable (by omega))
  binary position level operator left right readsLeft readsRight printable depth deep := by
    simp only [Expr.isPrintable, Bool.and_eq_true, decide_eq_true_eq] at printable
    simp only [Expr.lexemes, List.length_append, List.length_cons] at deep
    exact takes_expression_binary printable.1.1 (readsLeft.term printable.1.2 (by omega))
      (readsRight.term printable.2 (by omega))
  list items reads printable depth deep := by
    simp only [Expr.lexemes, List.length_append, List.length_cons] at deep
    exact takes_expression_of_term
      (takes_term_list (takes_items reads printable (by omega) (.inr rfl)))
  record fields reads printable depth deep := by
    simp only [Expr.isPrintable, Bool.and_eq_true] at printable
    have breaks : fields = [] → breakEmpty = false := by
      rintro rfl
      simpa using printable.1
    simp only [Expr.lexemes, List.length_append, List.length_cons] at deep
    apply takes_expression_of_term
    apply takes_term_record (selective_of_pos (by omega)) _ breaks
    intro field member
    apply (reads field member).inside (fieldsPrintable_iff.mp printable.2 field member).2
    have inside := length_le_flatMap member fun field =>
      fieldLexemes breakEmpty field ++ [.comma, .newline]
    rw [← fieldsLexemes_eq_flatMap] at inside
    simp only [fieldLexemes, List.length_append, List.length_cons] at inside
    omega
  item position subject index readsSubject readsIndex printable depth deep := by
    simp only [Expr.isPrintable, Bool.and_eq_true] at printable
    simp only [Expr.lexemes, List.length_append, List.length_cons,
      length_parenthesizedLexemes] at deep
    exact takes_expression_of_term (takes_term_item (readsSubject.inside printable.1 (by omega))
      (readsIndex.inside printable.2 (by omega)))
  call position function arguments readsFunction readsArguments printable depth deep := by
    simp only [Expr.isPrintable, Bool.and_eq_true] at printable
    simp only [Expr.lexemes, List.length_append, List.length_cons,
      length_parenthesizedLexemes] at deep
    exact takes_expression_of_term (takes_term_call (readsFunction.inside printable.1 (by omega))
      (takes_items readsArguments printable.2 (by omega) (.inl rfl)))
  lambda parameters body reads printable depth deep := by
    simp only [Expr.isPrintable, Bool.and_eq_true] at printable
    simp only [Expr.lexemes, functionLexemes, List.length_append, List.length_cons] at deep
    exact takes_expression_of_term (takes_term_lambda (selective_of_pos (by omega))
      (written_statements reads.statements printable.2 (by omega)))
  conditional condition onTrue onFalse reads readsTrue readsFalse printable depth deep := by
    simp only [Expr.isPrintable, Bool.and_eq_true] at printable
    simp only [Expr.lexemes, List.length_append, List.length_cons] at deep
    exact takes_expression_conditional (selective_of_pos (by omega))
      (reads.term printable.1.1 (by omega))
      (written_statements readsTrue.statements printable.1.2 (by omega))
      (written_statements readsFalse.statements printable.2 (by omega))
  misplacedExpr form name? printable := nomatch printable
  assign target value reads printable depth deep := by
    simp only [Stmt.isPrintable, Bool.and_eq_true, decide_eq_true_eq] at printable
    simp only [Stmt.lexemes, List.length_cons] at deep
    exact takes_statement_assign printable.1.2 (reads.parenthesized printable.2 (by omega))
  evaluate expression reads printable depth deep :=
    takes_statement_evaluate (reads printable depth deep)
      (refuses_assignment_expression printable) (noNewline_expression printable)
  define name parameters body reads printable depth deep := by
    simp only [Stmt.isPrintable, Bool.and_eq_true] at printable
    simp only [Stmt.lexemes, functionLexemes, List.length_append, List.length_cons] at deep
    exact takes_statement_define (selective_of_pos (by omega))
      (written_statements reads.statements printable.2 (by omega))
  misplacedStmt form printable := nomatch printable

/-- A script is parsed from tokens with its lexemes. -/
theorem parse_of_lexemes {breakEmpty : Bool} {program : Program}
    (printable : program.isPrintable breakEmpty = true) {tokens : List Token}
    (isWritten : tokens.map Token.lexeme = stmtsLexemes breakEmpty program.statements) :
    ∃ parsed, parse tokens = .ok parsed ∧ parsed.unplaced = program.unplaced := by
  have deep : (stmtsLexemes breakEmpty program.statements).length < tokens.length + 1 := by
    rw [← isWritten, List.length_map]
    omega
  have reads : ∀ statement ∈ program.statements, ReadsStmt breakEmpty statement :=
    fun statement _ => ((treeStep_reads breakEmpty).stmt statement).1
  have written := written_statements reads printable deep
  have takes : Takes (Grammar.program (nested tokens.length))
      (stmtsLexemes breakEmpty program.statements) NoStatement
      fun parsed => parsed.unplaced = program.unplaced := by
    rw [stmtsLexemes_eq_flatMap]
    apply (takes_many (statement_newline _) rfl (refuses_statement _) program.statements
      written).map
    intro values same
    rw [Program.unplaced, Program.unplaced, stmtsUnplaced_eq_map, stmtsUnplaced_eq_map, same]
  rcases takes tokens [] isWritten (.inl rfl) with ⟨parsed, accepted, same⟩
  rw [List.append_nil] at accepted
  refine ⟨parsed, ?_, same⟩
  rw [parse, Parser.finish, accepted]

end StackScript.Surface

namespace StackScript.Script

open StackScript.Surface (Program)

/-- A printable script is written as a text from which its tree is read, up to places. -/
theorem surface_written {breakEmpty : Bool} {program : Program}
    (printable : program.isPrintable breakEmpty = true) :
    ∃ parsed, Script.surface (program.written breakEmpty) = .ok parsed ∧
      parsed.unplaced = program.unplaced := by
  have found := Surface.allFound_stmts
    (fun statement _ => (Surface.treeStep_found breakEmpty).stmt statement |>.1) printable
  rcases tokenize_render found with ⟨tokens, scanned, isWritten⟩
  rcases Surface.parse_of_lexemes printable isWritten with ⟨parsed, accepted, same⟩
  refine ⟨parsed, ?_, same⟩
  rw [Program.written, Script.surface, scanned]
  exact accepted

/-- A script with every form of expression and statement, written anywhere. -/
def everyNode : Program :=
  let symbol := Surface.Expr.symbol Surface.nowhere
  { statements :=
      [.define "f" ["x", "and"]
          [.assign "y" (.binary Surface.nowhere .comparison "<=" (symbol "x") (.integer 120)),
            .evaluate (.conditional (.negation Surface.nowhere (symbol "y"))
              [.evaluate (.text "it's")] [])],
        .assign "g" (.lambda []
          [.evaluate (.record [("a", symbol "x"), ("b", .list [.text "a \"b\"", .list []])])]),
        .evaluate (.call Surface.nowhere (symbol "f")
          [.item Surface.nowhere (symbol "g") (.integer 0),
            .binary Surface.nowhere .access "." (symbol "g") (symbol "a")])] }

theorem everyNode_written :
    (everyNode.isPrintable true = true ∧
      ∃ parsed, Script.surface (everyNode.written true) = .ok parsed ∧
        parsed.unplaced = everyNode.unplaced) ∧
      everyNode.isPrintable false = true ∧
      ∃ parsed, Script.surface (everyNode.written false) = .ok parsed ∧
        parsed.unplaced = everyNode.unplaced := by
  have printable : everyNode.isPrintable true = true ∧ everyNode.isPrintable false = true := by
    decide +kernel
  exact ⟨⟨printable.1, surface_written printable.1⟩, printable.2, surface_written printable.2⟩

/-- A script that consists of a record without fields. -/
def emptyRecord : Program :=
  { statements := [.evaluate (.record [])] }

/-- A record without fields is refused if a newline is written in it. -/
theorem emptyRecord_broken :
    emptyRecord.isPrintable false = true ∧ emptyRecord.written true = "( \n ) \n " ∧
      Script.surface (emptyRecord.written true) = .error .malformedConstruct ∧
      ¬∀ program : Program, program.isPrintable false = true →
        ∃ parsed, Script.surface (program.written true) = .ok parsed ∧
          parsed.unplaced = program.unplaced := by
  have printable : emptyRecord.isPrintable false = true := by
    decide +kernel
  have refused : Script.surface (emptyRecord.written true) = .error .malformedConstruct := by
    rfl
  refine ⟨printable, by decide +kernel, refused, ?_⟩
  intro readBack
  rcases readBack emptyRecord printable with ⟨parsed, accepted, _⟩
  rw [refused] at accepted
  cases accepted

end StackScript.Script
