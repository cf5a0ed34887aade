import StackScript.Grammar.Statement
import StackScript.Proofs.Grammar.Reads
import StackScript.Proofs.Structured.Outline
import StackScript.Script
import Mathlib.Logic.Basic

/-!
# The names of functions

The name of a function comes from a symbol of the script.  The lexer makes symbols
only of words that are no keywords, so no function has a name with a `$` in it, and
none is called `if` (`Script.isName_of_mem_functions`).
-/

namespace StackScript

/-- A word that can be a name: it consists of small letters and underscores, and it is
no keyword. -/
structure IsName (text : String) : Prop where
  ne_nil : text.toList ≠ []
  characters : ∀ character ∈ text.toList, Lexer.isWordCharacter character = true
  not_keyword : text ∉ Lexer.keywords

/-- A symbol has a name as its text. -/
def Token.HasName (token : Token) : Prop :=
  token.kind = .symbol → IsName token.text

namespace IsName

variable {text : String}

theorem dollar_notMem (isName : IsName text) : '$' ∉ text.toList := by
  intro member
  have impossible := isName.characters '$' member
  revert impossible
  decide

theorem ne_if (isName : IsName text) : text ≠ "if" := by
  rintro rfl
  exact isName.not_keyword (by decide)

end IsName

namespace Lexer

/-- Only a word is a symbol. -/
theorem isName_of_lexeme? {first : Char} {rest : List Char} {length : Nat}
    (found : lexeme? first rest = some (.symbol, length)) :
    IsName (String.ofList (first :: rest.take length)) := by
  simp only [lexeme?] at found
  split at found
  · rename_i firstWord
    simp only [Option.some.injEq, Prod.mk.injEq] at found
    obtain ⟨isSymbol, rfl⟩ := found
    have taken : rest.take (rest.takeWhile isWordCharacter).length =
        rest.takeWhile isWordCharacter :=
      (List.prefix_iff_eq_take.mp (List.takeWhile_prefix isWordCharacter)).symm
    rw [taken]
    refine ⟨by simp, ?_, ?_⟩
    · intro character member
      rw [String.toList_ofList, List.mem_cons] at member
      rcases member with rfl | inTail
      · exact firstWord
      · exact List.all_eq_true.mp List.all_takeWhile character inTail
    · intro isKeyword
      rw [wordKind, if_pos (List.contains_iff_mem.mpr isKeyword)] at isSymbol
      cases isSymbol
  · split at found
    · cases found
    · -- Every other kind of token has its own kind, which is not that of a symbol.
      split at found <;> simp [ite_eq_iff] at found

/-- What holds of every lexeme holds of every token. -/
theorem forall_mem_of_scan {holds : Token → Prop}
    (ofLexeme : ∀ first rest kind length position, lexeme? first rest = some (kind, length) →
      holds { kind, text := String.ofList (first :: rest.take length), position })
    {characters : List Char} {index line pending : Nat} {tokens : List Token}
    (scanned : scan index line pending characters = .ok tokens) :
    ∀ token ∈ tokens, holds token := by
  induction characters generalizing index line pending tokens with
  | nil =>
      cases scanned
      simp
  | cons first rest ih =>
      cases pending with
      | succ pending => exact ih scanned
      | zero =>
          rw [scan] at scanned
          split at scanned
          · exact ih scanned
          · split at scanned
            · exact ih scanned
            · cases found : lexeme? first rest with
              | none =>
                  rw [found] at scanned
                  cases scanned
              | some lexeme =>
                  rcases lexeme with ⟨kind, length⟩
                  simp only [found] at scanned
                  rcases later : scan (index + 1) (if kind = .newline then line + 1 else line)
                    length rest with error | more
                  · rw [later] at scanned
                    cases scanned
                  · rw [later] at scanned
                    cases scanned
                    exact List.forall_mem_cons.mpr ⟨ofLexeme _ _ _ _ _ found, ih later⟩

/-- The symbols among the tokens of a text have names. -/
theorem hasName_of_scan {characters : List Char} {index line pending : Nat}
    {tokens : List Token} (scanned : scan index line pending characters = .ok tokens) :
    ∀ token ∈ tokens, token.HasName := by
  refine forall_mem_of_scan ?_ scanned
  rintro first rest kind length position found rfl
  exact isName_of_lexeme? found

end Lexer

namespace Grammar

open StackScript.Grammar.Parser
open StackScript.Surface (Expr Stmt Functions exprsFunctions fieldsFunctions stmtsFunctions)

/-- The functions of a tree that have a name have it from a symbol. -/
def Named (functions : Functions) : Prop :=
  ∀ name parameters, (some name, parameters) ∈ functions → IsName name

theorem Named.nil : Named [] := by
  intro name parameters member
  cases member

theorem Named.append {first second : Functions} (firstNamed : Named first)
    (secondNamed : Named second) : Named (first ++ second) := by
  intro name parameters member
  rcases List.mem_append.mp member with inFirst | inSecond
  · exact firstNamed name parameters inFirst
  · exact secondNamed name parameters inSecond

/-- All functions in an expression that have a name have it from a symbol. -/
abbrev NamedExpr (expression : Expr) : Prop :=
  Named (expression.functions true)

abbrev NamedStmt (statement : Stmt) : Prop :=
  Named (statement.functions true)

theorem named_exprs {expressions : List Expr}
    (named : ∀ expression ∈ expressions, NamedExpr expression) :
    Named (exprsFunctions true expressions) := by
  induction expressions with
  | nil => exact Named.nil
  | cons expression rest ih =>
      have namedBoth := List.forall_mem_cons.mp named
      exact namedBoth.1.append (ih namedBoth.2)

theorem named_fields {fields : List (String × Expr)}
    (named : ∀ field ∈ fields, NamedExpr field.2) : Named (fieldsFunctions true fields) := by
  induction fields with
  | nil => exact Named.nil
  | cons field rest ih =>
      have namedBoth := List.forall_mem_cons.mp named
      exact namedBoth.1.append (ih namedBoth.2)

theorem named_stmts {statements : List Stmt}
    (named : ∀ statement ∈ statements, NamedStmt statement) :
    Named (stmtsFunctions true statements) := by
  induction statements with
  | nil => exact Named.nil
  | cons statement rest ih =>
      have namedBoth := List.forall_mem_cons.mp named
      exact namedBoth.1.append (ih namedBoth.2)

/-- The functions of a tree are those of its parts, and its own one has the name of a
symbol. -/
theorem builds_named : Builds Token.HasName NamedExpr NamedStmt where
  integer _ := Named.nil
  text _ := Named.nil
  symbol _ _ := Named.nil
  negation _ operandNamed := operandNamed
  binary _ _ leftNamed rightNamed := leftNamed.append rightNamed
  list itemsNamed := named_exprs itemsNamed
  record fieldsNamed := named_fields fieldsNamed
  item _ subjectNamed indexNamed := subjectNamed.append indexNamed
  call _ functionNamed argumentsNamed := (named_exprs argumentsNamed).append functionNamed
  lambda := by
    intro parameters body bodyNamed name given member
    rcases List.mem_cons.mp member with same | inBody
    · cases same
    · exact named_stmts bodyNamed name given inBody
  conditional conditionNamed trueNamed falseNamed :=
    conditionNamed.append ((named_stmts trueNamed).append (named_stmts falseNamed))
  assign _ _ _ valueNamed := valueNamed
  evaluate expressionNamed := expressionNamed
  define := by
    intro token parameters body hasName isSymbol bodyNamed name given member
    rcases List.mem_cons.mp member with same | inBody
    · cases same
      exact hasName isSymbol
    · exact named_stmts bodyNamed name given inBody

end Grammar

/-- Every function of a script that has a name has it from a symbol. -/
theorem Script.isName_of_mem_functions {script : String} {program : Surface.Program}
    (parsed : Script.surface script = .ok program) {name : String} {parameters : List String}
    (member : (some name, parameters) ∈ program.functions true) : IsName name := by
  cases scanned : tokenize script with
  | error error =>
      simp only [Script.surface, scanned] at parsed
      cases parsed
  | ok tokens =>
      simp only [Script.surface, scanned] at parsed
      have statementsNamed := Grammar.builds_named.forall_statements_of_parse
        (Lexer.hasName_of_scan scanned) parsed
      exact Grammar.named_stmts statementsNamed name parameters member

end StackScript
