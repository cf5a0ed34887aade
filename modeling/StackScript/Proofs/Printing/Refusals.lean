import StackScript.Grammar.Statement
import StackScript.Proofs.Printing.Takes
import StackScript.Proofs.Printing.Trees

/-!
# What the rules of the grammar refuse

A rule that is tried before the right one has to refuse what has been written.  Which rules
refuse it depends on the lexeme that it starts with, and where an operand ends depends on the
lexeme that follows it.
-/

namespace StackScript

namespace Surface.Level

/-- How loosely the operators of a level bind. -/
def rank : Level → Nat
  | access => 0
  | multiplication => 1
  | addition => 2
  | comparison => 3
  | conjunction => 4
  | disjunction => 5

def isOperator : Level → Lexeme → Bool
  | conjunction, lexeme => lexeme.kind = .symbol && lexeme.text = "and"
  | disjunction, lexeme => lexeme.kind = .symbol && lexeme.text = "or"
  | level, lexeme => lexeme.kind = level.kind

end Surface.Level

namespace Grammar

open StackScript.Grammar.Parser
open StackScript.Surface

/-- A lexeme that ends an operand of a given rank: it is neither the start of arguments or of
an index, nor an operator that binds more tightly. -/
structure EndsOperand (rank : Nat) (lexeme : Lexeme) : Prop where
  notParen : lexeme.kind ≠ .openParen
  notBracket : lexeme.kind ≠ .openBracket
  noOperator : ∀ level : Level, level.rank < rank → level.isOperator lexeme = false

theorem EndsOperand.mono {low high : Nat} {lexeme : Lexeme} (ends : EndsOperand high lexeme)
    (lower : low ≤ high) : EndsOperand low lexeme :=
  ⟨ends.notParen, ends.notBracket, fun level below => ends.noOperator level (by omega)⟩

/-- The kinds of lexemes that end every operand. -/
def endingKinds : List Kind := [.newline, .comma, .closeParen, .closeBracket, .keyword]

theorem endsOperand_of_kind {lexeme : Lexeme} (ends : lexeme.kind ∈ endingKinds) (rank : Nat) :
    EndsOperand rank lexeme := by
  simp only [endingKinds, List.mem_cons, List.not_mem_nil, or_false] at ends
  refine ⟨?_, ?_, fun level _ => ?_⟩
  · rcases ends with kind | kind | kind | kind | kind <;> simp [kind]
  · rcases ends with kind | kind | kind | kind | kind <;> simp [kind]
  · cases level <;> rcases ends with kind | kind | kind | kind | kind <;>
      simp [Level.isOperator, Level.kind, kind]

theorem kind_of_isOperator {level : Level} {lexeme : Lexeme}
    (isOperator : level.isOperator lexeme = true) : lexeme.kind = level.kind := by
  cases level with
  | conjunction => exact of_decide_eq_true (Bool.and_eq_true_iff.mp isOperator).1
  | disjunction => exact of_decide_eq_true (Bool.and_eq_true_iff.mp isOperator).1
  | _ => exact of_decide_eq_true isOperator

/-- An operator ends the operand on its left. -/
theorem endsOperand_of_isOperator {level : Level} {lexeme : Lexeme}
    (isOperator : level.isOperator lexeme = true) : EndsOperand level.rank lexeme := by
  have isKind := kind_of_isOperator isOperator
  refine ⟨?_, ?_, fun other below => ?_⟩
  · rw [isKind]
    cases level <;> nofun
  · rw [isKind]
    cases level <;> nofun
  · rw [← Bool.not_eq_true]
    intro isOther
    have sameKind := (kind_of_isOperator isOther).symm.trans isKind
    -- Only the two words have a kind in common.
    cases level <;> cases other <;> simp [Level.kind, Level.rank] at sameKind below
    have isAnd := of_decide_eq_true (Bool.and_eq_true_iff.mp isOther).2
    have isOr := of_decide_eq_true (Bool.and_eq_true_iff.mp isOperator).2
    exact absurd (isAnd.symm.trans isOr) (by decide)

theorem isOperator_operator {level : Level} {operator : String}
    (isOperator : operator ∈ level.operators) :
    level.isOperator (.operator level operator) = true := by
  cases level <;> simp_all [Lexeme.operator, Level.kind, Level.isOperator, Level.operators]

/-! ## What no term starts with -/

/-- Whether a term can start with a lexeme. -/
def startsTerm (lexeme : Lexeme) : Bool :=
  [Kind.symbol, .openParen, .integer, .doubleQuoted, .singleQuoted,
      .openBracket].contains lexeme.kind ||
    (lexeme.kind = .keyword && lexeme.text = "lambda")

def startsExpression (lexeme : Lexeme) : Bool :=
  startsTerm lexeme || lexeme.text = "-" || lexeme.text = "if"

/-- Whether a statement can start with a lexeme, or a newline before it. -/
def startsStatement (lexeme : Lexeme) : Bool :=
  startsExpression lexeme || lexeme.kind = .newline ||
    (lexeme.kind = .keyword && lexeme.text = "def")

section Refusals

variable (inner : Inner)

theorem refuses_symbol : Refuses symbol (StartsWith (·.kind ≠ .symbol)) :=
  (Refuses.satisfy fun _ => decide_eq_false).bind _

theorem refuses_integer : Refuses integer (StartsWith (·.kind ≠ .integer)) :=
  (Refuses.satisfy fun _ => decide_eq_false).bind _

theorem refuses_text :
    Refuses text (StartsWith fun lexeme =>
      lexeme.kind ≠ .doubleQuoted ∧ lexeme.kind ≠ .singleQuoted) := by
  apply Refuses.bind
  apply Refuses.satisfy
  rintro token ⟨notDouble, notSingle⟩
  exact Bool.or_eq_false_iff.mpr ⟨decide_eq_false notDouble, decide_eq_false notSingle⟩

theorem refuses_group : Refuses (group inner) (StartsWith (·.kind ≠ .openParen)) :=
  Refuses.wrapped _ _ _

theorem refuses_record : Refuses (record inner) (StartsWith (·.kind ≠ .openParen)) :=
  (Refuses.wrapped _ _ _).bind _

theorem refuses_list : Refuses (list inner) (StartsWith (·.kind ≠ .openBracket)) :=
  (Refuses.wrapped _ _ _).bind _

theorem refuses_keyword {word : String} (token : Token)
    (other : ¬(token.lexeme.kind = .keyword ∧ token.lexeme.text = word)) :
    token.isKeyword word = false := by
  rw [Token.isKeyword, ← Bool.decide_and]
  exact decide_eq_false other

theorem refuses_lambda :
    Refuses (lambda inner) (StartsWith fun lexeme =>
      ¬(lexeme.kind = .keyword ∧ lexeme.text = "lambda")) :=
  .attempt ((Refuses.skip refuses_keyword).bind _).fails

theorem refuses_head :
    Refuses (head inner) (StartsWith fun lexeme =>
      lexeme.kind ≠ .symbol ∧ lexeme.kind ≠ .openParen) := by
  apply Refuses.firstOf
  simp only [List.forall_mem_cons]
  exact ⟨refuses_symbol.starting fun _ => And.left,
    (refuses_group inner).starting fun _ => And.right, by simp⟩

/-- What a lexeme is not that no term starts with. -/
theorem kind_of_startsTerm {lexeme : Lexeme} (none : startsTerm lexeme = false) :
    (lexeme.kind ≠ .symbol ∧ lexeme.kind ≠ .openParen ∧ lexeme.kind ≠ .integer ∧
      lexeme.kind ≠ .doubleQuoted ∧ lexeme.kind ≠ .singleQuoted ∧
      lexeme.kind ≠ .openBracket) ∧ ¬(lexeme.kind = .keyword ∧ lexeme.text = "lambda") := by
  simpa [startsTerm, and_assoc] using none

theorem refuses_term : Refuses (term inner) (StartsWith (startsTerm · = false)) := by
  have refusesHead : Refuses (head inner) (StartsWith (startsTerm · = false)) :=
    (refuses_head inner).starting fun _ none =>
      ⟨(kind_of_startsTerm none).1.1, (kind_of_startsTerm none).1.2.1⟩
  apply Refuses.firstOf
  simp only [List.forall_mem_cons]
  refine ⟨refusesHead.applied _ _, refusesHead.applied _ _, (refuses_group inner).starting ?_,
    refuses_integer.starting ?_, refuses_text.starting ?_, (refuses_list inner).starting ?_,
    (refuses_lambda inner).starting ?_, refuses_symbol.starting ?_,
    (refuses_record inner).starting ?_, by simp⟩
  all_goals
    intro lexeme none
    have := kind_of_startsTerm none
    tauto

theorem refuses_access : Refuses (access inner) (StartsWith (startsTerm · = false)) :=
  (refuses_term inner).chainLeft

theorem refuses_negation : Refuses (negation inner) (StartsWith (·.text ≠ "-")) := by
  apply Refuses.attempt
  intro tokens isRefused
  rcases exists_first isRefused with ⟨first, rest, rfl, notMinus⟩
  have refuses : Refuses (skip fun token => token.text = "-") (StartsWith (·.text ≠ "-")) :=
    Refuses.skip fun _ => decide_eq_false
  exact ⟨_, (refuses.bind _) (first :: rest) isRefused⟩

theorem refuses_disjunction :
    Refuses (disjunction inner) (StartsWith fun lexeme =>
      startsTerm lexeme = false ∧ lexeme.text ≠ "-") := by
  have refusesSigned : Refuses (signed inner) (StartsWith fun lexeme =>
      startsTerm lexeme = false ∧ lexeme.text ≠ "-") := by
    apply Refuses.firstOf
    simp only [List.forall_mem_cons]
    exact ⟨(refuses_access inner).starting fun _ => And.left,
      (refuses_negation inner).starting fun _ => And.right, by simp⟩
  exact refusesSigned.chainLeft.chainLeft.chainLeft.chainLeft.chainLeft

theorem refuses_conditional : Refuses (conditional inner) (StartsWith (·.text ≠ "if")) :=
  .attempt ((Refuses.skip fun _ => decide_eq_false).bind _).fails

theorem refuses_expression :
    Refuses (expression inner) (StartsWith (startsExpression · = false)) := by
  apply Refuses.firstOf
  simp only [List.forall_mem_cons]
  refine ⟨(refuses_disjunction inner).starting ?_, (refuses_conditional inner).starting ?_,
    by simp⟩
  all_goals
    intro lexeme none
    simp only [startsExpression, Bool.or_eq_false_iff, decide_eq_false_iff_not] at none
    tauto

theorem refuses_assignment : Refuses (assignment inner) (StartsWith (·.kind ≠ .symbol)) :=
  .attempt (((Refuses.satisfy fun _ => decide_eq_false).bind _).bind _).fails

theorem refuses_definition :
    Refuses (definition inner) (StartsWith fun lexeme =>
      ¬(lexeme.kind = .keyword ∧ lexeme.text = "def")) :=
  .attempt ((Refuses.skip refuses_keyword).bind _).fails

/-- Where the tokens end there is no statement, and neither where none can start. -/
def NoStatement (lexemes : List Lexeme) : Prop :=
  lexemes = [] ∨ StartsWith (startsStatement · = false) lexemes

/-- Newlines before a statement are skipped. -/
theorem statement_newline (token : Token) (tokens : List Token)
    (isNewline : token.kind = .newline) :
    statement inner (token :: tokens) = statement inner tokens := by
  simp only [statement, List.dropWhile_cons, isNewline, decide_true, if_true]

theorem statement_of_starts {tokens : List Token}
    (noNewline : StartsWith (·.kind ≠ .newline) (tokens.map Token.lexeme)) :
    statement inner tokens =
      firstOf [assignment inner, evaluation inner, definition inner] tokens := by
  have dropped : tokens.dropWhile (fun token => token.kind = .newline) = tokens :=
    @dropWhile_newlines [] tokens nofun noNewline
  rcases exists_first noNewline with ⟨first, rest, rfl, _⟩
  simp only [statement, dropped]

theorem refuses_statement : Refuses (statement inner) NoStatement := by
  rintro tokens (atEnd | starts)
  · rw [List.map_eq_nil_iff.mp atEnd]
    rfl
  · have refusesChoice : Refuses (firstOf [assignment inner, evaluation inner, definition inner])
        (StartsWith (startsStatement · = false)) := by
      apply Refuses.firstOf
      simp only [List.forall_mem_cons]
      refine ⟨(refuses_assignment inner).starting ?_,
        ((refuses_expression inner).starting ?_).bind _,
        (refuses_definition inner).starting ?_, by simp⟩
      all_goals
        intro lexeme none
        simp [startsStatement, startsExpression, startsTerm] at none ⊢
        tauto
    have noNewline : StartsWith (·.kind ≠ .newline) (tokens.map Token.lexeme) := by
      apply starts.mono
      intro lexeme none
      simp only [startsStatement, Bool.or_eq_false_iff, decide_eq_false_iff_not] at none
      exact none.1.2
    rw [statement_of_starts inner noNewline]
    exact refusesChoice tokens starts

end Refusals

end Grammar

end StackScript
