import StackScript.Proofs.Grammar.Rules
import StackScript.Proofs.Printing.Statements

/-!
# Rules that call rules

The rules of the grammar are given names here, so that one can speak of the calls that they make.
`Family.unfold` runs a rule once and leaves to a family of parsers what happens in the calls.
A call is below another one if it is made at a later token, or at the same token by a rule of
lower rank (`Below`).  There is no endless chain of such calls (`wellFounded_below`).

The grammar gives the same reply as one unfolding of any family that does so in the calls below
(`agrees_unfold`).
-/

namespace StackScript.Grammar

open StackScript.Grammar.Parser
open StackScript.Surface (Expr Stmt Level Program)

/-- The rules of the grammar.  `chain` is a level of infix operators. -/
inductive Rule where
  | integer
  | text
  | symbol
  | group
  | field
  | record
  | lambda
  | list
  | item
  | call
  | term
  | chain (level : Level)
  | negation
  | signed
  | conditional
  | expression
  | assignment
  | definition
  | evaluation
  | statement
  | program
  deriving DecidableEq, Repr

namespace Rule

/-- What a rule reads. -/
abbrev Value : Rule → Type
  | .field => String × Expr
  | .assignment | .definition | .evaluation | .statement => Stmt
  | .program => Program
  | _ => Expr

def parser (inner : Inner) : (rule : Rule) → Parser rule.Value
  | .integer => Grammar.integer
  | .text => Grammar.text
  | .symbol => Grammar.symbol
  | .group => Grammar.group inner
  | .field => Grammar.field inner
  | .record => Grammar.record inner
  | .lambda => Grammar.lambda inner
  | .list => Grammar.list inner
  | .item => Grammar.item inner
  | .call => Grammar.call inner
  | .term => Grammar.term inner
  | .chain level => levelAt inner level
  | .negation => Grammar.negation inner
  | .signed => Grammar.signed inner
  | .conditional => Grammar.conditional inner
  | .expression => Grammar.expression inner
  | .assignment => Grammar.assignment inner
  | .definition => Grammar.definition inner
  | .evaluation => Grammar.evaluation inner
  | .statement => Grammar.statement inner
  | .program => Grammar.program inner

/-- The place of a rule in the order of the grammar: a rule calls only rules of lower rank
before it has read a token. -/
def rank : Rule → Nat
  | .item | .call => 1
  | .term => 2
  | .chain level => 3 + 2 * level.rank
  | .signed => 4
  | .expression => 14
  | .evaluation => 15
  | .statement => 16
  | .program => 17
  | _ => 0

/-- How many tokens a rule takes at least where it accepts. -/
def least : Rule → Nat
  | .program => 0
  | _ => 1

end Rule

/-! ## Calls -/

/-- The parsers of all rules. -/
abbrev Family : Type :=
  (rule : Rule) → Parser rule.Value

/-- A call is below another one if it is made at a later token, or at the same token by a rule
of lower rank. -/
def Below (call caller : Rule × List Token) : Prop :=
  (call.2 <:+ caller.2 ∧ call.2.length < caller.2.length) ∨
    (call.2 = caller.2 ∧ call.1.rank < caller.1.rank)

theorem wellFounded_below : WellFounded Below := by
  have decreases : Subrelation Below
      (InvImage (Prod.Lex (· < ·) (· < ·)) fun call : Rule × List Token =>
        (call.2.length, call.1.rank)) := by
    rintro ⟨rule, tokens⟩ ⟨caller, start⟩ (⟨_, shorter⟩ | ⟨rfl, lower⟩)
    · exact Prod.Lex.left _ _ shorter
    · exact Prod.Lex.right _ lower
  exact decreases.wf (InvImage.wf _ (Prod.lex Nat.lt_wfRel Nat.lt_wfRel).wf)

namespace Family

/-- The parsers for what is nested inside a construct. -/
def inner (calls : Family) : Inner :=
  { expression := calls .expression
    statement := calls .statement }

def operand (calls : Family) : Level → Parser Expr
  | .access => calls .term
  | .multiplication => calls .signed
  | .addition => calls (.chain .multiplication)
  | .comparison => calls (.chain .addition)
  | .conjunction => calls (.chain .comparison)
  | .disjunction => calls (.chain .conjunction)

def head (calls : Family) : Parser Expr :=
  firstOf [calls .symbol, calls .group]

/-- One run of a rule, in which the calls go to the given parsers. -/
def unfold (calls : Family) : Family
  | .integer => Grammar.integer
  | .text => Grammar.text
  | .symbol => Grammar.symbol
  | .group => Grammar.group calls.inner
  | .field => Grammar.field calls.inner
  | .record => do
      let fields ← parenthesized (commaSeparated (calls .field))
      return .record fields
  | .lambda => Grammar.lambda calls.inner
  | .list => Grammar.list calls.inner
  | .item => applied calls.head (bracketed (calls .expression)) .item
  | .call => applied calls.head (parenthesized (commaSeparated (calls .expression))) .call
  | .term =>
      firstOf
        [calls .item, calls .call, calls .group, calls .integer, calls .text, calls .list,
          calls .lambda, calls .symbol, calls .record]
  | .chain level => infixLevel level (isOperatorOf level) (calls.operand level)
  | .negation => negated (calls (.chain .access))
  | .signed => firstOf [calls (.chain .access), calls .negation]
  | .conditional => conditionalOn (calls (.chain .disjunction)) calls.inner
  | .expression => firstOf [calls (.chain .disjunction), calls .conditional]
  | .assignment => Grammar.assignment calls.inner
  | .definition => Grammar.definition calls.inner
  | .evaluation => do
      let expression ← calls .expression
      return .evaluate expression
  | .statement =>
      afterNewlines (firstOf [calls .assignment, calls .evaluation, calls .definition])
  | .program => do
      let statements ← many (calls .statement)
      return { statements }

end Family

section Agreement

variable {matching : Matching} {onExpr : Expr → Expr → Prop} {onStmt : Stmt → Stmt → Prop}
variable (lawful : matching.Lawful) {bound : Nat} {level : Int} {inner inner' : Inner}

theorem levelAt_eq_infixLevel (inner : Inner) (strength : Level) :
    levelAt inner strength =
      infixLevel strength (isOperatorOf strength) (operandAt inner strength) := by
  cases strength <;> rfl

include lawful

theorem agrees_operandAt (builds : BuildsAlike matching.alike onExpr onStmt)
    (agrees : AgreesInner matching onExpr onStmt bound inner inner') (strength : Level) :
    Agrees matching (bound + 1) 1 level (operandAt inner strength) (operandAt inner' strength)
      onExpr := by
  have agreesSigned : Agrees matching (bound + 1) 1 level (signed inner) (signed inner') onExpr :=
    Agrees.firstOf (.cons (agrees_access lawful builds agrees)
      (.cons (agrees_negation lawful builds agrees) .nil))
  have agreesMultiplication := agrees_infixLevel lawful builds .multiplication agreesSigned
  have agreesAddition := agrees_infixLevel lawful builds .addition agreesMultiplication
  have agreesComparison := agrees_infixLevel lawful builds .comparison agreesAddition
  cases strength with
  | access => exact agrees_term lawful builds agrees
  | multiplication => exact agreesSigned
  | addition => exact agreesMultiplication
  | comparison => exact agreesAddition
  | conjunction => exact agreesComparison
  | disjunction => exact agrees_infixLevel lawful builds .conjunction agreesComparison

theorem agrees_levelAt (builds : BuildsAlike matching.alike onExpr onStmt)
    (agrees : AgreesInner matching onExpr onStmt bound inner inner') (strength : Level) :
    Agrees matching (bound + 1) 1 level (levelAt inner strength) (levelAt inner' strength)
      onExpr := by
  rw [levelAt_eq_infixLevel, levelAt_eq_infixLevel]
  exact agrees_infixLevel lawful builds strength (agrees_operandAt lawful builds agrees strength)

variable (builds : BuildsAlike matching.alike Eq Eq)
include builds

/-- Every rule agrees with itself if what is nested inside does. -/
theorem agrees_rule (agrees : AgreesInner matching Eq Eq bound inner inner') (rule : Rule) :
    Agrees matching (bound + 1) rule.least level (rule.parser inner) (rule.parser inner') Eq := by
  cases rule with
  | integer => exact agrees_integer lawful builds
  | text => exact agrees_text lawful builds
  | symbol => exact agrees_symbol lawful builds
  | group => exact agrees_group lawful agrees
  | field => exact (agrees_field lawful agrees).imp fun _ _ both => Prod.ext both.1 both.2
  | record => exact agrees_record lawful builds agrees
  | lambda => exact agrees_lambda lawful builds agrees
  | list => exact agrees_list lawful builds agrees
  | item => exact agrees_item lawful builds agrees
  | call => exact agrees_call lawful builds agrees
  | term => exact agrees_term lawful builds agrees
  | chain strength => exact agrees_levelAt lawful builds agrees strength
  | negation => exact agrees_negation lawful builds agrees
  | signed => exact agrees_operandAt lawful builds agrees .multiplication
  | conditional => exact agrees_conditional lawful builds agrees
  | expression => exact agrees_expression lawful builds agrees
  | assignment => exact agrees_assignment lawful builds agrees
  | definition => exact agrees_definition lawful builds agrees
  | evaluation => exact agrees_evaluation lawful builds agrees
  | statement => exact agrees_statement lawful builds agrees
  | program =>
      apply (agrees_program lawful (agrees_statement lawful builds agrees)).imp
      intro program program' both
      rw [List.forall₂_eq_eq_eq] at both
      cases program
      cases program'
      exact congrArg Program.mk both

/-- One unfolding of a rule agrees with the grammar if the calls do: those at a later token, and
those at the same token by rules of lower rank. -/
theorem agrees_unfold {calls : Family} {rule : Rule}
    (agrees : AgreesInner matching Eq Eq bound calls.inner inner')
    (later : ∀ (other : Rule) level,
      Agrees matching bound other.least level (calls other) (other.parser inner') Eq)
    (lower : ∀ other : Rule, other.rank < rule.rank →
      Agrees matching (bound + 1) other.least level (calls other) (other.parser inner') Eq) :
    Agrees matching (bound + 1) rule.least level (calls.unfold rule) (rule.parser inner') Eq := by
  have agreesHead (higher : 0 < rule.rank) :
      Agrees matching (bound + 1) 1 level calls.head (head inner') Eq :=
    Agrees.firstOf (.cons (lower .symbol higher) (.cons (lower .group higher) .nil))
  cases rule with
  | integer => exact agrees_integer lawful builds
  | text => exact agrees_text lawful builds
  | symbol => exact agrees_symbol lawful builds
  | group => exact agrees_group lawful agrees
  | field => exact (agrees_field lawful agrees).imp fun _ _ both => Prod.ext both.1 both.2
  | record =>
      apply (agrees_parenthesized lawful ((later .field _).commaSeparated lawful)).bind
      intro fields fields' both
      rw [List.forall₂_eq_eq_eq] at both
      exact Agrees.pure (congrArg Expr.record both)
  | lambda => exact agrees_lambda lawful builds agrees
  | list => exact agrees_list lawful builds agrees
  | item =>
      exact (agreesHead (by decide)).applied lawful
        (agrees_bracketed lawful (agrees.expression level))
        fun _ _ _ _ _ _ alikeTokens subjectAlike indexAlike =>
          builds.item alikeTokens subjectAlike indexAlike
  | call =>
      exact (agreesHead (by decide)).applied lawful
        (agrees_parenthesized lawful (agrees_expressions lawful agrees))
        fun _ _ _ _ _ _ alikeTokens functionAlike argumentsAlike =>
          builds.call alikeTokens functionAlike argumentsAlike
  | term =>
      exact Agrees.firstOf
        (.cons (lower .item (by decide)) (.cons (lower .call (by decide))
          (.cons (lower .group (by decide)) (.cons (lower .integer (by decide))
            (.cons (lower .text (by decide)) (.cons (lower .list (by decide))
              (.cons (lower .lambda (by decide)) (.cons (lower .symbol (by decide))
                (.cons (lower .record (by decide)) .nil)))))))))
  | chain strength =>
      change Agrees _ _ _ _ _ (levelAt inner' strength) _
      rw [levelAt_eq_infixLevel]
      apply agrees_infixLevel lawful builds strength
      cases strength with
      | access => exact lower .term (by decide)
      | multiplication => exact lower .signed (by decide)
      | addition => exact lower (.chain .multiplication) (by decide)
      | comparison => exact lower (.chain .addition) (by decide)
      | conjunction => exact lower (.chain .comparison) (by decide)
      | disjunction => exact lower (.chain .conjunction) (by decide)
  | negation => exact agrees_negated lawful builds (later (.chain .access) level)
  | signed =>
      exact Agrees.firstOf (.cons (lower (.chain .access) (by decide))
        (.cons (lower .negation (by decide)) .nil))
  | conditional =>
      exact agrees_conditionalOn lawful builds agrees (later (.chain .disjunction) level)
  | expression =>
      exact Agrees.firstOf (.cons (lower (.chain .disjunction) (by decide))
        (.cons (lower .conditional (by decide)) .nil))
  | assignment => exact agrees_assignment lawful builds agrees
  | definition => exact agrees_definition lawful builds agrees
  | evaluation =>
      apply (lower .expression (by decide)).bind
      rintro expression _ rfl
      exact Agrees.pure rfl
  | statement =>
      apply agrees_afterNewlines lawful
      exact Agrees.firstOf (.cons (lower .assignment (by decide))
        (.cons (lower .evaluation (by decide)) (.cons (lower .definition (by decide)) .nil)))
  | program =>
      apply ((lower .statement (by decide)).many lawful).bind
      intro statements statements' both
      rw [List.forall₂_eq_eq_eq] at both
      exact Agrees.pure (congrArg Program.mk both)

end Agreement

end StackScript.Grammar
