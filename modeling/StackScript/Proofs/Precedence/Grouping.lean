import StackScript.Proofs.Printing.Refusals
import StackScript.Text.Numeral

/-!
# Operands and the operators between them

A formula is an operand and further ones, each with the infix operator before it.  How its parts
belong together is said without a parser: the root is the last of the operators that bind most
loosely, and the same holds on either side of it (`Groups`).  Splitting at the last of them is
what makes each level associate to the left.  A formula is grouped in at most one way
(`Groups.unique`).
-/

namespace StackScript.Precedence

open StackScript.Surface (Expr Level)

/-- A token that is an operand by itself, and the tree that it stands for. -/
inductive IsAtom : Token → Expr → Prop where
  | symbol {token : Token} (isSymbol : token.kind = .symbol) :
      IsAtom token (.symbol token.position token.text)
  | integer {token : Token} (isInteger : token.kind = .integer)
      (notEmpty : token.text.toList ≠ [])
      (areDigits : ∀ character ∈ token.text.toList, Text.isDigit character = true)
      (short : token.text.toList.length ≤ Text.digitLimit) :
      IsAtom token (.integer (Text.valueOfDigits 0 (token.text.toList.filterMap Text.digitValue?)))

/-- An integer or a symbol, perhaps with a minus before it. -/
structure Operand where
  minus? : Option Token
  atom : Token
  value : Expr
  isMinus : ∀ minus ∈ minus?, minus.kind = .addition ∧ minus.text = "-"
  isAtom : IsAtom atom value

namespace Operand

def tokens (operand : Operand) : List Token :=
  operand.minus?.toList ++ [operand.atom]

def tree (operand : Operand) : Expr :=
  match operand.minus? with
  | none => operand.value
  | some minus => .negation minus.position operand.value

end Operand

/-- An integer of too many digits, perhaps with a minus before it. -/
structure LongOperand where
  minus? : Option Token
  numeral : Token
  isMinus : ∀ minus ∈ minus?, minus.kind = .addition ∧ minus.text = "-"
  isInteger : numeral.kind = .integer
  areDigits : ∀ character ∈ numeral.text.toList, Text.isDigit character = true
  isLong : Text.digitLimit < numeral.text.toList.length

namespace LongOperand

def tokens (operand : LongOperand) : List Token :=
  operand.minus?.toList ++ [operand.numeral]

def digits (operand : LongOperand) : Nat :=
  operand.numeral.text.toList.length

end LongOperand

/-- An operator that stands between two operands. -/
structure Operator where
  token : Token
  level : Level
  isOperator : level.isOperator token.lexeme = true
  notAccess : level ≠ .access

/-- How loosely an operator binds. -/
def Operator.rank (operator : Operator) : Nat :=
  operator.level.rank

/-- The operands after the first one, each with the operator before it. -/
abbrev Further : Type :=
  List (Operator × Operand)

def furtherTokens (further : Further) : List Token :=
  further.flatMap fun part => part.1.token :: part.2.tokens

theorem furtherTokens_append (further more : Further) :
    furtherTokens (further ++ more) = furtherTokens further ++ furtherTokens more :=
  List.flatMap_append

theorem length_le_furtherTokens (further : Further) :
    further.length ≤ (furtherTokens further).length := by
  induction further with
  | nil => exact Nat.le_refl _
  | cons part others ih =>
      rw [furtherTokens, List.flatMap_cons, List.length_append, List.length_cons, List.length_cons]
      rw [furtherTokens] at ih
      omega

def formulaTokens (first : Operand) (further : Further) : List Token :=
  first.tokens ++ furtherTokens further

/-- How the operands of a formula belong together: no operator binds more loosely than the root,
and all that follow it bind more tightly. -/
inductive Groups : Operand → Further → Expr → Prop where
  | single (operand : Operand) : Groups operand [] operand.tree
  | split {first operand : Operand} {operator : Operator} {before after : Further}
      {left right : Expr}
      (earlier : ∀ part ∈ before, part.1.rank ≤ operator.rank)
      (later : ∀ part ∈ after, part.1.rank < operator.rank)
      (groupsLeft : Groups first before left) (groupsRight : Groups operand after right) :
      Groups first (before ++ (operator, operand) :: after)
        (.binary operator.token.position operator.level operator.token.text left right)

/-- The operator at the root of a formula is not before the root of another splitting. -/
theorem nothing_between {between after after' : Further} {root root' : Operator × Operand}
    (later : ∀ part ∈ after, part.1.rank < root.1.rank)
    (earlier : ∀ part ∈ between, part.1.rank ≤ root'.1.rank)
    (same : root :: after = between ++ root' :: after') : between = [] := by
  cases between with
  | nil => rfl
  | cons first others =>
      rw [List.cons_append, List.cons.injEq] at same
      have notLooser := earlier first List.mem_cons_self
      have looser := later root' (by simp [same.2])
      rw [← same.1] at notLooser
      omega

/-- Only one operator of a formula is the last of those that bind most loosely. -/
theorem root_unique {before before' after after' : Further} {root root' : Operator × Operand}
    (earlier : ∀ part ∈ before, part.1.rank ≤ root.1.rank)
    (later : ∀ part ∈ after, part.1.rank < root.1.rank)
    (earlier' : ∀ part ∈ before', part.1.rank ≤ root'.1.rank)
    (later' : ∀ part ∈ after', part.1.rank < root'.1.rank)
    (same : before ++ root :: after = before' ++ root' :: after') :
    before = before' ∧ root = root' ∧ after = after' := by
  rcases List.append_eq_append_iff.mp same with
    ⟨between, rfl, sameEnd⟩ | ⟨between, rfl, sameEnd⟩
  · cases nothing_between later (List.forall_mem_append.mp earlier').2 sameEnd
    simpa using sameEnd
  · cases nothing_between later' (List.forall_mem_append.mp earlier).2 sameEnd
    simpa using sameEnd.symm

theorem Groups.unique {first : Operand} {further : Further} {tree other : Expr}
    (groups : Groups first further tree) (groupsOther : Groups first further other) :
    tree = other := by
  induction groups generalizing other with
  | single operand =>
      generalize isEmpty : ([] : Further) = further at groupsOther
      cases groupsOther with
      | single => rfl
      | split => simp at isEmpty
  | @split first operand operator before after left right earlier later _ _ onLeft onRight =>
      generalize isSplit : before ++ (operator, operand) :: after = further at groupsOther
      cases groupsOther with
      | single => simp at isSplit
      | split earlier' later' groupsLeft groupsRight =>
          rcases root_unique earlier later earlier' later' isSplit with ⟨rfl, sameRoot, rfl⟩
          cases sameRoot
          rw [onLeft groupsLeft, onRight groupsRight]

end StackScript.Precedence
