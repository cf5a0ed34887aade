import StackScript.Grammar.Statement
import StackScript.Proofs.Grammar.Places
import StackScript.Proofs.Precedence.Grouping
import StackScript.Proofs.Printing.Statements
import StackScript.Proofs.Text.Numerals

/-!
# The grammar groups by precedence

Each level of infix operators reads operands of the next tighter level for as long as an operator
of its own follows.  A level therefore reads a formula whose operators bind at least as tightly as
its own, up to a token that is none of them (`ReadsUpTo`).  The step from one level to the next
cuts the formula before each operator of the level (`ReadsUpTo.stretch`), and its loop keeps the
tree of what has been read so far grouped (`ReadsUpTo.moreOperands`).

What a level raises at an operand, it raises after any formula that it would read before that
operand (`RaisesUpTo`).  So an integer of too many digits is refused wherever it stands.
-/

namespace StackScript.Precedence

open StackScript.Grammar
open StackScript.Surface (Expr Level)

section Operands

variable {inner : Inner} {token next : Token} {value : Expr} {rest : List Token}

/-- An integer is read from its digits unless there are too many of them. -/
theorem integer_of_digits (isInteger : token.kind = .integer) (notEmpty : token.text.toList ≠ [])
    (areDigits : ∀ character ∈ token.text.toList, Text.isDigit character = true) :
    integer (token :: rest) =
      if Text.digitLimit < token.text.toList.length then
        .error (.numeralTooLong token.text.toList.length)
      else
        .ok (.accept (.integer
          (Text.valueOfDigits 0 (token.text.toList.filterMap Text.digitValue?))) rest) := by
  rw [integer, satisfy_bind_cons, if_pos (decide_eq_true isInteger),
    Text.readNumeral_of_isDigit areDigits rfl notEmpty,
    Text.readUnsigned_of_isDigit areDigits notEmpty]
  split <;> rfl

/-- The rules that are tried before the rule for integers refuse an integer. -/
theorem refuses_before_integer (isInteger : token.kind = .integer)
    (ends : EndsOperand 0 next.lexeme) :
    ∀ rule ∈ [item inner, call inner, group inner],
      rule (token :: next :: rest) = .ok (.reject (token :: next :: rest)) := by
  have notFirst : StartsWith (fun lexeme => lexeme.kind ≠ .symbol ∧ lexeme.kind ≠ .openParen)
      [token.lexeme] := by
    simp [StartsWith, Token.lexeme, isInteger]
  intro rule member
  exact refuses_first notFirst rule member _ ⟨_, rfl, ends⟩

theorem term_atom (isAtom : IsAtom token value) (ends : EndsOperand 0 next.lexeme) :
    term inner (token :: next :: rest) = .ok (.accept value (next :: rest)) := by
  cases isAtom with
  | symbol isSymbol =>
      have begins : Begins [token.lexeme] EndsTerm ((token :: next :: rest).map Token.lexeme) :=
        ⟨_, rfl, ends⟩
      have isLexeme : token.lexeme = .symbol token.text := by
        rw [Token.lexeme, isSymbol]
        rfl
      rw [isLexeme] at begins
      apply firstOf_apply
        [item inner, call inner, group inner, integer, text, list inner, lambda inner]
      · rw [symbol, satisfy_bind_cons, if_pos (decide_eq_true isSymbol)]
        rfl
      · intro rule member
        exact refuses_before_symbol token.text rule member _ begins
  | integer isInteger notEmpty areDigits short =>
      refine firstOf_apply _ ?_ (refuses_before_integer isInteger ends)
      rw [integer_of_digits isInteger notEmpty areDigits, if_neg (Nat.not_lt.mpr short)]

theorem access_atom (isAtom : IsAtom token value) (ends : EndsOperand 1 next.lexeme) :
    access inner (token :: next :: rest) = .ok (.accept value (next :: rest)) := by
  apply chainLeft_apply (term_atom isAtom (ends.mono (Nat.zero_le 1)))
  apply moreOperands_stops
  rintro _ ⟨⟩
  exact ends.noOperator .access Nat.zero_lt_one

theorem access_long (isInteger : token.kind = .integer)
    (areDigits : ∀ character ∈ token.text.toList, Text.isDigit character = true)
    (isLong : Text.digitLimit < token.text.toList.length) (ends : EndsOperand 0 next.lexeme) :
    access inner (token :: next :: rest) =
      .error (.numeralTooLong token.text.toList.length) := by
  have notEmpty : token.text.toList ≠ [] := List.ne_nil_of_length_pos (Nat.zero_lt_of_lt isLong)
  apply attempt_error
  apply bind_error
  refine firstOf_error _ ?_ (refuses_before_integer isInteger ends)
  rw [integer_of_digits isInteger notEmpty areDigits, if_pos isLong]

/-- A minus starts no term. -/
theorem refuses_before_minus {minus : Token} (isMinus : minus.kind = .addition) :
    ∀ rule ∈ [access inner], rule (minus :: rest) = .ok (.reject (minus :: rest)) := by
  have noTerm : startsTerm minus.lexeme = false := by
    simp [startsTerm, Token.lexeme, isMinus]
  simp only [List.mem_singleton, forall_eq]
  exact refuses_access inner _ noTerm

theorem signed_operand (operand : Operand) (ends : EndsOperand 1 next.lexeme) :
    signed inner (operand.tokens ++ next :: rest) =
      .ok (.accept operand.tree (next :: rest)) := by
  rcases operand with ⟨_ | minus, atom, value, isMinus, isAtom⟩
  · exact firstOf_apply [] (access_atom isAtom ends) (by simp)
  · have accepted : negation inner (minus :: atom :: next :: rest) =
        .ok (.accept (.negation minus.position value) (next :: rest)) := by
      apply attempt_apply
      change (Parser.skip (fun token => token.text = "-") >>= fun _ => _) _ = _
      rw [skip_bind, satisfy_bind_cons, if_pos (decide_eq_true (isMinus minus rfl).2),
        bind_apply (access_atom isAtom ends)]
      rfl
    exact firstOf_apply _ accepted (refuses_before_minus (isMinus minus rfl).1)

theorem signed_long (operand : LongOperand) (rest : List Token)
    (ends : EndsOperand 0 next.lexeme) :
    signed inner (operand.tokens ++ next :: rest) = .error (.numeralTooLong operand.digits) := by
  rcases operand with ⟨_ | minus, numeral, isMinus, isInteger, areDigits, isLong⟩
  · exact firstOf_error [] (access_long isInteger areDigits isLong ends) (by simp)
  · have raised : negation inner (minus :: numeral :: next :: rest) =
        .error (.numeralTooLong numeral.text.toList.length) := by
      apply attempt_error
      change (Parser.skip (fun token => token.text = "-") >>= fun _ => _) _ = _
      rw [skip_bind, satisfy_bind_cons, if_pos (decide_eq_true (isMinus minus rfl).2),
        bind_error (access_long isInteger areDigits isLong ends)]
    exact firstOf_error _ raised (refuses_before_minus (isMinus minus rfl).1)

end Operands

/-! ## Levels -/

theorem Operator.rank_pos (operator : Operator) : 0 < operator.rank := by
  rcases operator with ⟨_, level, _, notAccess⟩
  cases level with
  | access => exact absurd rfl notAccess
  | _ => exact Nat.succ_pos _

theorem rank_injective {level other : Level} (same : level.rank = other.rank) :
    level = other := by
  cases level <;> cases other <;> first | rfl | cases same

/-- Formulas whose operators bind at least as tightly as a rank says are read up to a token that
ends such an operand. -/
def ReadsUpTo (rank : Nat) (parser : Parser Expr) : Prop :=
  ∀ first further next rest, (∀ part ∈ further, part.1.rank ≤ rank) →
    EndsOperand (rank + 1) next.lexeme →
      ∃ tree, Groups first further tree ∧
        parser (formulaTokens first further ++ next :: rest) = .ok (.accept tree (next :: rest))

theorem readsUpTo_signed (inner : Inner) : ReadsUpTo 0 (signed inner) := by
  intro first further next rest bounded ends
  cases further with
  | nil =>
      refine ⟨first.tree, .single first, ?_⟩
      rw [formulaTokens, furtherTokens, List.flatMap_nil, List.append_nil]
      exact signed_operand first ends
  | cons part _ =>
      have notLoose := bounded part List.mem_cons_self
      have loose := part.1.rank_pos
      omega

/-- Where the first operator stands that binds more loosely than a rank says. -/
theorem exists_stretch (rank : Nat) (further : Further) :
    ∃ taken remaining, further = taken ++ remaining ∧ (∀ part ∈ taken, part.1.rank ≤ rank) ∧
      ∀ part ∈ remaining.head?, rank < part.1.rank := by
  induction further with
  | nil => exact ⟨[], [], rfl, by simp, by simp⟩
  | cons part others ih =>
      by_cases tight : part.1.rank ≤ rank
      · obtain ⟨taken, remaining, rfl, isTight, isLoose⟩ := ih
        exact ⟨part :: taken, remaining, rfl, List.forall_mem_cons.mpr ⟨tight, isTight⟩, isLoose⟩
      · refine ⟨[], part :: others, rfl, by simp, ?_⟩
        rintro _ ⟨⟩
        exact Nat.lt_of_not_le tight

namespace ReadsUpTo

variable {rank : Nat} {level : Level} {operand : Parser Expr} {first : Operand} {next : Token}
  {rest : List Token}

/-- An operand of the next looser level is read up to an operator of that level, or up to the
token after the formula. -/
theorem taken (reads : ReadsUpTo rank operand) (first : Operand) {taken remaining : Further}
    (rest : List Token) (isTight : ∀ part ∈ taken, part.1.rank ≤ rank)
    (isLoose : ∀ part ∈ remaining.head?, rank < part.1.rank)
    (ends : remaining = [] → EndsOperand (rank + 1) next.lexeme) :
    ∃ tree, Groups first taken tree ∧
      operand (formulaTokens first (taken ++ remaining) ++ next :: rest) =
        .ok (.accept tree (furtherTokens remaining ++ next :: rest)) := by
  obtain ⟨follow, others, isFollow, followEnds⟩ : ∃ follow others,
      furtherTokens remaining ++ next :: rest = follow :: others ∧
        EndsOperand (rank + 1) follow.lexeme := by
    cases remaining with
    | nil => exact ⟨next, rest, rfl, ends rfl⟩
    | cons part others =>
        exact ⟨part.1.token, _, rfl,
          (endsOperand_of_isOperator part.1.isOperator).mono (isLoose part rfl)⟩
  obtain ⟨tree, groups, accepted⟩ := reads first taken follow others isTight followEnds
  refine ⟨tree, groups, ?_⟩
  rw [← isFollow] at accepted
  rw [← accepted, formulaTokens, formulaTokens, furtherTokens_append]
  simp only [List.append_assoc]

/-- An operand of the next looser level is read up to the first operator of that level. -/
theorem stretch (reads : ReadsUpTo rank operand) (first : Operand) (further : Further)
    (rest : List Token) (ends : EndsOperand (rank + 2) next.lexeme) :
    ∃ taken remaining tree, further = taken ++ remaining ∧
      (∀ part ∈ taken, part.1.rank ≤ rank) ∧ (∀ part ∈ remaining.head?, rank < part.1.rank) ∧
      Groups first taken tree ∧
      operand (formulaTokens first further ++ next :: rest) =
        .ok (.accept tree (furtherTokens remaining ++ next :: rest)) := by
  obtain ⟨taken, remaining, rfl, isTight, isLoose⟩ := exists_stretch rank further
  obtain ⟨tree, groups, accepted⟩ :=
    reads.taken first rest isTight isLoose fun _ => ends.mono (Nat.le_succ _)
  exact ⟨taken, remaining, tree, rfl, isTight, isLoose, groups, accepted⟩

/-- The loop of a level joins the operands that are left to the tree of those that it has
read. -/
theorem moreOperands (reads : ReadsUpTo rank operand) (isLevel : level.rank = rank + 1)
    (ends : EndsOperand (rank + 2) next.lexeme) {bound : Nat} {done further : Further}
    {left : Expr} (enough : further.length ≤ bound)
    (boundedDone : ∀ part ∈ done, part.1.rank ≤ rank + 1)
    (bounded : ∀ part ∈ further, part.1.rank ≤ rank + 1)
    (starts : ∀ part ∈ further.head?, rank < part.1.rank) (groups : Groups first done left) :
    ∃ tree, Groups first (done ++ further) tree ∧
      Parser.moreOperands (fun token => level.isOperator token.lexeme) operand
          (fun operator left right => .binary operator.position level operator.text left right)
          bound left (furtherTokens further ++ next :: rest) =
        .ok (.accept tree (next :: rest)) := by
  induction bound generalizing done further left with
  | zero =>
      rw [List.eq_nil_of_length_eq_zero (Nat.le_zero.mp enough), List.append_nil]
      exact ⟨left, groups, rfl⟩
  | succ bound ih =>
      cases further with
      | nil =>
          refine ⟨left, by rwa [List.append_nil], moreOperands_stops ?_ _ _⟩
          rintro _ ⟨⟩
          exact ends.noOperator level (by omega)
      | cons part others =>
          rcases part with ⟨operator, second⟩
          have boundedBoth := List.forall_mem_cons.mp bounded
          have isLoose : rank < operator.rank := starts _ rfl
          have isRank : operator.rank = rank + 1 := Nat.le_antisymm boundedBoth.1 isLoose
          obtain rfl : operator.level = level := rank_injective (isRank.trans isLevel.symm)
          obtain ⟨taken, remaining, right, rfl, isTight, startsRemaining, groupsRight, accepted⟩ :=
            reads.stretch second others rest ends
          have boundedOthers := List.forall_mem_append.mp boundedBoth.2
          have groupsBoth : Groups first (done ++ (operator, second) :: taken)
              (.binary operator.token.position operator.level operator.token.text left right) := by
            apply Groups.split _ _ groups groupsRight
            · rwa [isRank]
            · intro part member
              exact Nat.lt_of_le_of_lt (isTight part member) isLoose
          have boundedBothDone : ∀ part ∈ done ++ (operator, second) :: taken,
              part.1.rank ≤ rank + 1 :=
            List.forall_mem_append.mpr
              ⟨boundedDone, List.forall_mem_cons.mpr ⟨boundedBoth.1, boundedOthers.1⟩⟩
          have stillEnough : remaining.length ≤ bound := by
            simp only [List.length_cons, List.length_append] at enough
            omega
          obtain ⟨tree, groupsAll, acceptedAll⟩ := ih stillEnough boundedBothDone boundedOthers.2
            startsRemaining groupsBoth
          refine ⟨tree, by simpa using groupsAll, ?_⟩
          rw [← acceptedAll]
          exact moreOperands_operator operator.isOperator (by simp) accepted bound left

/-- A level reads formulas of its own operators if its operands are formulas of tighter ones. -/
theorem infixLevel (reads : ReadsUpTo rank operand) (isLevel : level.rank = rank + 1) :
    ReadsUpTo (rank + 1)
      (infixLevel level (fun token => level.isOperator token.lexeme) operand) := by
  intro first further next rest bounded ends
  obtain ⟨taken, remaining, left, rfl, isTight, starts, groups, accepted⟩ :=
    reads.stretch first further rest ends
  have boundedBoth := List.forall_mem_append.mp bounded
  have enough : remaining.length ≤ (furtherTokens remaining ++ next :: rest).length := by
    rw [List.length_append]
    exact Nat.le_add_right_of_le (length_le_furtherTokens remaining)
  obtain ⟨tree, groupsAll, acceptedAll⟩ := reads.moreOperands isLevel ends enough
    boundedBoth.1 boundedBoth.2 starts groups
  exact ⟨tree, groupsAll, chainLeft_apply accepted acceptedAll⟩

end ReadsUpTo

/-- An error that is raised at some tokens is raised as well after a formula and an operator
before them, if all operators bind at least as tightly as a rank says. -/
def RaisesUpTo (rank : Nat) (parser : Parser Expr) (tokens : List Token) (error : Error) : Prop :=
  parser tokens = .error error ∧
    ∀ first further, ∀ operator : Operator, (∀ part ∈ further, part.1.rank ≤ rank) →
      operator.rank ≤ rank →
        parser (formulaTokens first further ++ operator.token :: tokens) = .error error

namespace RaisesUpTo

variable {rank : Nat} {level : Level} {operand : Parser Expr} {tokens : List Token}
  {error : Error} {operator : Operator}

/-- An operand of the next looser level raises the error, unless an operator of that level stands
before the tokens. -/
theorem stretch (reads : ReadsUpTo rank operand) (raises : RaisesUpTo rank operand tokens error)
    (first : Operand) (further : Further) (operator : Operator) :
    operand (formulaTokens first further ++ operator.token :: tokens) = .error error ∨
      ∃ remaining tree, remaining <:+ further ∧ (∀ part ∈ remaining.head?, rank < part.1.rank) ∧
        (remaining = [] → rank < operator.rank) ∧
        operand (formulaTokens first further ++ operator.token :: tokens) =
          .ok (.accept tree (furtherTokens remaining ++ operator.token :: tokens)) := by
  obtain ⟨taken, remaining, rfl, isTight, isLoose⟩ := exists_stretch rank further
  by_cases within : remaining = [] ∧ operator.rank ≤ rank
  · obtain ⟨rfl, tight⟩ := within
    rw [List.append_nil]
    exact .inl (raises.2 first taken operator isTight tight)
  · have loose (none : remaining = []) : rank < operator.rank :=
      Nat.lt_of_not_le fun tight => within ⟨none, tight⟩
    obtain ⟨tree, _, accepted⟩ := reads.taken first tokens isTight isLoose fun none =>
      (endsOperand_of_isOperator operator.isOperator).mono (loose none)
    exact .inr ⟨remaining, tree, List.suffix_append _ _, isLoose, loose, accepted⟩

/-- The loop of a level comes to the tokens at which its operand raises the error. -/
theorem moreOperands (reads : ReadsUpTo rank operand)
    (raises : RaisesUpTo rank operand tokens error) (isLevel : level.rank = rank + 1)
    (notEnd : tokens ≠ []) {bound : Nat} {further : Further} (left : Expr)
    (enough : further.length < bound) (bounded : ∀ part ∈ further, part.1.rank ≤ rank + 1)
    (boundedLast : operator.rank ≤ rank + 1)
    (starts : ∀ part ∈ further.head?, rank < part.1.rank)
    (startsLast : further = [] → rank < operator.rank) :
    Parser.moreOperands (fun token => level.isOperator token.lexeme) operand
        (fun operator left right => .binary operator.position level operator.text left right)
        bound left (furtherTokens further ++ operator.token :: tokens) =
      .error error := by
  induction bound generalizing further left with
  | zero => exact absurd enough (Nat.not_lt_zero _)
  | succ bound ih =>
      cases further with
      | nil =>
          have isRank := Nat.le_antisymm boundedLast (startsLast rfl)
          obtain rfl : operator.level = level := rank_injective (isRank.trans isLevel.symm)
          exact moreOperands_error operator.isOperator notEnd raises.1 bound left
      | cons part others =>
          rcases part with ⟨before, second⟩
          have boundedBoth := List.forall_mem_cons.mp bounded
          have isRank := Nat.le_antisymm boundedBoth.1 (starts _ rfl)
          obtain rfl : before.level = level := rank_injective (isRank.trans isLevel.symm)
          change Parser.moreOperands _ _ _ _ _
            (before.token :: (formulaTokens second others ++ operator.token :: tokens)) = _
          rcases stretch reads raises second others operator with
            raised | ⟨remaining, right, isSuffix, startsRemaining, startsAfter, accepted⟩
          · exact moreOperands_error before.isOperator (by simp) raised bound left
          · rw [moreOperands_operator before.isOperator (by simp) accepted]
            have notLonger := isSuffix.length_le
            rw [List.length_cons] at enough
            exact ih _ (by omega) (fun part member => boundedBoth.2 part (isSuffix.subset member))
              startsRemaining startsAfter

theorem infixLevel (reads : ReadsUpTo rank operand)
    (raises : RaisesUpTo rank operand tokens error) (isLevel : level.rank = rank + 1)
    (notEnd : tokens ≠ []) :
    RaisesUpTo (rank + 1)
      (infixLevel level (fun token => level.isOperator token.lexeme) operand) tokens error := by
  refine ⟨attempt_error (bind_error raises.1), ?_⟩
  intro first further operator bounded boundedLast
  rcases stretch reads raises first further operator with
    raised | ⟨remaining, left, isSuffix, starts, startsLast, accepted⟩
  · exact attempt_error (bind_error raised)
  · have enough :
        remaining.length < (furtherTokens remaining ++ operator.token :: tokens).length := by
      have counted := length_le_furtherTokens remaining
      rw [List.length_append, List.length_cons]
      omega
    have raised := moreOperands reads raises isLevel notEnd left enough
      (fun part member => bounded part (isSuffix.subset member)) boundedLast starts startsLast
    exact attempt_error ((bind_apply accepted).trans raised)

end RaisesUpTo

section Disjunction

variable (inner : Inner)

/-- A property of ranks and parsers that passes from each level to the next one holds of all
levels. -/
theorem disjunction_of_levels (holds : Nat → Parser Expr → Prop)
    (onSigned : holds 0 (signed inner))
    (step : ∀ {rank : Nat} {level : Level} {operand : Parser Expr}, level.rank = rank + 1 →
      holds rank operand → holds (rank + 1)
        (infixLevel level (fun token => level.isOperator token.lexeme) operand)) :
    holds 5 (disjunction inner) := by
  have multiplication : holds 1 (levelAt inner .multiplication) := by
    rw [levelAt_eq]
    exact step rfl onSigned
  have addition : holds 2 (levelAt inner .addition) := by
    rw [levelAt_eq]
    exact step rfl multiplication
  have comparison : holds 3 (levelAt inner .comparison) := by
    rw [levelAt_eq]
    exact step rfl addition
  have conjunction : holds 4 (levelAt inner .conjunction) := by
    rw [levelAt_eq]
    exact step rfl comparison
  have disjunction : holds 5 (levelAt inner .disjunction) := by
    rw [levelAt_eq]
    exact step rfl conjunction
  exact disjunction

theorem readsUpTo_disjunction : ReadsUpTo 5 (disjunction inner) :=
  disjunction_of_levels inner ReadsUpTo (readsUpTo_signed inner) fun isLevel reads =>
    reads.infixLevel isLevel

theorem raisesUpTo_disjunction {tokens : List Token} {error : Error} (notEnd : tokens ≠ [])
    (raised : signed inner tokens = .error error) :
    RaisesUpTo 5 (disjunction inner) tokens error := by
  have onSigned : RaisesUpTo 0 (signed inner) tokens error := by
    refine ⟨raised, fun _ _ operator _ tight => ?_⟩
    exact absurd tight (Nat.not_le_of_lt operator.rank_pos)
  have both := disjunction_of_levels inner
    (fun rank parser => ReadsUpTo rank parser ∧ RaisesUpTo rank parser tokens error)
    ⟨readsUpTo_signed inner, onSigned⟩ fun isLevel ⟨reads, raises⟩ =>
      ⟨reads.infixLevel isLevel, RaisesUpTo.infixLevel reads raises isLevel notEnd⟩
  exact both.2

end Disjunction

theorem Operator.rank_le (operator : Operator) : operator.rank ≤ 5 := by
  rw [Operator.rank]
  cases operator.level <;> decide

/-- A formula is read as an expression, up to a token that ends one. -/
theorem expression_reads (inner : Inner) (first : Operand) (further : Further) {next : Token}
    (rest : List Token) (ends : EndsOperand 6 next.lexeme) :
    ∃ tree, Groups first further tree ∧
      expression inner (formulaTokens first further ++ next :: rest) =
        .ok (.accept tree (next :: rest)) := by
  obtain ⟨tree, groups, accepted⟩ :=
    readsUpTo_disjunction inner first further next rest (fun part _ => part.1.rank_le) ends
  exact ⟨tree, groups, firstOf_apply [] accepted (by simp)⟩

/-- An integer of too many digits ends the reading of an expression. -/
theorem expression_long (inner : Inner) (long : LongOperand) {next : Token} (rest : List Token)
    (ends : EndsOperand 0 next.lexeme) :
    expression inner (long.tokens ++ next :: rest) = .error (.numeralTooLong long.digits) ∧
      ∀ first further, ∀ operator : Operator,
        expression inner
            (formulaTokens first further ++ operator.token :: (long.tokens ++ next :: rest)) =
          .error (.numeralTooLong long.digits) := by
  have raises := raisesUpTo_disjunction inner (by simp) (signed_long long rest ends)
  have onExpression {tokens : List Token} {error : Error}
      (raised : disjunction inner tokens = .error error) :
      expression inner tokens = .error error :=
    firstOf_error [] raised (by simp)
  refine ⟨onExpression raises.1, fun first further operator => onExpression ?_⟩
  exact raises.2 first further operator (fun part _ => part.1.rank_le) operator.rank_le

/-- A formula is read up to the newline after it, and its tree is the one way in which its
operands belong together.  If an integer of too many digits stands in the place of an operand,
it is refused, whether it comes first or after a formula. -/
theorem expression_reads_grouping (inner : Inner) (first : Operand) (further : Further)
    (newline : Token) (rest : List Token) (isNewline : newline.kind = .newline) :
    (∃ tree, (∀ other, Groups first further other ↔ other = tree) ∧
      expression inner (formulaTokens first further ++ newline :: rest) =
        .ok (.accept tree (newline :: rest))) ∧
    ∀ (long : LongOperand) (before : List Token) (next : Token),
      (before = [] ∨ ∃ operator : Operator,
        before = formulaTokens first further ++ [operator.token]) →
      (next.kind = .newline ∨ ∃ operator : Operator, next = operator.token) →
        expression inner (before ++ (long.tokens ++ next :: rest)) =
          .error (.numeralTooLong long.digits) := by
  have endsAt {token : Token} (isNewline : token.kind = .newline) (rank : Nat) :
      EndsOperand rank token.lexeme :=
    endsOperand_of_kind (by simp [Token.lexeme, isNewline, endingKinds]) rank
  constructor
  · obtain ⟨tree, groups, accepted⟩ :=
      expression_reads inner first further rest (endsAt isNewline 6)
    refine ⟨tree, fun other => ⟨fun groupsOther => groupsOther.unique groups, ?_⟩, accepted⟩
    rintro rfl
    exact groups
  · intro long before next isBefore isNext
    have ends : EndsOperand 0 next.lexeme := by
      rcases isNext with isNewline | ⟨operator, rfl⟩
      · exact endsAt isNewline 0
      · exact (endsOperand_of_isOperator operator.isOperator).mono (Nat.zero_le _)
    have raises := expression_long inner long rest ends
    rcases isBefore with rfl | ⟨operator, rfl⟩
    · exact raises.1
    · rw [List.append_assoc]
      exact raises.2 first further operator

/-- A product with a negated factor on the right of a difference: `a - -b * 2`. -/
theorem difference_reads_grouping :
    (⟨.newline, "\n", ⟨10, 1⟩⟩ : Token).kind = .newline ∧
      expression (nested 0)
          [⟨.symbol, "a", ⟨0, 1⟩⟩, ⟨.addition, "-", ⟨2, 1⟩⟩, ⟨.addition, "-", ⟨4, 1⟩⟩,
            ⟨.symbol, "b", ⟨5, 1⟩⟩, ⟨.multiplication, "*", ⟨7, 1⟩⟩, ⟨.integer, "2", ⟨9, 1⟩⟩,
            ⟨.newline, "\n", ⟨10, 1⟩⟩] =
        .ok (.accept
          (.binary ⟨2, 1⟩ .addition "-" (.symbol ⟨0, 1⟩ "a")
            (.binary ⟨7, 1⟩ .multiplication "*" (.negation ⟨4, 1⟩ (.symbol ⟨5, 1⟩ "b"))
              (.integer 2)))
          [⟨.newline, "\n", ⟨10, 1⟩⟩]) := by
  refine ⟨rfl, ?_⟩
  let minuend : Operand := ⟨none, ⟨.symbol, "a", ⟨0, 1⟩⟩, _, by simp, .symbol rfl⟩
  let negated : Operand :=
    ⟨some ⟨.addition, "-", ⟨4, 1⟩⟩, ⟨.symbol, "b", ⟨5, 1⟩⟩, _, by simp, .symbol rfl⟩
  let factor : Operand := ⟨none, ⟨.integer, "2", ⟨9, 1⟩⟩, _, by simp,
    .integer rfl (by decide) (List.all_eq_true.mp (by decide)) (by decide)⟩
  let minus : Operator := ⟨⟨.addition, "-", ⟨2, 1⟩⟩, .addition, rfl, nofun⟩
  let times : Operator := ⟨⟨.multiplication, "*", ⟨7, 1⟩⟩, .multiplication, rfl, nofun⟩
  have product : Groups negated [(times, factor)] _ :=
    @Groups.split negated factor times [] [] _ _ (by simp) (by simp) (.single _) (.single _)
  have difference : Groups minuend [(minus, negated), (times, factor)] _ :=
    @Groups.split minuend negated minus [] [(times, factor)] _ _ (by simp)
      (by simpa using show times.rank < minus.rank by decide) (.single _) product
  obtain ⟨⟨tree, isOnly, accepted⟩, _⟩ := expression_reads_grouping (nested 0) minuend
    [(minus, negated), (times, factor)] ⟨.newline, "\n", ⟨10, 1⟩⟩ [] rfl
  rw [← (isOnly _).mp difference] at accepted
  exact accepted

/-- Not every integer is an operand. -/
theorem longNumeral_refused :
    ∃ token newline : Token, token.kind = .integer ∧ token.text.toList ≠ [] ∧
      (∀ character ∈ token.text.toList, Text.isDigit character = true) ∧
      newline.kind = .newline ∧ ∀ inner rest,
        expression inner (token :: newline :: rest) = .error (.numeralTooLong 4301) := by
  let digits := List.replicate 4300 '0' ++ ['1']
  have count : digits.length = 4301 := by
    rw [List.length_append, List.length_replicate]
    rfl
  have areDigits : ∀ character ∈ digits, Text.isDigit character = true := by
    intro character member
    rcases List.mem_append.mp member with isZero | isOne
    · rw [(List.mem_replicate.mp isZero).2]
      decide
    · rw [List.mem_singleton.mp isOne]
      decide
  let token : Token := ⟨.integer, String.ofList digits, ⟨0, 1⟩⟩
  have isText : token.text.toList = digits := String.toList_ofList
  let long : LongOperand :=
    ⟨none, token, by simp, rfl, by rwa [isText], by rw [isText, count]; decide⟩
  have notEmpty : token.text.toList ≠ [] :=
    List.ne_nil_of_length_pos (Nat.zero_lt_of_lt long.isLong)
  refine ⟨token, ⟨.newline, "\n", ⟨4301, 1⟩⟩, rfl, notEmpty, long.areDigits, rfl, ?_⟩
  intro inner rest
  have ends : EndsOperand 0 (⟨.newline, "\n", ⟨4301, 1⟩⟩ : Token).lexeme :=
    endsOperand_of_kind (by decide) 0
  have raised := (expression_long inner long rest ends).1
  rwa [LongOperand.digits, isText, count] at raised

end StackScript.Precedence
