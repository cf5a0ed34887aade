import StackScript.Proofs.Boundary.Repetition
import StackScript.Proofs.Grammar.Rules

/-!
# The rules of the grammar before more tokens

Each rule is run on tokens up to a newline, and on these tokens with others after them.  An
expression never takes the newline, so it has been read as a whole when its tokens end.  Only
the constructs that can be left open, which are parentheses, brackets and bodies, run out of
tokens.
-/

namespace StackScript

section Tokens

variable {token : Token}

/-- Parentheses and brackets are opened by tokens of their own kind. -/
theorem Token.opens_of_kind {kind : Kind} {delimiter : Delimiter} (isKind : token.kind = kind)
    (opens : (kind, delimiter) ∈ [(.openParen, .paren), (.openBracket, .bracket)]) :
    token.Opens delimiter ∧ token.kind ≠ .newline := by
  subst isKind
  simp only [List.mem_cons, Prod.mk.injEq, List.not_mem_nil, or_false] at opens
  rcases opens with ⟨isKind, rfl⟩ | ⟨isKind, rfl⟩
  all_goals
    refine ⟨fun other => ?_, by simp [isKind]⟩
    cases other <;> simp [Delimiter.opens, Delimiter.closes, Token.isKeyword, isKind]

theorem Token.closes_of_kind {kind : Kind} {delimiter : Delimiter} (isKind : token.kind = kind)
    (closes : (kind, delimiter) ∈ [(.closeParen, .paren), (.closeBracket, .bracket)]) :
    token.Closes delimiter ∧ token.kind ≠ .newline := by
  subst isKind
  simp only [List.mem_cons, Prod.mk.injEq, List.not_mem_nil, or_false] at closes
  rcases closes with ⟨isKind, rfl⟩ | ⟨isKind, rfl⟩
  all_goals
    refine ⟨fun other => ?_, by simp [isKind]⟩
    cases other <;> simp [Delimiter.opens, Delimiter.closes, Token.isKeyword, isKind]

/-- A plain token with a word other than the minus is a keyword. -/
theorem Token.IsPlain.isKeyword_of_text (plain : token.IsPlain) {word : String}
    (isWord : token.text = word) (inKeywords : word ∈ Lexer.keywords) : token.kind = .keyword :=
  plain.keyword_iff.mpr (isWord ▸ inKeywords)

theorem Token.opens_body (isKeyword : token.kind = .keyword) (isDo : token.text = "do") :
    token.Opens .body := by
  intro other
  cases other <;> simp [Delimiter.opens, Delimiter.closes, Token.isKeyword, isKeyword, isDo]

theorem Token.closes_body (isKeyword : token.kind = .keyword) (isEnd : token.text = "end") :
    token.Closes .body := by
  intro other
  cases other <;> simp [Delimiter.opens, Delimiter.closes, Token.isKeyword, isKeyword, isEnd]

end Tokens

namespace Grammar.Boundary

open StackScript.Grammar.Parser
open StackScript.Surface (Expr Stmt Level Program)

/-- What is nested inside a construct has an outcome. -/
structure CarriesInner (more : List Token) (inner : Inner) : Prop where
  expression : Carries more none 1 Never inner.expression
  needs : Needs inner.expression
  statement : CarriesLine more inner.statement

variable {more : List Token}

theorem carries_name : Carries more none 1 Never name :=
  Carries.satisfy fun _ _ isSymbol reaches =>
    Outcome.inert_of_kind reaches (of_decide_eq_true isSymbol) (by decide) (Carries.pure _)

theorem carries_symbol : Carries more none 1 Never symbol :=
  Carries.satisfy fun _ _ isSymbol reaches =>
    Outcome.inert_of_kind reaches (of_decide_eq_true isSymbol) (by decide) (Carries.pure _)

theorem carries_integer : Carries more none 1 Never integer := by
  refine Carries.satisfy fun token _ isInteger reaches => ?_
  apply Outcome.inert_of_kind reaches (of_decide_eq_true isInteger) (by decide)
  rcases Text.readNumeral token.text with (_ | _) | _
  · exact Carries.raise nofun
  · exact Carries.raise nofun
  · exact Carries.pure _

theorem carries_text : Carries more none 1 Never text := by
  refine Carries.satisfy fun token _ isText reaches => ?_
  simp only [Bool.or_eq_true, decide_eq_true_eq] at isText
  rcases isText with isKind | isKind
  all_goals exact Outcome.inert_of_kind reaches isKind (by decide) (Carries.pure _)

section Parts

variable {α : Type} {least : Nat} {ends : Except Error (Reply α) → Prop} {item : Parser α}

theorem Carries.parenthesized (carries : Carries more none least ends item)
    (atEnd : ∀ reply, ends reply → Finished reply ∨ Halted reply) :
    Carries more none 1 Never (Parser.parenthesized item) :=
  carries.wrapped (fun _ isKind => Token.opens_of_kind isKind (.head _))
    (fun _ isKind => Token.closes_of_kind isKind (.head _)) atEnd

theorem Carries.bracketed (carries : Carries more none least ends item)
    (atEnd : ∀ reply, ends reply → Finished reply ∨ Halted reply) :
    Carries more none 1 Never (Parser.bracketed item) :=
  carries.wrapped (fun _ isKind => Token.opens_of_kind isKind (.tail _ (.head _)))
    (fun _ isKind => Token.closes_of_kind isKind (.tail _ (.head _))) atEnd

/-- A keyword that neither opens nor closes a body, and what follows it. -/
theorem Outcome.keyword {token : Token} {rest : List Token} {word : String}
    {pending : Option Delimiter} (reaches : Reaches (token :: rest))
    (isWord : token.isKeyword word = true) (other : word ∉ ["do", "end"])
    (carries : Carries more pending 0 ends item) :
    Outcome more pending 1 ends (token :: rest) (item rest) (item (rest ++ more)) := by
  obtain ⟨isKeyword, isText⟩ := Bool.and_eq_true_iff.mp isWord
  have isKind := of_decide_eq_true isKeyword
  rw [← of_decide_eq_true isText] at other
  simp only [List.mem_cons, List.not_mem_nil, or_false, not_or] at other
  refine (carries rest (reaches.tail_of_ne (by simp [isKind]))).inert fun _ => ?_
  exact Token.isInert_of_text isKind other.1 other.2

/-- The word that opens a body, and what follows it. -/
theorem Outcome.doWord {token : Token} {rest : List Token} (reaches : Reaches (token :: rest))
    (isDo : token.text = "do") (halts : item [] = .error .endOfTokens)
    (carries : Carries more (some .body) 0 Halted item) :
    Outcome more none 1 Never (token :: rest) (item rest) (item (rest ++ more)) := by
  refine Outcome.word reaches (by simp [isDo, bareWords]) halts fun reachesRest => ?_
  exact (carries rest reachesRest).opens fun plain =>
    Token.opens_body (plain.isKeyword_of_text isDo (by decide)) isDo

end Parts

section Inner

variable {inner : Inner} (carries : CarriesInner more inner)
include carries

theorem carries_body : Carries more none 0 Finished (body inner) := by
  refine carries.statement.many.bind (fun statements => ?_) fun _ finished =>
    finished.bind fun _ => ⟨_, rfl⟩
  exact Carries.newlines.bind (fun _ => Carries.pure _) fun _ finished =>
    finished.bind fun _ => ⟨_, rfl⟩

theorem carries_group : Carries more none 1 Never (group inner) :=
  carries.expression.parenthesized fun _ => False.elim

theorem carries_expressions :
    Carries more none 0 (fun reply => Finished reply ∨ Halted reply) (expressions inner) :=
  carries.expression.commaSeparated carries.needs

theorem carries_field : Carries more none 1 Never (field inner) := by
  have carriesValue (name : String) : Carries more none 0 Never
      (do let value ← inner.expression.orRaise .missingFieldValue
          return (name, value)) :=
    (carries.expression.orRaise (by decide)).weaken.followed fun _ => Carries.pure _
  apply Carries.attempt
  apply carries_name.followed
  intro name
  apply Carries.weaken
  exact Carries.skip fun _ _ isColon reaches =>
    Outcome.inert_of_kind reaches (of_decide_eq_true isColon) (by decide) (carriesValue name)

theorem carries_record : Carries more none 1 Never (record inner) :=
  (((carries_field carries).commaSeparated (.inl rfl)).parenthesized fun _ => id).followed
    fun _ => Carries.pure _

theorem carries_list : Carries more none 1 Never (list inner) :=
  ((carries_expressions carries).bracketed fun _ => id).followed fun _ => Carries.pure _

/-- The parameters and the body of a function. -/
theorem carries_function {α : Type} (build : List String → List Stmt → α)
    {error : Token → Error} (definite : ∀ token, error token ≠ .endOfTokens) :
    Carries more none 1 Never
      (do demand (fun token => token.kind = .openParen) error
          let parameters ← commaSeparated name
          demand (fun token => token.kind = .closeParen) fun _ => .malformedConstruct
          skip fun token => token.text = "do"
          let statements ← body inner
          skip fun token => token.isKeyword "end"
          return build parameters statements) := by
  have carriesEnd (value : α) : Carries more (some .body) 1 Halted
      (do skip fun token => token.isKeyword "end"
          return value) := by
    refine Carries.skip fun token rest isEnd reaches => ?_
    obtain ⟨isKeyword, isText⟩ := Bool.and_eq_true_iff.mp isEnd
    have isKind := of_decide_eq_true isKeyword
    exact (Carries.pure _ rest (reaches.tail_of_ne (by simp [isKind]))).closes
      fun _ => Token.closes_body isKind (of_decide_eq_true isText)
  have carriesBody (parameters : List String) : Carries more (some .body) 0 Halted
      (do let statements ← body inner
          skip fun token => token.isKeyword "end"
          return build parameters statements) :=
    (carries_body carries).bind (fun _ => (carriesEnd _).weaken) fun _ finished =>
      finished.bind fun _ => rfl
  have carriesDo (parameters : List String) : Carries more none 1 Never
      (do skip fun token => token.text = "do"
          let statements ← body inner
          skip fun token => token.isKeyword "end"
          return build parameters statements) :=
    Carries.skip fun _ _ isDo reaches =>
      Outcome.doWord reaches (of_decide_eq_true isDo) rfl (carriesBody parameters)
  refine Carries.demand definite fun token rest isOpening reaches => ?_
  have opensParen : token.Opens .paren ∧ token.kind ≠ .newline :=
    Token.opens_of_kind (of_decide_eq_true isOpening) (.head _)
  have carriesParameters := (carries_name.commaSeparated (.inl rfl)).closed
    (fun _ isKind => Token.closes_of_kind isKind (.head _))
    (fun _ => id) fun parameters => (carriesDo parameters).weaken
  exact (carriesParameters rest (reaches.tail_of_ne opensParen.2)).opens fun _ => opensParen.1

theorem carries_lambda : Carries more none 1 Never (lambda inner) := by
  apply Carries.attempt
  exact Carries.skip fun _ _ isLambda reaches =>
    Outcome.keyword reaches isLambda (by decide)
      (carries_function carries Expr.lambda fun _ => by simp).weaken

theorem carries_head : Carries more none 1 Never (head inner) := by
  apply Carries.firstOf
  simp only [List.forall_mem_cons]
  exact ⟨⟨inPlace_symbol, carries_symbol⟩, ⟨rejectsInPlace_attempt _, carries_group carries⟩,
    by simp⟩

theorem carries_item : Carries more none 1 Never (item inner) :=
  (carries_head carries).applied (carries.expression.bracketed fun _ => False.elim)
    (rejectsInPlace_attempt _)

theorem carries_call : Carries more none 1 Never (call inner) :=
  (carries_head carries).applied ((carries_expressions carries).parenthesized fun _ => id)
    (rejectsInPlace_attempt _)

theorem carries_term : Carries more none 1 Never (term inner) := by
  apply Carries.firstOf
  simp only [List.forall_mem_cons]
  exact ⟨⟨rejectsInPlace_attempt _, carries_item carries⟩,
    ⟨rejectsInPlace_attempt _, carries_call carries⟩,
    ⟨rejectsInPlace_attempt _, carries_group carries⟩, ⟨inPlace_integer, carries_integer⟩,
    ⟨inPlace_text, carries_text⟩, ⟨inPlace_list, carries_list carries⟩,
    ⟨rejectsInPlace_attempt _, carries_lambda carries⟩, ⟨inPlace_symbol, carries_symbol⟩,
    ⟨inPlace_record, carries_record carries⟩, by simp⟩

omit carries in
theorem carries_infixLevel (level : Level) {operand : Parser Expr}
    (carries : Carries more none 1 Never operand) :
    Carries more none 1 Never (infixLevel level (isOperatorOf level) operand) := by
  refine carries.chainLeft fun token isOne => ?_
  have isKind : token.kind ∈ [.period, .multiplication, .addition, .comparison, .symbol] := by
    cases level <;> simp_all [isOperatorOf, Token.isSymbol]
  simp only [List.mem_cons, List.not_mem_nil, or_false] at isKind
  rcases isKind with isKind | isKind | isKind | isKind | isKind
  all_goals exact ⟨Token.isInert_of_kind (by simp [isKind]), by simp [isKind]⟩

theorem carries_access : Carries more none 1 Never (access inner) :=
  carries_infixLevel .access (carries_term carries)

theorem carries_negation : Carries more none 1 Never (negation inner) := by
  have carriesOperand (position : Position) : Carries more none 0 Never
      (do let operand ← access inner
          return Expr.negation position operand) :=
    (carries_access carries).weaken.followed fun _ => Carries.pure _
  apply Carries.attempt
  apply Carries.nextPosition
  intro position
  refine Carries.skip fun token rest isMinus reaches => ?_
  have isText := of_decide_eq_true isMinus
  refine Outcome.word reaches (by simp [isText, bareWords]) rfl fun reachesRest => ?_
  refine (carriesOperand position rest reachesRest).inert fun plain => ?_
  exact Token.isInert_of_kind (by simp [plain.addition_of_minus isText])

theorem carries_disjunction : Carries more none 1 Never (disjunction inner) := by
  have carriesSigned : Carries more none 1 Never (signed inner) := by
    apply Carries.firstOf
    simp only [List.forall_mem_cons]
    exact ⟨⟨rejectsInPlace_attempt _, carries_access carries⟩,
      ⟨rejectsInPlace_attempt _, carries_negation carries⟩, by simp⟩
  have carriesAddition : Carries more none 1 Never (addition inner) :=
    carries_infixLevel .addition (carries_infixLevel .multiplication carriesSigned)
  exact carries_infixLevel .disjunction
    (carries_infixLevel .conjunction (carries_infixLevel .comparison carriesAddition))

omit carries in
/-- No newline follows a body. -/
theorem body_stops {tokens rest : List Token} {token : Token} {statements : List Stmt}
    (accepted : body inner tokens = .ok (.accept statements (token :: rest))) :
    token.kind ≠ .newline := by
  obtain ⟨_, between, _, skipped⟩ := bind_eq_accept accepted
  obtain ⟨_, _, newlinesTaken, same⟩ := bind_eq_accept skipped
  cases same
  have dropped : dropNewlines between = token :: rest := by
    injection newlinesTaken with taken
    injection taken
  have stops :=
    List.head?_dropWhile_not (fun token : Token => decide (token.kind = .newline)) between
  rw [← dropNewlines, dropped] at stops
  simpa using stops

/-- The branch after `else`, where no newline comes before it. -/
theorem outcome_otherwise {token : Token} {rest : List Token} (reaches : Reaches (token :: rest))
    (notNewline : token.kind ≠ .newline) :
    Outcome more none 0 Finished (token :: rest) (otherwise inner (token :: rest))
      (otherwise inner (token :: rest ++ more)) := by
  apply Outcome.firstOf nofun
  simp only [List.forall_mem_cons]
  refine ⟨⟨?_, ?_⟩, ⟨nofun, Carries.pure _ _ reaches⟩, by simp⟩
  · rw [skip_bind]
    exact (rejectsInPlace_satisfy _).bind fun _ => neverRejects_body
  · rw [List.cons_append, skip_bind, satisfy_bind_cons, satisfy_bind_cons]
    split
    case isFalse => exact .reject
    case isTrue isElse =>
        have isText := of_decide_eq_true isElse
        have outcome := carries_body carries rest (reaches.tail_of_ne notNewline)
        refine (outcome.inert fun plain => ?_).imp (Nat.zero_le _) id
        exact Token.isInert_of_text (plain.isKeyword_of_text isText (by decide))
          (by simp [isText]) (by simp [isText])

omit carries in
/-- No newline follows the branch after `else`, or that where there is none. -/
theorem otherwise_stops {token next : Token} {rest after : List Token} {statements : List Stmt}
    (notNewline : token.kind ≠ .newline)
    (accepted : otherwise inner (token :: rest) = .ok (.accept statements (next :: after))) :
    next.kind ≠ .newline := by
  unfold otherwise firstOf firstOf.go at accepted
  rw [skip_bind, satisfy_bind_cons] at accepted
  split at accepted
  case h_1 left rejected =>
      -- Without an `else` nothing is read.
      split at rejected
      · exact absurd rejected (neverRejects_body rest left)
      · cases rejected
        cases accepted
        exact notNewline
  case h_2 =>
      split at accepted
      · exact body_stops accepted
      · cases accepted

theorem carries_conditional : Carries more none 1 Never (conditional inner) := by
  have carriesBranches (condition : Expr) : Carries more (some .body) 0 Halted
      (do let onTrue ← body inner
          let onFalse ← otherwise inner
          demand (fun token => token.text = "end") fun _ => .malformedConstruct
          return Expr.conditional condition onTrue onFalse) := by
    intro tokens reaches
    refine (carries_body carries tokens reaches).bind
      (fun onTrue rest acceptedTrue reachesRest => ?_)
      fun finished => finished.bind fun _ => rfl
    obtain ⟨next, others, rfl⟩ := reachesRest.exists_cons
    have notNewline := body_stops acceptedTrue
    refine (outcome_otherwise carries reachesRest notNewline).bind
      (fun onFalse after acceptedFalse reachesAfter => ?_)
      fun finished => finished.bind fun _ => rfl
    obtain ⟨last, left, rfl⟩ := reachesAfter.exists_cons
    have notLast := otherwise_stops notNewline acceptedFalse
    rw [List.cons_append, demand_bind_cons, demand_bind_cons]
    split
    case isFalse => exact .failed (by simp)
    case isTrue isEnd =>
        have isText := of_decide_eq_true isEnd
        refine ((Carries.pure _ left (reachesAfter.tail_of_ne notLast)).closes fun plain => ?_).imp
          (Nat.zero_le _) id
        exact Token.closes_body (plain.isKeyword_of_text isText (by decide)) isText
  have carriesDo (condition : Expr) : Carries more none 1 Never
      (do demand (fun token => token.text = "do") fun _ => .malformedConstruct
          let onTrue ← body inner
          let onFalse ← otherwise inner
          demand (fun token => token.text = "end") fun _ => .malformedConstruct
          return Expr.conditional condition onTrue onFalse) :=
    Carries.demand (fun _ => by simp) fun _ _ isDo reaches =>
      Outcome.doWord reaches (of_decide_eq_true isDo) rfl (carriesBranches condition)
  have carriesCondition :=
    ((carries_disjunction carries).orRaise (show Error.malformedConstruct ≠ .endOfTokens by
      simp)).weaken.followed fun condition => (carriesDo condition).weaken
  apply Carries.attempt
  refine Carries.skip fun token rest isIf reaches => ?_
  have isText := of_decide_eq_true isIf
  refine Outcome.word reaches (by simp [isText, bareWords]) rfl fun reachesRest => ?_
  refine (carriesCondition rest reachesRest).inert fun plain => ?_
  exact Token.isInert_of_text (plain.isKeyword_of_text isText (by decide)) (by simp [isText])
    (by simp [isText])

theorem carries_expression : Carries more none 1 Never (expression inner) := by
  apply Carries.firstOf
  simp only [List.forall_mem_cons]
  exact ⟨⟨rejectsInPlace_attempt _, carries_disjunction carries⟩,
    ⟨rejectsInPlace_attempt _, carries_conditional carries⟩, by simp⟩

/-! ## Statements -/

theorem carries_assignment : Carries more none 1 Never (assignment inner) := by
  have carriesTarget : Carries more none 1 Never target := by
    refine Carries.satisfy fun token _ isSymbol reaches => ?_
    apply Outcome.inert_of_kind reaches (of_decide_eq_true isSymbol) (by decide)
    apply Carries.weaken
    apply Carries.skip
    intro _ _ isAssignment reachesRest
    apply Outcome.inert_of_kind reachesRest (of_decide_eq_true isAssignment) (by decide)
    split
    · exact Carries.raise (by simp)
    · exact Carries.pure _
  apply Carries.attempt
  apply carriesTarget.followed
  intro token
  exact (carries.expression.orRaise (by decide)).weaken.followed fun _ => Carries.pure _

theorem carries_definition : Carries more none 1 Never (definition inner) := by
  apply Carries.attempt
  refine Carries.skip fun _ _ isDef reaches => ?_
  apply Outcome.keyword reaches isDef (by decide)
  apply (carries_name.orRaise (by decide)).weaken.followed
  intro name
  exact (carries_function carries (Stmt.define name) fun _ => by simp).weaken

theorem carries_evaluation : Carries more none 1 Never (evaluation inner) :=
  (carries_expression carries).followed fun _ => Carries.pure _

theorem carries_statement : CarriesLine more (statement inner) where
  outcome tokens reaches notBlank := by
    have carriesChoice : Carries more none 1 Never
        (firstOf [assignment inner, evaluation inner, definition inner]) := by
      apply Carries.firstOf
      simp only [List.forall_mem_cons]
      exact ⟨⟨rejectsInPlace_attempt _, carries_assignment carries⟩,
        ⟨inPlace_evaluation, carries_evaluation carries⟩,
        ⟨rejectsInPlace_attempt _, carries_definition carries⟩, by simp⟩
    unfold statement at notBlank ⊢
    rw [← dropNewlines] at notBlank ⊢
    rw [← dropNewlines, dropNewlines_append]
    by_cases atEnd : dropNewlines tokens = []
    · rw [atEnd] at notBlank
      exact absurd rfl notBlank
    have reachesLine := reaches.of_suffix (dropNewlines_suffix tokens) atEnd
    rw [if_neg atEnd]
    obtain ⟨skipped, split, settled⟩ := exists_newlines tokens
    have outcome := (carriesChoice _ reachesLine).later split (fun _ => settled)
      (Nat.le_add_left 1 skipped.length)
    obtain ⟨token, rest, same⟩ := reachesLine.exists_cons
    rw [same, List.cons_append] at outcome ⊢
    exact outcome
  rejected := rejected_statement inner

end Inner

/-- What is nested inside has an outcome at any depth.  Where the depth is exhausted, it is an
error in both runs. -/
theorem carriesInner_nested (depth : Nat) : CarriesInner more (nested depth) := by
  induction depth with
  | zero =>
      have definite : Error.tooDeep ≠ .endOfTokens := by decide
      exact ⟨Carries.raise definite, .inr ⟨_, definite, fun _ => rfl⟩,
        fun _ _ _ => .failed definite, nofun⟩
  | succ depth ih => exact ⟨carries_expression ih, .inl rfl, carries_statement ih⟩

end Grammar.Boundary

end StackScript
