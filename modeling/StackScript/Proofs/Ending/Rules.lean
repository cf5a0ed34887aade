import StackScript.Proofs.Ending.Repetition
import StackScript.Proofs.Grammar.ReadBack
import StackScript.Proofs.Grammar.Reads

/-!
# The rules of the grammar before a newline

Each rule is run on the tokens up to the end of a script, and on these tokens and a newline.
An expression that ends with the script has lost its last index or arguments in the shorter
run; a script that ends in a symbol or in a closing parenthesis may be missed by it.
-/

namespace StackScript.Surface

/-- An expression without the index or the arguments that it ends with. -/
def Expr.shorn : Expr → Expr
  | .negation position operand => .negation position operand.shorn
  | .binary position level operator left right =>
      .binary position level operator left right.shorn
  | .item _ subject _ => subject
  | .call _ function _ => function
  | expression => expression

/-- An expression that ends in the arguments of a call or in the fields of a record. -/
def Expr.EndsInParen : Expr → Prop
  | .negation _ operand => operand.EndsInParen
  | .binary _ _ _ _ right => right.EndsInParen
  | .record _ => True
  | .call _ _ _ => True
  | _ => False

def Stmt.shorn : Stmt → Stmt
  | .assign target value => .assign target value.shorn
  | .evaluate expression => .evaluate expression.shorn
  | statement => statement

def Stmt.EndsInParen : Stmt → Prop
  | .assign _ value => value.EndsInParen
  | .evaluate expression => expression.EndsInParen
  | _ => False

/-- A script whose last statement is without the index or the arguments that it ends with. -/
def Program.shorn (program : Program) : Program where
  statements := Grammar.cutLast Stmt.shorn program.statements

/-- A script whose last statement ends in arguments or in fields. -/
def Program.EndsInParen (program : Program) : Prop :=
  ∃ statement, program.statements.getLast? = some statement ∧ statement.EndsInParen

end StackScript.Surface

namespace StackScript.Grammar

open StackScript.Grammar.Parser
open StackScript.Surface (Expr Stmt Level Program)

namespace Ending

/-- What is nested inside a construct goes on in the same way with and without the newline. -/
structure ContinuesInner (ending : Ending) (bound : Nat) (inner : Inner) : Prop where
  expression : ending.Continues bound 1 inner.expression (ending.Cut Expr.shorn Expr.EndsInParen)
  waits : ending.Waits inner.expression
  statement : ending.ContinuesLine bound inner.statement Stmt.shorn Stmt.EndsInParen

variable {ending : Ending} {bound : Nat}

/-- A value that nothing is cut from, after a token that it may end with. -/
theorem Outcome.uncut {α : Type} {cut : α → α} {closes : α → Prop} {value : α} {kind : Kind}
    {least : Nat} {tokens : List Token} (isKind : ending.last.kind = kind)
    (mayEnd : kind ∉ [.openParen, .openBracket, .addition, .symbol, .newline])
    (same : value = cut value) (closesValue : kind = .closeParen → closes value) :
    ending.Outcome least tokens (ending.Cut cut closes) ((Pure.pure value : Parser α) [])
      ((Pure.pure value : Parser α) [ending.newline]) := by
  subst isKind
  simp only [List.mem_cons, List.not_mem_nil, or_false, not_or] at mayEnd
  obtain ⟨notParen, notBracket, notAddition, notSymbol, notNewline⟩ := mayEnd
  have closed : ¬ ending.Opens := by simp [Opens, notParen, notBracket, notAddition]
  exact Outcome.pure closed ⟨same, rfl, notSymbol, notNewline, closesValue⟩

theorem continues_name :
    ending.Continues (bound + 1) 1 name (ending.Whole (ending.last.kind = .symbol)) := by
  refine Continues.satisfy (fun _ _ => Continues.pure _) fun _ isSymbol => ?_
  have isKind := of_decide_eq_true isSymbol
  exact Outcome.pure (not_opens_of_kind isKind (by decide)) ⟨rfl, rfl, isKind⟩

theorem declines_name : ending.Declines name :=
  (Declines.satisfy (newline_kind_ne (by decide))).bind _

theorem continues_symbol :
    ending.Continues (bound + 1) 1 symbol (ending.Whole (ending.last.kind = .symbol)) := by
  refine Continues.satisfy (fun _ _ => Continues.pure _) fun _ isSymbol => ?_
  have isKind := of_decide_eq_true isSymbol
  exact Outcome.pure (not_opens_of_kind isKind (by decide)) ⟨rfl, rfl, isKind⟩

theorem declines_symbol : ending.Declines symbol :=
  (Declines.satisfy (newline_kind_ne (by decide))).bind _

theorem continues_integer :
    ending.Continues (bound + 1) 1 integer (ending.Cut Expr.shorn Expr.EndsInParen) := by
  refine Continues.satisfy (fun token _ => ?_) fun _ isInteger => ?_
  · rcases Text.readNumeral token.text with (_ | _) | _
    · exact Continues.raise _
    · exact Continues.raise _
    · exact Continues.pure _
  · rcases Text.readNumeral ending.last.text with (_ | _) | _
    · exact .failed
    · exact .failed
    · exact Outcome.uncut (of_decide_eq_true isInteger) (by decide) rfl nofun

theorem declines_integer : ending.Declines integer :=
  (Declines.satisfy (newline_kind_ne (by decide))).bind _

theorem continues_text :
    ending.Continues (bound + 1) 1 text (ending.Cut Expr.shorn Expr.EndsInParen) := by
  refine Continues.satisfy (fun _ _ => Continues.pure _) fun _ isText => ?_
  simp only [Bool.or_eq_true, decide_eq_true_eq] at isText
  rcases isText with isKind | isKind <;> exact Outcome.uncut isKind (by decide) rfl nofun

theorem declines_text : ending.Declines text :=
  (Declines.satisfy (by simp [ending.isNewline])).bind _

theorem continues_parameters : ending.Continues bound 0 (commaSeparated name) ending.Left :=
  (continues_name.commaSeparated declines_name.waits fun fit => .inr fit.2.1).mono
    (Nat.le_succ bound) (Nat.le_refl _) id

section Inner

variable {inner : Inner} (continues : ending.ContinuesInner bound inner)
include continues

theorem body_newline (enough : 0 < bound) : body inner [ending.newline] = .ok (.accept [] []) := by
  have skipped : many inner.statement [ending.newline] = .ok (.accept [] []) :=
    manyUpTo_newline (continues.statement.blank enough) (by simp)
  change Parser.bind (many inner.statement) _ _ = _
  rw [Parser.bind, skipped]
  rfl

/-- A body that reaches the end has taken the newline as well. -/
theorem continues_body :
    ending.Continues bound 0 (body inner) fun _ _ left => left = [] := by
  refine (Continues.many continues.statement).bind (fun statements => ?_) ?_
  · exact Continues.newlines.bind (fun _ => Continues.pure _) fun closed fit =>
      Outcome.pure closed fit
  · rintro _ _ _ _ closed ⟨rfl, _, _, _⟩
    exact .ended closed rfl

theorem continues_group :
    ending.Continues (bound + 1) 1 (group inner)
      (ending.Whole (ending.last.kind = .closeParen)) :=
  Continues.wrapped (by decide) (by decide) continues.expression continues.waits
    fun fit => .inr fit.isLeft

theorem continues_expressions : ending.Continues bound 0 (expressions inner) ending.Left :=
  continues.expression.commaSeparated continues.waits fun fit => .inr fit.isLeft

omit continues in
theorem declines_wrapped {α : Type} {opening closing : Kind} (other : opening ≠ .newline)
    (parser : Parser α) : ending.Declines (wrapped opening closing parser) :=
  ((Declines.skip (newline_kind_ne other)).bind _).attempt

theorem continues_field :
    ending.Continues (bound + 1) 1 (field inner) fun _ _ left => left = [ending.newline] := by
  apply Continues.attempt
  refine continues_name.bind (fun name => ?_) ?_
  · apply Continues.skipLater
    · exact (continues.expression.orRaise _).followed (fun _ => Continues.pure _)
        fun closed fit => Outcome.pure closed fit.isLeft
    · exact fun _ _ => continues.waits.orRaise _
  · -- Only a further token shows that the name is no field.
    exact fun _ fit => .missed (by simp [LooksAhead, fit.2.2])

omit continues in
theorem declines_field : ending.Declines (field inner) :=
  (declines_name.bind _).attempt

theorem continues_record :
    ending.Continues (bound + 1) 1 (record inner) (ending.Cut Expr.shorn Expr.EndsInParen) := by
  have continuesFields : ending.Continues bound 0 (commaSeparated (field inner)) ending.Left :=
    ((continues_field continues).commaSeparated declines_field.waits .inr).mono
      (Nat.le_succ bound) (Nat.le_refl _) id
  have continuesWrapped : ending.Continues (bound + 1) 1
      (parenthesized (commaSeparated (field inner)))
      (ending.Whole (ending.last.kind = .closeParen)) :=
    Continues.wrapped (by decide) (by decide) continuesFields declines_field.waits.commaSeparated
      id
  refine continuesWrapped.bind (fun _ => Continues.pure _) ?_
  rintro _ fields _ _ _ ⟨rfl, rfl, isKind⟩
  exact Outcome.uncut isKind (by decide) rfl fun _ => trivial

theorem continues_list :
    ending.Continues (bound + 1) 1 (list inner) (ending.Cut Expr.shorn Expr.EndsInParen) := by
  have continuesWrapped : ending.Continues (bound + 1) 1 (bracketed (expressions inner))
      (ending.Whole (ending.last.kind = .closeBracket)) :=
    Continues.wrapped (by decide) (by decide) (continues_expressions continues)
      continues.waits.commaSeparated id
  refine continuesWrapped.bind (fun _ => Continues.pure _) ?_
  rintro _ items _ _ _ ⟨rfl, rfl, isKind⟩
  exact Outcome.uncut isKind (by decide) rfl nofun

/-- The parameters and the body of a function.  The last token of a function is its `end`, so
nothing is cut from it. -/
theorem continues_function {α : Type} {cut : α → α} {closes : α → Prop}
    (build : List String → List Stmt → α)
    (uncut : ∀ parameters statements,
      build parameters statements = cut (build parameters statements))
    (error : Token → Error) :
    ending.Continues bound 0
      (do demand (fun token => token.kind = .openParen) error
          let parameters ← commaSeparated name
          demand (fun token => token.kind = .closeParen) fun _ => .malformedConstruct
          skip fun token => token.text = "do"
          let statements ← body inner
          skip fun token => token.isKeyword "end"
          return build parameters statements)
      (ending.Cut cut closes) := by
  apply Continues.demand
  case atEnd =>
      intro _ isOpening
      apply declines_name.waits.commaSeparated.opened
      simp [Opens, of_decide_eq_true isOpening]
  refine continues_parameters.bind (fun parameters => ?_)
    fun _ => Outcome.demand (newline_kind_ne (by decide))
  apply Continues.demand
  case atEnd =>
      -- A closing parenthesis may be the last token of a group or of a call.
      intro _ isClosing
      exact .missed (by simp [LooksAhead, of_decide_eq_true isClosing])
  apply Continues.skipLater
  case atEnd =>
      intro enough _
      change Outcome _ _ _ _ (Parser.bind (body inner) _ []) (Parser.bind (body inner) _ _)
      rw [Parser.bind, Parser.bind, body_newline continues enough]
      exact .failed
  refine (continues_body continues).bind (fun statements => ?_) ?_
  · apply Continues.skipLater (Continues.pure _)
    intro _ isEnd
    have isKind := of_decide_eq_true (Bool.and_eq_true_iff.mp isEnd).1
    exact Outcome.uncut isKind (by decide) (uncut parameters statements) (by simp)
  · rintro _ _ _ _ _ rfl
    exact .failed

theorem continues_lambda :
    ending.Continues (bound + 1) 1 (lambda inner) (ending.Cut Expr.shorn Expr.EndsInParen) := by
  apply Continues.attempt
  apply Continues.skip
  · exact continues_function continues Expr.lambda (fun _ _ => rfl) _
  · exact fun _ _ => Outcome.demand (newline_kind_ne (by decide)) (.inr rfl)

/-! ## Heads and what is applied to them -/

theorem continues_head :
    ending.Continues (bound + 1) 1 (head inner) (ending.Whole ending.LooksAhead) := by
  apply Continues.firstOf
  simp only [List.forall_mem_cons]
  refine ⟨⟨inPlace_symbol, continues_symbol.mono (Nat.le_refl _) (Nat.le_refl _) ?_⟩,
    ⟨rejectsInPlace_attempt _,
      (continues_group continues).mono (Nat.le_refl _) (Nat.le_refl _) ?_⟩, by simp⟩
  · exact fun fit => ⟨fit.1, fit.2.1, by simp [LooksAhead, fit.2.2]⟩
  · exact fun fit => ⟨fit.1, fit.2.1, by simp [LooksAhead, fit.2.2]⟩

theorem continues_item :
    ending.Continues (bound + 1) 1 (item inner) (ending.Cut Expr.shorn Expr.EndsInParen) := by
  have continuesIndex : ending.Continues (bound + 1) 1 (bracketed inner.expression)
      (ending.Whole (ending.last.kind = .closeBracket)) :=
    Continues.wrapped (by decide) (by decide) continues.expression continues.waits
      fun fit => .inr fit.isLeft
  refine ((continues_head continues).applied continuesIndex (declines_wrapped (by decide) _)
    (rejectsInPlace_attempt _)).mono (Nat.le_refl _) (Nat.le_refl _) ?_
  rintro subject _ _ ⟨⟨position, index, rfl⟩, rfl, isKind⟩
  exact ⟨rfl, rfl, by simp [isKind], by simp [isKind], by simp [isKind]⟩

theorem continues_call :
    ending.Continues (bound + 1) 1 (call inner) (ending.Cut Expr.shorn Expr.EndsInParen) := by
  have continuesArguments : ending.Continues (bound + 1) 1 (parenthesized (expressions inner))
      (ending.Whole (ending.last.kind = .closeParen)) :=
    Continues.wrapped (by decide) (by decide) (continues_expressions continues)
      continues.waits.commaSeparated id
  refine ((continues_head continues).applied continuesArguments (declines_wrapped (by decide) _)
    (rejectsInPlace_attempt _)).mono (Nat.le_refl _) (Nat.le_refl _) ?_
  rintro function _ _ ⟨⟨position, arguments, rfl⟩, rfl, isKind⟩
  exact ⟨rfl, rfl, by simp [isKind], by simp [isKind], fun _ => trivial⟩

omit continues in
theorem head_of_symbol {tokens rest : List Token} {value : Expr}
    (accepted : symbol tokens = .ok (.accept value rest)) :
    head inner tokens = .ok (.accept value rest) := by
  rw [head, firstOf, firstOf.go, accepted]

omit continues in
theorem head_of_group {tokens rest : List Token} {value : Expr}
    (accepted : group inner tokens = .ok (.accept value rest)) :
    head inner tokens = .ok (.accept value rest) := by
  obtain ⟨_, _, skipped, -⟩ := bind_eq_accept (attempt_eq_accept accepted)
  obtain ⟨token, others, satisfied, -⟩ := bind_eq_accept skipped
  obtain ⟨rfl, isOpening⟩ := satisfy_eq_accept satisfied
  have rejected : symbol (token :: others) = .ok (.reject (token :: others)) := by
    rw [symbol, satisfy_bind_cons]
    simp [of_decide_eq_true isOpening]
  rw [head, firstOf, firstOf.go, rejected]
  simp only [firstOf.go, accepted]

omit continues in
/-- Where a head is all there is, a term is missed: it might be applied to what follows. -/
theorem term_of_head {tokens : List Token} {value : Expr}
    (isHead : head inner tokens = .ok (.accept value [])) :
    term inner tokens = .error .endOfTokens := by
  have fails : item inner tokens = .error .endOfTokens := by
    change Parser.attempt (Parser.bind (head inner) _) tokens = _
    rw [Parser.attempt, Parser.bind, isHead]
    rfl
  rw [term, firstOf, firstOf.go, fails]

theorem continues_term :
    ending.Continues (bound + 1) 1 (term inner) (ending.Cut Expr.shorn Expr.EndsInParen) := by
  intro tokens reaches short
  by_cases whole : ∃ value, head inner tokens = .ok (.accept value [])
  · obtain ⟨value, isHead⟩ := whole
    have outcome := continues_head continues tokens reaches short
    rw [isHead] at outcome
    rw [term_of_head isHead]
    generalize head inner (tokens ++ [ending.newline]) = reply at outcome
    cases outcome with
    | accept reachesNothing _ => exact absurd rfl reachesNothing.ne_nil
    | ended _ fit => exact .missed fit.2.2
  · have notHead := not_exists.mp whole
    have notGroup : ∀ value, group inner tokens ≠ .ok (.accept value []) :=
      fun value accepted => notHead value (head_of_group accepted)
    have notSymbol : ∀ value, symbol tokens ≠ .ok (.accept value []) :=
      fun value accepted => notHead value (head_of_symbol accepted)
    apply Outcome.firstOf
    simp only [List.forall_mem_cons]
    exact
      ⟨⟨rejectsInPlace_attempt _, continues_item continues tokens reaches short⟩,
        ⟨rejectsInPlace_attempt _, continues_call continues tokens reaches short⟩,
        ⟨rejectsInPlace_attempt _,
          (continues_group continues tokens reaches short).of_not_ended notGroup⟩,
        ⟨inPlace_integer, continues_integer tokens reaches short⟩,
        ⟨inPlace_text, continues_text tokens reaches short⟩,
        ⟨inPlace_list, continues_list continues tokens reaches short⟩,
        ⟨rejectsInPlace_attempt _, continues_lambda continues tokens reaches short⟩,
        ⟨inPlace_symbol, (continues_symbol tokens reaches short).of_not_ended notSymbol⟩,
        ⟨inPlace_record, continues_record continues tokens reaches short⟩, by simp⟩

omit continues in
theorem declines_term : ending.Declines (term inner) := by
  have declinesHead : ending.Declines (head inner) := by
    apply Declines.firstOf
    simp only [List.forall_mem_cons]
    exact ⟨declines_symbol, declines_wrapped (by decide) _, by simp⟩
  apply Declines.firstOf
  simp only [List.forall_mem_cons]
  exact ⟨(declinesHead.bind _).attempt, (declinesHead.bind _).attempt,
    declines_wrapped (by decide) _, declines_integer, declines_text,
    (declines_wrapped (by decide) _).bind _,
    ((Declines.skip (newline_not_keyword _)).bind _).attempt, declines_symbol,
    (declines_wrapped (by decide) _).bind _, by simp⟩

/-- An expression that ends where the script does is cut there, and none starts with the
newline. -/
structure ContinuesOperand (ending : Ending) (bound : Nat) (operand : Parser Expr) : Prop where
  continues : ending.Continues bound 1 operand (ending.Cut Expr.shorn Expr.EndsInParen)
  declines : ending.Declines operand

omit continues in
/-- The right operand ends where the whole does. -/
theorem ContinuesOperand.infixLevel {operand : Parser Expr}
    (continuesOperand : ending.ContinuesOperand bound operand) (level : Level)
    (isOperator : Token → Bool) :
    ending.ContinuesOperand bound (infixLevel level isOperator operand) where
  continues := by
    apply continuesOperand.continues.chainLeft continuesOperand.declines
    · exact fun fit => fit.isLeft
    · rintro operator left _ right _ ⟨rfl, rfl, notSymbol, notNewline, closes⟩
      exact ⟨rfl, rfl, notSymbol, notNewline, closes⟩
  declines := continuesOperand.declines.chainLeft

theorem continues_access : ending.ContinuesOperand (bound + 1) (access inner) :=
  ContinuesOperand.infixLevel ⟨continues_term continues, declines_term⟩ _ _

theorem continues_negation : ending.ContinuesOperand (bound + 1) (negation inner) := by
  have continuesAccess := continues_access continues
  constructor
  · apply Continues.attempt
    apply Continues.nextPosition
    intro position
    apply Continues.skip
    · refine (continuesAccess.continues.mono (Nat.le_succ _) (Nat.le_refl _) id).followed
        (fun _ => Continues.pure _) ?_
      rintro _ _ operand _ closed ⟨rfl, rfl, notSymbol, notNewline, closes⟩
      exact Outcome.pure closed ⟨rfl, rfl, notSymbol, notNewline, closes⟩
    · intro _ isMinus
      apply continuesAccess.declines.waits.opened
      simp [Opens, ending.plain.addition_of_minus (of_decide_eq_true isMinus)]
  · apply Declines.attempt
    apply Declines.nextPosition
    exact fun _ => (Declines.skip (newline_text_ne (by decide))).bind _

theorem continues_disjunction : ending.ContinuesOperand (bound + 1) (disjunction inner) := by
  have continuesAccess := continues_access continues
  have continuesNegation := continues_negation continues
  have continuesSigned : ending.ContinuesOperand (bound + 1) (signed inner) := by
    constructor
    · apply Continues.firstOf
      simp only [List.forall_mem_cons]
      exact ⟨⟨rejectsInPlace_attempt _, continuesAccess.continues⟩,
        ⟨rejectsInPlace_attempt _, continuesNegation.continues⟩, by simp⟩
    · apply Declines.firstOf
      simp only [List.forall_mem_cons]
      exact ⟨continuesAccess.declines, continuesNegation.declines, by simp⟩
  have continuesAddition : ending.ContinuesOperand (bound + 1) (addition inner) :=
    (continuesSigned.infixLevel _ _).infixLevel _ _
  exact ((continuesAddition.infixLevel _ _).infixLevel _ _).infixLevel _ _

theorem continues_otherwise :
    ending.Continues bound 0 (otherwise inner) fun _ _ left => left = [] := by
  apply Continues.firstOf
  simp only [List.forall_mem_cons]
  refine ⟨⟨?_, ?_⟩, ⟨nofun, Continues.pure _⟩, by simp⟩
  · rw [skip_bind]
    exact (rejectsInPlace_satisfy _).bind fun _ => neverRejects_body
  · apply Continues.skipLater (continues_body continues)
    intro enough isElse
    have isKind := kind_of_text (by decide) (of_decide_eq_true isElse)
    rw [body_newline continues enough]
    exact .ended (not_opens_of_kind isKind (by decide)) rfl

theorem continues_conditional :
    ending.Continues (bound + 1) 1 (conditional inner)
      (ending.Cut Expr.shorn Expr.EndsInParen) := by
  have continuesCondition := continues_disjunction continues
  apply Continues.attempt
  apply Continues.skip
  case atEnd => exact fun _ _ => continuesCondition.declines.waits.orRaise _
  refine ((continuesCondition.continues.mono (Nat.le_succ _) (Nat.le_refl _) id).orRaise
    _).followed (fun condition => ?_)
      fun _ fit => Outcome.demand (newline_text_ne (by decide)) (.inr fit.isLeft)
  apply Continues.demand
  case atEnd =>
      intro enough _
      change Outcome _ _ _ _ (Parser.bind (body inner) _ []) (Parser.bind (body inner) _ _)
      rw [Parser.bind, Parser.bind, body_newline continues enough]
      exact .failed
  refine (continues_body continues).bind (fun onTrue => ?_) ?_
  case refine_2 =>
      rintro _ _ _ _ _ rfl
      exact .failed
  refine (continues_otherwise continues).bind (fun onFalse => ?_)
    fun _ fit => Outcome.demand (newline_text_ne (by decide)) (.inl fit)
  apply Continues.demand (Continues.pure _)
  intro _ isEnd
  exact Outcome.uncut (kind_of_text (by decide) (of_decide_eq_true isEnd)) (by decide) rfl
    (by simp)

theorem continues_expression : ending.ContinuesOperand (bound + 1) (expression inner) := by
  have continuesDisjunction := continues_disjunction continues
  constructor
  · apply Continues.firstOf
    simp only [List.forall_mem_cons]
    exact ⟨⟨rejectsInPlace_attempt _, continuesDisjunction.continues⟩,
      ⟨rejectsInPlace_attempt _, continues_conditional continues⟩, by simp⟩
  · apply Declines.firstOf
    simp only [List.forall_mem_cons]
    exact ⟨continuesDisjunction.declines,
      ((Declines.skip (newline_text_ne (by decide))).bind _).attempt, by simp⟩

/-! ## Statements -/

theorem continues_assignment :
    ending.Continues (bound + 1) 1 (assignment inner) (ending.Cut Stmt.shorn Stmt.EndsInParen) := by
  have continuesTarget : ending.Continues (bound + 1) 1 target
      (ending.Whole (ending.last.kind = .assignment)) := by
    apply Continues.satisfy
    case atEnd =>
        -- A symbol may be a target or an expression.
        intro _ isSymbol
        exact .missed (by simp [LooksAhead, of_decide_eq_true isSymbol])
    intro token _
    apply Continues.skipLater
    · split
      · exact Continues.raise _
      · exact Continues.pure _
    · intro _ isAssignment
      have isKind := of_decide_eq_true isAssignment
      by_cases isBuiltin : builtinNames.contains token.text = true
      · rw [if_pos isBuiltin]
        exact .failed
      · rw [if_neg isBuiltin]
        exact Outcome.pure (not_opens_of_kind isKind (by decide)) ⟨rfl, rfl, isKind⟩
  apply Continues.attempt
  refine continuesTarget.bind (fun token => ?_) ?_
  · refine (continues.expression.orRaise _).followed (fun _ => Continues.pure _) ?_
    rintro _ _ value _ closed ⟨rfl, rfl, notSymbol, notNewline, closes⟩
    exact Outcome.pure closed ⟨rfl, rfl, notSymbol, notNewline, closes⟩
  · rintro _ token _ _ _ ⟨rfl, rfl, _⟩
    exact continues.waits.orRaise _

theorem continues_definition :
    ending.Continues (bound + 1) 1 (definition inner) (ending.Cut Stmt.shorn Stmt.EndsInParen) := by
  apply Continues.attempt
  apply Continues.skip
  case atEnd => exact fun _ _ => declines_name.waits.orRaise _
  refine ((continues_name.mono (Nat.le_succ _) (Nat.le_refl _) id).orRaise _).followed
    (fun name => ?_)
    fun _ fit => Outcome.demand (newline_kind_ne (by decide)) (.inr fit.2.1)
  exact continues_function continues (Stmt.define name) (fun _ _ => rfl) _

theorem continues_evaluation :
    ending.Continues (bound + 1) 1 (evaluation inner) (ending.Cut Stmt.shorn Stmt.EndsInParen) := by
  apply (continues_expression continues).continues.map
  rintro _ expression _ ⟨rfl, rfl, notSymbol, notNewline, closes⟩
  exact ⟨rfl, rfl, notSymbol, notNewline, closes⟩

end Inner

theorem continues_statement {inner : Inner} (continues : ending.ContinuesInner bound inner) :
    ending.ContinuesLine (bound + 1) (statement inner) Stmt.shorn Stmt.EndsInParen where
  blank _ tokens dropped := by
    unfold statement
    rw [← dropNewlines, dropped]
  outcome tokens reaches reachesLine short := by
    have continuesChoice : ending.Continues (bound + 1) 1
        (firstOf [assignment inner, evaluation inner, definition inner])
        (ending.Cut Stmt.shorn Stmt.EndsInParen) := by
      apply Continues.firstOf
      simp only [List.forall_mem_cons]
      exact ⟨⟨rejectsInPlace_attempt _, continues_assignment continues⟩,
        ⟨inPlace_evaluation, continues_evaluation continues⟩,
        ⟨rejectsInPlace_attempt _, continues_definition continues⟩, by simp⟩
    have shorter := length_dropNewlines_le tokens
    have outcome := continuesChoice _ reachesLine (by omega)
    unfold statement
    rw [← dropNewlines, ← dropNewlines]
    rcases reaches.dropNewlines with ⟨dropped, _⟩ | ⟨_, dropped'⟩
    · exact absurd dropped reachesLine.ne_nil
    obtain ⟨token, rest, same, -⟩ := reachesLine.cons
    rw [dropped']
    rw [same] at outcome shorter ⊢
    exact outcome.imp id fun _ _ => by omega
  rejected := rejected_statement inner

/-- What is nested inside goes on in the same way, on lists that are shorter than the depth. -/
theorem continuesInner_nested {depth : Nat} (enough : bound ≤ depth) :
    ending.ContinuesInner bound (nested depth) := by
  induction depth generalizing bound with
  | zero =>
      cases Nat.le_zero.mp enough
      exact ⟨Continues.raise _, ⟨⟨_, rfl⟩, nofun⟩, nofun, fun _ _ _ _ => .failed, nofun⟩
  | succ depth ih =>
      cases bound with
      | zero =>
          have expressions := continues_expression (ih (Nat.zero_le depth))
          exact ⟨nofun, expressions.declines.waits, nofun, nofun, rejected_statement _⟩
      | succ bound =>
          have continues := ih (Nat.le_of_succ_le_succ enough)
          have expressions := continues_expression continues
          exact ⟨expressions.continues, expressions.declines.waits, continues_statement continues⟩

/-- Of a whole script, only the last statement is cut. -/
theorem continues_program {depth : Nat} (enough : bound ≤ depth) :
    ending.Continues (bound + 1) 0 (program (nested depth)) fun program program' left =>
      ending.LastCut Stmt.shorn Stmt.EndsInParen program.statements program'.statements left :=
  (Continues.many (continues_statement (continuesInner_nested enough))).map id

end Ending

end StackScript.Grammar
