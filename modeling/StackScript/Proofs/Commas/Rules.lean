import StackScript.Proofs.Commas.Repetition
import StackScript.Proofs.Grammar.Rules
import StackScript.Proofs.Precedence.Reading

/-!
# The rules of the grammar with a newline less

Each rule is run three times where the runs belong together.  Only three rules look at the token
after the opening one and read no comma list there: a group, an index and a record, which is what
is left of a parenthesis if no group starts with it.  A term therefore tells them apart
(`carries_term`); all other rules follow from the combinators.
-/

namespace StackScript.Grammar.Commas

open StackScript.Grammar.Parser
open StackScript.Surface (Expr Stmt Level Program)

namespace Deletion

variable (deletion : Deletion)

theorem kind_eq_false {kind : Kind} (other : kind ∉ [.comma, .openParen, .openBracket]) :
    decide (deletion.opener.kind = kind) = false := by
  apply decide_eq_false
  rintro rfl
  exact other deletion.isOpener

theorem text_eq_false {word : String} (isBare : word ∈ bareWords) :
    decide (deletion.opener.text = word) = false := by
  apply decide_eq_false
  rintro rfl
  exact deletion.notWord isBare

theorem isKeyword_eq_false (word : String) : deletion.opener.isKeyword word = false := by
  rw [Token.isKeyword, deletion.kind_eq_false (by decide), Bool.false_and]

/-- The opening token is no operator. -/
theorem isOperatorOf_eq_false (level : Level) : isOperatorOf level deletion.opener = false := by
  cases level with
  | conjunction | disjunction =>
      change (decide _ && _) = false
      rw [deletion.kind_eq_false (by decide), Bool.false_and]
  | _ => exact deletion.kind_eq_false (by decide)

end Deletion

variable {deletion : Deletion} {tokens tokens' tokens'' : List Token}

namespace Place

/-- What the first run finds before the opening token tells where the others are. -/
theorem of_append {middle : List Token}
    (place : Place deletion (middle ++ deletion.whole) tokens' tokens'') :
    middle <:+ deletion.front ∧ tokens' = middle ++ deletion.short ∧
      tokens'' = middle ++ deletion.probe := by
  generalize isTokens : middle ++ deletion.whole = tokens at place
  cases place with
  | before isSuffix =>
      cases List.append_cancel_right isTokens
      exact ⟨isSuffix, rfl, rfl⟩
  | past short =>
      rw [← isTokens, Deletion.whole] at short
      simp only [List.length_append, List.length_cons] at short
      omega

theorem getLast?_front {token : Token}
    (place : Place deletion (token :: deletion.whole) tokens' tokens'') :
    deletion.front.getLast? = some token := by
  obtain ⟨⟨taken, isFront⟩, _⟩ := (show Place deletion ([token] ++ _) _ _ from place).of_append
  rw [← isFront, List.getLast?_append]
  rfl

end Place

/-- A parser for expressions rejects a newline, and it takes a name for an expression where a comma
or a colon follows it. -/
structure Selects (parser : Parser Expr) : Prop where
  newline : ∀ token rest, token.kind = .newline → token.text ∉ bareWords →
    parser (token :: rest) = .ok (.reject (token :: rest))
  name : ∀ name next rest, name.kind = .symbol → next.kind ∈ [.comma, .colon] →
    ∃ value, parser (name :: next :: rest) = .ok (.accept value (next :: rest))

/-- What is nested inside a construct has an outcome. -/
structure CarriesInner (deletion : Deletion) (inner : Inner) : Prop where
  expression : Carries deletion 1 inner.expression inner.expression
  statement : CarriesLine deletion inner.statement
  selects : (∃ error, ∀ tokens, inner.expression tokens = .error error) ∨
    Selects inner.expression

theorem CarriesInner.readsName {inner : Inner} (carries : CarriesInner deletion inner) :
    ReadsName inner.expression :=
  carries.selects.imp_right Selects.name

theorem carries_name : Carries deletion 1 name name :=
  Carries.satisfy (deletion.kind_eq_false (by decide)) fun _ _ => Carries.pure _ _

theorem readsName_name : ReadsName name := by
  right
  intro name next rest isSymbol _
  refine ⟨name.text, ?_⟩
  rw [Grammar.name, satisfy_bind_cons, decide_eq_true isSymbol]
  rfl

theorem carries_symbol : Carries deletion 1 symbol symbol :=
  Carries.satisfy (deletion.kind_eq_false (by decide)) fun _ _ => Carries.pure _ _

theorem carries_integer : Carries deletion 1 integer integer := by
  apply Carries.satisfy (deletion.kind_eq_false (by decide))
  intro token _
  rcases Text.readNumeral token.text with (_ | _) | _
  · exact Carries.raise _
  · exact Carries.raise _
  · exact Carries.pure _ _

theorem carries_text : Carries deletion 1 text text := by
  apply Carries.satisfy
  · rw [deletion.kind_eq_false (by decide), deletion.kind_eq_false (by decide)]
    rfl
  · exact fun _ _ => Carries.pure _ _

section Inner

variable {inner : Inner} (carries : CarriesInner deletion inner)
include carries

theorem carries_body : Carries deletion 0 (body inner) (body inner) :=
  carries.statement.many.bind fun _ _ => Carries.newlines.bind fun _ _ => Carries.pure _ _

/-- A group has an outcome where its parenthesis is not the opening one. -/
theorem outcome_group (place : Place deletion tokens tokens' tokens'')
    (notParen : tokens = deletion.whole → deletion.opener.kind ≠ .openParen) :
    Outcome deletion 1 tokens tokens' tokens'' (group inner tokens) (group inner tokens')
      (group inner tokens'') :=
  .wrapped (by decide) carries.expression.weaken place fun atOpener isParen =>
    absurd isParen (notParen atOpener)

theorem carries_expressions : Carries deletion 0 (expressions inner) (expressions inner) :=
  carries.expression.commaSeparated

theorem carries_field : Carries deletion 1 (field inner) (field inner) := by
  apply Carries.attempt
  apply carries_name.bind
  intro name other
  apply Carries.weaken
  apply Carries.skip (deletion.kind_eq_false (by decide))
  exact ((carries.expression.orRaise _).bind fun _ _ => Carries.pure _ _).weaken

/-- A record has an outcome where its first field is not mistaken. -/
theorem outcome_record (place : Place deletion tokens tokens' tokens'')
    (unmistaken : tokens = deletion.whole → deletion.Unmistaken) :
    Outcome deletion 1 tokens tokens' tokens'' (record inner tokens) (record inner tokens')
      (record inner tokens'') := by
  have outcomeFields : Outcome deletion 1 tokens tokens' tokens''
      (parenthesized (commaSeparated (field inner)) tokens)
      (parenthesized (commaSeparated (field inner)) tokens')
      (parenthesized (commaSeparated (field inner)) tokens'') := by
    apply Outcome.wrapped (by decide) (carries_field carries).commaSeparated place
    intro atOpener isParen
    have noItem := deletion.item?_eq_none (by simp [isParen])
    exact (carries_field carries).closed_opened (by decide) (.inr ⟨noItem, unmistaken atOpener⟩)
      Carries.pure
  exact outcomeFields.bind fun _ remains => Carries.pure _ _ remains.place

theorem carries_list : Carries deletion 1 (list inner) (list inner) := by
  have carriesItems : Carries deletion 1 (bracketed (expressions inner))
      (bracketed (expressions inner)) :=
    fun _ _ _ place => .wrapped (by decide) (carries_expressions carries) place fun _ _ =>
      carries.expression.closed_opened (by decide) (.inl carries.readsName) Carries.pure
  exact carriesItems.bind fun _ _ => Carries.pure _ _

/-- The parameters and the body of a function. -/
theorem carries_function {α : Type} (build build' : List String → List Stmt → α)
    {error : Token → Error} :
    Carries deletion 1
      (do demand (fun token => token.kind = .openParen) error
          let parameters ← commaSeparated name
          demand (fun token => token.kind = .closeParen) fun _ => .malformedConstruct
          skip fun token => token.text = "do"
          let statements ← body inner
          skip fun token => token.isKeyword "end"
          return build parameters statements)
      (do demand (fun token => token.kind = .openParen) error
          let parameters ← commaSeparated name
          demand (fun token => token.kind = .closeParen) fun _ => .malformedConstruct
          skip fun token => token.text = "do"
          let statements ← body inner
          skip fun token => token.isKeyword "end"
          return build' parameters statements) := by
  have carriesDo (parameters parameters' : List String) : Carries deletion 0
      (do skip fun token => token.text = "do"
          let statements ← body inner
          skip fun token => token.isKeyword "end"
          return build parameters statements)
      (do skip fun token => token.text = "do"
          let statements ← body inner
          skip fun token => token.isKeyword "end"
          return build' parameters' statements) := by
    apply Carries.weaken
    apply Carries.skip (deletion.text_eq_false (by decide))
    apply (carries_body carries).bind
    intro statements statements'
    exact (Carries.skip (deletion.isKeyword_eq_false "end") (Carries.pure _ _)).weaken
  apply Carries.demandOpening
  · exact carries_name.commaSeparated.closed (by decide) carriesDo
  · intro _
    exact carries_name.closed_opened (by decide) (.inl readsName_name) carriesDo

theorem carries_lambda : Carries deletion 1 (lambda inner) (lambda inner) := by
  apply Carries.attempt
  exact Carries.skip (deletion.isKeyword_eq_false "lambda")
    (carries_function carries Expr.lambda Expr.lambda).weaken

/-! ## Heads, indices and arguments -/

theorem outcome_head (place : Place deletion tokens tokens' tokens'')
    (notParen : tokens = deletion.whole → deletion.opener.kind ≠ .openParen) :
    Outcome deletion 1 tokens tokens' tokens'' (head inner tokens) (head inner tokens')
      (head inner tokens'') := by
  apply Outcome.firstOf
  simp only [List.forall_mem_cons]
  exact ⟨⟨inPlace_symbol, carries_symbol place⟩,
    ⟨rejectsInPlace_attempt _, outcome_group carries place notParen⟩, by simp⟩

/-- After the opening bracket of an index the first run finds a newline and rejects it.  So does the
second run if another newline follows; if not, then the third one finds two items. -/
theorem carriesOpened_index (isBracket : deletion.opener.kind = .openBracket)
    (follows : EndsHead deletion.front) :
    CarriesOpened deletion
      (inner.expression >>= fun value =>
        demand (fun token => token.kind = .closeBracket) (fun _ => .malformedConstruct) >>=
          fun _ => Pure.pure value)
      (inner.expression >>= fun value =>
        demand (fun token => token.kind = .closeBracket) (fun _ => .malformedConstruct) >>=
          fun _ => Pure.pure value) := by
  rw [CarriesOpened]
  rcases carries.selects with ⟨error, fails⟩ | selects
  · rw [bind_error (fails _)]
    exact .failed
  have plain := deletion.plainNewlines
  rw [bind_reject (selects.newline deletion.newline deletion.after deletion.isNewline
    (plain _ List.mem_cons_self deletion.isNewline))]
  cases isItem : deletion.item? with
  | none =>
      obtain ⟨token, isFirst, isNewline⟩ := deletion.noItem isItem isBracket
      obtain ⟨rest, isAfter⟩ := List.head?_eq_some_iff.mp isFirst
      have notWord := plain token (by simp [isAfter]) isNewline
      rw [deletion.probed_eq isItem, isAfter,
        bind_reject (selects.newline token rest isNewline notWord)]
      exact .reject
  | some pair =>
      obtain ⟨_, isSymbol, isComma⟩ := deletion.isItem pair isItem
      obtain ⟨value, accepted⟩ := selects.name pair.1 pair.2
        (deletion.newline :: deletion.after) isSymbol (by simp [isComma])
      have isProbed : deletion.probed = pair.1 :: pair.2 :: deletion.newline :: deletion.after := by
        rw [Deletion.probed, isItem]
      rw [isProbed, closed_fails (by decide) (by simp [isComma]) accepted]
      exact .mistaken ⟨fun isParen => by simp [isBracket] at isParen,
        fun _ => ⟨follows, by simp [isItem]⟩, by simp [isBracket]⟩

omit carries in
/-- Before an opening bracket stands the token that closes a value, if the value has been read up
to there. -/
theorem endsHead_of_wrapped {α : Type} {parser : Parser α} {opening closing : Kind} {value : α}
    (isClosing : closing ∈ [.closeParen, .closeBracket])
    (carries : Carries deletion 1 parser parser) (place : Place deletion tokens tokens' tokens'')
    (notOpened : tokens = deletion.whole → deletion.opener.kind = opening → ∀ value rest,
      parser (deletion.newline :: deletion.after) ≠ .ok (.accept value rest))
    (accepted : wrapped opening closing parser tokens = .ok (.accept value deletion.whole))
    (isBracket : deletion.opener.kind = .openBracket) : EndsHead deletion.front := by
  have inside := attempt_eq_accept accepted
  rw [skip_bind] at inside
  rcases place.cases with ⟨rfl, _⟩ | ⟨token, rest, rest', rest'', rfl, rfl, rfl, later⟩ |
    ⟨rfl, rfl, rfl⟩
  · cases inside
  · rw [satisfy_bind_cons] at inside
    split at inside
    case isFalse => cases inside
    obtain ⟨found, between, acceptedValue, demanded⟩ := bind_eq_accept inside
    obtain ⟨_, _, closed, returned⟩ := bind_eq_accept demanded
    cases returned
    obtain ⟨close, rfl, isClose⟩ := demand_eq_accept closed
    have outcome := carries later
    rw [acceptedValue] at outcome
    generalize parser rest' = reply', parser rest'' = reply'' at outcome
    cases outcome with
    | mistaken isMistakable => exact (isMistakable.2.1 isBracket).1
    | accept remains =>
        refine ⟨close, remains.place.getLast?_front, ?_⟩
        rw [of_decide_eq_true isClose]
        exact List.mem_cons_of_mem _ isClosing
  · rw [Deletion.whole, satisfy_bind_cons] at inside
    split at inside
    case isFalse => cases inside
    case isTrue isOpening =>
        obtain ⟨found, between, acceptedValue, _⟩ := bind_eq_accept inside
        exact absurd acceptedValue (notOpened rfl (of_decide_eq_true isOpening) found between)

theorem endsHead_of_head {value : Expr} (place : Place deletion tokens tokens' tokens'')
    (notParen : tokens = deletion.whole → deletion.opener.kind ≠ .openParen)
    (accepted : head inner tokens = .ok (.accept value deletion.whole))
    (isBracket : deletion.opener.kind = .openBracket) : EndsHead deletion.front := by
  have inPlace : ∀ choice ∈ [symbol, group inner], RejectsInPlace choice := by
    simp only [List.forall_mem_cons]
    exact ⟨inPlace_symbol, rejectsInPlace_attempt _, by simp⟩
  obtain ⟨choice, member, acceptedChoice⟩ := firstOf_eq_accept inPlace accepted
  simp only [List.mem_cons, List.not_mem_nil, or_false] at member
  rcases member with rfl | rfl
  · obtain ⟨token, between, found, returned⟩ := bind_eq_accept acceptedChoice
    obtain ⟨rfl, isSymbol⟩ := satisfy_eq_accept found
    cases returned
    exact ⟨token, place.getLast?_front, by simp [of_decide_eq_true isSymbol]⟩
  · exact endsHead_of_wrapped (by decide) carries.expression place
      (fun atOpener isParen => absurd isParen (notParen atOpener)) acceptedChoice isBracket

/-- An index has an outcome if something that it may follow stands before an opening bracket. -/
theorem carriesArgument_index :
    CarriesArgument deletion (deletion.opener.kind = .openBracket → EndsHead deletion.front)
      (bracketed inner.expression) where
  outcome _ _ _ place atOpener :=
    .wrapped (by decide) carries.expression.weaken place fun isWhole isBracket =>
      carriesOpened_index carries isBracket (atOpener isWhole isBracket)
  inPlace := rejectsInPlace_attempt _
  ends place accepted isBracket := by
    apply endsHead_of_wrapped (by decide) carries.expression place _ accepted isBracket
    intro _ _ value rest acceptedNewline
    rcases carries.selects with ⟨error, fails⟩ | selects
    · rw [fails] at acceptedNewline
      cases acceptedNewline
    · rw [selects.newline _ _ deletion.isNewline
        (deletion.plainNewlines _ List.mem_cons_self deletion.isNewline)] at acceptedNewline
      cases acceptedNewline

theorem carriesArgument_arguments :
    CarriesArgument deletion True (parenthesized (expressions inner)) where
  outcome _ _ _ place _ :=
    .wrapped (by decide) (carries_expressions carries) place fun _ _ =>
      carries.expression.closed_opened (by decide) (.inl carries.readsName) Carries.pure
  inPlace := rejectsInPlace_attempt _
  ends _ _ := trivial

theorem outcome_item (place : Place deletion tokens tokens' tokens'')
    (notParen : tokens = deletion.whole → deletion.opener.kind ≠ .openParen) :
    Outcome deletion 1 tokens tokens' tokens'' (item inner tokens) (item inner tokens')
      (item inner tokens'') :=
  (carriesArgument_index carries).applied (outcome_head carries place notParen) fun _ =>
    endsHead_of_head carries place notParen

theorem outcome_call (place : Place deletion tokens tokens' tokens'')
    (notParen : tokens = deletion.whole → deletion.opener.kind ≠ .openParen) :
    Outcome deletion 1 tokens tokens' tokens'' (call inner tokens) (call inner tokens')
      (call inner tokens'') :=
  (carriesArgument_arguments carries).applied (outcome_head carries place notParen) fun _ _ =>
    trivial

section Parenthesis

omit carries

variable {token : Token} {rest : List Token}

/-- A parenthesis with which no group starts is that of a record. -/
theorem term_eq_record (isParen : token.kind = .openParen)
    (noGroup : group inner (token :: rest) = .ok (.reject (token :: rest))) :
    term inner (token :: rest) = record inner (token :: rest) := by
  have starts {test : Lexeme → Prop} (passes : test token.lexeme) :
      StartsWith test ((token :: rest).map Token.lexeme) := passes
  have noHead : head inner (token :: rest) = .ok (.reject (token :: rest)) := by
    refine (firstOf_skip [symbol, group inner] ?_).trans rfl
    simp only [List.forall_mem_cons]
    exact ⟨refuses_symbol _ (starts (by simp [Token.lexeme, isParen])), noGroup, by simp⟩
  have noApplied {β : Type} (argument : Parser β) (apply : Position → Expr → β → Expr) :
      applied (head inner) argument apply (token :: rest) = .ok (.reject (token :: rest)) := by
    rw [applied, attempt, bind_reject noHead]
  refine (firstOf_skip [item inner, call inner, group inner, integer, text, list inner,
    lambda inner, symbol] ?_).trans ?_
  · simp only [List.forall_mem_cons]
    exact ⟨noApplied _ _, noApplied _ _, noGroup,
      refuses_integer _ (starts (by simp [Token.lexeme, isParen])),
      refuses_text _ (starts (by simp [Token.lexeme, isParen])),
      refuses_list inner _ (starts (by simp [Token.lexeme, isParen])),
      refuses_lambda inner _ (starts (by simp [Token.lexeme, isParen])),
      refuses_symbol _ (starts (by simp [Token.lexeme, isParen])), by simp⟩
  · unfold firstOf.go
    split
    · rename_i rejected
      rw [rejected, inPlace_record _ _ rejected]
      rfl
    · rfl

/-- An error in a group that starts with a parenthesis ends the reading of a term. -/
theorem term_error {error : Error} (isParen : token.kind = .openParen)
    (raised : group inner (token :: rest) = .error error) :
    term inner (token :: rest) = .error error := by
  have notSymbol : symbol (token :: rest) = .ok (.reject (token :: rest)) :=
    refuses_symbol _ (show token.kind ≠ .symbol by simp [isParen])
  have onHead : head inner (token :: rest) = .error error := by
    rw [head, firstOf, firstOf.go, notSymbol]
    simp only
    rw [firstOf.go, raised]
  have onItem : item inner (token :: rest) = .error error := by
    rw [item, applied, attempt, bind_error onHead]
  rw [term, firstOf, firstOf.go, onItem]

/-- A record that opens with a newline fails if no field follows. -/
theorem exists_field {newline : Token} {reply : Reply Expr} (isParen : token.kind = .openParen)
    (isNewline : newline.kind = .newline)
    (replied : record inner (token :: newline :: rest) = .ok reply) :
    ∃ name colon others, dropNewlines rest = name :: colon :: others ∧ name.kind = .symbol ∧
      colon.kind = .colon := by
  have found : dropNewlines (newline :: rest) = dropNewlines rest := by
    simp [dropNewlines, isNewline]
  cases repliedField : field inner (dropNewlines rest) with
  | error error =>
      have onRecord : record inner (token :: newline :: rest) = .error error :=
        bind_error (wrapped_error isParen (bind_error
          (commaSeparated_error (found.symm ▸ repliedField))))
      rw [onRecord] at replied
      cases replied
  | ok replyField =>
      cases replyField with
      | reject left =>
          have onFields : commaSeparated (field inner) (newline :: rest) =
              .ok (.accept [] (newline :: rest)) :=
            commaSeparated_reject (found.symm ▸ repliedField)
          have onRecord : record inner (token :: newline :: rest) = .error .malformedConstruct :=
            bind_error (wrapped_error isParen
              (closed_fails (by decide) (by simp [isNewline]) onFields))
          rw [onRecord] at replied
          cases replied
      | accept value left =>
          obtain ⟨_, between, isName, later⟩ := bind_eq_accept (attempt_eq_accept repliedField)
          obtain ⟨name, _, isFirst, returned⟩ := bind_eq_accept isName
          obtain ⟨isFound, isSymbol⟩ := satisfy_eq_accept isFirst
          cases returned
          rw [skip_bind] at later
          obtain ⟨colon, others, isSecond, _⟩ := bind_eq_accept later
          obtain ⟨rfl, isColon⟩ := satisfy_eq_accept isSecond
          exact ⟨name, colon, others, isFound, of_decide_eq_true isSymbol,
            of_decide_eq_true isColon⟩

end Parenthesis

/-- At an opening parenthesis a term is a record, or the name of its first field is mistaken for a
group. -/
theorem outcome_term_opener (isParen : deletion.opener.kind = .openParen) :
    Outcome deletion 1 deletion.whole deletion.short deletion.probe (term inner deletion.whole)
      (term inner deletion.short) (term inner deletion.probe) := by
  have isProbe : deletion.probe = deletion.short := by
    rw [Deletion.probe, deletion.probed_eq (deletion.item?_eq_none (by simp [isParen])),
      Deletion.short]
  rcases carries.selects with ⟨error, fails⟩ | selects
  · rw [Deletion.whole, term_error isParen (wrapped_error isParen (bind_error (fails _)))]
    exact .failed
  have plain := deletion.plainNewlines
  have rejected (token : Token) (rest : List Token) (member : token ∈ deletion.newline ::
      deletion.after) (isNewline : token.kind = .newline) :
      term inner (deletion.opener :: token :: rest) =
        record inner (deletion.opener :: token :: rest) :=
    term_eq_record isParen (wrapped_reject isParen
      (selects.newline token rest isNewline (plain token member isNewline)))
  by_cases unmistaken : deletion.Unmistaken
  · have isRecord : term inner deletion.whole = record inner deletion.whole :=
      rejected _ _ List.mem_cons_self deletion.isNewline
    have outcome := outcome_record carries .opener fun _ => unmistaken
    cases repliedRecord : record inner deletion.whole with
    | error error =>
        rw [isRecord, repliedRecord]
        exact .failed
    | ok reply =>
        obtain ⟨name, colon, others, isFound, isSymbol, isColon⟩ :=
          exists_field isParen deletion.isNewline repliedRecord
        -- Without another newline the field would follow directly.
        obtain ⟨token, rest, isAfter, isNewline⟩ : ∃ token rest, deletion.after = token :: rest ∧
            token.kind = .newline := by
          cases isAfter : deletion.after with
          | nil =>
              rw [isAfter] at isFound
              cases isFound
          | cons token rest =>
              refine ⟨token, rest, rfl, ?_⟩
              by_contra notNewline
              rw [isAfter, dropNewlines, List.dropWhile_cons_of_neg (by simp [notNewline])]
                at isFound
              exact unmistaken isParen ⟨name, colon, others, isAfter.trans isFound, isSymbol,
                isColon⟩
        have isRecordShort : term inner deletion.short = record inner deletion.short := by
          rw [Deletion.short, isAfter]
          exact rejected token rest (by simp [isAfter]) isNewline
        rw [isProbe] at outcome ⊢
        rw [isRecord, isRecordShort]
        exact outcome
  · obtain ⟨_, name, colon, rest, isAfter, isSymbol, isColon⟩ :=
      deletion.startsField_of_not unmistaken
    obtain ⟨value, accepted⟩ := selects.name name colon rest isSymbol (by simp [isColon])
    have isError : term inner deletion.probe = .error .malformedConstruct := by
      rw [isProbe, Deletion.short, isAfter]
      exact term_error isParen (wrapped_error isParen
        (closed_fails (by decide) (by simp [isColon]) accepted))
    rw [isError]
    exact .mistaken ⟨fun _ => ⟨name, colon, rest, isAfter, isSymbol, isColon⟩,
      fun isBracket => by simp [isParen] at isBracket, by simp [isParen]⟩

theorem carries_term : Carries deletion 1 (term inner) (term inner) := by
  intro tokens tokens' tokens'' place
  by_cases atParen : tokens = deletion.whole ∧ deletion.opener.kind = .openParen
  · obtain ⟨rfl, isParen⟩ := atParen
    obtain ⟨_, rfl, rfl⟩ := (show Place deletion ([] ++ _) _ _ from place).of_append
    exact outcome_term_opener carries isParen
  have notParen : tokens = deletion.whole → deletion.opener.kind ≠ .openParen :=
    fun isWhole isParen => atParen ⟨isWhole, isParen⟩
  have unmistaken : tokens = deletion.whole → deletion.Unmistaken :=
    fun isWhole isParen => absurd isParen (notParen isWhole)
  apply Outcome.firstOf
  simp only [List.forall_mem_cons]
  exact ⟨⟨rejectsInPlace_attempt _, outcome_item carries place notParen⟩,
    ⟨rejectsInPlace_attempt _, outcome_call carries place notParen⟩,
    ⟨rejectsInPlace_attempt _, outcome_group carries place notParen⟩,
    ⟨inPlace_integer, carries_integer place⟩, ⟨inPlace_text, carries_text place⟩,
    ⟨inPlace_list, carries_list carries place⟩,
    ⟨rejectsInPlace_attempt _, carries_lambda carries place⟩,
    ⟨inPlace_symbol, carries_symbol place⟩,
    ⟨inPlace_record, outcome_record carries place unmistaken⟩, by simp⟩

omit carries in
theorem carries_infixLevel (level : Level) {operand : Parser Expr}
    (carries : Carries deletion 1 operand operand) :
    Carries deletion 1 (infixLevel level (isOperatorOf level) operand)
      (infixLevel level (isOperatorOf level) operand) :=
  carries.chainLeft (deletion.isOperatorOf_eq_false level)

theorem carries_access : Carries deletion 1 (access inner) (access inner) :=
  carries_infixLevel .access (carries_term carries)

theorem carries_negation : Carries deletion 1 (negation inner) (negation inner) := by
  apply Carries.attempt
  apply Carries.nextPosition
  intro position
  apply Carries.skip (deletion.text_eq_false (by decide))
  exact ((carries_access carries).bind fun _ _ => Carries.pure _ _).weaken

theorem carries_disjunction : Carries deletion 1 (disjunction inner) (disjunction inner) := by
  have carriesSigned : Carries deletion 1 (signed inner) (signed inner) := by
    apply Carries.firstOf
    simp only [List.forall_mem_cons]
    exact ⟨⟨rejectsInPlace_attempt _, carries_access carries⟩,
      ⟨rejectsInPlace_attempt _, carries_negation carries⟩, by simp⟩
  have carriesAddition : Carries deletion 1 (addition inner) (addition inner) :=
    carries_infixLevel .addition (carries_infixLevel .multiplication carriesSigned)
  exact carries_infixLevel .disjunction
    (carries_infixLevel .conjunction (carries_infixLevel .comparison carriesAddition))

theorem carries_otherwise : Carries deletion 0 (otherwise inner) (otherwise inner) := by
  apply Carries.firstOf
  simp only [List.forall_mem_cons]
  refine ⟨⟨?_, ?_⟩, ⟨nofun, Carries.pure _ _⟩, by simp⟩
  · rw [skip_bind]
    exact (rejectsInPlace_satisfy _).bind fun _ => neverRejects_body
  · exact (Carries.skip (deletion.text_eq_false (by decide)) (carries_body carries)).weaken

theorem carries_conditional : Carries deletion 1 (conditional inner) (conditional inner) := by
  apply Carries.attempt
  apply Carries.skip (deletion.text_eq_false (by decide))
  apply Carries.weaken
  apply ((carries_disjunction carries).orRaise _).bind
  intro condition condition'
  apply Carries.weaken
  apply Carries.demand (deletion.text_eq_false (by decide))
  apply (carries_body carries).bind
  intro onTrue onTrue'
  apply (carries_otherwise carries).bind
  intro onFalse onFalse'
  exact (Carries.demand (deletion.text_eq_false (by decide)) (Carries.pure _ _)).weaken

theorem carries_expression : Carries deletion 1 (expression inner) (expression inner) := by
  apply Carries.firstOf
  simp only [List.forall_mem_cons]
  exact ⟨⟨rejectsInPlace_attempt _, carries_disjunction carries⟩,
    ⟨rejectsInPlace_attempt _, carries_conditional carries⟩, by simp⟩

/-! ## Statements -/

theorem carries_assignment : Carries deletion 1 (assignment inner) (assignment inner) := by
  have carriesTarget : Carries deletion 1 target target := by
    apply Carries.satisfy (deletion.kind_eq_false (by decide))
    intro token _
    apply Carries.weaken
    apply Carries.skip (deletion.kind_eq_false (by decide))
    split
    · exact Carries.raise _
    · exact Carries.pure _ _
  apply Carries.attempt
  apply carriesTarget.bind
  intro token token'
  exact ((carries.expression.orRaise _).bind fun _ _ => Carries.pure _ _).weaken

theorem carries_definition : Carries deletion 1 (definition inner) (definition inner) := by
  apply Carries.attempt
  apply Carries.skip (deletion.isKeyword_eq_false "def")
  apply Carries.weaken
  apply (carries_name.orRaise _).bind
  intro name name'
  exact (carries_function carries (Stmt.define name) (Stmt.define name')).weaken

theorem carries_evaluation : Carries deletion 1 (evaluation inner) (evaluation inner) :=
  (carries_expression carries).bind fun _ _ => Carries.pure _ _

theorem carries_statement : CarriesLine deletion (statement inner) where
  carries tokens tokens' tokens'' place := by
    have carriesChoice : Carries deletion 1
        (firstOf [assignment inner, evaluation inner, definition inner])
        (firstOf [assignment inner, evaluation inner, definition inner]) := by
      apply Carries.firstOf
      simp only [List.forall_mem_cons]
      exact ⟨⟨rejectsInPlace_attempt _, carries_assignment carries⟩,
        ⟨inPlace_evaluation, carries_evaluation carries⟩,
        ⟨rejectsInPlace_attempt _, carries_definition carries⟩, by simp⟩
    have remains := Remains.skipNewlines place
    unfold statement
    rw [← dropNewlines, ← dropNewlines, ← dropNewlines]
    generalize dropNewlines tokens = found, dropNewlines tokens' = found',
      dropNewlines tokens'' = found'' at remains ⊢
    have outcome := (carriesChoice remains.place).after remains
    by_cases atEnd : found = []
    · obtain ⟨rfl, rfl⟩ := remains.place.ended atEnd
      subst atEnd
      exact .reject
    · obtain ⟨token, rest, rest', rest'', rfl, rfl, rfl⟩ := remains.place.exists_cons atEnd
      exact outcome.mono (Nat.le_refl 1)
  rejected := rejected_statement inner

end Inner

/-- What an expression does with a newline and with a name. -/
theorem selects_expression (inner : Inner) : Selects (expression inner) where
  newline token rest isNewline notWord := by
    apply refuses_expression inner
    simp only [bareWords, List.mem_cons, List.not_mem_nil, or_false, not_or] at notWord
    change startsExpression token.lexeme = false
    simp [startsExpression, startsTerm, Token.lexeme, isNewline, notWord]
  name name next rest isSymbol ends := by
    have endsOperand : EndsOperand 6 next.lexeme := by
      simp only [List.mem_cons, List.not_mem_nil, or_false] at ends
      rcases ends with isComma | isColon
      · exact endsOperand_of_kind (by simp [Token.lexeme, isComma, endingKinds]) 6
      · refine ⟨by simp [Token.lexeme, isColon], by simp [Token.lexeme, isColon], ?_⟩
        intro level _
        cases level <;> simp [Level.isOperator, Level.kind, Token.lexeme, isColon]
    obtain ⟨tree, _, accepted⟩ := Precedence.expression_reads inner
      ⟨none, name, _, by simp, .symbol isSymbol⟩ [] rest endsOperand
    exact ⟨tree, accepted⟩

/-- What is nested inside has an outcome at any depth. -/
theorem carriesInner_nested (depth : Nat) : CarriesInner deletion (nested depth) := by
  induction depth with
  | zero => exact ⟨Carries.raise _, ⟨Carries.raise _, nofun⟩, .inl ⟨_, fun _ => rfl⟩⟩
  | succ depth ih =>
      exact ⟨carries_expression ih, carries_statement ih, .inr (selects_expression _)⟩

theorem carries_program (depth : Nat) :
    Carries deletion 0 (program (nested depth)) (program (nested depth)) :=
  (carries_statement (carriesInner_nested depth)).many.bind fun _ _ => Carries.pure _ _

end StackScript.Grammar.Commas
