import StackScript.Proofs.Recursion.Calls

/-!
# What a run can raise

One run of a parser is followed here, with the errors that are expected of it left open.  A parser
settles on some tokens if it replies on each end of them with an expected error, or leaves an end
of the tokens that it was given (`SettlesOn`).  There is one lemma for each combinator.

Where an error is expected only because of what has been read before it, the lemmas for sequences
also tell what the first parser replied (`Settled.bind`).
-/

namespace StackScript.Grammar

open StackScript.Grammar.Parser

variable {σ α β : Type} {expected : Error → Prop} {whole tokens : List Token} {least more : Nat}

namespace Settled

variable {reply : Except Error (Reply α)} {parser : Parser α}

theorem imp {expected' : Error → Prop} (settled : Settled expected least tokens reply)
    (weaker : ∀ error, expected error → expected' error) :
    Settled expected' least tokens reply := by
  cases settled with
  | error isExpected => exact .error (weaker _ isExpected)
  | accept isSuffix taken => exact .accept isSuffix taken
  | reject isSuffix => exact .reject isSuffix

theorem weaken {fewer : Nat} (settled : Settled expected least tokens reply)
    (fewerLe : fewer ≤ least) : Settled expected fewer tokens reply := by
  cases settled with
  | error isExpected => exact .error isExpected
  | accept isSuffix taken => exact .accept isSuffix (by omega)
  | reject isSuffix => exact .reject isSuffix

theorem pure (value : α) : Settled expected 0 tokens ((Pure.pure value : Parser α) tokens) :=
  .accept (List.suffix_refl _) (Nat.le_refl _)

/-- What is replied on an end of the tokens is replied on the tokens. -/
theorem after {rest : List Token} (settled : Settled expected more rest reply)
    (isSuffix : rest <:+ tokens) (taken : rest.length + least ≤ tokens.length) :
    Settled expected (least + more) tokens reply := by
  cases settled with
  | error isExpected => exact .error isExpected
  | accept isSuffix' taken' => exact .accept (isSuffix'.trans isSuffix) (by omega)
  | reject isSuffix' => exact .reject (isSuffix'.trans isSuffix)

theorem within {rest : List Token} (settled : Settled expected least rest reply)
    (isSuffix : rest <:+ tokens) : Settled expected least tokens reply := by
  rw [← Nat.zero_add least]
  exact settled.after isSuffix isSuffix.length_le

theorem bind {first : Parser α} {next : α → Parser β}
    (onFirst : Settled expected least tokens (first tokens))
    (onNext : ∀ value rest, first tokens = .ok (.accept value rest) → rest <:+ tokens →
      Settled expected more rest (next value rest)) :
    Settled expected (least + more) tokens ((first >>= next) tokens) := by
  generalize replied : first tokens = reply at onFirst
  cases onFirst with
  | error isExpected =>
      rw [bind_error replied]
      exact .error isExpected
  | accept isSuffix taken =>
      rw [bind_apply replied]
      exact (onNext _ _ replied isSuffix).after isSuffix taken
  | reject isSuffix =>
      rw [bind_reject replied]
      exact .reject isSuffix

/-- It is enough to count what the first parser takes. -/
theorem followed {first : Parser α} {next : α → Parser β}
    (onFirst : Settled expected least tokens (first tokens))
    (onNext : ∀ value rest, first tokens = .ok (.accept value rest) → rest <:+ tokens →
      Settled expected 0 rest (next value rest)) :
    Settled expected least tokens ((first >>= next) tokens) :=
  onFirst.bind onNext

theorem attempt (settled : Settled expected least tokens (parser tokens)) :
    Settled expected least tokens (parser.attempt tokens) := by
  rw [Parser.attempt]
  generalize parser tokens = reply at settled
  cases settled with
  | error isExpected => exact .error isExpected
  | accept isSuffix taken => exact .accept isSuffix taken
  | reject => exact .reject (List.suffix_refl _)

theorem orRaise_bind {error : Error} {next : α → Parser β}
    (settled : Settled expected least tokens (parser tokens))
    (rejected : ∀ rest, parser tokens = .ok (.reject rest) → expected error)
    (onNext : ∀ value rest, parser tokens = .ok (.accept value rest) → rest <:+ tokens →
      Settled expected 0 rest (next value rest)) :
    Settled expected least tokens ((parser.orRaise error >>= next) tokens) := by
  generalize replied : parser tokens = reply at settled rejected onNext
  cases settled with
  | error isExpected =>
      rw [bind_error (by rw [Parser.orRaise, replied])]
      exact .error isExpected
  | accept isSuffix taken =>
      rw [bind_apply (by rw [Parser.orRaise, replied])]
      exact (onNext _ _ rfl isSuffix).after isSuffix taken
  | reject =>
      rw [bind_error (by rw [Parser.orRaise, replied])]
      exact .error (rejected _ rfl)

end Settled

section Tokens

variable {test : Token → Bool} (atEnd : expected .endOfTokens)
include atEnd

theorem settled_satisfy_bind {next : Token → Parser β}
    (onNext : ∀ token rest, tokens = token :: rest → test token = true →
      Settled expected 0 rest (next token rest)) :
    Settled expected 1 tokens ((satisfy test >>= next) tokens) := by
  cases tokens with
  | nil => exact .error atEnd
  | cons token rest =>
      rw [satisfy_bind_cons]
      split
      · rename_i passes
        exact (onNext token rest rfl passes).after (List.suffix_cons _ _) (Nat.le_refl _)
      · exact .reject (List.suffix_refl _)

theorem settled_skip_bind {next : Parser β}
    (onNext : ∀ token rest, tokens = token :: rest → test token = true →
      Settled expected 0 rest (next rest)) :
    Settled expected 1 tokens ((skip test >>= fun _ => next) tokens) := by
  rw [skip_bind]
  exact settled_satisfy_bind atEnd onNext

theorem settled_demand_bind {error : Token → Error} {next : Parser β}
    (wrong : ∀ token rest, tokens = token :: rest → test token = false → expected (error token))
    (onNext : ∀ token rest, tokens = token :: rest → test token = true →
      Settled expected 0 rest (next rest)) :
    Settled expected 1 tokens ((demand test error >>= fun _ => next) tokens) := by
  cases tokens with
  | nil => exact .error atEnd
  | cons token rest =>
      rw [demand_bind_cons]
      split
      · rename_i passes
        exact (onNext token rest rfl passes).after (List.suffix_cons _ _) (Nat.le_refl _)
      · rename_i fails
        exact .error (wrong token rest rfl (Bool.not_eq_true _ ▸ fails))

end Tokens

/-- A parser replies on each end of some tokens with an expected error, or leaves an end of what
it was given. -/
def SettlesOn (expected : Error → Prop) (whole : List Token) (least : Nat) (parser : Parser α) :
    Prop :=
  ∀ tokens, tokens <:+ whole → Settled expected least tokens (parser tokens)

namespace SettlesOn

variable {parser : Parser α}

theorem weaken {fewer : Nat} (settles : SettlesOn expected whole least parser)
    (fewerLe : fewer ≤ least) : SettlesOn expected whole fewer parser :=
  fun tokens isSuffix => (settles tokens isSuffix).weaken fewerLe

/-- What settles on some tokens does so on those after the first one. -/
theorem tail (settles : SettlesOn expected whole least parser) :
    SettlesOn expected whole.tail least parser :=
  fun tokens isSuffix => settles tokens (isSuffix.trans (List.tail_suffix _))

theorem pure (value : α) : SettlesOn expected whole 0 (Pure.pure value) :=
  fun _ _ => .pure value

theorem bind {first : Parser α} {next : α → Parser β}
    (onFirst : SettlesOn expected whole least first)
    (onNext : ∀ value, SettlesOn expected whole more (next value)) :
    SettlesOn expected whole (least + more) (first >>= next) := by
  intro tokens isSuffix
  apply (onFirst tokens isSuffix).bind
  intro value rest _ isRest
  exact onNext value rest (isRest.trans isSuffix)

/-- It is enough to count what the first parser takes. -/
theorem followed {first : Parser α} {next : α → Parser β}
    (onFirst : SettlesOn expected whole least first)
    (onNext : ∀ value, SettlesOn expected whole more (next value)) :
    SettlesOn expected whole least (first >>= next) :=
  (onFirst.bind onNext).weaken (Nat.le_add_right _ _)

theorem attempt (settles : SettlesOn expected whole least parser) :
    SettlesOn expected whole least parser.attempt :=
  fun tokens isSuffix => (settles tokens isSuffix).attempt

theorem newlines : SettlesOn expected whole 0 Parser.newlines :=
  fun tokens _ => .accept (dropNewlines_suffix tokens) (length_dropNewlines_le tokens)

theorem offered (settles : SettlesOn expected whole least parser) :
    SettlesOn expected whole least (offered parser) := by
  intro tokens isSuffix
  cases tokens with
  | nil => exact .reject (List.suffix_refl _)
  | cons token rest => exact settles.attempt _ isSuffix

theorem firstOf {choices : List (Parser α)}
    (settles : ∀ choice ∈ choices, SettlesOn expected whole least choice) :
    SettlesOn expected whole least (firstOf choices) := by
  -- A choice starts where the one before it rejected, which is an end of the tokens at the start.
  have onGo : ∀ start tokens, start <:+ whole → tokens <:+ start →
      Settled expected least start (Parser.firstOf.go start choices tokens) := by
    induction choices with
    | nil => exact fun start _ _ _ => .reject (List.suffix_refl _)
    | cons choice choices ih =>
        have settlesBoth := List.forall_mem_cons.mp settles
        intro start tokens isStart isSuffix
        have settled := settlesBoth.1 tokens (isSuffix.trans isStart)
        rw [Parser.firstOf.go]
        generalize choice tokens = reply at settled
        cases settled with
        | error isExpected => exact .error isExpected
        | accept isRest taken =>
            have shorter := isSuffix.length_le
            exact .accept (isRest.trans isSuffix) (by omega)
        | reject isRest => exact ih settlesBoth.2 start _ isStart (isRest.trans isSuffix)
  exact fun tokens isSuffix => onGo tokens tokens isSuffix (List.suffix_refl _)

theorem afterNewlines (settles : SettlesOn expected whole least parser) :
    SettlesOn expected whole least (afterNewlines parser) := by
  intro tokens isSuffix
  have isLater := dropNewlines_suffix tokens
  rw [Grammar.afterNewlines]
  generalize dropNewlines tokens = later at isLater
  cases later with
  | nil => exact .reject isLater
  | cons token rest => exact (settles _ (isLater.trans isSuffix)).within isLater

/-- A repetition settles if its step does. -/
theorem repeats {step : σ → Parser σ} {ended stopped : σ → α} {replies : Nat → σ → Parser α}
    (unfolds : Repeats step ended stopped replies)
    (settles : ∀ state, SettlesOn expected whole least (step state)) (bound : Nat) (state : σ) :
    SettlesOn expected whole 0 (replies bound state) := by
  induction bound generalizing state with
  | zero =>
      intro tokens _
      rw [unfolds.spent]
      exact .accept (List.suffix_refl _) (Nat.le_refl _)
  | succ bound ih =>
      intro tokens isSuffix
      cases tokens with
      | nil =>
          rw [unfolds.atEnd]
          exact .accept (List.suffix_refl _) (Nat.le_refl _)
      | cons token rest =>
          have settled := settles state (token :: rest) isSuffix
          rw [unfolds.turn]
          generalize step state (token :: rest) = reply at settled
          cases settled with
          | error isExpected => exact .error isExpected
          | accept isLeft taken =>
              exact (ih _ _ (isLeft.trans isSuffix)).within isLeft
          | reject isLeft => exact .accept isLeft isLeft.length_le

theorem many (settles : SettlesOn expected whole least parser) :
    SettlesOn expected whole 0 (many parser) := by
  intro tokens isSuffix
  rw [many_eq]
  have step (read : List α) : SettlesOn expected whole least (nextValue parser read) :=
    settles.bind fun value => pure (read ++ [value])
  exact SettlesOn.repeats (repeats_manyUpTo parser) step tokens.length [] tokens isSuffix

end SettlesOn

section Repetitions

variable (atEnd : expected .endOfTokens)
include atEnd

theorem SettlesOn.satisfy (test : Token → Bool) :
    SettlesOn expected whole 1 (Parser.satisfy test) := by
  intro tokens _
  cases tokens with
  | nil => exact .error atEnd
  | cons token rest =>
      rw [Parser.satisfy]
      split
      · exact .accept (List.suffix_cons _ _) (Nat.le_refl _)
      · exact .reject (List.suffix_refl _)

theorem SettlesOn.skip (test : Token → Bool) : SettlesOn expected whole 1 (Parser.skip test) :=
  (SettlesOn.satisfy atEnd test).bind fun _ => .pure ()

theorem SettlesOn.nextPosition : SettlesOn expected whole 0 nextPosition := by
  intro tokens _
  cases tokens with
  | nil => exact .error atEnd
  | cons token rest => exact .accept (List.suffix_refl _) (Nat.le_refl _)

theorem SettlesOn.commaSeparated {item : Parser α} (settles : SettlesOn expected whole 1 item) :
    SettlesOn expected whole 0 (commaSeparated item) := by
  have step (read : List α) : SettlesOn expected whole 1 (nextItem item read) :=
    (SettlesOn.skip atEnd _).followed fun _ => SettlesOn.newlines.followed fun _ =>
      settles.offered.followed fun value => .pure (read ++ [value])
  intro tokens isSuffix
  have isFirst := dropNewlines_suffix tokens
  have settled := settles (dropNewlines tokens) (isFirst.trans isSuffix)
  rw [commaSeparated_eq]
  generalize item (dropNewlines tokens) = reply at settled
  cases settled with
  | error isExpected => exact .error isExpected
  | reject => exact .accept (List.suffix_refl _) (Nat.le_refl _)
  | @accept value rest isRest taken =>
      have later := isRest.trans isFirst
      exact (SettlesOn.repeats (repeats_moreItems item) step rest.length [value] rest
        (later.trans isSuffix)).within later

theorem SettlesOn.chainLeft {isOperator : Token → Bool} {operand : Parser α}
    {join : Token → α → α → α} (settles : SettlesOn expected whole 1 operand) :
    SettlesOn expected whole 1 (chainLeft isOperator operand join) := by
  have step (left : α) : SettlesOn expected whole 1 (nextOperand isOperator operand join left) :=
    ((SettlesOn.satisfy atEnd isOperator).followed fun operator =>
      settles.offered.followed fun right => .pure (join operator left right)).attempt
  apply SettlesOn.attempt
  apply settles.followed
  intro first tokens isSuffix
  exact SettlesOn.repeats (repeats_moreOperands isOperator operand join) step tokens.length first
    tokens isSuffix

theorem SettlesOn.applied {head : Parser α} {argument : Parser β} {apply : Position → α → β → α}
    (onHead : SettlesOn expected whole 1 head) (onArgument : SettlesOn expected whole 1 argument) :
    SettlesOn expected whole 1 (applied head argument apply) := by
  have step (state : α × Position × β) :
      SettlesOn expected whole 1 (nextArgument argument apply state) :=
    (SettlesOn.nextPosition atEnd).bind fun _ => onArgument.followed fun _ => .pure _
  apply SettlesOn.attempt
  apply onHead.followed
  intro head
  apply (SettlesOn.nextPosition atEnd).followed
  intro position
  apply onArgument.followed
  intro first tokens isSuffix
  exact SettlesOn.repeats (repeats_moreArguments argument apply) step tokens.length
    (head, position, first) tokens isSuffix

end Repetitions

end StackScript.Grammar
