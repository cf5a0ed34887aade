import StackScript.Proofs.Grammar.Places
import StackScript.Proofs.Recursion.Calls

/-!
# Loops and how often they run

The repetitions of the grammar stop at the latest when a bound has been reached.  Here they are
written as loops without a bound: a loop looks at its state and at the tokens that are left, and
it is left or runs its body once (`Turn`).  `Loop.Runs` counts how often the body is run until the
loop ends.

A loop whose body takes a token whenever it starts again runs its body at most as often as there
are tokens left, and it ends with the reply of the bounded repetition (`Loop.Follows.endsInTime`).
Every loop of the grammar is one of these (`loopsEnd_rules`), and so parsing ends on all tokens
(`parse_ends`).
-/

namespace StackScript.Grammar

open StackScript.Grammar.Parser
open StackScript.Surface (Expr Stmt Level)

variable {σ α β : Type}

/-- What a loop does in a state: it is left, or its body is run and ends it, or its body is run
and the loop starts again. -/
inductive Turn (σ α : Type) where
  | leave (reply : Except Error (Reply α))
  | stop (reply : Except Error (Reply α))
  | again (state : σ) (rest : List Token)

/-- A loop over the tokens that are left. -/
def Loop (σ α : Type) : Type :=
  σ → List Token → Turn σ α

namespace Loop

/-- The body of a loop is run a number of times, and the loop ends with a reply. -/
inductive Runs (loop : Loop σ α) : Nat → σ → List Token → Except Error (Reply α) → Prop where
  | leave {state : σ} {tokens : List Token} {reply : Except Error (Reply α)}
      (turn : loop state tokens = .leave reply) : Runs loop 0 state tokens reply
  | stop {state : σ} {tokens : List Token} {reply : Except Error (Reply α)}
      (turn : loop state tokens = .stop reply) : Runs loop 1 state tokens reply
  | again {state next : σ} {tokens rest : List Token} {count : Nat}
      {reply : Except Error (Reply α)} (turn : loop state tokens = .again next rest)
      (later : Runs loop count next rest reply) : Runs loop (count + 1) state tokens reply

/-- A loop ends in one way only. -/
theorem Runs.unique {loop : Loop σ α} {count count' : Nat} {state : σ} {tokens : List Token}
    {reply reply' : Except Error (Reply α)} (runs : loop.Runs count state tokens reply)
    (runs' : loop.Runs count' state tokens reply') : count' = count ∧ reply' = reply := by
  induction runs generalizing count' with
  | leave turn =>
      cases runs' with
      | leave turn' =>
          cases turn.symm.trans turn'
          exact ⟨rfl, rfl⟩
      | stop turn' => cases turn.symm.trans turn'
      | again turn' _ => cases turn.symm.trans turn'
  | stop turn =>
      cases runs' with
      | leave turn' => cases turn.symm.trans turn'
      | stop turn' =>
          cases turn.symm.trans turn'
          exact ⟨rfl, rfl⟩
      | again turn' _ => cases turn.symm.trans turn'
  | again turn _ ih =>
      cases runs' with
      | leave turn' => cases turn.symm.trans turn'
      | stop turn' => cases turn.symm.trans turn'
      | again turn' later' =>
          cases turn.symm.trans turn'
          obtain ⟨rfl, rfl⟩ := ih later'
          exact ⟨rfl, rfl⟩

/-- From every state, the only run of a loop takes at most as many runs of its body as there are
tokens left, and it ends with the given reply. -/
def EndsInTime (loop : Loop σ α) (replies : σ → Parser α) (tokens : List Token) : Prop :=
  ∀ state, ∃ count ≤ tokens.length, ∀ other reply,
    loop.Runs other state tokens reply ↔ other = count ∧ reply = replies state tokens

end Loop

/-- A turn gives a reply at once, or with the next state and no more than so many tokens. -/
def Turn.Gives (room : Nat) (later : σ → Parser α) (reply : Except Error (Reply α)) :
    Turn σ α → Prop
  | .leave given => reply = given
  | .stop given => reply = given
  | .again next rest => rest.length ≤ room ∧ reply = later next rest

namespace Loop

/-- A bounded repetition does what a loop does, and the loop takes a token before it starts
again. -/
structure Follows (loop : Loop σ α) (replies : Nat → σ → Parser α) : Prop where
  atEnd : ∀ bound state, loop state [] = .leave (replies bound state [])
  turn : ∀ bound state token rest,
    (loop state (token :: rest)).Gives rest.length (replies bound)
      (replies (bound + 1) state (token :: rest))

theorem Follows.exists_runs {loop : Loop σ α} {replies : Nat → σ → Parser α}
    (follows : loop.Follows replies) (bound : Nat) (state : σ) (tokens : List Token)
    (enough : tokens.length ≤ bound) :
    ∃ count ≤ tokens.length, loop.Runs count state tokens (replies bound state tokens) := by
  -- Each turn takes a token, so the tokens last no longer than the bound.
  induction bound generalizing state tokens with
  | zero =>
      cases List.eq_nil_of_length_eq_zero (Nat.le_zero.mp enough)
      exact ⟨0, Nat.le_refl _, .leave (follows.atEnd 0 state)⟩
  | succ bound ih =>
      cases tokens with
      | nil => exact ⟨0, Nat.le_refl _, .leave (follows.atEnd (bound + 1) state)⟩
      | cons token rest =>
          have gives := follows.turn bound state token rest
          generalize turn : loop state (token :: rest) = done at gives
          cases done with
          | leave given =>
              rw [Turn.Gives] at gives
              exact ⟨0, Nat.zero_le _, gives ▸ .leave turn⟩
          | stop given =>
              rw [Turn.Gives] at gives
              exact ⟨1, Nat.succ_le_succ (Nat.zero_le _), gives ▸ .stop turn⟩
          | again next left =>
              obtain ⟨shorter, given⟩ := gives
              obtain ⟨count, few, runs⟩ :=
                ih next left (Nat.le_trans shorter (Nat.le_of_succ_le_succ enough))
              rw [given]
              exact ⟨count + 1, Nat.succ_le_succ (Nat.le_trans few shorter), .again turn runs⟩

theorem Follows.endsInTime {loop : Loop σ α} {replies : Nat → σ → Parser α}
    (follows : loop.Follows replies) (tokens : List Token) :
    loop.EndsInTime (fun state tokens => replies tokens.length state tokens) tokens := by
  intro state
  obtain ⟨count, few, runs⟩ := follows.exists_runs tokens.length state tokens (Nat.le_refl _)
  refine ⟨count, few, fun other reply => ⟨runs.unique, ?_⟩⟩
  rintro ⟨rfl, rfl⟩
  exact runs

/-- A loop follows a bounded repetition, if each of its turns is a step of the repetition. -/
theorem Follows.of_repeats {loop : Loop σ α} {step : σ → Parser σ} {ended stopped : σ → α}
    {replies : Nat → σ → Parser α} (repeats : Repeats step ended stopped replies)
    (atEnd : ∀ state, loop state [] = .leave (.ok (.accept (ended state) [])))
    (turn : ∀ state token rest later,
      (loop state (token :: rest)).Gives rest.length later
        (afterStep (stopped state) later (step state (token :: rest)))) :
    loop.Follows replies where
  atEnd bound state := by rw [repeats.atEnd, atEnd]
  turn bound state token rest := by
    rw [repeats.turn]
    exact turn state token rest (replies bound)

end Loop

/-- Skips a newline at each turn. -/
def newlineLoop : Loop Unit Unit
  | _, [] => .leave (.ok (.accept () []))
  | _, token :: rest =>
      if token.kind = .newline then .again () rest
      else .leave (.ok (.accept () (token :: rest)))

theorem newlineLoop_follows : newlineLoop.Follows fun _ _ => newlines where
  atEnd _ _ := rfl
  turn bound state token rest := by
    unfold newlineLoop newlines
    by_cases isNewline : token.kind = .newline
    · simp [Turn.Gives, isNewline]
    · simp [Turn.Gives, isNewline]

/-- Reads a value at each turn, for as long as there is one. -/
def manyLoop (parser : Parser α) : Loop (List α) (List α)
  | read, [] => .leave (.ok (.accept read []))
  | read, token :: rest =>
      match parser (token :: rest) with
      | .error error => .stop (.error error)
      | .ok (.reject left) => .stop (.ok (.accept read left))
      | .ok (.accept value left) => .again (read ++ [value]) left

/-- Reads a comma and an item after it at each turn. -/
def itemLoop (item : Parser α) : Loop (List α) (List α)
  | read, [] => .leave (.ok (.accept read []))
  | read, token :: rest =>
      if token.kind = .comma then
        match dropNewlines rest with
        | [] => .stop (.ok (.accept read []))
        | next :: others =>
            match item (next :: others) with
            | .error error => .stop (.error error)
            | .ok (.reject _) => .stop (.ok (.accept read (next :: others)))
            | .ok (.accept value left) => .again (read ++ [value]) left
      else .leave (.ok (.accept read (token :: rest)))

theorem manyLoop_follows {parser : Parser α} (takes : TakesAtLeast 1 parser) :
    (manyLoop parser).Follows fun bound read tokens =>
      withItems read (manyUpTo parser bound tokens) := by
  refine .of_repeats (repeats_manyUpTo parser) (fun _ => rfl) fun read token rest later => ?_
  rw [manyLoop, nextValue]
  cases replied : parser (token :: rest) with
  | error error =>
      rw [bind_error replied]
      rfl
  | ok reply =>
      cases reply with
      | reject left =>
          rw [bind_reject replied]
          rfl
      | accept value left =>
          rw [bind_apply replied]
          exact ⟨Nat.le_of_succ_le_succ (takes _ _ _ replied), rfl⟩

theorem itemLoop_follows {item : Parser α} (takes : TakesAtLeast 0 item) :
    (itemLoop item).Follows fun bound read tokens =>
      withItems read (moreItems item bound tokens) := by
  refine .of_repeats (repeats_moreItems item) (fun _ => rfl) fun read token rest later => ?_
  rw [itemLoop]
  by_cases isComma : token.kind = .comma
  case neg =>
      rw [if_neg isComma, nextItem_other isComma]
      rfl
  have shorter := length_dropNewlines_le rest
  rw [if_pos isComma, nextItem_comma isComma]
  cases isLater : dropNewlines rest with
  | nil => rfl
  | cons next others =>
      rw [isLater] at shorter
      simp only
      cases replied : item (next :: others) with
      | error error =>
          rw [bind_error (offered_error replied)]
          rfl
      | ok reply =>
          cases reply with
          | reject left =>
              rw [bind_reject (offered_reject replied)]
              rfl
          | accept value left =>
              rw [bind_apply (offered_accept replied)]
              exact ⟨Nat.le_trans (takes _ _ _ replied) shorter, rfl⟩

/-- Reads an operator and an operand after it at each turn. -/
def operandLoop (isOperator : Token → Bool) (operand : Parser α) (join : Token → α → α → α) :
    Loop α α
  | left, [] => .leave (.ok (.accept left []))
  | left, [operator] =>
      if isOperator operator then .stop (.ok (.accept left [operator]))
      else .leave (.ok (.accept left [operator]))
  | left, operator :: next :: others =>
      if isOperator operator then
        match operand (next :: others) with
        | .error error => .stop (.error error)
        | .ok (.reject _) => .stop (.ok (.accept left (operator :: next :: others)))
        | .ok (.accept right rest) => .again (join operator left right) rest
      else .leave (.ok (.accept left (operator :: next :: others)))

/-- Applies a head to an argument that has been read, and reads the next one, at each turn. -/
def argumentLoop (argument : Parser β) (apply : Position → α → β → α) : Loop (α × Position × β) α
  | (head, _, _), [] => .leave (.ok (.accept head []))
  | (head, position, given), token :: rest =>
      match argument (token :: rest) with
      | .error error => .stop (.error error)
      | .ok (.reject left) => .stop (.ok (.accept (apply position head given) left))
      | .ok (.accept next left) => .again (apply position head given, token.position, next) left

theorem operandLoop_follows {isOperator : Token → Bool} {operand : Parser α}
    {join : Token → α → α → α} (takes : TakesAtLeast 0 operand) :
    (operandLoop isOperator operand join).Follows fun bound left tokens =>
      moreOperands isOperator operand join bound left tokens := by
  refine .of_repeats (repeats_moreOperands isOperator operand join) (fun _ => rfl)
    fun left operator rest later => ?_
  cases rest with
  | nil =>
      rw [operandLoop, nextOperand_single]
      by_cases isOne : isOperator operator = true
      · rw [if_pos isOne]
        rfl
      · rw [if_neg isOne]
        rfl
  | cons next others =>
      rw [operandLoop]
      cases isOne : isOperator operator with
      | false =>
          rw [nextOperand_other isOne]
          rfl
      | true =>
          rw [if_pos rfl]
          cases replied : operand (next :: others) with
          | error error =>
              rw [nextOperand_error isOne (offered_error replied)]
              rfl
          | ok reply =>
              cases reply with
              | reject after =>
                  rw [nextOperand_reject isOne (offered_reject replied)]
                  rfl
              | accept right after =>
                  rw [nextOperand_accept isOne (offered_accept replied)]
                  exact ⟨takes _ _ _ replied, rfl⟩

theorem argumentLoop_follows {argument : Parser β} {apply : Position → α → β → α}
    (takes : TakesAtLeast 1 argument) :
    (argumentLoop argument apply).Follows fun bound state tokens =>
      moreArguments argument apply bound state.1 state.2.1 state.2.2 tokens := by
  refine .of_repeats (repeats_moreArguments argument apply) (fun _ => rfl)
    fun state token rest later => ?_
  rw [argumentLoop, nextArgument, bind_apply (show nextPosition (token :: rest) = _ from rfl)]
  cases replied : argument (token :: rest) with
  | error error =>
      rw [bind_error replied]
      rfl
  | ok reply =>
      cases reply with
      | reject left =>
          rw [bind_reject replied]
          rfl
      | accept next left =>
          rw [bind_apply replied]
          exact ⟨Nat.le_of_succ_le_succ (takes _ _ _ replied), rfl⟩

/-! ## The loops of the grammar -/

section Grammar

/-- An operator with its operands. -/
def joined (level : Level) (operator : Token) (left right : Expr) : Expr :=
  .binary operator.position level operator.text left right

/-- All loops in which the rules of a family call each other end in time, with the reply of the
bounded repetition. -/
structure LoopsEnd (calls : Family) (tokens : List Token) : Prop where
  newlines : newlineLoop.EndsInTime (fun _ => Parser.newlines) tokens
  statements : (manyLoop (calls .statement)).EndsInTime
    (fun read tokens => withItems read (many (calls .statement) tokens)) tokens
  parameters : (itemLoop name).EndsInTime
    (fun read tokens => withItems read (moreItems name tokens.length tokens)) tokens
  expressions : (itemLoop (calls .expression)).EndsInTime
    (fun read tokens => withItems read (moreItems (calls .expression) tokens.length tokens)) tokens
  fields : (itemLoop (calls .field)).EndsInTime
    (fun read tokens => withItems read (moreItems (calls .field) tokens.length tokens)) tokens
  operands : ∀ level, (operandLoop (isOperatorOf level) (calls.operand level)
    (joined level)).EndsInTime
      (fun left tokens => moreOperands (isOperatorOf level) (calls.operand level) (joined level)
        tokens.length left tokens) tokens
  indices : (argumentLoop (bracketed (calls .expression)) Expr.item).EndsInTime
    (fun state tokens => moreArguments (bracketed (calls .expression)) Expr.item tokens.length
      state.1 state.2.1 state.2.2 tokens) tokens
  arguments : (argumentLoop (parenthesized (Grammar.expressions calls.inner))
    Expr.call).EndsInTime
      (fun state tokens => moreArguments (parenthesized (Grammar.expressions calls.inner))
        Expr.call tokens.length state.1 state.2.1 state.2.2 tokens) tokens

theorem takesAtLeast_operand (level : Level) : TakesAtLeast 1 (rules.operand level) := by
  cases level with
  | access => exact takesAtLeast_rules .term
  | multiplication => exact takesAtLeast_rules .signed
  | addition => exact takesAtLeast_rules (.chain .multiplication)
  | comparison => exact takesAtLeast_rules (.chain .addition)
  | conjunction => exact takesAtLeast_rules (.chain .comparison)
  | disjunction => exact takesAtLeast_rules (.chain .conjunction)

theorem takesAtLeast_name : TakesAtLeast 1 name := by
  intro tokens value rest accepted
  cases tokens with
  | nil => cases accepted
  | cons token others =>
      rw [name, satisfy_bind_cons] at accepted
      split at accepted
      · cases accepted
        exact Nat.le_refl _
      · cases accepted

theorem takesAtLeast_index : TakesAtLeast 1 (bracketed (rules .expression)) := by
  apply takesAtLeast_of_agrees
  intro whole
  exact (agrees_bracketed (lawful_definite whole)
    (agrees_rules whole .expression 0)).mono (Nat.le_succ _)

theorem takesAtLeast_arguments : TakesAtLeast 1 (parenthesized (expressions rules.inner)) := by
  apply takesAtLeast_of_agrees
  intro whole
  have agrees := (agrees_rules whole .expression (0 + 1)).commaSeparated (lawful_definite whole)
  rw [List.forall₂_eq_eq_eq] at agrees
  exact (agrees_parenthesized (lawful_definite whole) agrees).mono (Nat.le_succ _)

theorem loopsEnd_rules (tokens : List Token) : LoopsEnd rules tokens where
  newlines := newlineLoop_follows.endsInTime tokens
  statements := (manyLoop_follows (takesAtLeast_rules .statement)).endsInTime tokens
  parameters := (itemLoop_follows (takesAtLeast_name.weaken (Nat.zero_le _))).endsInTime tokens
  expressions :=
    (itemLoop_follows ((takesAtLeast_rules .expression).weaken (Nat.zero_le _))).endsInTime tokens
  fields :=
    (itemLoop_follows ((takesAtLeast_rules .field).weaken (Nat.zero_le _))).endsInTime tokens
  operands level :=
    (operandLoop_follows ((takesAtLeast_operand level).weaken (Nat.zero_le _))).endsInTime tokens
  indices := (argumentLoop_follows takesAtLeast_index).endsInTime tokens
  arguments := (argumentLoop_follows takesAtLeast_arguments).endsInTime tokens

end Grammar

end StackScript.Grammar

namespace StackScript

open StackScript.Grammar

/-- A script is read, or an error tells something about its tokens. -/
theorem parse_ok_or_definite (tokens : List Token) :
    (∃ script, parse tokens = .ok script) ∨
      ∃ error, parse tokens = .error error ∧ Definite error := by
  rw [parse_eq_finish_rules]
  have settled := settled_rules .program tokens
  unfold Parser.finish
  generalize rules .program tokens = reply at settled ⊢
  cases settled with
  | error definite => exact .inr ⟨_, rfl, definite⟩
  | @accept script rest _ _ =>
      cases rest with
      | nil => exact .inl ⟨script, rfl⟩
      | cons token _ => exact .inr ⟨.leftover token, rfl, by simp [Definite]⟩
  | @reject rest _ =>
      cases rest with
      | nil => exact .inr ⟨.incomplete, rfl, by simp [Definite]⟩
      | cons token _ => exact .inr ⟨.leftover token, rfl, by simp [Definite]⟩

/-- Parsing ends on all tokens.  A rule calls others only at a later token or, at the same token,
if their rank is lower: its reply is settled by these calls alone, whatever is replied in others,
and such calls form no endless chain.  Every loop runs its body at most as often as there are
tokens left.  So the depth of nesting is never exhausted, and a script is read or refused. -/
theorem parse_ends (tokens : List Token) :
    WellFounded Below ∧
      (∀ (rule : Rule) (calls : Family),
        (∀ other rest, Below (other, rest) (rule, tokens) →
          calls other rest = rules other rest) →
            calls.unfold rule tokens = rules rule tokens) ∧
      (∀ rule error, rules rule tokens = .error error → error ≠ .tooDeep) ∧
      LoopsEnd rules tokens ∧
      parse tokens = (rules .program).finish tokens ∧
      ((∃ script, parse tokens = .ok script) ∨
        ∃ error, parse tokens = .error error ∧ error ≠ .tooDeep) := by
  refine ⟨wellFounded_below, fun rule calls same => unfold_eq_of_below same, ?_,
    loopsEnd_rules tokens, parse_eq_finish_rules tokens, parse_ok_or_definite tokens⟩
  intro rule error failed
  have settled := settled_rules rule tokens
  rw [failed] at settled
  cases settled with
  | error definite => exact definite

end StackScript
