import StackScript.Grammar.Parser

/-!
# Repetition step by step

The grammar repeats parsers in four ways: it reads values, the items of a comma list, the
operands of a chain and the arguments of a head.  Each repetition is a run of steps, and a step
is a parser like any other: it takes what has been read so far and adds to it.  The repetition
ends where its step rejects or where the tokens have ended (`Repeats`).

This is the only place where the four repetitions are unfolded.  Whatever holds of the parsers
that a step is made of, and of the repetition of any step, holds of all of them.
-/

namespace StackScript.Grammar

open StackScript.Grammar.Parser

variable {σ α β : Type}

/-- The tokens without the newlines in front. -/
def dropNewlines (tokens : List Token) : List Token :=
  tokens.dropWhile fun token => token.kind = .newline

theorem dropNewlines_suffix (tokens : List Token) : dropNewlines tokens <:+ tokens :=
  List.dropWhile_suffix _

theorem length_dropNewlines_le (tokens : List Token) :
    (dropNewlines tokens).length ≤ tokens.length :=
  (dropNewlines_suffix tokens).length_le

section Sequences

variable {first : Parser α} {next : α → Parser β} {tokens rest : List Token} {test : Token → Bool}

theorem bind_error {error : Error} (raised : first tokens = .error error) :
    (first >>= next) tokens = .error error := by
  change Parser.bind first next tokens = _
  rw [Parser.bind, raised]

theorem bind_reject (rejected : first tokens = .ok (.reject rest)) :
    (first >>= next) tokens = .ok (.reject rest) := by
  change Parser.bind first next tokens = _
  rw [Parser.bind, rejected]

theorem bind_apply {value : α} (accepted : first tokens = .ok (.accept value rest)) :
    (first >>= next) tokens = next value rest := by
  change Parser.bind first next tokens = _
  rw [Parser.bind, accepted]

theorem satisfy_bind_cons (next : Token → Parser β) (token : Token) (rest : List Token) :
    (Parser.satisfy test >>= next) (token :: rest) =
      if test token then next token rest else .ok (.reject (token :: rest)) := by
  change Parser.bind (Parser.satisfy test) next _ = _
  rw [Parser.bind, Parser.satisfy]
  by_cases passes : test token = true <;> simp [passes]

theorem skip_bind (next : Parser β) :
    (Parser.skip test >>= fun _ => next) = Parser.satisfy test >>= fun _ => next := by
  funext tokens
  change Parser.bind (Parser.bind (Parser.satisfy test) fun _ => Parser.pure ()) _ _ =
    Parser.bind (Parser.satisfy test) _ _
  unfold Parser.bind
  rcases Parser.satisfy test tokens with error | reply | reply <;> rfl

theorem demand_bind_cons (next : Parser β) (error : Token → Error) (token : Token)
    (rest : List Token) :
    (Parser.demand test error >>= fun _ => next) (token :: rest) =
      if test token then next rest else .error (error token) := by
  change Parser.bind (Parser.demand test error) _ _ = _
  rw [Parser.bind, Parser.demand]
  by_cases passes : test token = true <;> simp [passes]

theorem newlines_bind (next : Parser β) (tokens : List Token) :
    (Parser.newlines >>= fun _ => next) tokens = next (dropNewlines tokens) :=
  rfl

end Sequences

/-- What a repetition replies after its step: it goes on in the next state, or it stops. -/
def afterStep (stopped : α) (later : σ → Parser α) :
    Except Error (Reply σ) → Except Error (Reply α)
  | .error error => .error error
  | .ok (.reject left) => .ok (.accept stopped left)
  | .ok (.accept next left) => later next left

/-- The replies of a repetition, within a bound and from a state on, are those of its steps.
Where the tokens have ended, no step is run. -/
structure Repeats (step : σ → Parser σ) (ended stopped : σ → α) (replies : Nat → σ → Parser α) :
    Prop where
  spent : ∀ state tokens, replies 0 state tokens = .ok (.accept (ended state) tokens)
  atEnd : ∀ bound state, replies bound state [] = .ok (.accept (ended state) [])
  turn : ∀ bound state token rest, replies (bound + 1) state (token :: rest) =
    afterStep (stopped state) (replies bound) (step state (token :: rest))

theorem Repeats.accepted {step : σ → Parser σ} {ended stopped : σ → α}
    {replies : Nat → σ → Parser α} (repeats : Repeats step ended stopped replies) {state next : σ}
    {token : Token} {rest left : List Token}
    (accepted : step state (token :: rest) = .ok (.accept next left)) (bound : Nat) :
    replies (bound + 1) state (token :: rest) = replies bound next left := by
  rw [repeats.turn, accepted]
  rfl

theorem Repeats.rejected {step : σ → Parser σ} {ended stopped : σ → α}
    {replies : Nat → σ → Parser α} (repeats : Repeats step ended stopped replies) {state : σ}
    {token : Token} {rest left : List Token}
    (rejected : step state (token :: rest) = .ok (.reject left)) {bound : Nat}
    (positive : 0 < bound) :
    replies bound state (token :: rest) = .ok (.accept (stopped state) left) := by
  obtain ⟨bound, rfl⟩ := Nat.exists_eq_succ_of_ne_zero (Nat.ne_of_gt positive)
  rw [repeats.turn, rejected]
  rfl

/-- A parser that is asked only while tokens are left, and that rejects where it started. -/
def offered (parser : Parser α) : Parser α
  | [] => .ok (.reject [])
  | token :: rest => parser.attempt (token :: rest)

section Offered

variable {parser : Parser α} {token : Token} {rest left : List Token}

theorem offered_error {error : Error} (raised : parser (token :: rest) = .error error) :
    offered parser (token :: rest) = .error error := by
  rw [offered, attempt, raised]

theorem offered_reject (rejected : parser (token :: rest) = .ok (.reject left)) :
    offered parser (token :: rest) = .ok (.reject (token :: rest)) := by
  rw [offered, attempt, rejected]

theorem offered_accept {value : α} (accepted : parser (token :: rest) = .ok (.accept value left)) :
    offered parser (token :: rest) = .ok (.accept value left) := by
  rw [offered, attempt, accepted]

end Offered

def nextValue (parser : Parser α) (read : List α) : Parser (List α) := do
  let value ← parser
  return read ++ [value]

def nextItem (item : Parser α) (read : List α) : Parser (List α) := do
  skip fun token => token.kind = .comma
  newlines
  let value ← offered item
  return read ++ [value]

theorem nextItem_comma {item : Parser α} {read : List α} {token : Token} {rest : List Token}
    (isComma : token.kind = .comma) :
    nextItem item read (token :: rest) =
      (offered item >>= fun value => Pure.pure (read ++ [value])) (dropNewlines rest) := by
  rw [nextItem, skip_bind, satisfy_bind_cons, if_pos (decide_eq_true isComma), newlines_bind]

theorem nextItem_other {item : Parser α} {read : List α} {token : Token} {rest : List Token}
    (isOther : token.kind ≠ .comma) :
    nextItem item read (token :: rest) = .ok (.reject (token :: rest)) := by
  rw [nextItem, skip_bind, satisfy_bind_cons, if_neg (by simpa using isOther)]

/-- Joins an operand after an operator to what is on its left. -/
def nextOperand (isOperator : Token → Bool) (operand : Parser α) (join : Token → α → α → α)
    (left : α) : Parser α := attempt do
  let operator ← satisfy isOperator
  let right ← offered operand
  return join operator left right

section Operand

variable {isOperator : Token → Bool} {operand : Parser α} {join : Token → α → α → α} {left : α}
variable {operator : Token} {rest : List Token}

theorem nextOperand_other (isOther : isOperator operator = false) :
    nextOperand isOperator operand join left (operator :: rest) =
      .ok (.reject (operator :: rest)) := by
  rw [nextOperand, attempt, satisfy_bind_cons, isOther]
  rfl

theorem nextOperand_error {error : Error} (isOne : isOperator operator = true)
    (raised : offered operand rest = .error error) :
    nextOperand isOperator operand join left (operator :: rest) = .error error := by
  rw [nextOperand, attempt, satisfy_bind_cons, if_pos isOne, bind_error raised]

theorem nextOperand_reject {after : List Token} (isOne : isOperator operator = true)
    (rejected : offered operand rest = .ok (.reject after)) :
    nextOperand isOperator operand join left (operator :: rest) =
      .ok (.reject (operator :: rest)) := by
  rw [nextOperand, attempt, satisfy_bind_cons, if_pos isOne, bind_reject rejected]

theorem nextOperand_accept {right : α} {after : List Token} (isOne : isOperator operator = true)
    (accepted : offered operand rest = .ok (.accept right after)) :
    nextOperand isOperator operand join left (operator :: rest) =
      .ok (.accept (join operator left right) after) := by
  rw [nextOperand, attempt, satisfy_bind_cons, if_pos isOne, bind_apply accepted]
  rfl

/-- An operator without an operand is left. -/
theorem nextOperand_single :
    nextOperand isOperator operand join left [operator] = .ok (.reject [operator]) := by
  cases isOne : isOperator operator with
  | false => exact nextOperand_other isOne
  | true => exact nextOperand_reject isOne rfl

end Operand

/-- Applies a head to the argument that has been read last, and reads the next one. -/
def nextArgument (argument : Parser β) (apply : Position → α → β → α)
    (state : α × Position × β) : Parser (α × Position × β) := do
  let position ← nextPosition
  let next ← argument
  return (apply state.2.1 state.1 state.2.2, position, next)

/-! ## Repetitions -/

/-- A reply with the values in front that have been read before. -/
def withItems (read : List α) : Except Error (Reply (List α)) → Except Error (Reply (List α))
  | .ok (.accept values rest) => .ok (.accept (read ++ values) rest)
  | reply => reply

theorem withItems_nil (reply : Except Error (Reply (List α))) : withItems [] reply = reply := by
  rcases reply with error | ⟨values, rest⟩ | rest <;> rfl

theorem withItems_append (first second : List α) (reply : Except Error (Reply (List α))) :
    withItems first (withItems second reply) = withItems (first ++ second) reply := by
  rcases reply with error | ⟨values, rest⟩ | rest
  · rfl
  · simp only [withItems, List.append_assoc]
  · rfl

theorem withItems_eq_accept {read values : List α} {rest : List Token}
    {reply : Except Error (Reply (List α))}
    (accepted : withItems read reply = .ok (.accept values rest)) :
    ∃ later, reply = .ok (.accept later rest) ∧ values = read ++ later := by
  rcases reply with error | ⟨later, left⟩ | left <;> cases accepted
  exact ⟨later, rfl, rfl⟩

/-- One value more in front of those that are read later. -/
theorem withItems_cons (read : List α) (value : α) (reply : Except Error (Reply (List α))) :
    withItems read
        (match reply with
        | .ok (.accept values rest) => .ok (.accept (value :: values) rest)
        | reply => reply) =
      withItems (read ++ [value]) reply := by
  rcases reply with error | ⟨values, rest⟩ | rest
  · rfl
  · simp only [withItems, List.append_assoc, List.singleton_append]
  · rfl

theorem repeats_manyUpTo (parser : Parser α) :
    Repeats (nextValue parser) (fun read => read) (fun read => read) fun bound read tokens =>
      withItems read (manyUpTo parser bound tokens) where
  spent read tokens := by
    rw [manyUpTo, withItems, List.append_nil]
  atEnd bound read := by
    cases bound <;> simp only [manyUpTo, withItems, List.append_nil]
  turn bound read token rest := by
    rw [manyUpTo]
    cases replied : parser (token :: rest) with
    | error error => rw [nextValue, bind_error replied]; rfl
    | ok reply =>
        cases reply with
        | reject left =>
            rw [nextValue, bind_reject replied]
            simp only [withItems, afterStep, List.append_nil]
        | accept value left =>
            rw [nextValue, bind_apply replied]
            exact withItems_cons read value _

theorem repeats_moreItems (item : Parser α) :
    Repeats (nextItem item) (fun read => read) (fun read => read) fun bound read tokens =>
      withItems read (moreItems item bound tokens) where
  spent read tokens := by
    rw [moreItems, withItems, List.append_nil]
  atEnd bound read := by
    cases bound <;> simp only [moreItems, withItems, List.append_nil]
  turn bound read token rest := by
    rw [moreItems, ← dropNewlines]
    by_cases isComma : token.kind = .comma
    · rw [if_pos isComma, nextItem_comma isComma]
      cases dropNewlines rest with
      | nil => simp only [withItems, List.append_nil]; rfl
      | cons next others =>
          simp only
          cases replied : item (next :: others) with
          | error error =>
              rw [bind_error (offered_error replied)]
              rfl
          | ok reply =>
              cases reply with
              | reject left =>
                  rw [bind_reject (offered_reject replied)]
                  simp only [withItems, afterStep, List.append_nil]
              | accept value left =>
                  rw [bind_apply (offered_accept replied)]
                  exact withItems_cons read value _
    · rw [if_neg isComma, nextItem_other isComma, withItems, List.append_nil]
      rfl

theorem repeats_moreOperands (isOperator : Token → Bool) (operand : Parser α)
    (join : Token → α → α → α) :
    Repeats (nextOperand isOperator operand join) (fun left => left) (fun left => left)
      (moreOperands isOperator operand join) where
  spent left tokens := by rw [moreOperands]
  atEnd bound left := by cases bound <;> rfl
  turn bound left operator rest := by
    cases rest with
    | nil =>
        rw [nextOperand_single]
        rfl
    | cons next others =>
        rw [moreOperands]
        cases isOne : isOperator operator with
        | false =>
            rw [nextOperand_other isOne]
            rfl
        | true =>
            rw [if_pos rfl]
            cases replied : operand (next :: others) with
            | error error =>
                rw [nextOperand_error isOne (offered_error replied)]
                rfl
            | ok reply =>
                cases reply with
                | reject after =>
                    rw [nextOperand_reject isOne (offered_reject replied)]
                    rfl
                | accept right after =>
                    rw [nextOperand_accept isOne (offered_accept replied)]
                    rfl

theorem repeats_moreArguments (argument : Parser β) (apply : Position → α → β → α) :
    Repeats (nextArgument argument apply) Prod.fst
      (fun state => apply state.2.1 state.1 state.2.2) fun bound state =>
        moreArguments argument apply bound state.1 state.2.1 state.2.2 where
  spent state tokens := by rw [moreArguments]
  atEnd bound state := by cases bound <;> rfl
  turn bound state token rest := by
    rw [moreArguments, nextArgument, bind_apply (show nextPosition (token :: rest) = _ from rfl)]
    cases replied : argument (token :: rest) with
    | error error =>
        rw [bind_error replied]
        rfl
    | ok reply =>
        cases reply with
        | reject left =>
            rw [bind_reject replied]
            rfl
        | accept next left =>
            rw [bind_apply replied]
            rfl

/-- The first item of a comma list and those that follow it. -/
theorem commaSeparated_eq (item : Parser α) (tokens : List Token) :
    commaSeparated item tokens =
      match item (dropNewlines tokens) with
      | .error error => .error error
      | .ok (.reject _) => .ok (.accept [] tokens)
      | .ok (.accept value rest) => withItems [value] (moreItems item rest.length rest) :=
  rfl

theorem many_eq (parser : Parser α) (tokens : List Token) :
    many parser tokens = withItems [] (manyUpTo parser tokens.length tokens) := by
  rw [withItems_nil]
  rfl

end StackScript.Grammar
